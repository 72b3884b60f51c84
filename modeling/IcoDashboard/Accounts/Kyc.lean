import IcoDashboard.Accounts.Clients

namespace IcoDashboard.Accounts

open IcoDashboard.Async IcoDashboard.Async.Program IcoDashboard.Data

/-! # KYC providers -/

variable (app : App)

/-- A string read into a text. -/
def jsText : Option String → String
  | some text => text
  | none => "undefined"

namespace ShuftiproProvider

def signature (data : String) : String := app.sha256 (data ++ app.config.shuftiproSecretKey)

/-- The sum `statusCode + message + reference`, where two undefined values add up
to NaN. -/
def signedText (statusCode message reference : Option String) : String :=
  match statusCode, message with
  | none, none => "NaN" ++ reference.getD ""
  | _, _ => jsText statusCode ++ jsText message ++ jsText reference

def invalidSignature : Exception :=
  { constructor := .kycShuftiProInvalidSignature, message := "Invalid signature" }

/-- The signature is over the values in the order of their sorted names. -/
def preparePostData (user : Investor) (reference : String) : ShuftiproInitData :=
  let verificationServices := Json.stringify
    [("first_name", user.firstName), ("last_name", user.lastName), ("dob", user.dob),
      ("background_check", "0")]
  let rawData := app.config.shuftiproCallbackUrl ++ app.config.shuftiproClientId ++ user.country ++
    user.email ++ "en" ++ jsText user.phone ++ app.config.shuftiproRedirectUrl ++ reference ++
    verificationServices
  { clientId := app.config.shuftiproClientId
    reference
    email := user.email
    phoneNumber := user.phone
    country := user.country
    callbackUrl := app.config.shuftiproCallbackUrl
    redirectUrl := app.config.shuftiproRedirectUrl
    verificationServices
    signature := signature app rawData }

def localInitKycProcess (user : ObjectID) (reference timestamp : String) : Handler Unit := do
  let _ ← request (.insertKycResult
    { message := some "Local init", reference := some reference, timestamp := some timestamp
      user := some user })

def saveKycInitResult (user : ObjectID) (kycInitResponse : ShuftiproInitResult)
    (timestamp : String) : Handler Unit := do
  let kycInitResult := ShuftiproKycResult.createShuftiproKycResult
    { kycInitResponse with timestamp := some timestamp }
  let _ ← request (.insertKycResult { kycInitResult with user := some user })

def init (investor : Doc ObjectID Investor) (draws : Draws) : Handler ShuftiproInitResult :=
  if app.config.kycEnabled = true then do
    let postData := preparePostData app investor.val draws.uuid
    localInitKycProcess investor.id postData.reference (draws.clock 0)
    let response ← request (.shuftiproInit postData)
    throwIf (response.error = true) (error (response.message.getD ""))
    throwIf (some (signature app (signedText response.statusCode response.message
      response.reference)) ≠ response.signature) invalidSignature
    saveKycInitResult investor.id response (draws.clock 1)
    return { response with timestamp := some (draws.clock 2) }
  else return { message := some "KYC disabled", statusCode := some "SP1" }

def createNewKycProcess (user : Doc ObjectID Investor) (draws : Draws) :
    Handler ShuftiproInitResult := do
  let kycInitResult ← init app user draws
  request (.saveInvestor (user.modify fun user =>
    { user with kycInitResult := some (.shuftiproInit kycInitResult) }))
  return kycInitResult

def getKycStatus (user : Investor) (timestamp : String) : Handler ShuftiproInitResult := do
  let kycInitResult ← orThrow user.kycInitResult typeError
  let response ← request (.shuftiproStatus
    { clientId := app.config.shuftiproClientId
      reference := kycInitResult.reference
      signature := signature app (app.config.shuftiproClientId ++ jsText kycInitResult.reference) })
  match response with
  | some result =>
      if result.error = true then return { error := true, message := some "Empty response" }
      else do
        throwIf (some (signature app (signedText result.statusCode result.message
          result.reference)) ≠ result.signature) invalidSignature
        return { result with timestamp := some timestamp }
  | none => return { error := true, message := some "Empty response" }

def updateKycInit (user : Doc ObjectID Investor) (draws : Draws) :
    Handler (Option KycInitResult) :=
  tryCatch
    (do
      let currentStatus ← getKycStatus app user.val (draws.clock 3)
      if currentStatus.error = true ∨
          currentStatus.statusCode ∉ [some "SP2", some "SP1", some "SP26"] then do
        let result ← createNewKycProcess app user draws
        return some (.shuftiproInit result)
      else return user.val.kycInitResult)
    fun error =>
      if error.constructor = .kycShuftiProInvalidSignature then do
        let result ← createNewKycProcess app user draws.again
        return some (.shuftiproInit result)
      else throw error

def processKycStatus (user : Doc ObjectID Investor) (draws : Draws) :
    Handler (Option KycInitResult) := do
  throwIf (user.val.kycStatus = .verified)
    { constructor := .kycAlreadyVerifiedError, message := "Your account is verified already" }
  throwIf (user.val.kycStatus = .failed ∧ app.config.shuftiproAllowRecreateSession = false)
    { constructor := .kycFailedError
      message := "Your account verification failed. Please contact \x7b\x7bcompanyName\x7d\x7d team"
      fields := [("companyName", app.config.companyName)] }
  throwIf (user.val.kycStatus = .pending)
    { constructor := .kycPendingError
      message := "Your account verification is pending. Please wait for status update" }
  let kycInitResult ← orThrow user.val.kycInitResult typeError
  if kycInitResult.statusCode = some "SP1" then return some kycInitResult
  else updateKycInit app user draws

/-- What a correctly signed callback changes before the save. -/
def applyKycResult (investor : Doc ObjectID Investor) (kycResult : ShuftiproKycResult) :
    Handler (Doc ObjectID Investor) :=
  if kycResult.statusCode = some "SP1" then do
    let ethWallet ← orThrow investor.val.ethWallet typeError
    request (.addAddressToWhiteList ethWallet.address)
    return investor.modify fun investor =>
      { investor with kycStatus := .verified, kycInitResult := some (.shuftiproKyc kycResult) }
  else if kycResult.statusCode = some "SP0" then
    return investor.modify fun investor =>
      { investor with kycStatus := .failed, kycInitResult := some (.shuftiproKyc kycResult) }
  else return investor

/-- A callback belongs to the user of its stored reference, or to the investor
that has the reference in its last result. -/
def callbackQuery (storedKycResult : Option (Doc ObjectID ShuftiproKycResult))
    (reference : Option String) : InvestorQuery :=
  match storedKycResult with
  | some stored => .id stored.val.user
  | none => .kycReference reference

def processCallback (kycResultRequest : ShuftiproInitResult) (timestamp : String) :
    Handler Unit := do
  let storedKycResult ← request (.findKycResult kycResultRequest.reference)
  -- the `investor.id` of a missing investor is read, and throws, before it is checked for
  let investor ← findInvestor (callbackQuery storedKycResult kycResultRequest.reference) typeError
  let kycResult := ShuftiproKycResult.createShuftiproKycResult
    { kycResultRequest with timestamp := some timestamp }
  let _ ← request (.insertKycResult { kycResult with user := some investor.id })
  if investor.val.kycStatus = .verified then return ()
  else do
    throwIf (some (signature app (signedText kycResult.statusCode kycResult.message
      kycResult.reference)) ≠ kycResult.signature) invalidSignature
    let investor ← applyKycResult investor kycResult
    request (.saveInvestor investor)

end ShuftiproProvider

namespace JumioProvider

def notSupported : Exception := error "Method not supported."

def init (investor : Doc ObjectID Investor) (draws : Draws) : Handler JumioInitResult :=
  if app.config.kycEnabled = true then
    let id := investor.id.toHexString
    let hash := Helpers.base64encode (app.hashSync draws.kycSalt (id ++ app.config.jumioApiSecret))
    request (.jumioInit
      { merchantIdScanReference := draws.uuid
        successUrl := app.config.apiUrl ++ "/kyc/uploaded/" ++ id ++ "/" ++ hash
        errorUrl := app.config.frontendUrl ++ "/dashboard/verification/failure"
        callbackUrl := app.config.apiUrl ++ "/kyc/callback"
        customerId := investor.val.email
        authorizationTokenLifetime := app.config.jumioTokenLifetime })
  else return {
    timestamp := "1520846090"
    authorizationToken := "token"
    jumioIdScanReference := "id"
    clientRedirectUrl := "http://localhost" }

def getInitStatus (user : Doc ObjectID Investor) : Handler (Option KycInitResult) := do
  throwIf (user.val.kycStatus = .verified)
    { constructor := .kycAlreadyVerifiedError, message := "Your account is verified already" }
  throwIf (user.val.kycStatus = .failed)
    { constructor := .kycFailedError
      message := "Your account verification failed. Please contact \x7b\x7bcompanyName\x7d\x7d team"
      fields := [("companyName", app.config.companyName)] }
  throwIf (user.val.kycStatus = .pending)
    { constructor := .kycPendingError
      message := "Your account verification is pending. Please wait for status update" }
  return user.val.kycInitResult

def setPending (investor : Doc ObjectID Investor) : Handler Unit :=
  if investor.val.kycStatus = .notVerified then
    request (.saveInvestor (investor.modify fun investor => { investor with kycStatus := .pending }))
  else return ()

def setPendingById (id : String) : Handler Unit := do
  let objectId ← orThrow (ObjectID.ofText id) (error ObjectID.invalid)
  let investor ← request (.findInvestor (.id (some objectId)))
  match investor with
  | some investor => setPending investor
  | none => return ()

def successUpload (id base64hash : String) : Handler String := do
  let decodedHash := Helpers.base64decode base64hash
  let same ← orThrow (app.compareSync (id ++ app.config.jumioApiSecret) decodedHash) invalidHash
  if same = true then
    setPendingById id
  return app.config.frontendUrl ++ "/dashboard/verification/success"

/-- What a callback with this scan result makes of the KYC status. -/
def applyVerificationResult (investor : Doc ObjectID Investor) (verificationResult : JumioResult) :
    Handler (Doc ObjectID Investor) :=
  if verificationResult.idScanStatus = "SUCCESS" then do
    let validity ← orThrow verificationResult.identityVerification typeError
    if validity = some true then do
      let ethWallet ← orThrow investor.val.ethWallet typeError
      request (.addAddressToWhiteList ethWallet.address)
      return investor.modify fun investor => { investor with kycStatus := .verified }
    else return investor.modify fun investor => { investor with kycStatus := .failed }
  else if verificationResult.idScanStatus = "ERROR" then
    return investor.modify fun investor => { investor with kycStatus := .failed }
  else throw (error "Unknown ID scan status")

def callback (verificationResult : JumioResult) : Handler Unit := do
  request (.insertJumioResult verificationResult)
  let id ← orThrow (ObjectID.ofText verificationResult.customerId) (error ObjectID.invalid)
  let investor ← request (.findInvestor (.id (some id)))
  match investor with
  | some investor =>
      if investor.val.kycStatus = .verified ∨ investor.val.kycStatus = .failed then return ()
      else do
        let investor ← applyVerificationResult investor verificationResult
        request (.saveInvestor investor)
  | none => return ()

end JumioProvider

/-! ## The configured provider -/

/-- The body of a KYC callback, by vendor. -/
inductive KycCallback where
  | shuftipro (result : ShuftiproInitResult)
  | jumio (result : JumioResult)

namespace KycProvider

def init (user : Doc ObjectID Investor) (draws : Draws) : Handler KycInitResult :=
  match app.config.kycProvider with
  | .shuftipro => do
      let result ← ShuftiproProvider.init app user draws
      return .shuftiproInit result
  | .jumio => do
      let result ← JumioProvider.init app user draws
      return .jumio result

def getInitStatus (user : Doc ObjectID Investor) (draws : Draws) :
    Handler (Option KycInitResult) :=
  match app.config.kycProvider with
  | .shuftipro => ShuftiproProvider.processKycStatus app user draws
  | .jumio => JumioProvider.getInitStatus app user

def reinit (user : Doc ObjectID Investor) (draws : Draws) : Handler (Option KycInitResult) :=
  match app.config.kycProvider with
  | .shuftipro => ShuftiproProvider.updateKycInit app user draws
  | .jumio => throw JumioProvider.notSupported

def successUpload (id base64hash : String) : Handler String :=
  match app.config.kycProvider with
  | .shuftipro => throw JumioProvider.notSupported
  | .jumio => JumioProvider.successUpload app id base64hash

def callback (body : KycCallback) (timestamp : String) : Handler Unit :=
  match body with
  | .shuftipro result => ShuftiproProvider.processCallback app result timestamp
  | .jumio result => JumioProvider.callback result

end KycProvider
end IcoDashboard.Accounts
