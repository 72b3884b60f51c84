import IcoDashboard.Accounts.Kyc

namespace IcoDashboard.Accounts

open IcoDashboard.Async IcoDashboard.Async.Program IcoDashboard.Data

/-! # The user service -/

structure CreatedUserData where
  id : ObjectID
  email : String
  name : String
  firstName : String
  lastName : String
  phone : Option String
  country : String
  dob : String
  agreeTos : Bool
  verificationId : String
  verificationMethod : String
  isVerified : Bool
  defaultVerificationMethod : String
  referralCode : String
  kycStatus : KycStatus
  referral : Option String
  source : Option String

structure InitiateLoginResult where
  accessToken : String
  isVerified : Bool := false
  verification : InitiateResult

structure LoginVerification where
  id : String
  code : String
  method : String

structure VerifyLoginInput where
  accessToken : String
  verification : Option LoginVerification

structure VerifyLoginResult where
  accessToken : String
  isVerified : Bool
  verificationId : String
  method : String
  attempts : Option Nat
  expiredOn : Option Nat
  status : Nat := 200

structure ActivationUserData where
  email : String
  verificationId : String
  code : String

structure NewWallet where
  ticker : String := "ETH"
  address : String
  balance : String := "0"
  mnemonic : String
  privateKey : String
deriving DecidableEq, Repr

structure ActivationResult where
  accessToken : String
  wallets : List NewWallet
deriving DecidableEq, Repr

structure ChangePasswordInput where
  oldPassword : String
  newPassword : String
  verification : Option VerificationData := none

structure ResetPasswordInput where
  email : String
  password : String
  verification : VerificationData

structure UserInfo where
  ethAddress : String
  email : String
  name : String
  kycStatus : KycStatus
  defaultVerificationMethod : String
  firstName : String
  lastName : String
  country : String
  dob : String
  phone : Option String

namespace Transformers

def transformInvestorForAuth (investor : Investor) : AuthUserData where
  email := investor.email
  login := investor.email
  password := investor.passwordHash
  sub := investor.verification.id

def transformCreatedInvestor (investor : Doc ObjectID Investor) : CreatedUserData where
  id := investor.id
  email := investor.val.email
  name := investor.val.name
  firstName := investor.val.firstName
  lastName := investor.val.lastName
  phone := investor.val.phone
  country := investor.val.country
  dob := investor.val.dob
  agreeTos := investor.val.agreeTos
  verificationId := investor.val.verification.id
  verificationMethod := investor.val.verification.method
  isVerified := investor.val.isVerified
  defaultVerificationMethod := investor.val.defaultVerificationMethod
  referralCode := investor.val.referralCode
  kycStatus := investor.val.kycStatus
  referral := investor.val.referral
  source := investor.val.source

def transformVerifiedToken (token : VerifiedToken) (verification : Verification) :
    VerifyLoginResult where
  accessToken := token.token
  isVerified := token.verified
  verificationId := verification.id
  method := verification.method
  attempts := verification.attempts
  expiredOn := verification.expiredOn

end Transformers

namespace UserService

def activateUserScope : String := "activate_user"

def loginUserScope : String := "login_user"

def changePasswordScope : String := "change_password"

def resetPasswordScope : String := "reset_password"

def enable2faScope : String := "enable_2fa"

def disable2faScope : String := "disable_2fa"

def scopePayload (scope : String) : Json.Object := [("scope", scope)]

variable (app : App)

def userNotFound : Exception := { constructor := .userNotFound, message := "User is not found" }

def findUser (email : String) : Handler (Doc ObjectID Investor) :=
  findInvestor (.email email) userNotFound

def invalidPassword : Exception := { constructor := .invalidPassword, message := "Invalid password" }

def activationLink (email : String) : String :=
  app.config.frontendUrl ++
    "/auth/signup?type=activate&code=\x7b\x7b\x7bCODE\x7d\x7d\x7d" ++
    "&verificationId=\x7b\x7b\x7bVERIFICATION_ID\x7d\x7d\x7d&email=" ++ app.encodeURIComponent email

/-- The referral of a sign-up has to be an activated investor. -/
def checkReferral (referral : Option String) : Handler Unit :=
  match referral with
  | none => return ()
  | some email =>
      if email = "" then return ()
      else do
        let referral ← findInvestor (.email (app.toLowerCase email))
          { constructor := .referralDoesNotExist, message := "Not valid referral code" }
        throwIf (referral.val.isVerified = false)
          { constructor := .referralIsNotActivated, message := "Not valid referral code" }

def create (userData : UserData) (draws : Draws) : Handler CreatedUserData := do
  let email := app.toLowerCase userData.email
  let existingUser ← request (.findInvestor (.email email))
  throwIf (existingUser.isSome = true)
    { constructor := .userExists, message := "User already exists" }
  checkReferral app userData.referral
  let body ← EmailTemplateService.getRenderedTemplate app "init-signup"
    [("name", userData.firstName ++ " " ++ userData.lastName), ("link", activationLink app email)]
  let verification ← VerificationClient.initiateVerification app emailVerification {
    consumer := email
    issuer := app.config.companyName
    template := some
      { fromEmail := app.config.emailFromGeneral
        subject := "Verify your email at " ++ app.config.companyName
        body }
    generateCode := some {}
    policy := { expiredOn := "24:00:00" }
    payload := scopePayload activateUserScope }
  let passwordHash := app.hashSync draws.hashSalt userData.password
  let investor := Investor.createInvestor app userData passwordHash verification.verificationId
  let id ← request (.insertInvestor investor)
  request (.createUser (Transformers.transformInvestorForAuth investor))
  return Transformers.transformCreatedInvestor ⟨id, investor⟩

def resendVerification (email : String) : Handler CreatedUserData := do
  let email := app.toLowerCase email
  let user ← findUser email
  throwIf (user.val.isVerified = true)
    { constructor := .userActivated, message := "User is activated already" }
  let body ← EmailTemplateService.getRenderedTemplate app "init-signup"
    [("name", user.val.name), ("link", activationLink app email)]
  let verification ← VerificationClient.resendVerification emailVerification {
    consumer := email
    issuer := app.config.companyName
    template := some
      { fromEmail := app.config.emailFromGeneral
        subject := "Verify your email at " ++ app.config.companyName
        body }
    policy := { expiredOn := "24:00:00", verificationId := some user.val.verification.id }
    payload := scopePayload activateUserScope }
  let user := user.modify fun user =>
    { user with verification := Verification.createVerification verification }
  request (.saveInvestor user)
  return Transformers.transformCreatedInvestor user

def initiateLogin (email password ip : String) (draws : Draws) : Handler InitiateLoginResult := do
  let user ← findUser (app.toLowerCase email)
  throwIf (user.val.isVerified = false)
    { constructor := .userNotActivated
      message := "Account is not activated! Please check your email" }
  let passwordMatch ← orThrow (app.compareSync password user.val.passwordHash) invalidHash
  throwIf (passwordMatch = false) invalidPassword
  let tokenData ← request (.loginUser
    { login := app.toLowerCase user.val.email, password := user.val.passwordHash })
  let body ← EmailTemplateService.getRenderedTemplate app "init-signin"
    [("name", user.val.name), ("datetime", draws.datetime), ("ip", ip)]
  let verificationData ← VerificationClient.initiateVerification app
    user.val.defaultVerificationMethod {
      consumer := user.val.email
      issuer := app.config.companyName
      template := some
        { fromEmail := app.config.emailFromGeneral
          subject := app.config.companyName ++ " Login Verification Code"
          body }
      generateCode := some {}
      policy := { expiredOn := "01:00:00" }
      payload := scopePayload loginUserScope }
  let _ ← request (.insertToken
    (VerifiedToken.createNotVerifiedToken tokenData.accessToken verificationData))
  return { accessToken := tokenData.accessToken, verification := verificationData }

def verifyLogin (inputData : VerifyLoginInput) (draws : Draws) : Handler VerifyLoginResult := do
  let token ← orThrow (← request (.findToken (some inputData.accessToken)))
    { constructor := .tokenNotFound, message := "Token is not found" }
  let verification ← orThrow token.val.verification typeError
  let input ← orThrow inputData.verification typeError
  throwIf (verification.id ≠ input.id) (error "Invalid verification id")
  let login ← request (.verifyUserToken inputData.accessToken)
  let user ← findUser (app.toLowerCase login)
  let _ ← VerificationClient.checkVerificationPayloadAndCode app
    { verificationId := input.id, code := input.code, method := input.method } user.val.email
    (scopePayload loginUserScope) none
  throwIf (token.val.verified = true) (error "Token is verified already")
  let token := token.modify fun token => { token with verified := true }
  request (.saveToken token)
  notify app "success-signin" [("name", user.val.name), ("datetime", draws.datetime)] fun text =>
    { sender := app.config.emailFromGeneral
      subject := app.config.companyName ++ " Successful Login Notification"
      recipient := user.val.email
      text }
  return Transformers.transformVerifiedToken token.val verification

/-- On stage, a new wallet gets some funds. -/
def sendTestFunds (address : String) : Handler Unit :=
  match app.config.testFundPrivateKey with
  | some privateKey =>
      if privateKey ≠ "" ∧ app.isHex privateKey = true ∧ app.config.stage = true then
        fire (.sendTransactionByPrivateKey "0.1" address 21000 "4" privateKey)
      else return ()
  | none => return ()

/-- The referral of an activated user is put on the whitelist contract. -/
def addReferral (address : String) (referral : Option String) : Handler Unit :=
  match referral with
  | none => return ()
  | some email =>
      if email = "" then return ()
      else do
        let referral ← request (.findInvestor (.email (app.toLowerCase email)))
        let ethWallet ← orThrow (referral.bind fun referral => referral.val.ethWallet) typeError
        request (.addReferralOf address ethWallet.address)

/-- From the save on, the activation is stored. -/
def storeActivation (user : Doc ObjectID Investor) : Handler AccessTokenResponse := do
  request (.saveInvestor user)
  let loginResult ← request (.loginUser
    { login := user.val.email, password := user.val.passwordHash })
  let _ ← request (.insertToken (VerifiedToken.createVerifiedToken loginResult.accessToken))
  return loginResult

def notifyActivation (user : Investor) (address : String) : Handler Unit := do
  notify app "success-signup" [("name", user.name)] fun text =>
    { sender := app.config.emailFromGeneral
      recipient := user.email
      subject := "You are officially registered for participation in " ++ app.config.companyName ++
        "'s ICO"
      text }
  sendTestFunds app address

def activate (activationData : ActivationUserData) (draws : Draws) : Handler ActivationResult := do
  let user ← findUser (app.toLowerCase activationData.email)
  throwIf (user.val.isVerified = true) (error "User is activated already")
  let _ ← VerificationClient.checkVerificationPayloadAndCode app
    { verificationId := activationData.verificationId, code := activationData.code
      method := emailVerification }
    activationData.email (scopePayload activateUserScope) none
  let account := app.getAccountByMnemonicAndSalt draws.mnemonic draws.salt
  let user := user.modify fun user => user.addEthWallet
    { ticker := "ETH", address := account.2, balance := "0", salt := draws.salt }
  addReferral app account.2 user.val.referral
  let kycInitResult ← KycProvider.init app user draws
  let user := user.modify fun user =>
    { user with kycInitResult := some kycInitResult, isVerified := true }
  let loginResult ← storeActivation user
  notifyActivation app user.val account.2
  return {
    accessToken := loginResult.accessToken
    wallets := [{ address := account.2, mnemonic := draws.mnemonic, privateKey := account.1 }] }

def initiateChangePassword (user : Doc ObjectID Investor) (oldPassword : String) :
    Handler InitiateResult := do
  let passwordMatch ← orThrow (app.compareSync oldPassword user.val.passwordHash) invalidHash
  throwIf (passwordMatch = false) invalidPassword
  let body ← EmailTemplateService.getRenderedTemplate app "init-change-password"
    [("name", user.val.name)]
  VerificationClient.initiateVerification app user.val.defaultVerificationMethod {
    consumer := user.val.email
    issuer := app.config.companyName
    template := some
      { fromEmail := app.config.emailFromGeneral
        subject := "Here’s the Code to Change Your Password at " ++ app.config.companyName
        body }
    generateCode := some {}
    policy := { expiredOn := "24:00:00" }
    payload := scopePayload changePasswordScope }

def verifyChangePassword (user : Doc ObjectID Investor) (params : ChangePasswordInput)
    (draws : Draws) : Handler AccessTokenResponse := do
  let passwordMatch ← orThrow (app.compareSync params.oldPassword user.val.passwordHash) invalidHash
  throwIf (passwordMatch = false) invalidPassword
  let verification ← orThrow params.verification typeError
  let _ ← VerificationClient.checkVerificationPayloadAndCode app verification user.val.email
    (scopePayload changePasswordScope) none
  let user := user.modify fun user =>
    { user with passwordHash := app.hashSync draws.hashSalt params.newPassword }
  request (.saveInvestor user)
  notify app "success-password-change" [("name", user.val.name)] fun text =>
    { sender := app.config.emailFromGeneral
      recipient := user.val.email
      subject := app.config.companyName ++ " Password Change Notification"
      text }
  request (.createUser
    { email := app.toLowerCase user.val.email
      login := app.toLowerCase user.val.email
      password := user.val.passwordHash
      sub := verification.verificationId
      scope := if truthy user.val.scope then user.val.scope else none })
  let loginResult ← request (.loginUser
    { login := app.toLowerCase user.val.email, password := user.val.passwordHash })
  let _ ← request (.insertToken (VerifiedToken.createVerifiedToken loginResult.accessToken))
  return loginResult

def initiateResetPassword (email : String) : Handler InitiateResult := do
  let user ← findUser (app.toLowerCase email)
  let body ← EmailTemplateService.getRenderedTemplate app "init-reset-password"
    [("name", user.val.name)]
  VerificationClient.initiateVerification app user.val.defaultVerificationMethod {
    consumer := app.toLowerCase user.val.email
    issuer := app.config.companyName
    template := some
      { fromEmail := app.config.emailFromGeneral
        subject := "Here’s the Code to Reset Your Password at " ++ app.config.companyName
        body }
    generateCode := some {}
    policy := { expiredOn := "24:00:00" }
    payload := scopePayload resetPasswordScope }

def verifyResetPassword (params : ResetPasswordInput) (draws : Draws) :
    Handler ValidationResult := do
  let user ← findUser (app.toLowerCase params.email)
  let verificationResult ← VerificationClient.checkVerificationPayloadAndCode app
    params.verification (app.toLowerCase params.email) (scopePayload resetPasswordScope) none
  let user := user.modify fun user =>
    { user with passwordHash := app.hashSync draws.hashSalt params.password }
  request (.saveInvestor user)
  request (.createUser
    { email := app.toLowerCase user.val.email
      login := app.toLowerCase user.val.email
      password := user.val.passwordHash
      sub := params.verification.verificationId })
  notify app "success-password-reset" [("name", user.val.name)] fun text =>
    { sender := app.config.emailFromGeneral
      recipient := user.val.email
      subject := app.config.companyName ++ " Password Reset Notification"
      text }
  return verificationResult

/-- Nobody who has an account is invited. -/
def checkNotRegistered : List String → Handler Unit
  | [] => return ()
  | email :: rest => do
      let user ← request (.findInvestor (.email (app.toLowerCase email)))
      throwIf (user.isSome = true)
        { constructor := .inviteIsNotAllowed
          message := "\x7b\x7bemail\x7d\x7d account already exists"
          fields := [("email", app.toLowerCase email)] }
      checkNotRegistered rest

def sendInvites (user : Investor) : List String → Handler Unit
  | [] => return ()
  | email :: rest => do
      let text ← EmailTemplateService.getRenderedTemplate app "invite"
        [("name", user.name),
          ("link", app.config.frontendUrl ++ "/auth/signup/" ++ user.referralCode)]
      fire (.addJob
        { sender := app.config.emailFromReferral
          recipient := email
          subject := user.name ++ " thinks you will like this project…"
          text })
      sendInvites user rest

/-- The emails answered, each with `invited: true`. -/
def invite (user : Doc ObjectID Investor) (emails : List String) (draws : Draws) :
    Handler (List String) := do
  checkNotRegistered app emails
  let update := user.val.checkAndUpdateInvitees app draws.now emails
  match update.result with
  | .error error => throw error
  | .ok _ => do
      let user := user.modify fun user => { user with invitees := update.invitees }
      sendInvites app user.val update.emails
      request (.saveInvestor user)
      return update.emails.map app.toLowerCase

def initiate2faVerification (user : Investor) (scope : String) : Handler InitiateResult :=
  VerificationClient.initiateVerification app authenticatorVerification {
    consumer := user.email
    issuer := app.config.companyName
    policy := { expiredOn := "01:00:00" }
    payload := scopePayload scope }

def authenticatorError (message : String) : Exception :=
  { constructor := .authenticatorError, message }

def initiateEnable2fa (user : Doc ObjectID Investor) : Handler InitiateResult := do
  throwIf (user.val.defaultVerificationMethod = authenticatorVerification)
    (authenticatorError "Authenticator is enabled already")
  initiate2faVerification app user.val enable2faScope

def verifyEnable2fa (user : Doc ObjectID Investor) (verification : VerificationData) :
    Handler Bool := do
  throwIf (user.val.defaultVerificationMethod = authenticatorVerification)
    (authenticatorError "Authenticator is enabled already")
  let _ ← VerificationClient.checkVerificationPayloadAndCode app verification user.val.email
    (scopePayload enable2faScope) none
  request (.saveInvestor (user.modify fun user =>
    { user with defaultVerificationMethod := authenticatorVerification }))
  return true

def initiateDisable2fa (user : Doc ObjectID Investor) : Handler InitiateResult := do
  throwIf (user.val.defaultVerificationMethod ≠ authenticatorVerification)
    (authenticatorError "Authenticator is disabled already")
  initiate2faVerification app user.val disable2faScope

def verifyDisable2fa (user : Doc ObjectID Investor) (verification : VerificationData) :
    Handler Bool := do
  throwIf (user.val.defaultVerificationMethod ≠ authenticatorVerification)
    (authenticatorError "Authenticator is disabled already")
  let _ ← VerificationClient.checkVerificationPayloadAndCode app verification
    (app.toLowerCase user.val.email) (scopePayload disable2faScope) (some true)
  request (.saveInvestor (user.modify fun user =>
    { user with defaultVerificationMethod := emailVerification }))
  return false

def getUserInfo (user : Doc ObjectID Investor) : Handler UserInfo := do
  let ethWallet ← orThrow user.val.ethWallet typeError
  return {
    ethAddress := ethWallet.address
    email := app.toLowerCase user.val.email
    name := user.val.name
    kycStatus := user.val.kycStatus
    defaultVerificationMethod := user.val.defaultVerificationMethod
    firstName := user.val.firstName
    lastName := user.val.lastName
    country := user.val.country
    dob := user.val.dob
    phone := user.val.phone }

end UserService
end IcoDashboard.Accounts
