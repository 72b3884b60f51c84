import IcoDashboard.Async.Interleaving
import IcoDashboard.Data.Json
import IcoDashboard.Entities.VerifiedToken

namespace IcoDashboard.Accounts

open IcoDashboard.Async IcoDashboard.Async.Program IcoDashboard.Data

/-! # External services of the accounts

The calls that the user service, the KYC providers and the dashboard make: the
document store, the verify and auth services, the blockchain node, the KYC
vendors, the templates and the mail queue.
-/

structure EmailTemplate where
  fromEmail : String
  subject : String
  body : String

structure GenerateCode where
  length : Nat := 6
  symbolSet : List String := ["DIGITS"]

structure Policy where
  expiredOn : String
  verificationId : Option String := none

structure InitiateData where
  consumer : String
  issuer : String
  template : Option EmailTemplate := none
  generateCode : Option GenerateCode := none
  policy : Policy
  payload : Json.Object

structure ValidationData where
  verificationId : String
  consumer : String
  expiredOn : Nat := 0
  attempts : Nat := 0
  payload : Json.Object
deriving DecidableEq, Repr

structure ValidationResult where
  status : Nat := 200
  data : ValidationData
deriving DecidableEq, Repr

structure ValidateVerificationInput where
  code : String
  removeSecret : Option Bool := none

structure AuthUserData where
  email : String
  login : String
  password : String
  sub : String
  scope : Option String := none

structure UserLoginData where
  login : String
  password : String
  deviceId : String := "device"

structure AccessTokenResponse where
  accessToken : String
deriving DecidableEq, Repr

structure TransactionInput where
  «from» : String
  «to» : String
  amount : String
  gas : String
  gasPrice : String

structure JumioInitOptions where
  merchantIdScanReference : String
  successUrl : String
  errorUrl : String
  callbackUrl : String
  customerId : String
  authorizationTokenLifetime : Nat

structure ShuftiproInitData where
  clientId : String
  reference : String
  email : String
  phoneNumber : Option String
  country : String
  lang : String := "en"
  callbackUrl : String
  redirectUrl : String
  verificationServices : String
  signature : String

structure ShuftiproStatusData where
  clientId : String
  reference : Option String
  signature : String

/-- The callback of Jumio.  The identity verification is missing, or its
validity may be undefined. -/
structure JumioResult where
  customerId : String
  idScanStatus : String
  identityVerification : Option (Option Bool)

structure Mail where
  sender : String
  subject : String
  recipient : String
  text : String

inductive InvestorQuery where
  | email (email : String)
  | id (id : Option ObjectID)
  | kycReference (reference : Option String)

inductive Op where
  | findInvestor (query : InvestorQuery)
  | saveInvestor (investor : Doc ObjectID Investor)
  | insertInvestor (investor : Investor)
  | findToken (token : Option String)
  | saveToken (token : Doc ObjectID VerifiedToken)
  | insertToken (token : VerifiedToken)
  | findKycResult (reference : Option String)
  | insertKycResult (result : ShuftiproKycResult)
  | insertJumioResult (result : JumioResult)
  | initiate (method : String) (data : InitiateData)
  | resend (method : String) (data : InitiateData)
  | getVerifier (method id : String)
  | validate (method id : String) (input : ValidateVerificationInput)
  | invalidate (method id : String)
  | createUser (data : AuthUserData)
  | loginUser (data : UserLoginData)
  | verifyUserToken (token : String)
  | addReferralOf (user referral : String)
  | addAddressToWhiteList (address : String)
  | isAllowed (address : String)
  | getReferralOf (address : String)
  | getCurrentGasPrice
  | sufficientBalance (input : TransactionInput)
  | sendTransactionByMnemonic (input : TransactionInput) (mnemonic salt : String)
  | sendTransactionByPrivateKey (amount «to» : String) (gas : Nat) (gasPrice privateKey : String)
  | jumioInit (options : JumioInitOptions)
  | shuftiproInit (data : ShuftiproInitData)
  | shuftiproStatus (data : ShuftiproStatusData)
  | renderTemplate (name : String) (data : List (String × String))
  | addJob (mail : Mail)

abbrev Ans : Op → Type
  | .findInvestor _ => Option (Doc ObjectID Investor)
  | .saveInvestor _ => Unit
  | .insertInvestor _ => ObjectID
  | .findToken _ => Option (Doc ObjectID VerifiedToken)
  | .saveToken _ => Unit
  | .insertToken _ => ObjectID
  | .findKycResult _ => Option (Doc ObjectID ShuftiproKycResult)
  | .insertKycResult _ => ObjectID
  | .insertJumioResult _ => Unit
  | .initiate _ _ => InitiateResult
  | .resend _ _ => InitiateResult
  | .getVerifier _ _ => ValidationResult
  | .validate _ _ _ => ValidationResult
  | .invalidate _ _ => Unit
  | .createUser _ => Unit
  | .loginUser _ => AccessTokenResponse
  | .verifyUserToken _ => String
  | .addReferralOf _ _ => Unit
  | .addAddressToWhiteList _ => Unit
  | .isAllowed _ => Bool
  | .getReferralOf _ => String
  | .getCurrentGasPrice => String
  | .sufficientBalance _ => Bool
  | .sendTransactionByMnemonic _ _ _ => String
  | .sendTransactionByPrivateKey _ _ _ _ _ => Unit
  | .jumioInit _ => JumioInitResult
  | .shuftiproInit _ => ShuftiproInitResult
  | .shuftiproStatus _ => Option ShuftiproInitResult
  | .renderTemplate _ _ => String
  | .addJob _ => Unit

abbrev Handler (α : Type) : Type := Program Op Ans Exception α

def request (op : Op) : Handler (Ans op) := Program.call op

/-- A call whose outcome is not looked at. -/
def fire (op : Op) : Handler Unit := .await op fun _ => .done ()

/-! ## The world -/

/-- A verification as the verify service keeps it.  It is consumed by a
successful validation. -/
structure Verifier where
  method : String
  id : String
  consumer : String
  payload : Json.Object
  code : String
  live : Bool := true

structure World where
  investors : Collection ObjectID Investor := .empty
  tokens : Collection ObjectID VerifiedToken := .empty
  kycResults : Collection ObjectID ShuftiproKycResult := .empty
  verifiers : List Verifier := []
  /-- Every access token issued, with the login it was issued for. -/
  issued : List (String × String) := []

/-- What the environment decides at one call: whether it is rejected, the fresh
values of the services, and what is known of no other service. -/
structure Choice where
  rejects : Option Exception := none
  id : ObjectID := 0
  verificationId : String := ""
  code : String := ""
  attempts : Nat := 0
  expiredOn : Nat := 0
  totpUri : Option String := none
  accessToken : String := ""
  allowed : Bool := true
  text : String := ""
  jumio : JumioInitResult := ⟨"", "", "", ""⟩
  shuftipro : ShuftiproInitResult := {}
  shuftiproStatus : Option ShuftiproInitResult := none

/-- A rejected HTTP request. -/
def requestError (statusCode : Nat) : Exception :=
  { constructor := .request, statusCode := some statusCode }

def duplicateKey : Exception := { constructor := .mongo, message := "duplicate key" }

namespace World

def findInvestor (world : World) : InvestorQuery → Option (Doc ObjectID Investor)
  | .email email => world.investors.findOne fun investor => investor.email = email
  | .id (some id) => world.investors.findOneById id
  | .id none => none
  | .kycReference reference => world.investors.findOne fun investor =>
      investor.kycInitResult.bind KycInitResult.reference = reference

/-- The email index is unique. -/
def insertInvestor (world : World) (id : ObjectID) (investor : Investor) :
    Option (Collection ObjectID Investor) :=
  if (world.findInvestor (.email investor.email)).isSome then none
  else world.investors.insert ⟨id, investor⟩

/-- The verify service hands out an id it has not used before. -/
def initiate (world : World) (choice : Choice) (method : String) (data : InitiateData) :
    Except Exception InitiateResult × World :=
  if world.verifiers.any (fun verifier => verifier.id = choice.verificationId) then
    (.error (requestError 500), world)
  else
    (.ok { verificationId := choice.verificationId, method, attempts := choice.attempts,
           expiredOn := choice.expiredOn, code := some choice.code, totpUri := choice.totpUri },
      { world with verifiers := world.verifiers ++
          [{ method, id := choice.verificationId, consumer := data.consumer,
             payload := data.payload, code := choice.code }] })

def findVerifier (world : World) (method id : String) : Option Verifier :=
  world.verifiers.find? fun verifier =>
    verifier.method = method && verifier.id = id && verifier.live

def removeVerifier (world : World) (method id : String) : World :=
  { world with verifiers := world.verifiers.map fun verifier =>
      if verifier.method = method ∧ verifier.id = id then { verifier with live := false }
      else verifier }

def Verifier.result (choice : Choice) (verifier : Verifier) : ValidationResult where
  data :=
    { verificationId := verifier.id, consumer := verifier.consumer, expiredOn := choice.expiredOn
      attempts := choice.attempts, payload := verifier.payload }

def getVerifier (world : World) (choice : Choice) (method id : String) :
    Except Exception ValidationResult :=
  match world.findVerifier method id with
  | some verifier => .ok (Verifier.result choice verifier)
  | none => .error (requestError 404)

/-- Only the code of the verification validates it, and consumes it. -/
def validate (world : World) (choice : Choice) (method id : String)
    (input : ValidateVerificationInput) : Except Exception ValidationResult × World :=
  match world.findVerifier method id with
  | some verifier =>
      if input.code = verifier.code then
        (.ok (Verifier.result choice verifier), world.removeVerifier method id)
      else (.error { requestError 422 with attempts := choice.attempts }, world)
  | none => (.error (requestError 404), world)

/-- The auth service issues a token it has not issued before. -/
def loginUser (world : World) (choice : Choice) (data : UserLoginData) :
    Except Exception AccessTokenResponse × World :=
  if world.issued.any (fun entry => entry.1 = choice.accessToken) then
    (.error (requestError 500), world)
  else
    (.ok ⟨choice.accessToken⟩,
      { world with issued := world.issued ++ [(choice.accessToken, data.login)] })

def verifyUserToken (world : World) (token : String) : Except Exception String :=
  match world.issued.find? (fun entry => entry.1 = token) with
  | some entry => .ok entry.2
  | none => .error (requestError 401)

end World

def answer (choice : Choice) (world : World) : (op : Op) → Except Exception (Ans op) × World
  | .findInvestor query => (.ok (world.findInvestor query), world)
  | .saveInvestor investor =>
      (.ok (), { world with investors := world.investors.save Investor.write investor })
  | .insertInvestor investor =>
      match world.insertInvestor choice.id investor with
      | some investors => (.ok choice.id, { world with investors })
      | none => (.error duplicateKey, world)
  | .findToken token => (.ok (world.tokens.findOne fun stored => some stored.token = token), world)
  | .saveToken token => (.ok (), { world with tokens := world.tokens.save VerifiedToken.write token })
  | .insertToken token =>
      match world.tokens.insert ⟨choice.id, token⟩ with
      | some tokens => (.ok choice.id, { world with tokens })
      | none => (.error duplicateKey, world)
  | .findKycResult reference =>
      (.ok (world.kycResults.findOne fun result => result.reference = reference), world)
  | .insertKycResult result =>
      match world.kycResults.insert ⟨choice.id, result⟩ with
      | some kycResults => (.ok choice.id, { world with kycResults })
      | none => (.error duplicateKey, world)
  | .insertJumioResult _ => (.ok (), world)
  | .initiate method data => world.initiate choice method data
  | .resend method data => world.initiate choice method data
  | .getVerifier method id => (world.getVerifier choice method id, world)
  | .validate method id input => world.validate choice method id input
  | .invalidate method id => (.ok (), world.removeVerifier method id)
  | .createUser _ => (.ok (), world)
  | .loginUser data => world.loginUser choice data
  | .verifyUserToken token => (world.verifyUserToken token, world)
  | .addReferralOf _ _ => (.ok (), world)
  | .addAddressToWhiteList _ => (.ok (), world)
  | .isAllowed _ => (.ok choice.allowed, world)
  | .getReferralOf _ => (.ok choice.text, world)
  | .getCurrentGasPrice => (.ok choice.text, world)
  | .sufficientBalance _ => (.ok choice.allowed, world)
  | .sendTransactionByMnemonic _ _ _ => (.ok choice.text, world)
  | .sendTransactionByPrivateKey _ _ _ _ _ => (.ok (), world)
  | .jumioInit _ => (.ok choice.jumio, world)
  | .shuftiproInit _ => (.ok choice.shuftipro, world)
  | .shuftiproStatus _ => (.ok choice.shuftiproStatus, world)
  | .renderTemplate _ _ => (.ok choice.text, world)
  | .addJob _ => (.ok (), world)

/-- A rejected call leaves the world as it is. -/
def perform (choice : Choice) (op : Op) (world : World) : Except Exception (Ans op) × World :=
  match choice.rejects with
  | some error => (.error error, world)
  | none => answer choice world op

end IcoDashboard.Accounts
