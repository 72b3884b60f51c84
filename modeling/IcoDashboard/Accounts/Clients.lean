import IcoDashboard.Accounts.Services

namespace IcoDashboard.Accounts

open IcoDashboard.Async IcoDashboard.Async.Program IcoDashboard.Data

/-! # Clients of the verify service and the templates -/

/-- The random values and clock readings of one request. -/
structure Draws where
  mnemonic : String := ""
  salt : String := ""
  hashSalt : String := ""
  kycSalt : String := ""
  uuid : String := ""
  /-- Drawn when a request opens a second KYC session. -/
  uuidAgain : String := ""
  now : Nat := 0
  datetime : String := ""
  clock : Nat → String := fun _ => ""

/-- The values of the second session. -/
def Draws.again (draws : Draws) : Draws :=
  { draws with uuid := draws.uuidAgain, clock := fun reading => draws.clock (reading + 4) }

/-- The verification data of a request body. -/
structure VerificationData where
  verificationId : String
  code : String
  method : String

variable (app : App)

namespace VerificationClient

def initiateVerification (method : String) (data : InitiateData) : Handler InitiateResult := do
  let result ← request (.initiate method data)
  return { result with
    method
    code := none
    qrPngDataUri :=
      if truthy result.totpUri then result.totpUri.map app.qrPngDataUri else result.qrPngDataUri }

def resendVerification (method : String) (data : InitiateData) : Handler InitiateResult := do
  let result ← request (.resend method data)
  return { result with method }

def verificationIsNotFound : Exception :=
  { constructor := .verificationIsNotFound
    message := "Code was expired or not found. Please retry" }

def invalidateVerification (method id : String) : Handler Unit := request (.invalidate method id)

def validateVerification (method id : String) (input : ValidateVerificationInput) :
    Handler ValidationResult :=
  tryCatch (request (.validate method id input)) fun e =>
    if e.statusCode = some 422 then
      if app.config.verifyMaxAttempts ≤ e.attempts then do
        invalidateVerification method id
        throw { constructor := .maxVerificationsAttemptsReached
                message := "You have used all attempts to enter code" }
      else
        throw { constructor := .notCorrectVerificationCode, message := "Not correct code" }
    else if e.statusCode = some 404 then throw verificationIsNotFound
    else throw e

def getVerification (method id : String) : Handler ValidationResult :=
  tryCatch (request (.getVerifier method id)) fun e =>
    if e.statusCode = some 404 then throw verificationIsNotFound else throw e

def checkVerificationPayloadAndCode (inputVerification : VerificationData) (consumer : String)
    (payload : Json.Object) (removeSecret : Option Bool) : Handler ValidationResult := do
  let verification ← getVerification inputVerification.method inputVerification.verificationId
  throwIf (verification.data.consumer ≠ consumer ∨
      Json.stringify verification.data.payload ≠ Json.stringify payload)
    (error "Invalid verification payload")
  validateVerification app inputVerification.method inputVerification.verificationId
    { code := inputVerification.code, removeSecret }

end VerificationClient

namespace EmailTemplateService

def isRequired (templateName : String) : Bool := app.config.templateRequired.contains templateName

def getRenderedTemplate (templateName : String) (data : List (String × String)) : Handler String :=
  tryCatch (request (.renderTemplate templateName data)) fun error =>
    if isRequired app templateName = true then throw error else return ""

end EmailTemplateService

/-- The investor a query finds; a missing one is thrown. -/
def findInvestor (query : InvestorQuery) (missing : Exception) :
    Handler (Doc ObjectID Investor) := do
  orThrow (← request (.findInvestor query)) missing

/-- A mail from a template that may be missing. -/
def notify (templateName : String) (data : List (String × String)) (mail : String → Mail) :
    Handler Unit := do
  let template ← EmailTemplateService.getRenderedTemplate app templateName data
  if template = "" then return () else fire (.addJob (mail template))

end IcoDashboard.Accounts
