import IcoDashboard.Accounts.Dashboard

namespace IcoDashboard.Accounts

open IcoDashboard.Async IcoDashboard.Async.Program IcoDashboard.Data

/-! # Requests

The routes of the user, KYC and dashboard controllers, behind the
authentication middleware where they are.
-/

/-! ## Authentication -/

/-- `text.split(' ')`. -/
def splitSpaces (text : String) : List String := (text.toList.splitOn ' ').map String.ofList

/-- The middleware answers the request itself, or calls `next()` with
`req.user`. -/
inductive AuthResult where
  | next (user : Doc ObjectID Investor)
  | notAuthorized
  | notFound

/-- The token of an `Authorization: Bearer` header; `some none` when the header
ends after `Bearer`. -/
def bearerToken (authorization : Option String) : Option (Option String) :=
  match authorization with
  | none => none
  | some header =>
      if header = "" then none
      else match splitSpaces header with
        | scheme :: rest => if scheme = "Bearer" then some rest.head? else none
        | [] => none

/-- The user a verified token logs in. -/
def loadUser (token : String) : Handler AuthResult :=
  tryCatch
    (do
      let login ← request (.verifyUserToken token)
      let user ← request (.findInvestor (.email login))
      match user with
      | some user => return .next user
      | none => return .notFound)
    fun _ => return .notAuthorized

def authenticateToken (token : Option String) : Handler AuthResult := do
  match ← request (.findToken token) with
  | some tokenVerification =>
      -- found by its token, so this is the token of the header
      if tokenVerification.val.verified = true then loadUser tokenVerification.val.token
      else return .notAuthorized
  | none => return .notAuthorized

def authenticate (authorization : Option String) : Handler AuthResult :=
  match bearerToken authorization with
  | none => return .notAuthorized
  | some token => authenticateToken token

/-! ## Routes -/

inductive Response where
  | notAuthorized
  | notFound
  | created (user : CreatedUserData)
  | loginInitiated (result : InitiateLoginResult)
  | loginVerified (result : VerifyLoginResult)
  | activated (result : ActivationResult)
  | initiated (result : InitiateResult)
  | loggedIn (result : AccessTokenResponse)
  | validated (result : ValidationResult)
  | invited (emails : List String)
  | twoFactor (enabled : Bool)
  | userInfo (info : UserInfo)
  | invested (result : InvestResult)
  | kyc (result : Option KycInitResult)
  | redirect (url : String)
  | ok

/-- The routes that need a user. -/
inductive UserRequest where
  | getMe
  | initiateChangePassword (oldPassword : String)
  | verifyChangePassword (params : ChangePasswordInput)
  | invite (emails : List String)
  | enable2faInitiate
  | enable2faVerify (verification : VerificationData)
  | disable2faInitiate
  | disable2faVerify (verification : VerificationData)
  | investInitiate (body : InvestBody)
  | investVerify (body : InvestBody) (verification : VerificationData)
  | kycInit
  | kycReinit

inductive Request where
  | create (userData : UserData)
  | resendVerification (email : String)
  | activate (activationData : ActivationUserData)
  | initiateLogin (email password ip : String)
  | verifyLogin (inputData : VerifyLoginInput)
  | initiateResetPassword (email : String)
  | verifyResetPassword (params : ResetPasswordInput)
  | kycCallback (body : KycCallback)
  | kycUploaded (id base64hash : String)
  | user (authorization : Option String) (userRequest : UserRequest)

variable (app : App)

def handleUser (user : Doc ObjectID Investor) (draws : Draws) : UserRequest → Handler Response
  | .getMe => return .userInfo (← UserService.getUserInfo app user)
  | .initiateChangePassword oldPassword =>
      return .initiated (← UserService.initiateChangePassword app user oldPassword)
  | .verifyChangePassword params =>
      return .loggedIn (← UserService.verifyChangePassword app user params draws)
  | .invite emails => return .invited (← UserService.invite app user emails draws)
  | .enable2faInitiate => return .initiated (← UserService.initiateEnable2fa app user)
  | .enable2faVerify verification =>
      return .twoFactor (← UserService.verifyEnable2fa app user verification)
  | .disable2faInitiate => return .initiated (← UserService.initiateDisable2fa app user)
  | .disable2faVerify verification =>
      return .twoFactor (← UserService.verifyDisable2fa app user verification)
  | .investInitiate body => return .initiated (← DashboardController.investInitiate app user body)
  | .investVerify body verification =>
      return .invested (← DashboardController.investVerify app user body verification)
  | .kycInit => return .kyc (← KycProvider.getInitStatus app user draws)
  | .kycReinit => return .kyc (← KycProvider.reinit app user draws)

def handle (draws : Draws) : Request → Handler Response
  | .create userData => return .created (← UserService.create app userData draws)
  | .resendVerification email => return .created (← UserService.resendVerification app email)
  | .activate activationData =>
      return .activated (← UserService.activate app activationData draws)
  | .initiateLogin email password ip =>
      return .loginInitiated (← UserService.initiateLogin app email password ip draws)
  | .verifyLogin inputData => return .loginVerified (← UserService.verifyLogin app inputData draws)
  | .initiateResetPassword email =>
      return .initiated (← UserService.initiateResetPassword app email)
  | .verifyResetPassword params =>
      return .validated (← UserService.verifyResetPassword app params draws)
  | .kycCallback body => do
      KycProvider.callback app body (draws.clock 0)
      return .ok
  | .kycUploaded id base64hash =>
      return .redirect (← KycProvider.successUpload app id base64hash)
  | .user authorization userRequest => do
      match ← authenticate authorization with
      | .next user => handleUser app user draws userRequest
      | .notAuthorized => return .notAuthorized
      | .notFound => return .notFound

/-- A request with the values drawn for it. -/
structure Arrival where
  request : Request
  draws : Draws := {}

def accounts : System Op Ans Exception World Choice Arrival Response where
  handler arrival := handle app arrival.draws arrival.request
  perform := perform

end IcoDashboard.Accounts
