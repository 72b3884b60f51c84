import IcoDashboard.Accounts.Requests
import IcoDashboard.Validation.Middleware

namespace IcoDashboard.Backend

open IcoDashboard.Accounts
open IcoDashboard.Validation (Site Value ValidatorName)

/-! # Bodies

The validators of a route, and what its service reads from the body that they
have let pass.
-/

/-! ## Validators -/

def validators : Request → List ValidatorName
  | .create _ => [.createUser]
  | .resendVerification _ => [.resendVerification]
  | .activate _ => [.activateUser]
  | .initiateLogin _ _ _ => [.initiateLogin]
  | .verifyLogin _ => [.verifyLogin]
  | .initiateResetPassword _ => [.resetPasswordInitiate]
  | .verifyResetPassword _ => [.resetPasswordVerify]
  | .user _ (.initiateChangePassword _) | .user _ (.verifyChangePassword _) => [.changePassword]
  | .user _ (.invite _) => [.inviteUser]
  | .user _ (.enable2faVerify _) | .user _ (.disable2faVerify _) => [.verificationRequired]
  | .user _ (.investInitiate _) => [.invest]
  | .user _ (.investVerify _ _) => [.invest, .verificationRequired]
  | _ => []

/-- The validator of a new user leaves the body with its referral decoded. -/
def received (site : Site) (req : Validation.Request) : Request → Validation.Request
  | .create _ => Validation.decodeReferral site req
  | _ => req

/-! ## Properties -/

abbrev Body : Type := List (String × Value)

namespace Body

variable (body : Body)

def text (key : String) : Option String :=
  match body.lookup key with
  | some (.string text) => some text
  | _ => none

/-- `some none` where there is no such property. -/
def textIfAny (key : String) : Option (Option String) :=
  match body.lookup key with
  | some (.string text) => some (some text)
  | some _ => none
  | none => some none

def boolean (key : String) : Option Bool :=
  match body.lookup key with
  | some (.boolean value) => some value
  | _ => none

def texts (key : String) : Option (List String) :=
  match body.lookup key with
  | some (.array items) => items.mapM fun
      | .string text => some text
      | _ => none
  | _ => none

/-- As `toString` renders it. -/
def rendered (key : String) : Option String :=
  match body.lookup key with
  | some (.number literal) => some literal
  | some (.string text) => some text
  | _ => none

def renderedIfAny (key : String) : Option (Option String) :=
  match body.lookup key with
  | some (.number literal) => some (some literal)
  | some (.string text) => some (some text)
  | some _ => none
  | none => some none

def entries (key : String) : Option Body :=
  match body.lookup key with
  | some (.object entries) => some entries
  | _ => none

/-! ## Inputs -/

def userData : Option UserData := do
  return {
    email := ← body.text "email"
    firstName := ← body.text "firstName"
    lastName := ← body.text "lastName"
    phone := ← body.textIfAny "phone"
    country := ← body.text "country"
    dob := ← body.text "dob"
    agreeTos := ← body.boolean "agreeTos"
    referral := ← body.textIfAny "referral"
    source := ← body.textIfAny "source"
    scope := ← body.textIfAny "scope"
    password := ← body.text "password" }

def activationUserData : Option ActivationUserData := do
  return {
    email := ← body.text "email"
    verificationId := ← body.text "verificationId"
    code := ← body.text "code" }

def verificationData : Option VerificationData := do
  let verification ← body.entries "verification"
  return {
    verificationId := ← verification.text "verificationId"
    code := ← verification.text "code"
    method := ← verification.text "method" }

def loginVerification : Option LoginVerification := do
  let verification ← body.entries "verification"
  return {
    id := ← verification.text "id"
    code := ← verification.text "code"
    method := ← verification.text "method" }

/-- The input, or `none` where there is no such property. -/
def ifAny {α : Type} (key : String) (input : Option α) : Option (Option α) :=
  match body.lookup key with
  | some _ => input.map some
  | none => some none

def verifyLoginInput : Option VerifyLoginInput := do
  return {
    accessToken := ← body.text "accessToken"
    verification := ← body.ifAny "verification" body.loginVerification }

def changePasswordInput : Option ChangePasswordInput := do
  return {
    oldPassword := ← body.text "oldPassword"
    newPassword := ← body.text "newPassword"
    verification := ← body.ifAny "verification" body.verificationData }

def resetPasswordInput : Option ResetPasswordInput := do
  return {
    email := ← body.text "email"
    password := ← body.text "password"
    verification := ← body.verificationData }

def investBody : Option InvestBody := do
  return {
    ethAmount := ← body.rendered "ethAmount"
    mnemonic := ← body.text "mnemonic"
    gas := ← body.renderedIfAny "gas"
    gasPrice := ← body.renderedIfAny "gasPrice" }

/-- The services are called with what they read from the body. -/
def Reads : Request → Prop
  | .create userData => body.userData = some userData
  | .resendVerification email | .initiateResetPassword email => body.text "email" = some email
  | .activate activationData => body.activationUserData = some activationData
  | .initiateLogin email password _ =>
      body.text "email" = some email ∧ body.text "password" = some password
  | .verifyLogin inputData => body.verifyLoginInput = some inputData
  | .verifyResetPassword params => body.resetPasswordInput = some params
  | .user _ (.initiateChangePassword oldPassword) => body.text "oldPassword" = some oldPassword
  | .user _ (.verifyChangePassword params) => body.changePasswordInput = some params
  | .user _ (.invite emails) => body.texts "emails" = some emails
  | .user _ (.enable2faVerify verification) | .user _ (.disable2faVerify verification) =>
      body.verificationData = some verification
  | .user _ (.investInitiate invest) => body.investBody = some invest
  | .user _ (.investVerify invest verification) =>
      body.investBody = some invest ∧ body.verificationData = some verification
  | _ => True

variable {body}

theorem text_eq_some {key text : String} :
    body.text key = some text ↔ body.lookup key = some (.string text) := by
  unfold Body.text
  split
  · rename_i found
    simp [found]
  · rename_i other
    simp only [reduceCtorEq, false_iff]
    exact other text

theorem userData_read {userData : UserData} (read : body.userData = some userData) :
    body.text "password" = some userData.password ∧ body.textIfAny "phone" = some userData.phone := by
  simp only [Body.userData, Option.bind_eq_bind, Option.bind_eq_some_iff, Option.pure_def,
    Option.some.injEq] at read
  obtain ⟨_, _, _, _, _, _, phone, given, _, _, _, _, _, _, _, _, _, _, _, _, password, sent, rfl⟩ := read
  exact ⟨sent, given⟩

theorem resetPasswordInput_read {params : ResetPasswordInput}
    (read : body.resetPasswordInput = some params) : body.text "password" = some params.password := by
  simp only [Body.resetPasswordInput, Option.bind_eq_bind, Option.bind_eq_some_iff, Option.pure_def,
    Option.some.injEq] at read
  obtain ⟨_, _, password, sent, _, _, rfl⟩ := read
  exact sent

theorem changePasswordInput_read {params : ChangePasswordInput}
    (read : body.changePasswordInput = some params) :
    body.text "newPassword" = some params.newPassword := by
  simp only [Body.changePasswordInput, Option.bind_eq_bind, Option.bind_eq_some_iff, Option.pure_def,
    Option.some.injEq] at read
  obtain ⟨_, _, password, sent, _, _, rfl⟩ := read
  exact sent

end Body

end IcoDashboard.Backend
