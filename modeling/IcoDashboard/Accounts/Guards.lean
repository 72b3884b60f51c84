import IcoDashboard.Accounts.Requests

namespace IcoDashboard.Accounts

open IcoDashboard.Async IcoDashboard.Async.Program IcoDashboard.Data

/-! # What the requests may do

One guard for each external call, in terms of the request and of the calls it
has made before.  Every handler is shown to keep it; the properties of runs are
derived from it.
-/

abbrev AccountTrace : Type := Trace Op Ans Exception

/-! ## The acting user -/

/-- The first investor a request loads, with the query that found it. -/
def acting : AccountTrace → Option (InvestorQuery × Doc ObjectID Investor)
  | [] => none
  | ⟨.findInvestor query, .ok (some user)⟩ :: _ => some (query, user)
  | _ :: rest => acting rest

theorem acting_append {trace : AccountTrace} {query : InvestorQuery} {user : Doc ObjectID Investor}
    (acts : acting trace = some (query, user)) (rest : AccountTrace) :
    acting (trace ++ rest) = some (query, user) := by
  induction trace with
  | nil => cases acts
  | cons call calls ih =>
      unfold acting at acts
      split at acts
      · cases acts
      · rename_i found
        cases found
        exact acts
      · rename_i other found
        cases found
        rw [List.cons_append, acting]
        · exact ih acts
        · exact other

theorem mem_of_acting {trace : AccountTrace} {query : InvestorQuery} {user : Doc ObjectID Investor}
    (acts : acting trace = some (query, user)) :
    ⟨.findInvestor query, .ok (some user)⟩ ∈ trace := by
  induction trace with
  | nil => cases acts
  | cons call calls ih =>
      unfold acting at acts
      split at acts
      · cases acts
      · rename_i found
        cases found
        cases acts
        exact List.mem_cons_self
      · rename_i found
        cases found
        exact List.mem_cons_of_mem _ (ih acts)

theorem acting_extended {trace later : AccountTrace}
    {found : InvestorQuery × Doc ObjectID Investor} (extended : trace <+: later)
    (acts : acting trace = some found) : acting later = some found := by
  obtain ⟨rest, rfl⟩ := extended
  exact acting_append acts rest

theorem acting_later {trace later : AccountTrace} {query : InvestorQuery}
    {user : Doc ObjectID Investor} (unloaded : acting trace = none)
    (acts : acting (trace ++ later) = some (query, user)) :
    ⟨.findInvestor query, .ok (some user)⟩ ∈ later := by
  induction trace with
  | nil => exact mem_of_acting acts
  | cons call calls ih =>
      unfold acting at unloaded
      split at unloaded
      · rename_i impossible
        cases impossible
      · cases unloaded
      · rename_i other found
        cases found
        rw [List.cons_append, acting] at acts
        · exact ih unloaded acts
        · exact other

/-! ## Purposes of verifications -/

inductive Purpose where
  | activate | login | changePassword | resetPassword | enable2fa | disable2fa
  | invest (ethAmount : String)
deriving DecidableEq, Repr

def Purpose.payload : Purpose → Json.Object
  | .activate => UserService.scopePayload UserService.activateUserScope
  | .login => UserService.scopePayload UserService.loginUserScope
  | .changePassword => UserService.scopePayload UserService.changePasswordScope
  | .resetPassword => UserService.scopePayload UserService.resetPasswordScope
  | .enable2fa => UserService.scopePayload UserService.enable2faScope
  | .disable2fa => UserService.scopePayload UserService.disable2faScope
  | .invest ethAmount => DashboardController.investPayload ethAmount

theorem Purpose.payload_injective : Function.Injective Purpose.payload := by
  intro first second same
  cases first <;> cases second <;>
    simp_all [Purpose.payload, UserService.scopePayload, DashboardController.investPayload,
      UserService.activateUserScope, UserService.loginUserScope, UserService.changePasswordScope,
      UserService.resetPasswordScope, UserService.enable2faScope, UserService.disable2faScope]

/-- What a request initiates a verification for. -/
def Request.initiates : Request → Option Purpose
  | .create _ => some .activate
  | .resendVerification _ => some .activate
  | .initiateLogin _ _ _ => some .login
  | .initiateResetPassword _ => some .resetPassword
  | .user _ (.initiateChangePassword _) => some .changePassword
  | .user _ .enable2faInitiate => some .enable2fa
  | .user _ .disable2faInitiate => some .disable2fa
  | .user _ (.investInitiate body) => some (.invest body.ethAmount)
  | _ => none

/-- What a request completes a verification for. -/
def Request.completes : Request → Option Purpose
  | .activate _ => some .activate
  | .verifyLogin _ => some .login
  | .verifyResetPassword _ => some .resetPassword
  | .user _ (.verifyChangePassword _) => some .changePassword
  | .user _ (.enable2faVerify _) => some .enable2fa
  | .user _ (.disable2faVerify _) => some .disable2fa
  | .user _ (.investVerify body _) => some (.invest body.ethAmount)
  | _ => none

variable (app : App)

/-- The consumer of a verification is the email of the user, up to case. -/
def IsConsumer (query : InvestorQuery) (user : Doc ObjectID Investor) (consumer : String) : Prop :=
  app.toLowerCase consumer = app.toLowerCase user.val.email ∨
    query = .email (app.toLowerCase consumer)

/-- The user a request acts for. -/
def ActsFor (request : Request) (trace : AccountTrace) (consumer : String) : Prop :=
  match request with
  | .create userData => consumer = app.toLowerCase userData.email
  | _ => ∃ query user, acting trace = some (query, user) ∧ IsConsumer app query user consumer

/-! ## The guards -/

def GuardInitiate (request : Request) (trace : AccountTrace) (data : InitiateData) : Prop :=
  ∃ purpose, request.initiates = some purpose ∧ data.payload = purpose.payload ∧
    ActsFor app request trace data.consumer

/-- A verification is validated only after its consumer and payload were
compared with those of the request. -/
def GuardValidate (request : Request) (trace : AccountTrace) (method id : String) : Prop :=
  ∃ purpose verification, request.completes = some purpose ∧
    ⟨.getVerifier method id, .ok verification⟩ ∈ trace ∧
    verification.data.payload = purpose.payload ∧
    ∃ query user, acting trace = some (query, user) ∧
      IsConsumer app query user verification.data.consumer

def Validated (trace : AccountTrace) (method id : String) : Prop :=
  ∃ input result, ⟨.validate method id input, .ok result⟩ ∈ trace

theorem Validated.extended {trace later : AccountTrace} {method id : String}
    (extended : trace <+: later) (validated : Validated trace method id) :
    Validated later method id := by
  obtain ⟨input, result, member⟩ := validated
  exact ⟨input, result, extended.subset member⟩

theorem validated_now {trace : AccountTrace} {method id : String}
    {input : ValidateVerificationInput} {result : ValidationResult} :
    Validated (trace ++ [⟨.validate method id input, .ok result⟩]) method id :=
  ⟨input, result, by simp⟩

/-- A user is logged in after a code was validated, or, to get one, with the
password of an activated account. -/
def GuardLoginUser (request : Request) (trace : AccountTrace) (login : String) : Prop :=
  ∃ query user, acting trace = some (query, user) ∧
  match request with
  | .activate activationData => login = user.val.email ∧
      Validated trace emailVerification activationData.verificationId
  | .user _ (.verifyChangePassword params) => login = app.toLowerCase user.val.email ∧
      app.compareSync params.oldPassword user.val.passwordHash = some true ∧
      ∃ verification, params.verification = some verification ∧
        Validated trace verification.method verification.verificationId
  | .initiateLogin _ password _ => login = app.toLowerCase user.val.email ∧
      user.val.isVerified = true ∧ app.compareSync password user.val.passwordHash = some true
  | _ => False

/-- A login that was not verified yet leaves a token with the verification it
initiated. -/
def GuardInsertToken (request : Request) (trace : AccountTrace) (token : VerifiedToken) : Prop :=
  (∃ data, ⟨.loginUser data, .ok ⟨token.token⟩⟩ ∈ trace) ∧
  match request with
  | .initiateLogin _ _ _ => token.verified = false ∧ ∃ method data result,
      ⟨.initiate method data, .ok result⟩ ∈ trace ∧
        token.verification.map Verification.id = some result.verificationId
  | _ => True

/-- A token is only ever saved to verify it, after its own verification was
validated. -/
def GuardSaveToken (request : Request) (trace : AccountTrace)
    (token : Doc ObjectID VerifiedToken) : Prop :=
  ∃ inputData input stored, request = .verifyLogin inputData ∧ inputData.verification = some input ∧
    ⟨.findToken (some inputData.accessToken), .ok (some stored)⟩ ∈ trace ∧
    token = stored.modify (fun stored => { stored with verified := true }) ∧
    stored.val.verified = false ∧
    stored.val.verification.map Verification.id = some input.id ∧
    Validated trace input.method input.id

/-- The wallet an activation creates. -/
def activatedWallet (draws : Draws) : Wallet where
  ticker := "ETH"
  address := (app.getAccountByMnemonicAndSalt draws.mnemonic draws.salt).2
  balance := "0"
  salt := draws.salt

/-- The same wallet as its owner gets it. -/
def returnedWallet (draws : Draws) : NewWallet where
  address := (activatedWallet app draws).address
  mnemonic := draws.mnemonic
  privateKey := (app.getAccountByMnemonicAndSalt draws.mnemonic draws.salt).1

/-- What each request changes of the investor it loaded. -/
def Changes (draws : Draws) (loaded saved : Investor) : Request → Prop
  | .resendVerification _ => loaded.isVerified = false ∧
      ∃ verification, saved = { loaded with verification }
  | .activate _ => loaded.isVerified = false ∧ ∃ kycInitResult, saved = { loaded with
      ethWallet := some (activatedWallet app draws), kycInitResult := some kycInitResult,
      isVerified := true }
  | .verifyResetPassword params =>
      saved = { loaded with passwordHash := app.hashSync draws.hashSalt params.password }
  | .kycCallback (.shuftipro _) => loaded.kycStatus ≠ .verified ∧
      (saved = loaded ∨ ∃ kycStatus kycResult, saved = { loaded with
        kycStatus, kycInitResult := some (.shuftiproKyc kycResult) })
  | .kycCallback (.jumio _) => loaded.kycStatus ≠ .verified ∧
      ∃ kycStatus, saved = { loaded with kycStatus }
  | .kycUploaded _ _ => loaded.kycStatus = .notVerified ∧ saved = { loaded with kycStatus := .pending }
  | .user _ (.verifyChangePassword params) =>
      saved = { loaded with passwordHash := app.hashSync draws.hashSalt params.newPassword }
  | .user _ (.invite _) => ∃ invitees, saved = { loaded with invitees }
  | .user _ (.enable2faVerify _) =>
      saved = { loaded with defaultVerificationMethod := authenticatorVerification }
  | .user _ (.disable2faVerify _) =>
      saved = { loaded with defaultVerificationMethod := emailVerification }
  | .user _ .kycInit => ∃ kycInitResult, saved = { loaded with kycInitResult := some kycInitResult }
  | .user _ .kycReinit => ∃ kycInitResult, saved = { loaded with kycInitResult := some kycInitResult }
  | _ => False

/-- No request changes an email. -/
theorem Changes.email {draws : Draws} {loaded saved : Investor} {request : Request}
    (changes : Changes app draws loaded saved request) : saved.email = loaded.email := by
  unfold Changes at changes
  split at changes <;> grind

/-- Only an activation changes the wallet or verifies an investor. -/
theorem Changes.wallet {draws : Draws} {loaded saved : Investor} {request : Request}
    (changes : Changes app draws loaded saved request) :
    (saved.isVerified = loaded.isVerified ∧ saved.ethWallet = loaded.ethWallet) ∨
      (loaded.isVerified = false ∧ saved.isVerified = true ∧
        saved.ethWallet = some (activatedWallet app draws)) := by
  unfold Changes at changes
  split at changes <;> grind

def GuardSaveInvestor (arrival : Arrival) (trace : AccountTrace)
    (investor : Doc ObjectID Investor) : Prop :=
  ∃ query user, acting trace = some (query, user) ∧ investor.id = user.id ∧
    Changes app arrival.draws user.val investor.val arrival.request

def GuardInsertInvestor (request : Request) (investor : Investor) : Prop :=
  ∃ userData passwordHash verificationId, request = .create userData ∧
    investor = Investor.createInvestor app userData passwordHash verificationId

/-- The signed transaction carries the amount of the verified request. -/
def GuardSendTransaction (request : Request) (trace : AccountTrace) (input : TransactionInput) :
    Prop :=
  ∃ authorization body verification,
    request = .user authorization (.investVerify body verification) ∧
    input.amount = body.ethAmount ∧ Validated trace verification.method verification.verificationId

/-- Only a callback puts an address on the whitelist. -/
def GuardWhitelist (request : Request) : Prop := ∃ body, request = .kycCallback body

/-- The requests that write a record of the auth service. -/
def Request.recreates : Request → Bool
  | .create _ | .verifyResetPassword _ | .user _ (.verifyChangePassword _) => true
  | _ => false

def Guard (arrival : Arrival) (trace : AccountTrace) : Op → Prop
  | .initiate _ data => GuardInitiate app arrival.request trace data
  | .resend _ data => GuardInitiate app arrival.request trace data
  | .validate method id _ => GuardValidate app arrival.request trace method id
  | .loginUser data => GuardLoginUser app arrival.request trace data.login
  | .insertToken token => GuardInsertToken arrival.request trace token
  | .saveToken token => GuardSaveToken arrival.request trace token
  | .insertInvestor investor => GuardInsertInvestor app arrival.request investor
  | .saveInvestor investor => GuardSaveInvestor app arrival trace investor
  | .sendTransactionByMnemonic input _ _ => GuardSendTransaction arrival.request trace input
  | .addAddressToWhiteList _ => GuardWhitelist arrival.request
  | .createUser _ => arrival.request.recreates = true
  | _ => True

/-- An activation returns the wallet it stored. -/
def Finishes (arrival : Arrival) (trace : AccountTrace) : Response → Prop
  | .activated result => ∃ activationData user investor,
      arrival.request = .activate activationData ∧
      acting trace = some (.email (app.toLowerCase activationData.email), user) ∧
      ⟨.saveInvestor investor, .ok ()⟩ ∈ trace ∧ investor.id = user.id ∧
      investor.val.ethWallet = some (activatedWallet app arrival.draws) ∧
      result.wallets = [returnedWallet app arrival.draws]
  | _ => True

def Throws (_ : AccountTrace) (_ : Exception) : Prop := True

end IcoDashboard.Accounts
