import IcoDashboard.Accounts.Verifications
import IcoDashboard.Async.Observation
import IcoDashboard.Accounts.Authentication

namespace IcoDashboard.Accounts

open IcoDashboard.Async IcoDashboard.Async.Program IcoDashboard.Data

/-! # Refused requests

What a request has done when it ends with an error.  The error handler answers
the classes of `exceptions.ts` with a client status; a request that is refused
with one of these on its own account has not yet stored, sent or ordered
anything.
-/

/-- The status that the error handler answers. -/
def ErrorHandler.status : ErrorClass → Nat
  | .kycFailedError | .kycAlreadyVerifiedError | .kycPendingError | .insufficientEthBalance
  | .authenticatorError => 400
  | .invalidPassword | .userNotActivated | .userActivated => 403
  | .verificationIsNotFound | .userNotFound => 404
  | .userExists | .notCorrectVerificationCode | .referralDoesNotExist | .inviteIsNotAllowed
  | .maxVerificationsAttemptsReached | .incorrectMnemonic | .referralIsNotActivated => 422
  | .tokenNotFound | .kycShuftiProInvalidSignature | .error | .typeError | .request | .mongo => 500

/-- Calls that store, send and order nothing; a code may be tried. -/
def Op.quiet : Op → Bool
  | .findInvestor _ | .findToken _ | .findKycResult _ => true
  | .getVerifier _ _ | .validate _ _ _ | .invalidate _ _ => true
  | .verifyUserToken _ | .isAllowed _ | .getReferralOf _ => true
  | .getCurrentGasPrice | .sufficientBalance _ | .shuftiproStatus _ | .renderTemplate _ _ => true
  | _ => false

/-- A quiet call changes at most what is known of the verifications. -/
theorem quiet_frame {op : Op} (quiet : op.quiet = true) (choice : Choice) (world : World) :
    Frame (some .verifiers) world (perform choice op world).2 := by
  have frame := perform_frame choice op world
  have parts : op.part = none ∨ op.part = some .verifiers := by
    cases op <;> first | exact .inl rfl | exact .inr rfl | cases quiet
  rcases parts with none | verifiers
  · rw [none] at frame
    exact ⟨fun _ => frame.investors nofun, fun _ => frame.tokens nofun, fun _ => frame.kycResults nofun,
      fun _ => frame.verifiers nofun, fun _ => frame.issued nofun⟩
  · rwa [verifiers] at frame

/-- Whether all calls were quiet, and the rejections they were given. -/
structure Doings where
  quiet : Bool := true
  rejections : List Exception := []

def Doings.observe (doings : Doings) (op : Op) : Except Exception (Ans op) → Doings
  | .ok _ => { doings with quiet := doings.quiet && op.quiet }
  | .error error =>
      { quiet := doings.quiet && op.quiet, rejections := doings.rejections ++ [error] }

/-- An error that a request ends with: a rejection that one of its calls was
given, one that is answered with 500, or one that it throws while all its calls
were quiet. -/
def Doings.Allows (doings : Doings) (error : Exception) : Prop :=
  error ∈ doings.rejections ∨ ErrorHandler.status error.constructor = 500 ∨ doings.quiet = true

/-- The handler ends only with such errors. -/
abbrev Refuses {α : Type} (handler : Handler α) (doings : Doings) : Prop :=
  handler.Observed Doings.observe (fun _ _ => True) Doings.Allows doings

variable {app : App} {doings : Doings}

theorem Refuses.after {α : Type} {handler : Handler α} {onDone : Doings → α → Prop}
    (refuses : Refuses handler doings) (rest : ∀ later value, onDone later value) :
    handler.Observed Doings.observe onDone Doings.Allows doings :=
  refuses.mono (fun later value _ => rest later value) fun _ _ allowed => allowed

/-! ## The handlers -/

section Clients

theorem request_refuses (op : Op) : Refuses (request op) doings := by
  simp [request, call, Doings.observe, Doings.Allows]

theorem findInvestor_refuses {onDone : Doings → Doc ObjectID Investor → Prop} {query : InvestorQuery}
    {missing : Exception} (quiet : doings.quiet = true)
    (done : ∀ later user, later.quiet = true → onDone later user) :
    (findInvestor query missing).Observed Doings.observe onDone Doings.Allows doings := by
  simp only [findInvestor, request, call, Observed.bind_iff, Observed.await_iff, Observed.done_iff,
    Observed.fail_iff, Observed.orThrow_iff]
  have still : (doings.quiet && (Op.findInvestor query).quiet) = true := by simp [Op.quiet, quiet]
  exact ⟨fun _ => ⟨fun user _ => done _ user still, fun _ => .inr (.inr still)⟩,
    fun error => .inl (by simp [Doings.observe])⟩

theorem getRenderedTemplate_refuses (name : String) (data : List (String × String)) :
    Refuses (EmailTemplateService.getRenderedTemplate app name data) doings := by
  simp [EmailTemplateService.getRenderedTemplate, request, call, Doings.observe, Doings.Allows]

/-- A verification is checked with quiet calls. -/
theorem checkVerificationPayloadAndCode_refuses {onDone : Doings → ValidationResult → Prop}
    (input : VerificationData) (consumer : String) (payload : Json.Object)
    (removeSecret : Option Bool) (quiet : doings.quiet = true)
    (done : ∀ later result, later.quiet = true → onDone later result) :
    (VerificationClient.checkVerificationPayloadAndCode app input consumer payload
      removeSecret).Observed Doings.observe onDone Doings.Allows doings := by
  simp [VerificationClient.checkVerificationPayloadAndCode, VerificationClient.getVerification,
    VerificationClient.validateVerification, VerificationClient.invalidateVerification, request, call,
    Doings.observe, Doings.Allows, Op.quiet, quiet, done]

theorem notify_refuses (name : String) (data : List (String × String)) (mail : String → Mail) :
    Refuses (notify app name data mail) doings := by
  simp [notify, EmailTemplateService.getRenderedTemplate, fire, request, call, Doings.observe,
    Doings.Allows]

theorem initiateVerification_refuses (method : String) (data : InitiateData) :
    Refuses (VerificationClient.initiateVerification app method data) doings := by
  simp [VerificationClient.initiateVerification, request, call, Doings.observe, Doings.Allows]

/-- The KYC errors of an activation are answered with 500. -/
theorem shuftiproInit_refuses (user : Doc ObjectID Investor) (draws : Draws) :
    Refuses (ShuftiproProvider.init app user draws) doings := by
  simp [ShuftiproProvider.init, ShuftiproProvider.localInitKycProcess,
    ShuftiproProvider.saveKycInitResult, ShuftiproProvider.invalidSignature, error, request, call,
    Doings.observe, Doings.Allows, ErrorHandler.status]

theorem kycInit_refuses (user : Doc ObjectID Investor) (draws : Draws) :
    Refuses (KycProvider.init app user draws) doings := by
  unfold KycProvider.init
  split
  · simpa using shuftiproInit_refuses user draws
  · simp [JumioProvider.init, request, call, Doings.observe, Doings.Allows]

end Clients

section UserService

theorem create_refuses (userData : UserData) (draws : Draws) :
    Refuses (UserService.create app userData draws) {} := by
  cases given : userData.referral <;>
    simp [UserService.create, UserService.checkReferral, given, findInvestor,
      EmailTemplateService.getRenderedTemplate, VerificationClient.initiateVerification, request, call,
      Doings.observe, Doings.Allows, Op.quiet]

theorem resendVerification_refuses (email : String) :
    Refuses (UserService.resendVerification app email) {} := by
  simp [UserService.resendVerification, UserService.findUser, findInvestor,
    EmailTemplateService.getRenderedTemplate, VerificationClient.resendVerification, request, call,
    Doings.observe, Doings.Allows, Op.quiet]

theorem initiateLogin_refuses (email password ip : String) (draws : Draws) :
    Refuses (UserService.initiateLogin app email password ip draws) {} := by
  simp [UserService.initiateLogin, UserService.findUser, findInvestor,
    EmailTemplateService.getRenderedTemplate, VerificationClient.initiateVerification, request, call,
    Doings.observe, Doings.Allows, Op.quiet]

theorem verifyLogin_refuses (inputData : VerifyLoginInput) (draws : Draws) :
    Refuses (UserService.verifyLogin app inputData draws) {} := by
  simp [UserService.verifyLogin, UserService.findUser, findInvestor, typeError, error, request, call,
    Doings.observe, Doings.Allows, Op.quiet, ErrorHandler.status]
  intro _ token _ verification _ input _ _ _ _ user _
  exact checkVerificationPayloadAndCode_refuses _ _ _ _ rfl fun _ _ _ _ => notify_refuses _ _ _

theorem addReferral_refuses (address : String) (referral : Option String) :
    Refuses (UserService.addReferral app address referral) doings := by
  cases referral <;>
    simp [UserService.addReferral, typeError, request, call, Doings.observe, Doings.Allows,
      ErrorHandler.status]

theorem storeActivation_refuses (user : Doc ObjectID Investor) :
    Refuses (UserService.storeActivation user) doings := by
  simp [UserService.storeActivation, request, call, Doings.observe, Doings.Allows]

theorem notifyActivation_refuses (user : Investor) (address : String) :
    Refuses (UserService.notifyActivation app user address) doings := by
  simp only [UserService.notifyActivation, Refuses, Observed.bind_iff]
  refine (notify_refuses _ _ _).after fun _ _ => ?_
  unfold UserService.sendTestFunds
  split <;> simp [fire]

theorem activate_refuses (activationData : ActivationUserData) (draws : Draws) :
    Refuses (UserService.activate app activationData draws) {} := by
  simp only [UserService.activate, UserService.findUser, findInvestor, error, request, call,
    Observed.bind_iff, Observed.await_iff, Observed.done_iff, Observed.fail_iff, Observed.orThrow_iff,
    Observed.throwIf_iff]
  refine ⟨fun _ => ⟨fun user _ => ⟨fun _ => .inr (.inl rfl), fun _ => ?_⟩, fun _ => .inr (.inr rfl)⟩,
    fun error => .inl (by simp [Doings.observe])⟩
  refine checkVerificationPayloadAndCode_refuses _ _ _ _ rfl fun later result _ => ?_
  refine (addReferral_refuses _ _).after fun _ _ => (kycInit_refuses _ _).after fun _ _ => ?_
  exact (storeActivation_refuses _).after fun _ _ => (notifyActivation_refuses _ _).after fun _ _ => trivial

theorem initiateChangePassword_refuses (user : Doc ObjectID Investor) (oldPassword : String)
    (quiet : doings.quiet = true) :
    Refuses (UserService.initiateChangePassword app user oldPassword) doings := by
  simp [UserService.initiateChangePassword, EmailTemplateService.getRenderedTemplate,
    VerificationClient.initiateVerification, request, call, Doings.observe, Doings.Allows, quiet]

/-- After its save, a password change is only ended by a rejection. -/
theorem verifyChangePassword_refuses (user : Doc ObjectID Investor) (params : ChangePasswordInput)
    (draws : Draws) (quiet : doings.quiet = true) :
    Refuses (UserService.verifyChangePassword app user params draws) doings := by
  simp only [UserService.verifyChangePassword, Observed.bind_iff, Observed.throwIf_iff,
    Observed.orThrow_iff]
  refine ⟨fun passwordMatch _ => ⟨fun _ => .inr (.inr quiet), fun _ => ⟨fun verification _ => ?_,
    fun _ => .inr (.inl rfl)⟩⟩, fun _ => .inr (.inl rfl)⟩
  refine checkVerificationPayloadAndCode_refuses _ _ _ _ quiet fun later result _ => ?_
  refine Refuses.after (request_refuses _) fun _ _ => (notify_refuses _ _ _).after fun _ _ => ?_
  refine Refuses.after (request_refuses _) fun _ _ => Refuses.after (request_refuses _) fun _ _ => ?_
  exact Refuses.after (request_refuses _) fun _ _ => trivial

theorem initiateResetPassword_refuses (email : String) :
    Refuses (UserService.initiateResetPassword app email) {} := by
  simp [UserService.initiateResetPassword, UserService.findUser, findInvestor,
    EmailTemplateService.getRenderedTemplate, VerificationClient.initiateVerification, request, call,
    Doings.observe, Doings.Allows, Op.quiet]

theorem verifyResetPassword_refuses (params : ResetPasswordInput) (draws : Draws) :
    Refuses (UserService.verifyResetPassword app params draws) {} := by
  simp only [UserService.verifyResetPassword, UserService.findUser, Observed.bind_iff]
  refine findInvestor_refuses rfl fun later user quiet => ?_
  refine checkVerificationPayloadAndCode_refuses _ _ _ _ quiet fun later result _ => ?_
  refine Refuses.after (request_refuses _) fun _ _ => Refuses.after (request_refuses _) fun _ _ => ?_
  exact (notify_refuses _ _ _).after fun _ _ => trivial

theorem checkNotRegistered_refuses {onDone : Doings → Unit → Prop} (emails : List String)
    (quiet : doings.quiet = true) (done : ∀ later, later.quiet = true → onDone later ()) :
    (UserService.checkNotRegistered app emails).Observed Doings.observe onDone Doings.Allows
      doings := by
  induction emails generalizing doings with
  | nil => exact done doings quiet
  | cons email rest ih =>
      simp only [UserService.checkNotRegistered, request, call, Observed.bind_iff, Observed.await_iff,
        Observed.done_iff, Observed.fail_iff, Observed.throwIf_iff]
      refine ⟨fun found => ⟨fun _ => .inr (.inr (by simp [Doings.observe, Op.quiet, quiet])), fun _ => ?_⟩,
        fun error => .inl (by simp [Doings.observe])⟩
      exact ih (by simp [Doings.observe, Op.quiet, quiet])

theorem sendInvites_refuses (user : Investor) (emails : List String) :
    Refuses (UserService.sendInvites app user emails) doings := by
  induction emails generalizing doings with
  | nil => trivial
  | cons email rest ih =>
      simp only [UserService.sendInvites, Refuses, Observed.bind_iff]
      refine (getRenderedTemplate_refuses _ _).after fun _ _ => ?_
      exact Refuses.after (by simp [fire]) fun _ _ => ih

theorem invite_refuses (user : Doc ObjectID Investor) (emails : List String) (draws : Draws)
    (quiet : doings.quiet = true) : Refuses (UserService.invite app user emails draws) doings := by
  simp only [UserService.invite, Observed.bind_iff]
  refine checkNotRegistered_refuses emails quiet fun later quiet => ?_
  split
  · exact .inr (.inr quiet)
  · simp only [Observed.bind_iff]
    refine (sendInvites_refuses _ _).after fun _ _ => ?_
    exact Refuses.after (request_refuses _) fun _ _ => trivial

theorem initiate2fa_refuses (user : Investor) (scope : String) :
    Refuses (UserService.initiate2faVerification app user scope) doings :=
  initiateVerification_refuses _ _

theorem initiateEnable2fa_refuses (user : Doc ObjectID Investor) (quiet : doings.quiet = true) :
    Refuses (UserService.initiateEnable2fa app user) doings := by
  simp only [UserService.initiateEnable2fa, Refuses, Observed.bind_iff, Observed.throwIf_iff]
  exact ⟨fun _ => .inr (.inr quiet), fun _ => initiate2fa_refuses _ _⟩

theorem initiateDisable2fa_refuses (user : Doc ObjectID Investor) (quiet : doings.quiet = true) :
    Refuses (UserService.initiateDisable2fa app user) doings := by
  simp only [UserService.initiateDisable2fa, Refuses, Observed.bind_iff, Observed.throwIf_iff]
  exact ⟨fun _ => .inr (.inr quiet), fun _ => initiate2fa_refuses _ _⟩

theorem verifyEnable2fa_refuses (user : Doc ObjectID Investor) (verification : VerificationData)
    (quiet : doings.quiet = true) :
    Refuses (UserService.verifyEnable2fa app user verification) doings := by
  simp only [UserService.verifyEnable2fa, Refuses, Observed.bind_iff, Observed.throwIf_iff]
  refine ⟨fun _ => .inr (.inr quiet), fun _ => ?_⟩
  refine checkVerificationPayloadAndCode_refuses _ _ _ _ quiet fun later result _ => ?_
  exact Refuses.after (request_refuses _) fun _ _ => trivial

theorem verifyDisable2fa_refuses (user : Doc ObjectID Investor) (verification : VerificationData)
    (quiet : doings.quiet = true) :
    Refuses (UserService.verifyDisable2fa app user verification) doings := by
  simp only [UserService.verifyDisable2fa, Refuses, Observed.bind_iff, Observed.throwIf_iff]
  refine ⟨fun _ => .inr (.inr quiet), fun _ => ?_⟩
  refine checkVerificationPayloadAndCode_refuses _ _ _ _ quiet fun later result _ => ?_
  exact Refuses.after (request_refuses _) fun _ _ => trivial

theorem getUserInfo_refuses (user : Doc ObjectID Investor) :
    Refuses (UserService.getUserInfo app user) doings := by
  simp [UserService.getUserInfo, typeError, Doings.Allows, ErrorHandler.status]

end UserService

section Investing

theorem checkMnemonic_refuses {onDone : Doings → Wallet → Prop} (user : Investor) (mnemonic : String)
    (quiet : doings.quiet = true) (done : ∀ wallet, onDone doings wallet) :
    (DashboardController.checkMnemonic app user mnemonic).Observed Doings.observe onDone Doings.Allows
      doings := by
  simp [DashboardController.checkMnemonic, Doings.Allows, quiet, done]

theorem checkReferralOf_refuses {onDone : Doings → Unit → Prop} (address : String)
    (referral : Option String) (quiet : doings.quiet = true)
    (done : ∀ later, later.quiet = true → onDone later ()) :
    (DashboardController.checkReferralOf app address referral).Observed Doings.observe onDone
      Doings.Allows doings := by
  cases referral <;>
    simp [DashboardController.checkReferralOf, request, call, Doings.observe, Doings.Allows, Op.quiet,
      quiet, done]

theorem checkAllowed_refuses {onDone : Doings → Unit → Prop} (address : String)
    (quiet : doings.quiet = true) (done : ∀ later, later.quiet = true → onDone later ()) :
    (DashboardController.checkAllowed app address).Observed Doings.observe onDone Doings.Allows
      doings := by
  simp [DashboardController.checkAllowed, request, call, Doings.observe, Doings.Allows, Op.quiet,
    quiet, done]

theorem gasPrice_refuses {onDone : Doings → String → Prop} (body : InvestBody)
    (quiet : doings.quiet = true) (done : ∀ later price, later.quiet = true → onDone later price) :
    (DashboardController.gasPrice body).Observed Doings.observe onDone Doings.Allows doings := by
  cases given : body.gasPrice <;>
    simp [DashboardController.gasPrice, given, request, call, Doings.observe, Doings.Allows, Op.quiet,
      quiet, done]

theorem investInitiate_refuses (user : Doc ObjectID Investor) (body : InvestBody)
    (quiet : doings.quiet = true) :
    Refuses (DashboardController.investInitiate app user body) doings := by
  simp only [DashboardController.investInitiate, Refuses, Observed.bind_iff]
  refine checkMnemonic_refuses _ _ quiet fun wallet => ?_
  refine gasPrice_refuses body quiet fun later price quiet => ?_
  simp only [request, call, Observed.await_iff, Observed.done_iff, Observed.fail_iff,
    Observed.throwIf_iff]
  have still : ∀ {op : Op}, op.quiet = true → (later.quiet && op.quiet) = true := by simp [quiet]
  refine ⟨fun sufficient => ⟨fun _ => .inr (.inr (still rfl)), fun _ => ?_⟩,
    fun error => .inl (by simp [Doings.observe])⟩
  refine checkReferralOf_refuses _ _ (still rfl) fun later quiet => ?_
  refine checkAllowed_refuses _ quiet fun later quiet => ?_
  exact (getRenderedTemplate_refuses _ _).after fun _ _ => initiateVerification_refuses _ _

theorem investVerify_refuses (user : Doc ObjectID Investor) (body : InvestBody)
    (verification : VerificationData) (quiet : doings.quiet = true) :
    Refuses (DashboardController.investVerify app user body verification) doings := by
  simp only [DashboardController.investVerify, Refuses, Observed.bind_iff]
  refine checkMnemonic_refuses _ _ quiet fun wallet => ?_
  refine checkReferralOf_refuses _ _ quiet fun later quiet => ?_
  refine checkAllowed_refuses _ quiet fun later quiet => ?_
  refine checkVerificationPayloadAndCode_refuses _ _ _ _ quiet fun later result quiet => ?_
  refine gasPrice_refuses body quiet fun later price _ => ?_
  exact Refuses.after (request_refuses _) fun _ _ => trivial

end Investing

/-! ## Verifying investors -/

section Kyc

theorem createNewKycProcess_refuses (user : Doc ObjectID Investor) (draws : Draws) :
    Refuses (ShuftiproProvider.createNewKycProcess app user draws) doings := by
  simp only [ShuftiproProvider.createNewKycProcess, Refuses, Observed.bind_iff]
  refine (shuftiproInit_refuses user draws).after fun _ _ => ?_
  exact Refuses.after (request_refuses _) fun _ _ => trivial

theorem getKycStatus_refuses (user : Investor) (timestamp : String) :
    Refuses (ShuftiproProvider.getKycStatus app user timestamp) doings := by
  simp only [ShuftiproProvider.getKycStatus, Refuses, Observed.bind_iff, Observed.orThrow_iff]
  refine ⟨fun kycInitResult _ => Refuses.after (request_refuses _) fun later response => ?_,
    fun _ => .inr (.inl rfl)⟩
  cases response <;>
    simp [ShuftiproProvider.invalidSignature, Doings.Allows, ErrorHandler.status]

/-- An error of the status request is passed on, or answered by a new process. -/
theorem updateKycInit_refuses (user : Doc ObjectID Investor) (draws : Draws) :
    Refuses (ShuftiproProvider.updateKycInit app user draws) doings := by
  have created : ∀ (draws : Draws) (later : Doings),
      Refuses (do
        let result ← ShuftiproProvider.createNewKycProcess app user draws
        return some (KycInitResult.shuftiproInit result)) later := by
    intro draws later
    simp only [Refuses, Observed.bind_iff]
    exact (createNewKycProcess_refuses user draws).after fun _ _ => trivial
  have asked : Refuses (do
      let currentStatus ← ShuftiproProvider.getKycStatus app user.val (draws.clock 3)
      if currentStatus.error = true ∨
          currentStatus.statusCode ∉ [some "SP2", some "SP1", some "SP26"] then do
        let result ← ShuftiproProvider.createNewKycProcess app user draws
        return some (KycInitResult.shuftiproInit result)
      else return user.val.kycInitResult) doings := by
    simp only [Refuses, Observed.bind_iff]
    refine (getKycStatus_refuses _ _).after fun later currentStatus => ?_
    split
    · exact created draws later
    · trivial
  simp only [ShuftiproProvider.updateKycInit, Refuses, Observed.tryCatch_iff]
  refine asked.mono (fun _ _ _ => trivial) fun later error allowed => ?_
  split
  · exact created draws.again later
  · exact allowed

theorem processKycStatus_refuses (user : Doc ObjectID Investor) (draws : Draws)
    (quiet : doings.quiet = true) :
    Refuses (ShuftiproProvider.processKycStatus app user draws) doings := by
  simp only [ShuftiproProvider.processKycStatus, Refuses, Observed.bind_iff, Observed.throwIf_iff,
    Observed.orThrow_iff, Observed.ite_iff, Observed.pure_iff]
  have refused : ∀ error, Doings.Allows doings error := fun _ => .inr (.inr quiet)
  exact ⟨fun _ => refused _, fun _ => ⟨fun _ => refused _, fun _ => ⟨fun _ => refused _, fun _ =>
    ⟨fun _ _ => ⟨fun _ => trivial, fun _ => updateKycInit_refuses user draws⟩, fun _ => refused _⟩⟩⟩⟩

theorem applyKycResult_refuses (investor : Doc ObjectID Investor) (kycResult : ShuftiproKycResult) :
    Refuses (ShuftiproProvider.applyKycResult investor kycResult) doings := by
  simp [ShuftiproProvider.applyKycResult, typeError, request, call, Doings.observe, Doings.Allows,
    ErrorHandler.status]

theorem processCallback_refuses (kycResultRequest : ShuftiproInitResult) (timestamp : String) :
    Refuses (ShuftiproProvider.processCallback app kycResultRequest timestamp) {} := by
  simp only [ShuftiproProvider.processCallback, Refuses, Observed.bind_iff]
  simp only [request, call, Observed.await_iff, Observed.done_iff, Observed.fail_iff]
  refine ⟨fun stored => ?_, fun error => .inl (by simp [Doings.observe])⟩
  refine findInvestor_refuses rfl fun later investor _ => ?_
  refine ⟨fun _ => ?_, fun error => .inl (by simp [Doings.observe])⟩
  simp only [Observed.ite_iff, Observed.bind_iff, Observed.throwIf_iff, Observed.pure_iff]
  refine ⟨fun _ => trivial, fun _ => ⟨fun _ => .inr (.inl rfl), fun _ => ?_⟩⟩
  exact (applyKycResult_refuses _ _).after fun _ _ => by
    simp [Doings.observe, Doings.Allows]

theorem jumioInitStatus_refuses (user : Doc ObjectID Investor) (quiet : doings.quiet = true) :
    Refuses (JumioProvider.getInitStatus app user) doings := by
  simp [JumioProvider.getInitStatus, Doings.Allows, quiet]

theorem setPending_refuses (investor : Doc ObjectID Investor) :
    Refuses (JumioProvider.setPending investor) doings := by
  simp [JumioProvider.setPending, request, call, Doings.observe, Doings.Allows]

theorem successUpload_refuses (id base64hash : String) :
    Refuses (JumioProvider.successUpload app id base64hash) {} := by
  have stored : Refuses (JumioProvider.setPendingById id) {} := by
    simp only [JumioProvider.setPendingById, Refuses, Observed.bind_iff, Observed.orThrow_iff]
    refine ⟨fun objectId _ => Refuses.after (request_refuses _) fun later investor => ?_,
      fun _ => .inr (.inl rfl)⟩
    cases investor with
    | none => trivial
    | some investor => exact setPending_refuses investor
  simp only [JumioProvider.successUpload, Refuses, Observed.bind_iff, Observed.orThrow_iff]
  refine ⟨fun same _ => ?_, fun _ => .inr (.inl rfl)⟩
  split
  · exact Observed.bind_iff.mpr (stored.after fun _ _ => trivial)
  · trivial

/-- A scan result is stored before anything of it is checked. -/
theorem jumioCallback_refuses (verificationResult : JumioResult) :
    Refuses (JumioProvider.callback verificationResult) {} := by
  have applied : ∀ investor later,
      Refuses (JumioProvider.applyVerificationResult investor verificationResult) later := by
    intro investor later
    simp [JumioProvider.applyVerificationResult, typeError, error, request, call, Doings.observe,
      Doings.Allows, ErrorHandler.status]
  simp only [JumioProvider.callback, Refuses, Observed.bind_iff]
  refine Refuses.after (request_refuses _) fun later _ => ?_
  simp only [Observed.orThrow_iff]
  refine ⟨fun id _ => Refuses.after (request_refuses _) fun later investor => ?_,
    fun _ => .inr (.inl rfl)⟩
  cases investor with
  | none => trivial
  | some investor =>
      simp only [Observed.ite_iff, Observed.bind_iff]
      exact ⟨fun _ => trivial, fun _ => (applied _ _).after fun _ _ => request_refuses _⟩

end Kyc

/-! ## The routes -/

section Routes

theorem loadUser_refuses {onDone : Doings → AuthResult → Prop} (token : String)
    (quiet : doings.quiet = true) (done : ∀ later result, later.quiet = true → onDone later result) :
    (loadUser token).Observed Doings.observe onDone Doings.Allows doings := by
  simp only [loadUser, request, call, Observed.tryCatch_iff, Observed.bind_iff, Observed.await_iff,
    Observed.done_iff, Observed.fail_iff, Observed.pure_iff]
  refine ⟨fun login => ⟨fun found => ?_, fun error => done _ _ ?_⟩, fun error => done _ _ ?_⟩
  · cases found <;> exact done _ _ (by simp [Doings.observe, Op.quiet, quiet])
  · simp [Doings.observe, Op.quiet, quiet]
  · simp [Doings.observe, Op.quiet, quiet]

/-- A request is authenticated with quiet calls. -/
theorem authenticate_refuses {onDone : Doings → AuthResult → Prop} (authorization : Option String)
    (quiet : doings.quiet = true) (done : ∀ later result, later.quiet = true → onDone later result) :
    (authenticate authorization).Observed Doings.observe onDone Doings.Allows doings := by
  unfold authenticate
  split
  · exact done _ _ quiet
  · simp only [authenticateToken, request, call, Observed.bind_iff, Observed.await_iff,
      Observed.done_iff, Observed.fail_iff]
    have still : (doings.quiet && (Op.findToken ‹_›).quiet) = true := by simp [Op.quiet, quiet]
    refine ⟨fun found => ?_, fun error => .inl (by simp [Doings.observe])⟩
    cases found with
    | none => exact done _ _ still
    | some tokenVerification =>
        simp only [Observed.ite_iff]
        exact ⟨fun _ => loadUser_refuses _ still done, fun _ => done _ _ still⟩

theorem responding {α : Type} {handler : Handler α} {response : α → Response}
    (refuses : Refuses handler doings) :
    Refuses (do return response (← handler)) doings := by
  simp only [Refuses, Observed.bind_iff]
  exact refuses.after fun _ _ => trivial

theorem handleUser_refuses (user : Doc ObjectID Investor) (draws : Draws) (userRequest : UserRequest)
    (quiet : doings.quiet = true) : Refuses (handleUser app user draws userRequest) doings := by
  cases userRequest with
  | getMe => exact responding (getUserInfo_refuses user)
  | initiateChangePassword oldPassword =>
      exact responding (initiateChangePassword_refuses user oldPassword quiet)
  | verifyChangePassword params => exact responding (verifyChangePassword_refuses user params draws quiet)
  | invite emails => exact responding (invite_refuses user emails draws quiet)
  | enable2faInitiate => exact responding (initiateEnable2fa_refuses user quiet)
  | enable2faVerify verification => exact responding (verifyEnable2fa_refuses user verification quiet)
  | disable2faInitiate => exact responding (initiateDisable2fa_refuses user quiet)
  | disable2faVerify verification => exact responding (verifyDisable2fa_refuses user verification quiet)
  | investInitiate body => exact responding (investInitiate_refuses user body quiet)
  | investVerify body verification =>
      exact responding (investVerify_refuses user body verification quiet)
  | kycInit =>
      refine responding ?_
      unfold KycProvider.getInitStatus
      split
      · exact processKycStatus_refuses user draws quiet
      · exact jumioInitStatus_refuses user quiet
  | kycReinit =>
      refine responding ?_
      unfold KycProvider.reinit
      split
      · exact updateKycInit_refuses user draws
      · exact .inr (.inl rfl)

theorem handle_refuses (draws : Draws) (asked : Request) : Refuses (handle app draws asked) {} := by
  cases asked with
  | create userData => exact responding (create_refuses userData draws)
  | resendVerification email => exact responding (resendVerification_refuses email)
  | activate activationData => exact responding (activate_refuses activationData draws)
  | initiateLogin email password ip => exact responding (initiateLogin_refuses email password ip draws)
  | verifyLogin inputData => exact responding (verifyLogin_refuses inputData draws)
  | initiateResetPassword email => exact responding (initiateResetPassword_refuses email)
  | verifyResetPassword params => exact responding (verifyResetPassword_refuses params draws)
  | kycCallback body =>
      simp only [handle, Refuses, Observed.bind_iff]
      cases body with
      | shuftipro result => exact (processCallback_refuses result _).after fun _ _ => trivial
      | jumio result => exact (jumioCallback_refuses result).after fun _ _ => trivial
  | kycUploaded id base64hash =>
      refine responding ?_
      unfold KycProvider.successUpload
      split
      · exact .inr (.inl rfl)
      · exact successUpload_refuses id base64hash
  | user authorization userRequest =>
      simp only [handle, Refuses, Observed.bind_iff]
      refine authenticate_refuses authorization rfl fun later result quiet => ?_
      cases result with
      | next user => exact handleUser_refuses user draws userRequest quiet
      | notAuthorized => trivial
      | notFound => trivial

end Routes

/-! ## Runs -/

theorem observed_quiet (trace : AccountTrace) :
    (observed Doings.observe {} trace).quiet = true ↔ ∀ call ∈ trace, call.1.quiet = true := by
  induction trace using List.reverseRecOn with
  | nil => simp
  | append_singleton trace call ih =>
      obtain ⟨op, answer⟩ := call
      rw [observed_snoc]
      cases answer <;> simp [Doings.observe, ih, or_imp, forall_and]

theorem observed_rejections {trace : AccountTrace} {error : Exception}
    (rejected : error ∈ (observed Doings.observe {} trace).rejections) :
    ∃ op, ⟨op, .error error⟩ ∈ trace := by
  induction trace using List.reverseRecOn with
  | nil => cases rejected
  | append_singleton trace call ih =>
      obtain ⟨op, answer⟩ := call
      rw [observed_snoc] at rejected
      cases answer with
      | ok value =>
          obtain ⟨op, member⟩ := ih rejected
          exact ⟨op, List.mem_append_left _ member⟩
      | error rejection =>
          rcases List.mem_append.mp rejected with old | new
          · obtain ⟨op, member⟩ := ih old
            exact ⟨op, List.mem_append_left _ member⟩
          · obtain rfl := List.mem_singleton.mp new
            exact ⟨op, by simp⟩

/-- A request that ended with a client error of its own, and not with one that a
service answered it, has changed nothing: whatever was interleaved with it, each
of its calls left the investors, tokens, KYC results and logins as they were, and
mailed, ordered and paid nothing. -/
theorem refused_unchanged {initial : World} {state : AccountState}
    (reached : (accounts app).Reachable (.idle initial) state) {thread : Nat} {arrival : Arrival}
    {error : Exception} (ended : state.threads[thread]? = some ⟨arrival, .fail error⟩)
    (client : ErrorHandler.status error.constructor ≠ 500)
    (own : ∀ op, ⟨op, .error error⟩ ∉ localTrace thread state.log)
    {past : List AccountEvent} {op : Op} {result : Except Exception (Ans op)}
    (occurs : Occurs state.log past ⟨thread, ⟨op, result⟩⟩) :
    op.quiet = true ∧ ∃ origin choice, (accounts app).Reachable (.idle initial) origin ∧
      origin.log = past ∧ (perform choice op origin.world).1 = result ∧
      Frame (some .verifiers) origin.world (perform choice op origin.world).2 := by
  have contract : ∀ arrival : Arrival, ((accounts app).handler arrival).Meets (fun _ _ => True)
      (fun _ _ => True) (fun later error => (observed Doings.observe {} later).Allows error) [] := by
    intro arrival
    have refuses : Refuses (handle app arrival.draws arrival.request)
        (observed Doings.observe {} []) := handle_refuses arrival.draws arrival.request
    exact refuses.meets
  have allowed : (observed Doings.observe {} (localTrace thread state.log)).Allows error :=
    reached.guarded contract ended
  have quiet : (observed Doings.observe {} (localTrace thread state.log)).quiet = true := by
    rcases allowed with rejected | internal | quiet
    · obtain ⟨op, member⟩ := observed_rejections rejected
      exact absurd member (own op)
    · exact absurd internal client
    · exact quiet
  have still := (observed_quiet _).mp quiet ⟨op, result⟩ (mem_localTrace.mpr occurs.mem)
  obtain ⟨origin, _, choice, before, _, log, _, _, answered⟩ := event_guarded reached occurs
  exact ⟨still, origin, choice, before, log, answered, quiet_frame still choice origin.world⟩

/-- The email of the newcomer is signed up once more. -/
def signedUpTwice : AccountState :=
  after .plain (signUp ++ [.start { request := .create newcomer }, .resume 1 {}])

theorem second_refused_unchanged :
    (Op.findInvestor (.email "ann@example.com")).quiet = true ∧ ∃ origin choice,
      (accounts .plain).Reachable (.idle {}) origin ∧ origin.log = signedUpTwice.log.take 5 ∧
      (perform choice (.findInvestor (.email "ann@example.com")) origin.world).1 =
        .ok (some ⟨1, Investor.createInvestor .plain newcomer "secret" "v1"⟩) ∧
      Frame (some .verifiers) origin.world
        (perform choice (.findInvestor (.email "ann@example.com")) origin.world).2 := by
  have ended : signedUpTwice.threads[1]? = some ⟨{ request := .create newcomer }, .fail
      { constructor := .userExists, message := "User already exists" }⟩ := by rfl
  have occurs : Occurs signedUpTwice.log (signedUpTwice.log.take 5)
      ⟨1, ⟨.findInvestor (.email "ann@example.com"),
        .ok (some ⟨1, Investor.createInvestor .plain newcomer "secret" "v1"⟩)⟩⟩ :=
    ⟨signedUpTwice.log.drop 6, by with_unfolding_all rfl⟩
  have own : ∀ op, ⟨op, .error { constructor := .userExists, message := "User already exists" }⟩ ∉
      localTrace 1 signedUpTwice.log := by
    intro op member
    have answers : ∀ call ∈ localTrace 1 signedUpTwice.log, call.2.toBool = true := by decide
    exact absurd (answers _ member) nofun
  exact refused_unchanged (System.reachable_run _ _) ended (by decide) own occurs

end IcoDashboard.Accounts
