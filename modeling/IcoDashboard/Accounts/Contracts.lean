import IcoDashboard.Accounts.Guards

namespace IcoDashboard.Accounts

open IcoDashboard.Async IcoDashboard.Async.Program IcoDashboard.Data

/-! # Contracts of the handlers -/

variable {app : App} {arrival : Arrival} {trace : AccountTrace}

/-! ## Rules for the clients -/

theorem getRenderedTemplate_meets {onDone : AccountTrace → String → Prop} (name : String)
    (data : List (String × String)) :
    (EmailTemplateService.getRenderedTemplate app name data).Meets (Guard app arrival) onDone Throws
        trace ↔
      (∀ text, onDone (trace ++ [⟨.renderTemplate name data, .ok text⟩]) text) ∧
      ∀ error, EmailTemplateService.isRequired app name = false →
        onDone (trace ++ [⟨.renderTemplate name data, .error error⟩]) "" := by
  simp [EmailTemplateService.getRenderedTemplate, request, call, Guard, Throws]

theorem notify_meets (name : String) (data : List (String × String)) (mail : String → Mail) :
    (notify app name data mail).Meets (Guard app arrival) (fun _ _ => True) Throws trace := by
  simp [notify, getRenderedTemplate_meets, fire, Guard]

theorem initiateVerification_meets {onDone : AccountTrace → InitiateResult → Prop} (method : String)
    (data : InitiateData) :
    (VerificationClient.initiateVerification app method data).Meets (Guard app arrival) onDone Throws
        trace ↔
      GuardInitiate app arrival.request trace data ∧
      ∀ result : InitiateResult, onDone (trace ++ [⟨.initiate method data, .ok result⟩])
        { result with
          method
          code := none
          qrPngDataUri :=
            if truthy result.totpUri then result.totpUri.map app.qrPngDataUri
            else result.qrPngDataUri } := by
  simp [VerificationClient.initiateVerification, request, call, Guard, Throws]

theorem checkVerificationPayloadAndCode_meets {onDone : AccountTrace → ValidationResult → Prop}
    (input : VerificationData) (consumer : String) (payload : Json.Object)
    (removeSecret : Option Bool) :
    (VerificationClient.checkVerificationPayloadAndCode app input consumer payload
        removeSecret).Meets (Guard app arrival) onDone Throws trace ↔
      ∀ verification : ValidationResult, verification.data.consumer = consumer →
        verification.data.payload = payload →
        let checked := trace ++ [⟨.getVerifier input.method input.verificationId, .ok verification⟩]
        GuardValidate app arrival.request checked input.method input.verificationId ∧
        ∀ result, onDone (checked ++ [⟨.validate input.method input.verificationId
          { code := input.code, removeSecret }, .ok result⟩]) result := by
  simp [VerificationClient.checkVerificationPayloadAndCode, VerificationClient.getVerification,
    VerificationClient.validateVerification, VerificationClient.invalidateVerification,
    Json.stringify_injective.eq_iff, request, call, Guard, Throws]

theorem findInvestor_meets {onDone : AccountTrace → Doc ObjectID Investor → Prop}
    (query : InvestorQuery) (missing : Exception) :
    (findInvestor query missing).Meets (Guard app arrival) onDone Throws trace ↔
      ∀ user, onDone (trace ++ [⟨.findInvestor query, .ok (some user)⟩]) user := by
  simp only [findInvestor, request, call, meets_bind, meets_await, meets_done, meets_fail,
    meets_orThrow, Guard, Throws, implies_true, and_true, true_and]
  constructor
  · intro all user
    exact all (some user) user rfl
  · intro all answer user found
    rw [found]
    exact all user

theorem checkReferral_meets {onDone : AccountTrace → Unit → Prop} (referral : Option String) :
    (UserService.checkReferral app referral).Meets (Guard app arrival) onDone Throws trace ↔
      (truthy referral = false → onDone trace ()) ∧
      ∀ email, referral = some email → email ≠ "" → ∀ user : Doc ObjectID Investor,
        user.val.isVerified = true →
          onDone (trace ++ [⟨.findInvestor (.email (app.toLowerCase email)), .ok (some user)⟩]) () := by
  cases referral <;> simp [UserService.checkReferral, truthy, findInvestor_meets, Throws]

theorem addReferral_meets (address : String) (referral : Option String) :
    (UserService.addReferral app address referral).Meets (Guard app arrival) (fun _ _ => True) Throws
      trace := by
  cases referral <;> simp [UserService.addReferral, request, call, Guard, Throws]

theorem shuftiproInit_meets (user : Doc ObjectID Investor) (draws : Draws) :
    (ShuftiproProvider.init app user draws).Meets (Guard app arrival) (fun _ _ => True) Throws
      trace := by
  simp [ShuftiproProvider.init, ShuftiproProvider.localInitKycProcess,
    ShuftiproProvider.saveKycInitResult, request, call, Guard, Throws]

theorem kycInit_meets (user : Doc ObjectID Investor) (draws : Draws) :
    (KycProvider.init app user draws).Meets (Guard app arrival) (fun _ _ => True) Throws trace := by
  unfold KycProvider.init
  split
  · simp [shuftiproInit_meets]
  · simp [JumioProvider.init, request, call, Guard, Throws]

theorem sendTestFunds_meets (address : String) :
    (UserService.sendTestFunds app address).Meets (Guard app arrival) (fun _ _ => True) Throws
      trace := by
  unfold UserService.sendTestFunds
  split <;> simp [fire, Guard]

/-! ## The user service -/

theorem create_meets (userData : UserData) (own : arrival.request = .create userData) :
    (UserService.create app userData arrival.draws).Meets (Guard app arrival)
      (fun _ _ => True) Throws [] := by
  simp [UserService.create, checkReferral_meets, getRenderedTemplate_meets,
    initiateVerification_meets, request, call, Guard, Throws, own, GuardInitiate, ActsFor,
    Request.initiates, Request.recreates, Purpose.payload, GuardInsertInvestor]

theorem resendVerification_meets (email : String)
    (own : arrival.request = .resendVerification email) :
    (UserService.resendVerification app email).Meets (Guard app arrival)
      (fun _ _ => True) Throws [] := by
  simp [UserService.resendVerification, VerificationClient.resendVerification, UserService.findUser, findInvestor_meets,
    getRenderedTemplate_meets, request, call, Guard, Throws, own, GuardInitiate, ActsFor,
    Request.initiates, Purpose.payload, GuardSaveInvestor, Changes, acting, IsConsumer]
  simp +contextual [app.toLowerCase_idem]

theorem initiateLogin_meets (email password ip : String)
    (own : arrival.request = .initiateLogin email password ip) :
    (UserService.initiateLogin app email password ip arrival.draws).Meets (Guard app arrival)
      (fun _ _ => True) Throws [] := by
  simp [UserService.initiateLogin, UserService.findUser, findInvestor_meets, initiateVerification_meets,
    getRenderedTemplate_meets, request, call, Guard, Throws, own, GuardInitiate, ActsFor,
    Request.initiates, Purpose.payload, GuardLoginUser, GuardInsertToken, acting, IsConsumer,
    VerifiedToken.createNotVerifiedToken, Verification.createVerification]
  simp +contextual

theorem verifyLogin_meets (inputData : VerifyLoginInput)
    (own : arrival.request = .verifyLogin inputData) :
    (UserService.verifyLogin app inputData arrival.draws).Meets (Guard app arrival)
      (fun _ _ => True) Throws [] := by
  simp [UserService.verifyLogin, UserService.findUser, findInvestor_meets,
    checkVerificationPayloadAndCode_meets, notify_meets,
    request, call, Guard, Throws, own, GuardValidate, Request.completes, Purpose.payload,
    GuardSaveToken, acting, IsConsumer, Validated]
  intro answer token found verification stored input given sameId login user result consumer payload
  subst found
  simp [consumer, payload, given, stored, sameId]

theorem notifyActivation_meets (user : Investor) (address : String) :
    (UserService.notifyActivation app user address).Meets (Guard app arrival) (fun _ _ => True) Throws
      trace := by
  simp only [UserService.notifyActivation, meets_bind]
  exact (notify_meets _ _ _).after fun _ _ _ => sendTestFunds_meets _

theorem storeActivation_meets (activationData : ActivationUserData)
    (own : arrival.request = .activate activationData) {query : InvestorQuery}
    {loaded : Doc ObjectID Investor} (acts : acting trace = some (query, loaded))
    (validated : Validated trace emailVerification activationData.verificationId)
    {saved : Investor} (changes : Changes app arrival.draws loaded.val saved arrival.request)
    (email : saved.email = loaded.val.email) :
    (UserService.storeActivation ⟨loaded.id, saved⟩).Meets (Guard app arrival)
      (fun later _ => ⟨.saveInvestor ⟨loaded.id, saved⟩, .ok ()⟩ ∈ later) Throws trace := by
  have extended : ∀ rest : AccountTrace, Validated (trace ++ rest) emailVerification
      activationData.verificationId := fun rest =>
    validated.extended (List.prefix_append _ _)
  simp only [UserService.storeActivation, request, call, meets_bind, meets_await, meets_done,
    meets_fail, meets_pure, Throws, implies_true, and_true]
  refine ⟨⟨query, loaded, acts, rfl, changes⟩, fun _ => ⟨?_, fun tokenData => ⟨?_, ?_⟩⟩⟩
  · refine ⟨query, loaded, acting_append acts _, ?_⟩
    rw [own]
    exact ⟨email, extended _⟩
  · refine ⟨⟨_, List.mem_append_right _ List.mem_cons_self⟩, ?_⟩
    rw [own]
    trivial
  · simp

theorem activate_meets (activationData : ActivationUserData)
    (own : arrival.request = .activate activationData) :
    (UserService.activate app activationData arrival.draws).Meets (Guard app arrival)
      (fun trace result => Finishes app arrival trace (.activated result)) Throws [] := by
  simp only [UserService.activate, UserService.findUser, meets_bind, findInvestor_meets,
    meets_throwIf, checkVerificationPayloadAndCode_meets, meets_pure]
  intro user
  refine ⟨fun _ => trivial, fun notVerified verification consumer payload => ⟨?_, fun _ => ?_⟩⟩
  · refine ⟨.activate, verification, by rw [own]; rfl, by simp, payload, _, user, rfl, .inr ?_⟩
    rw [consumer]
  · refine (addReferral_meets _ _).after fun later _ extended => ?_
    refine (kycInit_meets _ _).after fun later' kycInitResult extended' => ?_
    have acts := acting_extended (extended.trans extended') rfl
    have validated := validated_now.extended (extended.trans extended')
    have changes : Changes app arrival.draws user.val
        { user.val with
          ethWallet := some (activatedWallet app arrival.draws)
          kycInitResult := some kycInitResult
          isVerified := true } arrival.request := by
      rw [own]
      exact ⟨by simpa using notVerified, kycInitResult, rfl⟩
    have stores := storeActivation_meets activationData own acts validated changes rfl
    refine stores.extending.mono (fun _ _ guarded => guarded) (fun stored tokenData kept => ?_)
      (fun _ _ failed => failed.2)
    refine (notifyActivation_meets _ _).after fun last _ extended'' => ?_
    have acts' := acting_extended (kept.1.trans extended'') acts
    exact ⟨activationData, user, _, own, acts', extended''.subset kept.2, rfl, rfl, rfl⟩

theorem initiateResetPassword_meets (email : String)
    (own : arrival.request = .initiateResetPassword email) :
    (UserService.initiateResetPassword app email).Meets (Guard app arrival)
      (fun _ _ => True) Throws [] := by
  simp [UserService.initiateResetPassword, UserService.findUser, findInvestor_meets,
    initiateVerification_meets, getRenderedTemplate_meets, own, GuardInitiate, ActsFor,
    Request.initiates, Purpose.payload, acting, IsConsumer, app.toLowerCase_idem]

theorem verifyResetPassword_meets (params : ResetPasswordInput)
    (own : arrival.request = .verifyResetPassword params) :
    (UserService.verifyResetPassword app params arrival.draws).Meets (Guard app arrival)
      (fun _ _ => True) Throws [] := by
  simp +contextual [UserService.verifyResetPassword, UserService.findUser, findInvestor_meets,
    checkVerificationPayloadAndCode_meets, notify_meets,
    request, call, Guard, Throws, own, GuardValidate, Request.completes, Request.recreates,
    Purpose.payload, GuardSaveInvestor, Changes, acting, IsConsumer, app.toLowerCase_idem]

/-! ## Routes of a user -/

section UserRoutes

variable {query : InvestorQuery} {user : Doc ObjectID Investor} {authorization : Option String}

theorem initiateChangePassword_meets (acts : acting trace = some (query, user))
    (oldPassword : String)
    (own : arrival.request = .user authorization (.initiateChangePassword oldPassword)) :
    (UserService.initiateChangePassword app user oldPassword).Meets (Guard app arrival)
      (fun _ _ => True) Throws trace := by
  simp [UserService.initiateChangePassword, initiateVerification_meets, getRenderedTemplate_meets,
    Throws, own, GuardInitiate, ActsFor, Request.initiates, Purpose.payload, acting_append acts,
    IsConsumer]

theorem verifyChangePassword_meets (acts : acting trace = some (query, user))
    (params : ChangePasswordInput)
    (own : arrival.request = .user authorization (.verifyChangePassword params)) :
    (UserService.verifyChangePassword app user params arrival.draws).Meets (Guard app arrival)
      (fun _ _ => True) Throws trace := by
  simp only [UserService.verifyChangePassword, meets_bind, meets_throwIf, meets_orThrow,
    checkVerificationPayloadAndCode_meets, request, call, meets_await, meets_done, meets_fail,
    meets_pure, Throws, implies_true, and_true, true_and]
  intro passwordMatch compared accepted verification given result consumer payload
  refine ⟨?_, fun validation => ⟨?_, fun _ => ?_⟩⟩
  · refine ⟨.changePassword, result, by rw [own]; rfl, by simp, payload, query, user,
      acting_append acts _, .inl (by rw [consumer])⟩
  · refine ⟨query, user, acting_append (acting_append acts _) _, rfl, ?_⟩
    rw [own]
    rfl
  · refine (notify_meets _ _ _).after fun later _ extended => ?_
    have acts' := acting_extended extended (acting_append (acting_append (acting_append acts _) _) _)
    have validated := (validated_now.extended (List.prefix_append _ _)).extended extended
    refine ⟨?_, fun _ => ⟨⟨query, user, acting_append acts' _, ?_⟩, fun loginResult => ?_⟩⟩
    · rw [Guard, own]
      rfl
    · rw [own]
      have known : app.compareSync params.oldPassword user.val.passwordHash = some true := by
        rw [compared, Bool.eq_true_of_not_eq_false accepted]
      exact ⟨rfl, known, verification, given, validated.extended (List.prefix_append _ _)⟩
    · refine ⟨⟨_, List.mem_append_right _ List.mem_cons_self⟩, ?_⟩
      rw [own]
      trivial

theorem initiateEnable2fa_meets (acts : acting trace = some (query, user))
    (own : arrival.request = .user authorization .enable2faInitiate) :
    (UserService.initiateEnable2fa app user).Meets (Guard app arrival) (fun _ _ => True) Throws
      trace := by
  simp [UserService.initiateEnable2fa, UserService.initiate2faVerification,
    initiateVerification_meets, Throws, own, GuardInitiate, ActsFor, Request.initiates,
    Purpose.payload, acts, IsConsumer]

theorem initiateDisable2fa_meets (acts : acting trace = some (query, user))
    (own : arrival.request = .user authorization .disable2faInitiate) :
    (UserService.initiateDisable2fa app user).Meets (Guard app arrival) (fun _ _ => True) Throws
      trace := by
  simp [UserService.initiateDisable2fa, UserService.initiate2faVerification,
    initiateVerification_meets, Throws, own, GuardInitiate, ActsFor, Request.initiates,
    Purpose.payload, acts, IsConsumer]

theorem verifyEnable2fa_meets (acts : acting trace = some (query, user))
    (verification : VerificationData)
    (own : arrival.request = .user authorization (.enable2faVerify verification)) :
    (UserService.verifyEnable2fa app user verification).Meets (Guard app arrival) (fun _ _ => True)
      Throws trace := by
  simp +contextual [UserService.verifyEnable2fa, checkVerificationPayloadAndCode_meets, request,
    call, Guard, Throws, own, GuardValidate, Request.completes, Purpose.payload, acting_append acts,
    IsConsumer, GuardSaveInvestor, Changes]

theorem verifyDisable2fa_meets (acts : acting trace = some (query, user))
    (verification : VerificationData)
    (own : arrival.request = .user authorization (.disable2faVerify verification)) :
    (UserService.verifyDisable2fa app user verification).Meets (Guard app arrival)
      (fun _ _ => True) Throws trace := by
  simp +contextual [UserService.verifyDisable2fa, checkVerificationPayloadAndCode_meets, request,
    call, Guard, Throws, own, GuardValidate, Request.completes, Purpose.payload, acting_append acts,
    IsConsumer, GuardSaveInvestor, Changes, app.toLowerCase_idem]

theorem checkNotRegistered_meets (emails : List String) :
    (UserService.checkNotRegistered app emails).Meets (Guard app arrival) (fun _ _ => True) Throws
      trace := by
  induction emails generalizing trace with
  | nil => trivial
  | cons email rest ih =>
      simp [UserService.checkNotRegistered, request, call, Guard, Throws, ih]

theorem sendInvites_meets (user : Investor) (emails : List String) :
    (UserService.sendInvites app user emails).Meets (Guard app arrival) (fun _ _ => True) Throws
      trace := by
  induction emails generalizing trace with
  | nil => trivial
  | cons email rest ih =>
      simp [UserService.sendInvites, getRenderedTemplate_meets, fire, Guard, ih]

theorem invite_meets (acts : acting trace = some (query, user)) (emails : List String)
    (own : arrival.request = .user authorization (.invite emails)) :
    (UserService.invite app user emails arrival.draws).Meets (Guard app arrival) (fun _ _ => True)
      Throws trace := by
  simp only [UserService.invite, meets_bind]
  refine (checkNotRegistered_meets _).after fun later _ extended => ?_
  split
  · trivial
  · simp only [meets_bind]
    refine (sendInvites_meets _ _).after fun later' _ extended' => ?_
    have acts' := acting_extended (extended.trans extended') acts
    simp [request, call, Guard, Throws, GuardSaveInvestor, acts', own, Changes]

theorem checkReferralOf_meets (address : String) (referral : Option String) :
    (DashboardController.checkReferralOf app address referral).Meets (Guard app arrival)
      (fun _ _ => True) Throws trace := by
  cases referral <;>
    simp [DashboardController.checkReferralOf, request, call, Guard, Throws]

theorem checkAllowed_meets (address : String) :
    (DashboardController.checkAllowed app address).Meets (Guard app arrival) (fun _ _ => True) Throws
      trace := by
  simp [DashboardController.checkAllowed, request, call, Guard, Throws]

theorem gasPrice_meets (body : InvestBody) :
    (DashboardController.gasPrice body).Meets (Guard app arrival) (fun _ _ => True) Throws trace := by
  unfold DashboardController.gasPrice
  split <;> simp [request, call, Guard, Throws]

theorem investInitiate_meets (acts : acting trace = some (query, user)) (body : InvestBody)
    (own : arrival.request = .user authorization (.investInitiate body)) :
    (DashboardController.investInitiate app user body).Meets (Guard app arrival) (fun _ _ => True)
      Throws trace := by
  simp only [DashboardController.investInitiate, DashboardController.checkMnemonic, request, call,
    meets_bind, meets_await, meets_done, meets_fail, meets_pure, meets_throwIf, meets_orThrow,
    Throws, implies_true, and_true, true_and]
  intro ethWallet found known
  refine (gasPrice_meets body).after fun later price extended => ⟨trivial, fun sufficient _ => ?_⟩
  refine (checkReferralOf_meets _ _).after fun later' _ extended' => ?_
  refine (checkAllowed_meets _).after fun later'' _ extended'' => ?_
  have acts' := acting_extended extended'' (acting_extended extended'
    (acting_append (acting_extended extended acts) _))
  simp [getRenderedTemplate_meets, initiateVerification_meets, GuardInitiate, own,
    Request.initiates, Purpose.payload, ActsFor, acting_append acts', IsConsumer]

theorem investVerify_meets (acts : acting trace = some (query, user)) (body : InvestBody)
    (verification : VerificationData)
    (own : arrival.request = .user authorization (.investVerify body verification)) :
    (DashboardController.investVerify app user body verification).Meets (Guard app arrival)
      (fun _ _ => True) Throws trace := by
  simp only [DashboardController.investVerify, DashboardController.checkMnemonic,
    checkVerificationPayloadAndCode_meets, request, call, meets_bind, meets_await, meets_done,
    meets_fail, meets_pure, meets_throwIf, meets_orThrow, Throws, implies_true, and_true, true_and]
  intro ethWallet found known
  refine (checkReferralOf_meets _ _).after fun later _ extended => ?_
  refine (checkAllowed_meets _).after fun later' _ extended' => ?_
  have acts' := acting_extended extended' (acting_extended extended acts)
  intro result consumer payload
  refine ⟨?_, fun validation => ?_⟩
  · exact ⟨.invest body.ethAmount, result, by rw [own]; rfl, by simp, payload, query, user,
      acting_append acts' _, .inl (by rw [consumer])⟩
  · refine (gasPrice_meets body).after fun last price extended'' => ?_
    exact ⟨authorization, body, verification, own, rfl, validated_now.extended extended''⟩

/-- The two routes that may open a new KYC session. -/
def RenewsKyc (request : Request) : Prop :=
  ∃ authorization, request = .user authorization .kycInit ∨
    request = .user authorization .kycReinit

theorem createNewKycProcess_meets (acts : acting trace = some (query, user))
    (own : RenewsKyc arrival.request) (draws : Draws) :
    (ShuftiproProvider.createNewKycProcess app user draws).Meets (Guard app arrival)
      (fun _ _ => True) Throws trace := by
  simp only [ShuftiproProvider.createNewKycProcess, meets_bind]
  refine (shuftiproInit_meets _ _).after fun later kycInitResult extended => ?_
  have changes : Changes app arrival.draws user.val
      { user.val with kycInitResult := some (.shuftiproInit kycInitResult) } arrival.request := by
    obtain ⟨authorization, own | own⟩ := own
    · rw [own]
      exact ⟨_, rfl⟩
    · rw [own]
      exact ⟨_, rfl⟩
  have guarded : GuardSaveInvestor app arrival later (user.modify fun user =>
      { user with kycInitResult := some (.shuftiproInit kycInitResult) }) :=
    ⟨query, user, acting_extended extended acts, rfl, changes⟩
  simp [request, call, Guard, Throws, guarded]

theorem getKycStatus_meets (user : Investor) (timestamp : String) :
    (ShuftiproProvider.getKycStatus app user timestamp).Meets (Guard app arrival) (fun _ _ => True)
      Throws trace := by
  simp only [ShuftiproProvider.getKycStatus, request, call, meets_bind, meets_await, meets_done,
    meets_fail, meets_orThrow, Guard, Throws, implies_true, and_true, true_and]
  intro kycInitResult found response
  split <;> simp [Throws]

theorem updateKycInit_meets (acts : acting trace = some (query, user))
    (own : RenewsKyc arrival.request) :
    (ShuftiproProvider.updateKycInit app user arrival.draws).Meets (Guard app arrival)
      (fun _ _ => True) Throws trace := by
  have renews : ∀ draws later, trace <+: later →
      (ShuftiproProvider.createNewKycProcess app user draws).Meets (Guard app arrival)
        (fun _ _ => True) Throws later :=
    fun draws later extended => createNewKycProcess_meets (acting_extended extended acts) own draws
  simp only [ShuftiproProvider.updateKycInit, meets_tryCatch, meets_bind]
  refine (getKycStatus_meets _ _).afterEither (fun later status extended => ?_)
    (fun later error extended => ?_)
  · simp only [meets_ite, meets_bind, meets_pure]
    refine ⟨fun _ => ?_, fun _ => trivial⟩
    refine (renews _ later extended).afterEither (fun _ _ _ => trivial) fun later' error extended' => ?_
    simp only [meets_throw, Throws, implies_true, and_true]
    exact fun _ => renews _ later' (extended.trans extended')
  · simp only [meets_ite, meets_bind, meets_pure, meets_throw, Throws, implies_true, and_true]
    exact fun _ => renews _ later extended

theorem kycInitStatus_meets (acts : acting trace = some (query, user))
    (own : RenewsKyc arrival.request) :
    (KycProvider.getInitStatus app user arrival.draws).Meets (Guard app arrival) (fun _ _ => True)
      Throws trace := by
  unfold KycProvider.getInitStatus
  split
  · simp [ShuftiproProvider.processKycStatus, updateKycInit_meets acts own, Throws]
  · simp [JumioProvider.getInitStatus, Throws]

theorem kycReinit_meets (acts : acting trace = some (query, user))
    (own : RenewsKyc arrival.request) :
    (KycProvider.reinit app user arrival.draws).Meets (Guard app arrival) (fun _ _ => True) Throws
      trace := by
  unfold KycProvider.reinit
  split
  · exact updateKycInit_meets acts own
  · trivial

theorem handleUser_meets (acts : acting trace = some (query, user)) (userRequest : UserRequest)
    (own : arrival.request = .user authorization userRequest) :
    (handleUser app user arrival.draws userRequest).Meets (Guard app arrival)
      (Finishes app arrival) Throws trace := by
  cases userRequest with
  | getMe => simp [handleUser, UserService.getUserInfo, Finishes, Throws]
  | initiateChangePassword oldPassword =>
      simpa [handleUser, Finishes] using initiateChangePassword_meets acts oldPassword own
  | verifyChangePassword params =>
      simpa [handleUser, Finishes] using verifyChangePassword_meets acts params own
  | invite emails => simpa [handleUser, Finishes] using invite_meets acts emails own
  | enable2faInitiate => simpa [handleUser, Finishes] using initiateEnable2fa_meets acts own
  | enable2faVerify verification =>
      simpa [handleUser, Finishes] using verifyEnable2fa_meets acts verification own
  | disable2faInitiate => simpa [handleUser, Finishes] using initiateDisable2fa_meets acts own
  | disable2faVerify verification =>
      simpa [handleUser, Finishes] using verifyDisable2fa_meets acts verification own
  | investInitiate body => simpa [handleUser, Finishes] using investInitiate_meets acts body own
  | investVerify body verification =>
      simpa [handleUser, Finishes] using investVerify_meets acts body verification own
  | kycInit =>
      simpa [handleUser, Finishes] using kycInitStatus_meets acts ⟨authorization, .inl own⟩
  | kycReinit => simpa [handleUser, Finishes] using kycReinit_meets acts ⟨authorization, .inr own⟩

end UserRoutes

/-! ## KYC callbacks -/

theorem applyKycResult_meets (own : GuardWhitelist arrival.request)
    (investor : Doc ObjectID Investor) (kycResult : ShuftiproKycResult) :
    (ShuftiproProvider.applyKycResult investor kycResult).Meets (Guard app arrival)
      (fun later saved => trace <+: later ∧ saved.id = investor.id ∧ (saved.val = investor.val ∨
        ∃ kycStatus, saved.val = { investor.val with
          kycStatus, kycInitResult := some (.shuftiproKyc kycResult) })) Throws trace := by
  simp [ShuftiproProvider.applyKycResult, request, call, Guard, Throws, own]

theorem processCallback_meets (result : ShuftiproInitResult) (timestamp : String)
    (own : arrival.request = .kycCallback (.shuftipro result)) :
    (ShuftiproProvider.processCallback app result timestamp).Meets (Guard app arrival)
      (fun _ _ => True) Throws [] := by
  simp only [ShuftiproProvider.processCallback, findInvestor_meets, request, call, meets_bind,
    meets_await, meets_done, meets_fail, meets_pure, meets_ite, meets_throwIf, Guard, Throws,
    implies_true, and_true, true_and]
  intro stored investor _ notVerified _
  refine (applyKycResult_meets ⟨_, own⟩ investor _).mono (fun _ _ guarded => guarded)
    (fun later saved applied => ?_) (fun _ _ failed => failed)
  obtain ⟨extended, sameId, changed⟩ := applied
  refine ⟨_, investor, acting_extended extended rfl, sameId, ?_⟩
  rw [own]
  refine ⟨notVerified, ?_⟩
  rcases changed with same | ⟨kycStatus, changed⟩
  · exact .inl same
  · exact .inr ⟨kycStatus, _, changed⟩

theorem applyVerificationResult_meets (own : GuardWhitelist arrival.request)
    (investor : Doc ObjectID Investor) (result : JumioResult) :
    (JumioProvider.applyVerificationResult investor result).Meets (Guard app arrival)
      (fun later saved => trace <+: later ∧ saved.id = investor.id ∧
        ∃ kycStatus, saved.val = { investor.val with kycStatus }) Throws trace := by
  simp [JumioProvider.applyVerificationResult, request, call, Guard, Throws, own]

theorem jumioCallback_meets (result : JumioResult)
    (own : arrival.request = .kycCallback (.jumio result)) :
    (JumioProvider.callback result).Meets (Guard app arrival) (fun _ _ => True) Throws [] := by
  simp only [JumioProvider.callback, request, call, meets_bind,
    meets_await, meets_done, meets_fail, meets_orThrow, Guard, Throws,
    implies_true, and_true, true_and]
  intro _ id valid answer
  split
  · rename_i investor
    simp only [meets_ite, meets_pure, meets_bind, implies_true, true_and]
    intro undecided
    refine (applyVerificationResult_meets ⟨_, own⟩ investor _).mono (fun _ _ guarded => guarded)
      (fun later saved applied => ?_) (fun _ _ failed => failed)
    obtain ⟨extended, sameId, kycStatus, changed⟩ := applied
    have guarded : GuardSaveInvestor app arrival later saved := by
      refine ⟨_, investor, acting_extended extended rfl, sameId, ?_⟩
      rw [own]
      exact ⟨fun verified => undecided (.inl verified), kycStatus, changed⟩
    simp [Guard, guarded, Throws]
  · trivial

theorem successUpload_meets (id base64hash : String)
    (own : arrival.request = .kycUploaded id base64hash) :
    (JumioProvider.successUpload app id base64hash).Meets (Guard app arrival) (fun _ _ => True) Throws
      [] := by
  have pending : (JumioProvider.setPendingById id).Meets (Guard app arrival) (fun _ _ => True) Throws
      [] := by
    simp only [JumioProvider.setPendingById, request, call, meets_bind, meets_await, meets_done,
      meets_fail, meets_orThrow, Guard, Throws, implies_true, and_true, true_and]
    intro objectId valid answer
    split
    · simp +contextual [JumioProvider.setPending, request, call, Guard, GuardSaveInvestor, acting,
        own, Changes, Throws]
    · trivial
  simp only [JumioProvider.successUpload, meets_bind, meets_orThrow, meets_ite, meets_pure, Throws,
    implies_true, and_true]
  exact fun _ _ _ => pending

/-! ## Every request -/

theorem authenticateToken_meets {onDone : AccountTrace → AuthResult → Prop} (token : Option String)
    (answered : ∀ trace, onDone trace .notAuthorized ∧ onDone trace .notFound)
    (loaded : ∀ trace query user, acting trace = some (query, user) → onDone trace (.next user)) :
    (authenticateToken token).Meets (Guard app arrival) onDone Throws [] := by
  simp only [authenticateToken, request, call, meets_bind, meets_await, meets_done, meets_fail,
    Guard, Throws, implies_true, and_true, true_and]
  intro found
  split
  · simp only [meets_ite, meets_pure, loadUser, request, call, meets_bind, meets_await, meets_done,
      meets_fail, meets_tryCatch, Guard, implies_true, and_true, true_and, answered]
    intro verified login answer
    split
    · exact loaded _ _ _ rfl
    · exact (answered _).2
  · exact (answered _).1

/-- Every request keeps the guards, from its first call on. -/
theorem handle_meets (app : App) (arrival : Arrival) :
    (handle app arrival.draws arrival.request).Meets (Guard app arrival) (Finishes app arrival) Throws
      [] := by
  cases own : arrival.request with
  | create userData => simpa [handle, Finishes] using create_meets userData own
  | resendVerification email => simpa [handle, Finishes] using resendVerification_meets email own
  | activate activationData => simpa [handle] using activate_meets activationData own
  | initiateLogin email password ip =>
      simpa [handle, Finishes] using initiateLogin_meets email password ip own
  | verifyLogin inputData => simpa [handle, Finishes] using verifyLogin_meets inputData own
  | initiateResetPassword email =>
      simpa [handle, Finishes] using initiateResetPassword_meets email own
  | verifyResetPassword params =>
      simpa [handle, Finishes] using verifyResetPassword_meets params own
  | kycCallback body =>
      cases body with
      | shuftipro result =>
          simpa [handle, KycProvider.callback, Finishes] using processCallback_meets result _ own
      | jumio result =>
          simpa [handle, KycProvider.callback, Finishes] using jumioCallback_meets result own
  | kycUploaded id base64hash =>
      have uploaded : (KycProvider.successUpload app id base64hash).Meets (Guard app arrival)
          (fun _ _ => True) Throws [] := by
        unfold KycProvider.successUpload
        split
        · trivial
        · exact successUpload_meets id base64hash own
      simpa [handle, Finishes] using uploaded
  | user authorization userRequest =>
      simp only [handle, authenticate, meets_bind]
      split
      · simp [Finishes]
      · refine authenticateToken_meets _ (fun _ => ⟨trivial, trivial⟩) ?_
        intro trace query user acts
        exact handleUser_meets acts userRequest own

end IcoDashboard.Accounts
