import IcoDashboard.Accounts.CodedSaves
import IcoDashboard.Accounts.KycRuns
import IcoDashboard.Accounts.WalletOwners

namespace IcoDashboard.Accounts

open IcoDashboard.Async IcoDashboard.Async.Program IcoDashboard.Data

/-! # Writes on the whitelist contract

The requests write two things there: the address of an investor that a KYC
provider has approved, and the referral of an investor that is activated.  Both
are about wallets that activations created.
-/

variable {app : App} {state : AccountState} {arrival : Arrival} {past : AccountTrace}

/-- The callback is a positive one, and this is the investor it was found to be
about. -/
def Approved (app : App) (request : Request) (past : AccountTrace) (investor : Doc ObjectID Investor) :
    Prop :=
  match request with
  | .kycCallback (.shuftipro result) => investor.val.kycStatus ≠ .verified ∧
      result.statusCode = some "SP1" ∧
      some (ShuftiproProvider.signature app (ShuftiproProvider.signedText result.statusCode
        result.message result.reference)) = result.signature ∧
      ∃ stored, ⟨.findKycResult result.reference, .ok stored⟩ ∈ past ∧
        ⟨.findInvestor (ShuftiproProvider.callbackQuery stored result.reference),
          .ok (some investor)⟩ ∈ past
  | .kycCallback (.jumio result) => investor.val.kycStatus ≠ .verified ∧
      investor.val.kycStatus ≠ .failed ∧ result.idScanStatus = "SUCCESS" ∧
      result.identityVerification = some (some true) ∧
      ∃ id, ObjectID.ofText result.customerId = some id ∧
        ⟨.findInvestor (.id (some id)), .ok (some investor)⟩ ∈ past
  | _ => False

/-- The activation registers its new address under the wallet of the referral. -/
def Links (app : App) (arrival : Arrival) (past : AccountTrace) (address referral : String) : Prop :=
  ∃ activationData investor email referrer wallet,
    arrival.request = .activate activationData ∧
    ⟨.findInvestor (.email (app.toLowerCase activationData.email)), .ok (some investor)⟩ ∈ past ∧
    address = (activatedWallet app arrival.draws).address ∧ investor.val.referral = some email ∧
    ⟨.findInvestor (.email (app.toLowerCase email)), .ok (some referrer)⟩ ∈ past ∧
    referrer.val.ethWallet = some wallet ∧ referral = wallet.address

def Lists (app : App) (arrival : Arrival) (past : AccountTrace) (op : Op) : Prop :=
  ∀ address, op = .addAddressToWhiteList address → ∃ investor wallet,
    Approved app arrival.request past investor ∧ investor.val.ethWallet = some wallet ∧
    address = wallet.address

def LinksOnly (app : App) (arrival : Arrival) (past : AccountTrace) (op : Op) : Prop :=
  ∀ address referral, op = .addReferralOf address referral → Links app arrival past address referral

def Registers : Op → Prop
  | .addReferralOf _ _ => True
  | _ => False

/-! ## Requests that register nothing -/

section Unregistered

/-- None of its calls registers a referral. -/
abbrev Unregistered {α : Type} (program : Handler α) (past : AccountTrace) : Prop :=
  program.Meets (fun _ op => ¬ Registers op) (fun _ _ => True) (fun _ _ => True) past

theorem template_unregistered (name : String) (data : List (String × String)) :
    Unregistered (EmailTemplateService.getRenderedTemplate app name data) past := by
  simp [EmailTemplateService.getRenderedTemplate, request, call, Registers]

theorem notify_unregistered (name : String) (data : List (String × String)) (mail : String → Mail) :
    Unregistered (notify app name data mail) past := by
  simp [notify, EmailTemplateService.getRenderedTemplate, fire, request, call, Registers]

theorem initiate_unregistered (method : String) (data : InitiateData) :
    Unregistered (VerificationClient.initiateVerification app method data) past := by
  simp [VerificationClient.initiateVerification, request, call, Registers]

theorem check_unregistered (input : VerificationData) (consumer : String) (payload : Json.Object)
    (removeSecret : Option Bool) :
    Unregistered (VerificationClient.checkVerificationPayloadAndCode app input consumer payload
      removeSecret) past := by
  simp [VerificationClient.checkVerificationPayloadAndCode, VerificationClient.getVerification,
    VerificationClient.validateVerification, VerificationClient.invalidateVerification, request, call,
    Registers]

theorem findUser_unregistered (email : String) :
    Unregistered (UserService.findUser email) past := by
  simp [UserService.findUser, findInvestor, request, call, Registers]

theorem request_unregistered {op : Op} (other : ¬ Registers op) : Unregistered (request op) past := by
  simp [request, call, other]

theorem create_unregistered (userData : UserData) (draws : Draws) :
    Unregistered (UserService.create app userData draws) [] := by
  cases given : userData.referral <;>
    simp [UserService.create, UserService.checkReferral, given, findInvestor,
      EmailTemplateService.getRenderedTemplate, VerificationClient.initiateVerification, request, call,
      Registers]

theorem resendVerification_unregistered (email : String) :
    Unregistered (UserService.resendVerification app email) [] := by
  simp [UserService.resendVerification, UserService.findUser, findInvestor,
    EmailTemplateService.getRenderedTemplate, VerificationClient.resendVerification, request, call,
    Registers]

theorem initiateLogin_unregistered (email password ip : String) (draws : Draws) :
    Unregistered (UserService.initiateLogin app email password ip draws) [] := by
  simp [UserService.initiateLogin, UserService.findUser, findInvestor,
    EmailTemplateService.getRenderedTemplate, VerificationClient.initiateVerification, request, call,
    Registers]

theorem verifyLogin_unregistered (inputData : VerifyLoginInput) (draws : Draws) :
    Unregistered (UserService.verifyLogin app inputData draws) [] := by
  simp only [UserService.verifyLogin, meets_bind, meets_orThrow, meets_throwIf, implies_true, and_true]
  refine (request_unregistered id).after fun later found _ token _ verification _ input _ =>
    ⟨trivial, fun _ => ?_⟩
  refine (request_unregistered id).after fun _ _ _ => (findUser_unregistered _).after fun _ _ _ => ?_
  refine (check_unregistered _ _ _ _).after fun _ _ _ => ⟨trivial, fun _ => ?_⟩
  refine (request_unregistered id).after fun _ _ _ => ?_
  exact (notify_unregistered _ _ _).after fun _ _ _ => trivial

theorem initiateResetPassword_unregistered (email : String) :
    Unregistered (UserService.initiateResetPassword app email) [] := by
  simp only [UserService.initiateResetPassword, meets_bind]
  refine (findUser_unregistered _).after fun _ _ _ => (template_unregistered _ _).after fun _ _ _ => ?_
  exact initiate_unregistered _ _

theorem verifyResetPassword_unregistered (params : ResetPasswordInput) (draws : Draws) :
    Unregistered (UserService.verifyResetPassword app params draws) [] := by
  simp only [UserService.verifyResetPassword, meets_bind]
  refine (findUser_unregistered _).after fun _ _ _ => (check_unregistered _ _ _ _).after fun _ _ _ => ?_
  refine (request_unregistered id).after fun _ _ _ => (request_unregistered id).after fun _ _ _ => ?_
  exact (notify_unregistered _ _ _).after fun _ _ _ => trivial

theorem initiateChangePassword_unregistered (user : Doc ObjectID Investor) (oldPassword : String) :
    Unregistered (UserService.initiateChangePassword app user oldPassword) past := by
  simp only [UserService.initiateChangePassword, meets_bind, meets_throwIf, meets_orThrow, implies_true,
    true_and, and_true]
  exact fun _ _ _ => (template_unregistered _ _).after fun _ _ _ => initiate_unregistered _ _

theorem verifyChangePassword_unregistered (user : Doc ObjectID Investor) (params : ChangePasswordInput)
    (draws : Draws) : Unregistered (UserService.verifyChangePassword app user params draws) past := by
  simp only [UserService.verifyChangePassword, meets_bind, meets_throwIf, meets_orThrow, implies_true,
    true_and, and_true]
  refine fun _ _ _ verification _ => (check_unregistered _ _ _ _).after fun _ _ _ => ?_
  refine (request_unregistered id).after fun _ _ _ => (notify_unregistered _ _ _).after fun _ _ _ => ?_
  refine (request_unregistered id).after fun _ _ _ => (request_unregistered id).after fun _ _ _ => ?_
  exact (request_unregistered id).after fun _ _ _ => trivial

theorem checkNotRegistered_unregistered (emails : List String) :
    Unregistered (UserService.checkNotRegistered app emails) past := by
  induction emails generalizing past with
  | nil => trivial
  | cons email rest ih =>
      simp only [UserService.checkNotRegistered, meets_bind, meets_throwIf, implies_true, true_and]
      exact (request_unregistered id).after fun _ _ _ _ => ih

theorem sendInvites_unregistered (user : Investor) (emails : List String) :
    Unregistered (UserService.sendInvites app user emails) past := by
  induction emails generalizing past with
  | nil => trivial
  | cons email rest ih =>
      simp only [UserService.sendInvites, meets_bind]
      refine (template_unregistered _ _).after fun _ _ _ => ?_
      simp only [fire, meets_await, meets_done, Registers, not_false_eq_true, true_and]
      exact ⟨fun _ => ih, fun _ => ih⟩

theorem invite_unregistered (user : Doc ObjectID Investor) (emails : List String) (draws : Draws) :
    Unregistered (UserService.invite app user emails draws) past := by
  simp only [UserService.invite, meets_bind]
  refine (checkNotRegistered_unregistered emails).after fun _ _ _ => ?_
  split
  · trivial
  · simp only [meets_bind]
    refine (sendInvites_unregistered _ _).after fun _ _ _ => ?_
    exact (request_unregistered id).after fun _ _ _ => trivial

theorem invest_unregistered (user : Doc ObjectID Investor) (body : InvestBody)
    (verification : VerificationData) :
    Unregistered (DashboardController.investInitiate app user body) past ∧
      Unregistered (DashboardController.investVerify app user body verification) past := by
  have referred : ∀ address referral {past : AccountTrace},
      Unregistered (DashboardController.checkReferralOf app address referral) past := by
    intro address referral past
    cases referral <;> simp [DashboardController.checkReferralOf, request, call, Registers]
  have allowed : ∀ address {past : AccountTrace},
      Unregistered (DashboardController.checkAllowed app address) past := by
    intro address past
    simp [DashboardController.checkAllowed, request, call, Registers]
  have priced : ∀ {past : AccountTrace}, Unregistered (DashboardController.gasPrice body) past := by
    intro past
    cases given : body.gasPrice <;> simp [DashboardController.gasPrice, given, request, call, Registers]
  constructor
  · simp only [DashboardController.investInitiate, DashboardController.checkMnemonic, meets_bind,
      meets_orThrow, meets_throwIf, meets_pure, implies_true, and_true, true_and]
    refine fun wallet _ _ => priced.after fun _ _ _ => (request_unregistered id).after fun _ _ _ _ => ?_
    refine (referred _ _).after fun _ _ _ => (allowed _).after fun _ _ _ => ?_
    exact (template_unregistered _ _).after fun _ _ _ => initiate_unregistered _ _
  · simp only [DashboardController.investVerify, DashboardController.checkMnemonic, meets_bind,
      meets_orThrow, meets_throwIf, meets_pure, implies_true, and_true, true_and]
    refine fun wallet _ _ => (referred _ _).after fun _ _ _ => (allowed _).after fun _ _ _ => ?_
    refine (check_unregistered _ _ _ _).after fun _ _ _ => priced.after fun _ _ _ => ?_
    exact request_unregistered id

theorem createNewKycProcess_unregistered (user : Doc ObjectID Investor) (draws : Draws) :
    Unregistered (do
      let result ← ShuftiproProvider.createNewKycProcess app user draws
      return some (KycInitResult.shuftiproInit result)) past := by
  simp [ShuftiproProvider.createNewKycProcess, ShuftiproProvider.init,
    ShuftiproProvider.localInitKycProcess, ShuftiproProvider.saveKycInitResult, request, call, Registers]

theorem updateKycInit_unregistered (user : Doc ObjectID Investor) (draws : Draws) :
    Unregistered (ShuftiproProvider.updateKycInit app user draws) past := by
  have asked : Unregistered (ShuftiproProvider.getKycStatus app user.val (draws.clock 3)) past := by
    simp only [ShuftiproProvider.getKycStatus, meets_bind, meets_orThrow, implies_true, and_true]
    refine fun result _ => (request_unregistered id).after fun _ answer _ => ?_
    cases answer <;> simp
  have renewed : ∀ later (error : Exception), Unregistered (if error.constructor =
      .kycShuftiProInvalidSignature then do
        let result ← ShuftiproProvider.createNewKycProcess app user draws.again
        return some (KycInitResult.shuftiproInit result)
      else throw error) later := by
    intro later error
    simp only [meets_ite, meets_throw, implies_true, and_true]
    exact fun _ => createNewKycProcess_unregistered user draws.again
  simp only [ShuftiproProvider.updateKycInit, meets_tryCatch]
  refine Meets.afterEither ?_ (fun _ _ _ => trivial) fun later error _ => renewed later error
  rw [meets_bind]
  refine asked.after fun later status _ => ?_
  simp only [meets_ite, meets_pure, implies_true, and_true]
  exact fun _ => createNewKycProcess_unregistered user draws

theorem kyc_unregistered (user : Doc ObjectID Investor) (draws : Draws) :
    Unregistered (KycProvider.getInitStatus app user draws) past ∧
      Unregistered (KycProvider.reinit app user draws) past := by
  unfold KycProvider.getInitStatus KycProvider.reinit
  cases app.config.kycProvider with
  | shuftipro =>
      refine ⟨?_, updateKycInit_unregistered user draws⟩
      simp only [ShuftiproProvider.processKycStatus, meets_bind, meets_throwIf, meets_orThrow, meets_ite,
        meets_pure, implies_true, and_true, true_and]
      exact fun _ _ _ _ _ _ => updateKycInit_unregistered user draws
  | jumio => exact ⟨by simp [JumioProvider.getInitStatus], trivial⟩

theorem handleUser_unregistered (user : Doc ObjectID Investor) (draws : Draws)
    (userRequest : UserRequest) : Unregistered (handleUser app user draws userRequest) past := by
  cases userRequest with
  | getMe => simp [handleUser, UserService.getUserInfo]
  | initiateChangePassword oldPassword =>
      simpa [handleUser] using initiateChangePassword_unregistered user oldPassword
  | verifyChangePassword params =>
      simpa [handleUser] using verifyChangePassword_unregistered user params draws
  | invite emails => simpa [handleUser] using invite_unregistered user emails draws
  | enable2faInitiate | disable2faInitiate =>
      simp [handleUser, UserService.initiateEnable2fa, UserService.initiateDisable2fa,
        UserService.initiate2faVerification, VerificationClient.initiateVerification, request, call,
        Registers]
  | enable2faVerify verification =>
      simp only [handleUser, UserService.verifyEnable2fa, meets_bind, meets_throwIf, implies_true,
        true_and]
      refine fun _ => (check_unregistered _ _ _ _).after fun _ _ _ => ?_
      exact (request_unregistered id).after fun _ _ _ => trivial
  | disable2faVerify verification =>
      simp only [handleUser, UserService.verifyDisable2fa, meets_bind, meets_throwIf, implies_true,
        true_and]
      refine fun _ => (check_unregistered _ _ _ _).after fun _ _ _ => ?_
      exact (request_unregistered id).after fun _ _ _ => trivial
  | investInitiate body =>
      simpa [handleUser] using (invest_unregistered user body ⟨"", "", ""⟩).1
  | investVerify body verification =>
      simpa [handleUser] using (invest_unregistered user body verification).2
  | kycInit => simpa [handleUser] using (kyc_unregistered user draws).1
  | kycReinit => simpa [handleUser] using (kyc_unregistered user draws).2

theorem callback_unregistered (body : KycCallback) (timestamp : String) :
    Unregistered (KycProvider.callback app body timestamp) [] := by
  cases body with
  | shuftipro result =>
      simp [KycProvider.callback, ShuftiproProvider.processCallback, ShuftiproProvider.applyKycResult,
        findInvestor, request, call, Registers]
  | jumio result =>
      simp only [KycProvider.callback, JumioProvider.callback, meets_bind, meets_orThrow, implies_true,
        and_true]
      refine (request_unregistered id).after fun _ _ _ customer _ => ?_
      refine (request_unregistered id).after fun _ found _ => ?_
      cases found <;>
        simp [JumioProvider.applyVerificationResult, request, call, Registers]

theorem successUpload_unregistered (id base64hash : String) :
    Unregistered (KycProvider.successUpload app id base64hash) [] := by
  have pending : Unregistered (JumioProvider.setPendingById id) [] := by
    simp only [JumioProvider.setPendingById, meets_bind, meets_orThrow, implies_true, and_true]
    refine fun _ _ => Meets.after (by simp [request, call, Registers]) fun _ found _ => ?_
    cases found <;> simp [JumioProvider.setPending, request, call, Registers]
  unfold KycProvider.successUpload
  split
  · trivial
  · simp only [JumioProvider.successUpload, meets_bind, meets_orThrow, meets_ite, meets_pure,
      implies_true, and_true]
    exact fun _ _ _ => pending

theorem authenticate_unregistered (authorization : Option String) :
    Unregistered (authenticate authorization) [] := by
  have silent : ∀ (_ : AccountTrace) op, op.authenticates = true → ¬ Registers op := by
    intro _ op asks registers
    cases op with
    | addReferralOf address referral => cases asks
    | _ => exact registers
  exact (authenticate_acts silent authorization).mono (fun _ _ silent => silent) (fun _ _ _ => trivial)
    fun _ _ _ => trivial

theorem handle_unregistered (app : App) (draws : Draws) {asked : Request}
    (other : ∀ activationData, asked ≠ .activate activationData) :
    Unregistered (handle app draws asked) [] := by
  cases asked with
  | create userData => simpa [handle] using create_unregistered userData draws
  | resendVerification email => simpa [handle] using resendVerification_unregistered email
  | activate activationData => exact absurd rfl (other activationData)
  | initiateLogin email password ip =>
      simpa [handle] using initiateLogin_unregistered email password ip draws
  | verifyLogin inputData => simpa [handle] using verifyLogin_unregistered inputData draws
  | initiateResetPassword email => simpa [handle] using initiateResetPassword_unregistered email
  | verifyResetPassword params => simpa [handle] using verifyResetPassword_unregistered params draws
  | kycCallback body => simpa [handle] using callback_unregistered body _
  | kycUploaded id base64hash => simpa [handle] using successUpload_unregistered id base64hash
  | user authorization userRequest =>
      simp only [handle, meets_bind]
      refine (authenticate_unregistered authorization).after fun _ result _ => ?_
      cases result with
      | next user => exact handleUser_unregistered user draws userRequest
      | notAuthorized => trivial
      | notFound => trivial

end Unregistered

/-! ## Activations and callbacks -/

theorem Unregistered.linksOnly {α : Type} {program : Handler α}
    (unregistered : Unregistered program past) :
    program.Meets (LinksOnly app arrival) (fun _ _ => True) (fun _ _ => True) past := by
  refine unregistered.mono (fun later op spared address referral same => ?_) (fun _ _ _ => trivial)
    fun _ _ _ => trivial
  subst same
  exact absurd trivial spared

theorem kycInit_unregistered (user : Doc ObjectID Investor) (draws : Draws) :
    Unregistered (KycProvider.init app user draws) past := by
  unfold KycProvider.init
  split
  · simp [ShuftiproProvider.init, ShuftiproProvider.localInitKycProcess,
      ShuftiproProvider.saveKycInitResult, request, call, Registers]
  · simp [JumioProvider.init, request, call, Registers]

theorem storeActivation_unregistered (user : Doc ObjectID Investor) :
    Unregistered (UserService.storeActivation user) past := by
  simp [UserService.storeActivation, request, call, Registers]

theorem notifyActivation_unregistered (user : Investor) (address : String) :
    Unregistered (UserService.notifyActivation app user address) past := by
  simp only [UserService.notifyActivation, meets_bind]
  refine (notify_unregistered _ _ _).after fun _ _ _ => ?_
  unfold UserService.sendTestFunds
  split <;> simp [fire, Registers]

/-- The referral that is registered was loaded under the email of the sign-up. -/
theorem addReferral_links {activationData : ActivationUserData} {investor : Doc ObjectID Investor}
    (own : arrival.request = .activate activationData)
    (loaded : ⟨.findInvestor (.email (app.toLowerCase activationData.email)), .ok (some investor)⟩ ∈
      past) :
    (UserService.addReferral app (activatedWallet app arrival.draws).address
      investor.val.referral).Meets (LinksOnly app arrival) (fun _ _ => True) (fun _ _ => True)
      past := by
  cases refers : investor.val.referral with
  | none => trivial
  | some email =>
      simp only [UserService.addReferral, meets_ite, meets_pure, meets_bind, meets_orThrow, request, call,
        meets_await, meets_done, meets_fail, LinksOnly, reduceCtorEq, IsEmpty.forall_iff, implies_true,
        and_true, true_and]
      intro _ found wallet has address referral same
      obtain ⟨referrer, given, hasWallet⟩ := Option.bind_eq_some_iff.mp has
      cases same
      exact ⟨activationData, investor, email, referrer, wallet, own, by simp [loaded], rfl, refers,
        by simp [given], hasWallet, rfl⟩

theorem activate_links (activationData : ActivationUserData)
    (own : arrival.request = .activate activationData) :
    (UserService.activate app activationData arrival.draws).Meets (LinksOnly app arrival)
      (fun _ _ => True) (fun _ _ => True) [] := by
  simp only [UserService.activate, UserService.findUser, findInvestor, request, call, meets_bind,
    meets_await, meets_done, meets_fail, meets_orThrow, meets_throwIf, LinksOnly, reduceCtorEq,
    IsEmpty.forall_iff, implies_true, and_true, true_and]
  rintro _ user rfl _
  refine (check_unregistered _ _ _ _).linksOnly.after fun later _ extended => ?_
  refine (addReferral_links own (extended.subset (List.mem_singleton_self _))).after fun _ _ _ => ?_
  refine (kycInit_unregistered _ _).linksOnly.after fun _ _ _ => ?_
  refine (storeActivation_unregistered _).linksOnly.after fun _ _ _ => ?_
  exact (notifyActivation_unregistered _ _).linksOnly.after fun _ _ _ => trivial

theorem handle_links (app : App) (arrival : Arrival) :
    (handle app arrival.draws arrival.request).Meets (LinksOnly app arrival) (fun _ _ => True)
      (fun _ _ => True) [] := by
  by_cases activates : ∃ activationData, arrival.request = .activate activationData
  · obtain ⟨activationData, own⟩ := activates
    have links := @activate_links app _ activationData own
    rw [own]
    simpa [handle] using links
  · exact (handle_unregistered app arrival.draws fun activationData own =>
      activates ⟨activationData, own⟩).linksOnly

theorem processCallback_lists (result : ShuftiproInitResult) (timestamp : String)
    (own : arrival.request = .kycCallback (.shuftipro result)) :
    (ShuftiproProvider.processCallback app result timestamp).Meets (Lists app arrival) (fun _ _ => True)
      (fun _ _ => True) [] := by
  simp only [ShuftiproProvider.processCallback, ShuftiproProvider.applyKycResult, findInvestor, request,
    call, meets_bind, meets_await, meets_done, meets_fail, meets_orThrow, meets_throwIf, meets_ite,
    meets_pure, Lists, reduceCtorEq, IsEmpty.forall_iff, implies_true, and_true, true_and]
  rintro stored _ investor rfl _ unverified signed approved wallet has address same
  cases same
  refine ⟨investor, wallet, ?_, has, rfl⟩
  rw [own]
  exact ⟨unverified, approved, not_not.mp signed, stored, by simp, by simp⟩

theorem jumioCallback_lists (result : JumioResult)
    (own : arrival.request = .kycCallback (.jumio result)) :
    (JumioProvider.callback result).Meets (Lists app arrival) (fun _ _ => True) (fun _ _ => True)
      [] := by
  simp only [JumioProvider.callback, request, call, meets_bind, meets_await, meets_done, meets_fail,
    meets_orThrow, Lists, reduceCtorEq, IsEmpty.forall_iff, implies_true, and_true, true_and]
  intro _ id customer found
  cases found with
  | none => trivial
  | some investor =>
      simp only [JumioProvider.applyVerificationResult, request, call, meets_bind, meets_await,
        meets_done, meets_fail, meets_orThrow, meets_ite, meets_pure, meets_throw, Lists, reduceCtorEq,
        IsEmpty.forall_iff, implies_true, and_true, true_and]
      intro undecided succeeded validity verification valid wallet has address same
      cases same
      obtain ⟨unverified, unfailed⟩ := not_or.mp undecided
      refine ⟨investor, wallet, ?_, has, rfl⟩
      rw [own]
      exact ⟨unverified, unfailed, succeeded, by rw [verification, valid], id, customer, by simp⟩

theorem handle_lists (app : App) (arrival : Arrival) :
    (handle app arrival.draws arrival.request).Meets (Lists app arrival) (fun _ _ => True)
      (fun _ _ => True) [] := by
  by_cases calls : ∃ body, arrival.request = .kycCallback body
  · obtain ⟨body, own⟩ := calls
    rw [own]
    simp only [handle, meets_bind, meets_pure]
    cases body with
    | shuftipro result => exact processCallback_lists result _ own
    | jumio result => exact jumioCallback_lists result own
  · refine (handle_meets app arrival).mono (fun past op guard address same => ?_) (fun _ _ _ => trivial)
      fun _ _ _ => trivial
    subst same
    exact absurd guard calls

theorem Approved.loaded {request : Request} {investor : Doc ObjectID Investor}
    (approved : Approved app request past investor) :
    ∃ query, ⟨.findInvestor query, .ok (some investor)⟩ ∈ past := by
  unfold Approved at approved
  split at approved
  · obtain ⟨_, _, _, stored, _, found⟩ := approved
    exact ⟨_, found⟩
  · obtain ⟨_, _, _, _, id, _, found⟩ := approved
    exact ⟨_, found⟩
  · exact approved.elim

/-- The wallet of an investor that a request has loaded was created for it. -/
theorem loaded_createdFor (reached : (accounts app).Reachable (.idle {}) state) {thread : Nat}
    {past : List AccountEvent} (early : past <+: state.log) {query : InvestorQuery}
    {investor : Doc ObjectID Investor} {wallet : Wallet}
    (found : ⟨.findInvestor query, .ok (some investor)⟩ ∈ localTrace thread past)
    (has : investor.val.ethWallet = some wallet) :
    CreatedFor app state investor.val.email wallet ∧
      ∀ email, query = .email email → investor.val.email = email := by
  have member := early.subset (mem_localTrace.mp found)
  obtain ⟨own, named⟩ := (storeInvariant reached).loaded thread query investor member
  have introduced := (columnInvariant Investor.ethWallet reached).loaded thread query investor member
  rw [has] at introduced
  exact ⟨introduced.createdFor reached own, named⟩

/-- In every interleaving, an address is put on the whitelist by a callback that
approves an investor, and it is the address of a wallet that an activation of
this investor created. -/
theorem whitelisted_owner (reached : (accounts app).Reachable (.idle {}) state)
    {past : List AccountEvent} {thread : Nat} {address : String} {answer : Except Exception Unit}
    (occurs : Occurs state.log past ⟨thread, ⟨.addAddressToWhiteList address, answer⟩⟩) :
    ∃ arrival investor wallet, Serving state thread arrival ∧
      Approved app arrival.request (localTrace thread past) investor ∧
      CreatedFor app state investor.val.email wallet ∧ address = wallet.address := by
  obtain ⟨origin, choice, arrival, resume, before, rfl, awaiting, _, onward⟩ :=
    reached.event_origin occurs
  have serving : Serving state thread arrival :=
    Serving.of_reachable ⟨_, awaiting⟩ ((System.Reachable.initial.step _).trans onward)
  obtain ⟨investor, wallet, approved, has, same⟩ :=
    (before.guarded (handle_lists app) awaiting).1 address rfl
  obtain ⟨query, found⟩ := approved.loaded
  have created := loaded_createdFor reached occurs.early found has
  exact ⟨arrival, investor, wallet, serving, approved, created.1, same⟩

/-- The newcomer is activated, and then passes the scan. -/
def scanned : AccountState :=
  after .plain (signUp ++ activation 1 ++
    .start
      { request := .kycCallback (.jumio
          { customerId := "000000000000000000000001", idScanStatus := "SUCCESS"
            identityVerification := some (some true) }) } ::
      [.resume 2 {}, .resume 2 {}, .resume 2 {}])

theorem scanned_owner : ∃ arrival investor wallet, Serving scanned 2 arrival ∧
    Approved .plain arrival.request (localTrace 2 (scanned.log.take 14)) investor ∧
    CreatedFor .plain scanned investor.val.email wallet ∧ "salt" = wallet.address := by
  have occurs : Occurs scanned.log (scanned.log.take 14)
      ⟨2, ⟨.addAddressToWhiteList "salt", .ok ()⟩⟩ :=
    ⟨scanned.log.drop 15, by with_unfolding_all rfl⟩
  exact whitelisted_owner (System.reachable_run _ _) occurs

def verdict (investor : Investor) : String × KycStatus := (investor.email, investor.kycStatus)

/-- In every interleaving, a referral is registered by an activation, for the
wallet that it creates, and under a wallet that an activation of the referral of
its sign-up created. -/
theorem registered_referral (reached : (accounts app).Reachable (.idle {}) state)
    {past : List AccountEvent} {thread : Nat} {address referral : String}
    {answer : Except Exception Unit}
    (occurs : Occurs state.log past ⟨thread, ⟨.addReferralOf address referral, answer⟩⟩) :
    ∃ arrival activationData investor email wallet, Serving state thread arrival ∧
      arrival.request = .activate activationData ∧
      ⟨.findInvestor (.email (app.toLowerCase activationData.email)), .ok (some investor)⟩ ∈
        localTrace thread past ∧
      address = (activatedWallet app arrival.draws).address ∧ investor.val.referral = some email ∧
      CreatedFor app state (app.toLowerCase email) wallet ∧ referral = wallet.address := by
  obtain ⟨origin, choice, arrival, resume, before, rfl, awaiting, _, onward⟩ :=
    reached.event_origin occurs
  have serving : Serving state thread arrival :=
    Serving.of_reachable ⟨_, awaiting⟩ ((System.Reachable.initial.step _).trans onward)
  obtain ⟨activationData, investor, email, referrer, wallet, own, loaded, new, refers, found, has,
    same⟩ := (before.guarded (handle_links app) awaiting).1 address referral rfl
  have created := loaded_createdFor reached occurs.early found has
  rw [created.2 _ rfl] at created
  exact ⟨arrival, activationData, investor, email, wallet, serving, own, loaded, new, refers, created.1,
    same⟩

/-- Bob signs up with the newcomer as his referral, and is activated. -/
def bobRegistered : AccountState :=
  after .plain (signUp ++ activation 1 ++
    .start
      { request := .create
          { newcomer with email := "bob@example.com", referral := some "ann@example.com" } } ::
    List.replicate 6 (.resume 2 { verificationId := "v2", code := "222222", id := 2 }) ++
    .start
      { request := .activate { email := "bob@example.com", verificationId := "v2", code := "222222" }
        draws := { mnemonic := "cow", salt := "pepper" } } ::
    List.replicate 5 (.resume 3 {}))

theorem bob_registered : ∃ arrival activationData investor email wallet,
    Serving bobRegistered 3 arrival ∧ arrival.request = .activate activationData ∧
    ⟨.findInvestor (.email (App.plain.toLowerCase activationData.email)), .ok (some investor)⟩ ∈
      localTrace 3 (bobRegistered.log.take 22) ∧
    "pepper" = (activatedWallet .plain arrival.draws).address ∧ investor.val.referral = some email ∧
    CreatedFor .plain bobRegistered (App.plain.toLowerCase email) wallet ∧ "salt" = wallet.address := by
  have occurs : Occurs bobRegistered.log (bobRegistered.log.take 22)
      ⟨3, ⟨.addReferralOf "pepper" "salt", .ok ()⟩⟩ :=
    ⟨bobRegistered.log.drop 23, by with_unfolding_all rfl⟩
  exact registered_referral (System.reachable_run _ _) occurs

end IcoDashboard.Accounts
