import IcoDashboard.Accounts.Authentication
import IcoDashboard.Accounts.Alone
import IcoDashboard.Accounts.Wallets

namespace IcoDashboard.Accounts

open IcoDashboard.Async IcoDashboard.Async.Program IcoDashboard.Data

/-! # Referrals

A sign-up takes only an activated investor for its referral, and an activated
investor has a wallet for good.  So with the requests run in turn, the wallet of
a referral can be read without a check.
-/

variable {app : App}

/-! ## The calls that look up a referral -/

/-- The calls that neither look up nor write an investor. -/
def Idle : Op → Prop
  | .findInvestor _ | .saveInvestor _ | .insertInvestor _ => False
  | _ => True

/-- The requests that read the wallet of the referral. -/
def Request.dereferences : Request → Bool
  | .activate _ | .user _ (.investInitiate _) | .user _ (.investVerify _ _) => true
  | _ => false

/-- Once the user is loaded, the only investor that is looked up is its referral,
and nothing has been written yet. -/
def LookupGuard (app : App) (past : AccountTrace) : Op → Prop
  | .findInvestor query => ∀ own user, acting past = some (own, user) → investorWrites past = [] ∧
      ∃ email, user.val.referral = some email ∧ email ≠ "" ∧
        query = .email (app.toLowerCase email)
  | _ => True

/-- The user is loaded, and nothing is written. -/
structure Loaded (user : Doc ObjectID Investor) (past : AccountTrace) : Prop where
  acts : ∃ query, acting past = some (query, user)
  noWrite : investorWrites past = []

variable {user : Doc ObjectID Investor} {past : AccountTrace}

theorem Idle.noWrite {call : Call Op Ans Exception} (idle : Idle call.1) :
    investorWrite call = none := by
  obtain ⟨op, answer⟩ := call
  cases op <;> first | rfl | exact idle.elim

theorem Idle.guard {op : Op} (idle : Idle op) : LookupGuard app past op := by
  cases op <;> trivial

theorem investorWrites_idle {added : AccountTrace} (idle : ∀ call ∈ added, Idle call.1) :
    investorWrites (past ++ added) = investorWrites past :=
  investorWrites_unwritten fun call member => (idle call member).noWrite

theorem Loaded.append {added : AccountTrace} (loaded : Loaded user past)
    (idle : ∀ call ∈ added, Idle call.1) : Loaded user (past ++ added) := by
  obtain ⟨query, acts⟩ := loaded.acts
  exact ⟨⟨query, acting_append acts added⟩, (investorWrites_idle idle).trans loaded.noWrite⟩

theorem Loaded.through {program : Handler α} {onDone : AccountTrace → α → Prop}
    (loaded : Loaded user past)
    (idle : program.Meets (fun _ op => Idle op) (fun _ _ => True) (fun _ _ => True) past)
    (rest : ∀ later value, Loaded user later → onDone later value) :
    program.Meets (LookupGuard app) onDone (fun _ _ => True) past :=
  idle.through (fun _ _ idle => idle.guard)
    (fun _ value calls => rest _ value (loaded.append calls)) fun _ _ _ => trivial

theorem Loaded.lookup (loaded : Loaded user past) {email : String}
    (refers : user.val.referral = some email) (given : email ≠ "") :
    LookupGuard app past (.findInvestor (.email (app.toLowerCase email))) := by
  intro own other acts
  obtain ⟨query, loads⟩ := loaded.acts
  rw [loads] at acts
  cases acts
  exact ⟨loaded.noWrite, email, refers, given, rfl⟩

theorem addReferral_looksUp (loaded : Loaded user past) (address : String) :
    (UserService.addReferral app address user.val.referral).Meets (LookupGuard app)
      (fun _ _ => True) (fun _ _ => True) past := by
  cases refers : user.val.referral with
  | none => trivial
  | some email =>
      simp only [UserService.addReferral, request, call, meets_ite, meets_bind, meets_await,
        meets_done, meets_fail, meets_pure, meets_orThrow, implies_true, true_and, and_true]
      exact fun given => ⟨loaded.lookup refers given, fun _ _ _ => trivial⟩

theorem checkReferralOf_looksUp (loaded : Loaded user past) (address : String) :
    (DashboardController.checkReferralOf app address user.val.referral).Meets (LookupGuard app)
      (fun _ _ => True) (fun _ _ => True) past := by
  cases refers : user.val.referral with
  | none => trivial
  | some email =>
      simp only [DashboardController.checkReferralOf, request, call, meets_ite, meets_bind,
        meets_await, meets_done, meets_fail, meets_pure, meets_orThrow, meets_throwIf, implies_true,
        true_and, and_true]
      exact fun given => ⟨loaded.lookup refers given, fun _ => trivial⟩

/-- The calls that look up no investor. -/
def Unasked : Op → Prop
  | .findInvestor _ => False
  | _ => True

theorem unasked_of_idle {program : Handler α}
    (idle : program.Meets (fun _ op => Idle op) (fun _ _ => True) (fun _ _ => True) past) :
    program.Meets (fun _ op => Unasked op) (fun _ _ => True) (fun _ _ => True) past :=
  idle.mono (fun _ op _ => by cases op <;> trivial) (fun _ _ _ => trivial) fun _ _ _ => trivial

theorem looksUp_of_unasked {program : Handler α}
    (unasked : program.Meets (fun _ op => Unasked op) (fun _ _ => True) (fun _ _ => True) past) :
    program.Meets (LookupGuard app) (fun _ _ => True) (fun _ _ => True) past :=
  unasked.mono (fun _ op _ => by cases op <;> trivial) (fun _ _ _ => trivial) fun _ _ _ => trivial

theorem storeActivation_unasked (user : Doc ObjectID Investor) :
    (UserService.storeActivation user).Meets (fun _ op => Unasked op) (fun _ _ => True)
      (fun _ _ => True) past := by
  simp [UserService.storeActivation, request, call, Unasked]

theorem notifyActivation_unasked (user : Investor) (address : String) :
    (UserService.notifyActivation app user address).Meets (fun _ op => Unasked op) (fun _ _ => True)
      (fun _ _ => True) past :=
  notifyActivation_calls user address (fun _ _ => trivial) (fun _ => trivial)
    fun _ _ _ _ _ => trivial

theorem kycInit_unasked (user : Doc ObjectID Investor) (draws : Draws) :
    (KycProvider.init app user draws).Meets (fun _ op => Unasked op) (fun _ _ => True)
      (fun _ _ => True) past :=
  kycInit_calls user draws (fun _ => trivial) (fun _ => trivial) fun _ => trivial

theorem getRenderedTemplate_idle (name : String) (data : List (String × String)) :
    (EmailTemplateService.getRenderedTemplate app name data).Meets (fun _ op => Idle op)
      (fun _ _ => True) (fun _ _ => True) past :=
  getRenderedTemplate_calls name data fun _ _ => trivial

theorem initiateVerification_idle (method : String) (data : InitiateData) :
    (VerificationClient.initiateVerification app method data).Meets (fun _ op => Idle op)
      (fun _ _ => True) (fun _ _ => True) past :=
  initiateVerification_calls method data fun _ _ => trivial

theorem check_idle (input : VerificationData) (consumer : String) (payload : Json.Object)
    (removeSecret : Option Bool) :
    (VerificationClient.checkVerificationPayloadAndCode app input consumer payload
      removeSecret).Meets (fun _ op => Idle op) (fun _ _ => True) (fun _ _ => True) past :=
  check_calls input consumer payload removeSecret (fun _ _ => trivial) (fun _ _ _ => trivial)
    fun _ _ => trivial

theorem activate_looksUp (activationData : ActivationUserData) (draws : Draws) :
    (UserService.activate app activationData draws).Meets (LookupGuard app) (fun _ _ => True)
      (fun _ _ => True) [] := by
  simp only [UserService.activate, UserService.findUser, findInvestor, request, call, meets_bind,
    meets_await, meets_done, meets_fail, meets_orThrow, meets_throwIf, meets_pure, implies_true,
    and_true, true_and]
  refine ⟨fun _ _ acts => (by cases acts), fun found user same _ => ?_⟩
  subst same
  have loaded : Loaded user
      [⟨.findInvestor (.email (app.toLowerCase activationData.email)), .ok (some user)⟩] :=
    ⟨⟨_, rfl⟩, rfl⟩
  refine loaded.through (check_idle _ _ _ _) fun checked _ loaded => ?_
  refine (addReferral_looksUp loaded _).after fun later _ _ => ?_
  refine (looksUp_of_unasked (kycInit_unasked _ _)).after fun later _ _ => ?_
  refine (looksUp_of_unasked (storeActivation_unasked _)).after fun later _ _ => ?_
  exact looksUp_of_unasked (notifyActivation_unasked _ _)

/-! ## The investments -/

theorem checkMnemonic_idle (user : Investor) (mnemonic : String) :
    (DashboardController.checkMnemonic app user mnemonic).Meets (fun _ op => Idle op)
      (fun _ _ => True) (fun _ _ => True) past := by
  simp [DashboardController.checkMnemonic]

theorem gasPrice_idle (body : InvestBody) :
    (DashboardController.gasPrice body).Meets (fun _ op => Idle op) (fun _ _ => True)
      (fun _ _ => True) past := by
  unfold DashboardController.gasPrice
  split <;> simp [request, call, Idle]

theorem checkAllowed_idle (address : String) :
    (DashboardController.checkAllowed app address).Meets (fun _ op => Idle op) (fun _ _ => True)
      (fun _ _ => True) past := by
  simp [DashboardController.checkAllowed, request, call, Idle]

theorem sufficientBalance_idle (input : TransactionInput) :
    (request (.sufficientBalance input)).Meets (fun _ op => Idle op) (fun _ _ => True)
      (fun _ _ => True) past := by
  simp [request, call, Idle]

theorem investInitiate_looksUp (loaded : Loaded user past) (body : InvestBody) :
    (DashboardController.investInitiate app user body).Meets (LookupGuard app) (fun _ _ => True)
      (fun _ _ => True) past := by
  simp only [DashboardController.investInitiate, meets_bind, meets_throwIf, implies_true, true_and]
  refine loaded.through (checkMnemonic_idle _ _) fun _ ethWallet loaded => ?_
  refine loaded.through (gasPrice_idle _) fun _ price loaded => ?_
  refine loaded.through (sufficientBalance_idle _) fun _ sufficient loaded _ => ?_
  refine (checkReferralOf_looksUp loaded _).after fun _ _ _ => ?_
  refine (looksUp_of_unasked (unasked_of_idle (checkAllowed_idle _))).after fun _ _ _ => ?_
  refine (looksUp_of_unasked (unasked_of_idle (getRenderedTemplate_idle _ _))).after fun _ _ _ => ?_
  exact looksUp_of_unasked (unasked_of_idle (initiateVerification_idle _ _))

theorem investVerify_looksUp (loaded : Loaded user past) (body : InvestBody)
    (verification : VerificationData) :
    (DashboardController.investVerify app user body verification).Meets (LookupGuard app)
      (fun _ _ => True) (fun _ _ => True) past := by
  simp only [DashboardController.investVerify, meets_bind]
  refine loaded.through (checkMnemonic_idle _ _) fun _ ethWallet loaded => ?_
  refine (checkReferralOf_looksUp loaded _).after fun _ _ _ => ?_
  refine (looksUp_of_unasked (unasked_of_idle (checkAllowed_idle _))).after fun _ _ _ => ?_
  refine (looksUp_of_unasked (unasked_of_idle (check_idle _ _ _ _))).after fun _ _ _ => ?_
  refine (looksUp_of_unasked (unasked_of_idle (gasPrice_idle _))).after fun _ price _ =>
    looksUp_of_unasked ?_
  simp [request, call, Unasked]

/-- A request that reads the wallet of the referral looks the referral up before it
writes. -/
theorem dereferences_looksUp (app : App) (arrival : Arrival)
    (dereferences : arrival.request.dereferences = true) :
    (handle app arrival.draws arrival.request).Meets (LookupGuard app) (fun _ _ => True)
      (fun _ _ => True) [] := by
  have reads : ∀ past op, acting past = none → Reads op → LookupGuard app past op := by
    intro past op none reads
    cases op with
    | findInvestor query =>
        intro own user acts
        rw [none] at acts
        cases acts
    | _ => trivial
  have loaded : ∀ query token login user, Loaded user (authTrace query token login user) :=
    fun _ _ _ _ => ⟨⟨_, rfl⟩, rfl⟩
  cases asked : arrival.request with
  | activate activationData =>
      simp only [handle, meets_bind, meets_pure]
      exact activate_looksUp activationData arrival.draws
  | user authorization userRequest =>
      refine userRoute_meets reads (fun query token login user _ => ?_) (fun _ _ => ⟨trivial, trivial⟩)
        fun _ _ _ => trivial
      cases userRequest with
      | investInitiate body =>
          simp only [handleUser, meets_bind, meets_pure]
          exact investInitiate_looksUp (loaded query token login user) body
      | investVerify body verification =>
          simp only [handleUser, meets_bind, meets_pure]
          exact investVerify_looksUp (loaded query token login user) body verification
      | _ => rw [asked] at dereferences; cases dereferences
  | _ => rw [asked] at dereferences; cases dereferences

/-! ## The referral of a sign-up -/

/-- The referral was found activated, and nothing is written. -/
structure Checked (app : App) (referral : Option String) (past : AccountTrace) : Prop where
  noWrite : investorWrites past = []
  found : ∀ email, referral = some email → email ≠ "" → ∃ found,
    ⟨.findInvestor (.email (app.toLowerCase email)), .ok (some found)⟩ ∈ past ∧
    found.val.isVerified = true

/-- A sign-up inserts an investor whose referral it has checked. -/
def CreateGuard (app : App) (past : AccountTrace) : Op → Prop
  | .insertInvestor investor => Checked app investor.referral past
  | .saveInvestor _ => False
  | _ => True

theorem Idle.create {op : Op} (idle : Idle op) : CreateGuard app past op := by
  cases op <;> trivial

theorem Checked.through {referral : Option String} {program : Handler α}
    {onDone : AccountTrace → α → Prop} (checked : Checked app referral past)
    (idle : program.Meets (fun _ op => Idle op) (fun _ _ => True) (fun _ _ => True) past)
    (rest : ∀ later value, Checked app referral later → onDone later value) :
    program.Meets (CreateGuard app) onDone (fun _ _ => True) past := by
  refine idle.through (fun _ _ idle => idle.create) (fun added value calls => rest _ value ?_)
    fun _ _ _ => trivial
  refine ⟨(investorWrites_idle calls).trans checked.noWrite, fun email refers given => ?_⟩
  obtain ⟨found, member, activated⟩ := checked.found email refers given
  exact ⟨found, List.mem_append_left _ member, activated⟩

theorem checkReferral_checks (referral : Option String) {onDone : AccountTrace → Unit → Prop}
    (noWrite : investorWrites past = [])
    (rest : ∀ later value, Checked app referral later → onDone later value) :
    (UserService.checkReferral app referral).Meets (CreateGuard app) onDone (fun _ _ => True) past := by
  cases referral with
  | none => exact rest past () ⟨noWrite, fun _ refers => nomatch refers⟩
  | some email =>
      simp only [UserService.checkReferral, findInvestor, request, call, meets_ite, meets_bind,
        meets_await, meets_done, meets_fail, meets_pure, meets_orThrow, meets_throwIf, implies_true,
        true_and, and_true]
      refine ⟨fun empty => ?_, fun _ => ⟨trivial, fun found referral same activated => ?_⟩⟩
      · exact rest past () ⟨noWrite, fun other refers given =>
          absurd (Option.some.inj refers ▸ empty) given⟩
      · subst same
        apply rest
        refine ⟨?_, fun other refers _ => ?_⟩
        · rw [investorWrites_append, noWrite]
          rfl
        · cases refers
          exact ⟨referral, List.mem_append_right _ List.mem_cons_self, by simpa using activated⟩

theorem create_checks (userData : UserData) (draws : Draws) :
    (UserService.create app userData draws).Meets (CreateGuard app) (fun _ _ => True)
      (fun _ _ => True) [] := by
  simp only [UserService.create, meets_bind, meets_pure, meets_throwIf]
  have start : ∀ answer, investorWrites
      ([] ++ [⟨.findInvestor (.email (app.toLowerCase userData.email)), answer⟩] : AccountTrace) =
      [] := fun answer => by cases answer <;> rfl
  simp only [request, call, meets_await, meets_done, meets_fail, implies_true, true_and, and_true]
  refine ⟨trivial, fun found _ => ?_⟩
  refine checkReferral_checks userData.referral (start _) fun later _ checked => ?_
  refine checked.through (getRenderedTemplate_idle _ _) fun _ body checked => ?_
  exact checked.through (initiateVerification_idle _ _) fun _ verification checked =>
    ⟨checked, fun _ => trivial⟩

end IcoDashboard.Accounts
