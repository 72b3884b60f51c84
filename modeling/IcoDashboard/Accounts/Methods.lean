import IcoDashboard.Accounts.Authentication
import IcoDashboard.Accounts.Saves

namespace IcoDashboard.Accounts

open IcoDashboard.Async IcoDashboard.Async.Program IcoDashboard.Data

/-! # Verification methods

The method of a verification is the default method of its user when the user is
loaded to initiate it.  It is not looked at again when the verification is
completed, whatever the default has become.
-/

variable {app : App} {state : AccountState}

/-- The operations that are completed with a verification of the default method. -/
def Purpose.byDefaultMethod : Purpose → Bool
  | .login | .changePassword | .resetPassword | .invest _ => true
  | _ => false

/-! ## How the protected operations are initiated -/

/-- A verification is initiated with the default method of the loaded user. -/
def MethodGuard (past : AccountTrace) : Op → Prop
  | .initiate method _ => ∃ query user, acting past = some (query, user) ∧
      user.val.defaultVerificationMethod = method
  | .resend _ _ => False
  | _ => True

theorem Reads.method {past : AccountTrace} {op : Op} (reads : Reads op) : MethodGuard past op := by
  cases op <;> trivial

theorem initiateLogin_method (email password ip : String) (draws : Draws) :
    (UserService.initiateLogin app email password ip draws).Meets MethodGuard (fun _ _ => True)
      (fun _ _ => True) [] := by
  simp only [UserService.initiateLogin, UserService.findUser, findInvestor,
    EmailTemplateService.getRenderedTemplate, VerificationClient.initiateVerification, request, call,
    meets_bind, meets_tryCatch, meets_ite, meets_await, meets_done, meets_fail, meets_pure,
    meets_throw, meets_throwIf, meets_orThrow, MethodGuard, implies_true, and_true, true_and]
  intro found user same _ _ _ _ token
  subst same
  exact ⟨fun _ => ⟨_, user, rfl, rfl⟩, fun _ _ => ⟨_, user, rfl, rfl⟩⟩

theorem initiateResetPassword_method (email : String) :
    (UserService.initiateResetPassword app email).Meets MethodGuard (fun _ _ => True)
      (fun _ _ => True) [] := by
  simp only [UserService.initiateResetPassword, UserService.findUser, findInvestor,
    EmailTemplateService.getRenderedTemplate, VerificationClient.initiateVerification, request, call,
    meets_bind, meets_tryCatch, meets_ite, meets_await, meets_done, meets_fail, meets_pure,
    meets_throw, meets_orThrow, MethodGuard, implies_true, and_true, true_and]
  intro found user same
  subst same
  exact ⟨fun _ => ⟨_, user, rfl, rfl⟩, fun _ _ => ⟨_, user, rfl, rfl⟩⟩

section UserRoutes

variable {query : InvestorQuery} {user : Doc ObjectID Investor} {past : AccountTrace}

theorem initiateChangePassword_method (acts : acting past = some (query, user))
    (oldPassword : String) :
    (UserService.initiateChangePassword app user oldPassword).Meets MethodGuard (fun _ _ => True)
      (fun _ _ => True) past := by
  simp only [UserService.initiateChangePassword, EmailTemplateService.getRenderedTemplate,
    VerificationClient.initiateVerification, request, call, meets_bind, meets_tryCatch, meets_ite,
    meets_await, meets_done, meets_fail, meets_pure, meets_throw, meets_throwIf, meets_orThrow,
    MethodGuard, implies_true, and_true, true_and]
  intro _ _ _
  exact ⟨fun _ => ⟨query, user, acting_append acts _, rfl⟩,
    fun _ _ => ⟨query, user, acting_append acts _, rfl⟩⟩

theorem checkReferralOf_method (address : String) (referral : Option String) :
    (DashboardController.checkReferralOf app address referral).Meets MethodGuard (fun _ _ => True)
      (fun _ _ => True) past := by
  cases referral <;> simp [DashboardController.checkReferralOf, request, call, MethodGuard]

theorem investInitiate_method (acts : acting past = some (query, user)) (body : InvestBody) :
    (DashboardController.investInitiate app user body).Meets MethodGuard (fun _ _ => True)
      (fun _ _ => True) past := by
  have price : ∀ trace, (DashboardController.gasPrice body).Meets MethodGuard (fun _ _ => True)
      (fun _ _ => True) trace := by
    intro trace
    unfold DashboardController.gasPrice
    split <;> simp [request, call, MethodGuard]
  simp only [DashboardController.investInitiate, DashboardController.checkMnemonic,
    DashboardController.checkAllowed, EmailTemplateService.getRenderedTemplate,
    VerificationClient.initiateVerification, request, call, meets_bind, meets_tryCatch, meets_ite,
    meets_await, meets_done, meets_fail, meets_pure, meets_throw, meets_throwIf, meets_orThrow,
    implies_true, and_true]
  intro wallet owned
  refine ⟨trivial, fun _ => ?_⟩
  refine (price _).after fun later price extended => ⟨trivial, fun sufficient => ⟨trivial, fun _ => ?_⟩⟩
  refine (checkReferralOf_method _ _).after fun later' _ extended' => ?_
  have acts' : acting later' = some (query, user) :=
    acting_extended extended' (acting_append (acting_extended extended acts) _)
  simp only [MethodGuard, acting_append (acting_append acts' _) _]
  exact ⟨trivial, fun allowed => ⟨trivial, fun _ => ⟨trivial, fun _ => ⟨query, user, rfl, rfl⟩,
    fun _ => ⟨trivial, fun _ => ⟨query, user, rfl, rfl⟩⟩⟩⟩⟩

end UserRoutes

/-- Every request that initiates a protected operation uses the default method of
the user it has loaded. -/
theorem handle_method (arrival : Arrival) {purpose : Purpose}
    (initiates : arrival.request.initiates = some purpose)
    (byDefault : purpose.byDefaultMethod = true) :
    (handle app arrival.draws arrival.request).Meets MethodGuard (fun _ _ => True)
      (fun _ _ => True) [] := by
  cases asked : arrival.request with
  | initiateLogin email password ip =>
      simp only [handle, meets_bind, meets_pure]
      exact initiateLogin_method email password ip arrival.draws
  | initiateResetPassword email =>
      simp only [handle, meets_bind, meets_pure]
      exact initiateResetPassword_method email
  | user authorization userRequest =>
      refine userRoute_meets (fun _ _ _ reads => reads.method) (fun query token login user _ => ?_)
        (fun _ _ => ⟨trivial, trivial⟩) fun _ _ _ => trivial
      have acts := acting_authTrace query token login user
      cases userRequest with
      | initiateChangePassword oldPassword =>
          simp only [handleUser, meets_bind, meets_pure]
          exact initiateChangePassword_method acts oldPassword
      | investInitiate body =>
          simp only [handleUser, meets_bind, meets_pure]
          exact investInitiate_method acts body
      | enable2faInitiate =>
          rw [asked] at initiates
          cases initiates
          cases byDefault
      | disable2faInitiate =>
          rw [asked] at initiates
          cases initiates
          cases byDefault
      | _ =>
          rw [asked] at initiates
          cases initiates
  | create userData =>
      rw [asked] at initiates
      cases initiates
      cases byDefault
  | resendVerification email =>
      rw [asked] at initiates
      cases initiates
      cases byDefault
  | _ =>
      rw [asked] at initiates
      cases initiates

/-! ## What a completed operation has validated -/

/-- The investor under the id, as it is stored after a log. -/
def storedAt (log : List AccountEvent) (id : ObjectID) : Option Investor :=
  (replayed .empty log).lookup id

/-- A request of the user initiated the verification for the purpose, with the
default method that the user had in the store when the request loaded it. -/
def InitiatedByDefault (app : App) (state : AccountState) (past : List AccountEvent)
    (purpose : Purpose) (email method id : String) : Prop :=
  ∃ earlier initiator call verifier loading query user,
    Occurs past earlier ⟨initiator, call⟩ ∧ Opens call verifier ∧ verifier.Matches method id ∧
    ActsTo app state earlier initiator Request.initiates purpose email ∧
    Occurs earlier loading ⟨initiator, ⟨.findInvestor query, .ok (some user)⟩⟩ ∧
    storedAt loading user.id = some user.val ∧ user.val.email = email ∧
    user.val.defaultVerificationMethod = method

/-- What a request loads is what is stored at the moment. -/
theorem loaded_storedAt (reached : (accounts app).Reachable (.idle {}) state)
    {past : List AccountEvent} {thread : Nat} {query : InvestorQuery} {user : Doc ObjectID Investor}
    (occurs : Occurs state.log past ⟨thread, ⟨.findInvestor query, .ok (some user)⟩⟩) :
    storedAt past user.id = some user.val := by
  obtain ⟨origin, _, choice, before, _, rfl, _, _, answered⟩ := event_guarded reached occurs
  rw [storedAt, ← replay_log before]
  exact (findInvestor_loaded (findInvestor_answered answered)).1

/-- A protected verification is opened with the default method of its user. -/
theorem Opens.method {past : AccountTrace} {call : Call Op Ans Exception}
    {verifier : Verifier} (opens : Opens call verifier) (guard : MethodGuard past call.1) :
    ∃ query user, acting past = some (query, user) ∧
      user.val.defaultVerificationMethod = verifier.method := by
  obtain ⟨data, result, same | same, _⟩ := opens
  · rw [same] at guard
    exact guard
  · rw [same] at guard
    exact guard.elim

/-- A completed operation has validated a verification that a request of the same
user initiated for it, with the default method the user had then. -/
theorem completed_byDefault (reached : (accounts app).Reachable (.idle {}) state)
    {past : List AccountEvent} {thread : Nat} {method id : String}
    {input : ValidateVerificationInput} {result : ValidationResult}
    (occurs : Occurs state.log past ⟨thread, ⟨.validate method id input, .ok result⟩⟩)
    {arrival : Arrival} (serving : Serving state thread arrival) {purpose : Purpose}
    (completes : arrival.request.completes = some purpose)
    (byDefault : purpose.byDefaultMethod = true) :
    ∃ email, ActsTo app state past thread Request.completes purpose email ∧
      InitiatedByDefault app state past purpose email method id := by
  obtain ⟨validated, email, acts, initiation⟩ := validated_initiated reached occurs
  obtain rfl : validated = purpose := by
    obtain ⟨arrival', serving', completes', _⟩ := acts
    obtain rfl := serving.unique serving'
    exact Option.some.inj (completes'.symm.trans completes)
  refine ⟨email, acts, ?_⟩
  obtain ⟨earlier, initiator, call, verifier, opened, opens, matching, _, _, acted⟩ := initiation
  have whole := occurs.trans opened
  have initiates := acted
  obtain ⟨starter, servingStarter, starts, actsAs⟩ := acted
  obtain ⟨origin, choice, arrival', resume, before, rfl, awaiting, _, onward⟩ :=
    reached.event_origin whole
  have servingOrigin : Serving origin initiator arrival' := ⟨_, awaiting⟩
  obtain rfl := servingStarter.unique
    (servingOrigin.of_reachable ((System.Reachable.initial.step _).trans onward))
  have guard : MethodGuard (localTrace initiator origin.log) call.1 :=
    ((handle_method starter starts byDefault).follow (before.follows awaiting)).1
  obtain ⟨query, user, loads, sameMethod⟩ := opens.method guard
  obtain ⟨loading, loaded⟩ := occurs_of_mem (acting_loaded loads)
  have sameEmail : user.val.email = email := by
    cases request : starter.request with
    | create userData =>
        rw [request] at starts
        cases starts
        cases byDefault
    | _ =>
        rw [request] at actsAs
        obtain ⟨query', user', loads', same⟩ := actsAs
        rw [loads] at loads'
        cases loads'
        exact same.symm
  exact ⟨origin.log, initiator, call, verifier, loading, query, user, opened, opens, matching,
    initiates, loaded, loaded_storedAt before loaded, sameEmail, sameMethod.trans matching.1⟩

/-! ## A login across a change of the method -/

/-- Every protected operation is completed by the default method of the moment. -/
def ChecksByDefault (app : App) (state : AccountState) : Prop :=
  ∀ past thread method id input result purpose email userId user,
    Occurs state.log past ⟨thread, ⟨.validate method id input, .ok result⟩⟩ →
    purpose.byDefaultMethod = true →
    ActsTo app state past thread Request.completes purpose email →
    storedAt past userId = some user → user.email = email →
    user.defaultVerificationMethod = authenticatorVerification →
    method = authenticatorVerification

def enableAnn : Arrival :=
  { request := .user (some "Bearer t1") (.enable2faVerify ⟨"v3", "333333", "google_auth"⟩) }

def verifyAnn : Arrival :=
  { request := .verifyLogin ⟨"t2", some ⟨"v2", "222222", "email"⟩⟩ }

/-- The login is initiated by e-mail, the authenticator is enabled, and then the
code of the e-mail completes the login. -/
def loginAcrossEnabling : List (Action Choice Arrival) :=
  signUp ++ activation 1 ++
  [.start { request := .initiateLogin "ann@example.com" "secret" "127.0.0.1" },
    .resume 2 {}, .resume 2 { accessToken := "t2" }, .resume 2 {},
    .resume 2 { verificationId := "v2", code := "222222" }, .resume 2 { id := 2 },
    .start { request := .user (some "Bearer t1") .enable2faInitiate },
    .resume 3 {}, .resume 3 {}, .resume 3 {}, .resume 3 { verificationId := "v3", code := "333333" },
    .start enableAnn, .resume 4 {}, .resume 4 {}, .resume 4 {}, .resume 4 {}, .resume 4 {},
    .resume 4 {},
    .start verifyAnn, .resume 5 {}, .resume 5 {}, .resume 5 {}, .resume 5 {}, .resume 5 {}]

def loggedInAcross : AccountState := after .plain loginAcrossEnabling

/-- What the verify service answers to the code of the e-mail. -/
def loginValidation : ValidationResult :=
  { data :=
      { verificationId := "v2", consumer := "ann@example.com", payload := [("scope", "login_user")] } }

theorem loggedInAcross_validates : Occurs loggedInAcross.log (loggedInAcross.log.take 31)
    ⟨5, ⟨.validate "email" "v2" { code := "222222" }, .ok loginValidation⟩⟩ := ⟨[], rfl⟩

theorem loggedInAcross_byDefault : ∃ email, InitiatedByDefault .plain loggedInAcross
    (loggedInAcross.log.take 31) .login email "email" "v2" := by
  have serving : Serving loggedInAcross 5 verifyAnn := ⟨_, rfl⟩
  obtain ⟨email, _, initiated⟩ := completed_byDefault (System.reachable_run _ _)
    loggedInAcross_validates serving (rfl : verifyAnn.request.completes = some .login) rfl
  exact ⟨email, initiated⟩

theorem loggedInAcross_byMail : ¬ ∀ state, (accounts .plain).Reachable (.idle {}) state →
    ChecksByDefault .plain state := by
  intro checks
  have stored : ∃ user, storedAt (loggedInAcross.log.take 31) 1 = some user ∧
      user.email = "ann@example.com" ∧
      user.defaultVerificationMethod = authenticatorVerification := ⟨_, rfl, rfl, rfl⟩
  obtain ⟨user, found, email, authenticator⟩ := stored
  have acts : ActsTo .plain loggedInAcross (loggedInAcross.log.take 31) 5 Request.completes .login
      "ann@example.com" := ⟨verifyAnn, ⟨_, rfl⟩, rfl, _, _, rfl, rfl⟩
  have byAuthenticator := checks loggedInAcross (System.reachable_run _ _) _ _ _ _ _ _ .login _ 1
    user loggedInAcross_validates rfl acts found email authenticator
  exact absurd byAuthenticator (by decide)

end IcoDashboard.Accounts
