import IcoDashboard.Accounts.Activation
import IcoDashboard.Async.Obligations

namespace IcoDashboard.Accounts

open IcoDashboard.Async IcoDashboard.Async.Program IcoDashboard.Data

/-! # Guessing codes

A wrong code that uses up the attempts leaves a debt: the request has to
invalidate the verification.  While the wrong codes of one verification are
answered one at a time, no more of them than the attempts are ever tried.
-/

variable {app : App} {state : AccountState}

/-! ## The debt of a last attempt -/

def isWrongCode (method id : String) : Call Op Ans Exception → Bool
  | ⟨.validate method' id' _, .error e⟩ => method' = method && id' = id && e.statusCode = some 422
  | _ => false

/-- The verification that a call has found to have no attempts left. -/
def exhausts (app : App) : Call Op Ans Exception → Option (String × String)
  | ⟨.validate method id _, .error e⟩ =>
      if e.statusCode = some 422 ∧ app.config.verifyMaxAttempts ≤ e.attempts then some (method, id)
      else none
  | _ => none

/-- The verification that a request has to invalidate next. -/
def owed (app : App) (trace : AccountTrace) : Option (String × String) :=
  trace.getLast?.bind (exhausts app)

def guessDebt (app : App) : Debt Op Ans Exception :=
  fun trace => (owed app trace).map fun (method, id) => .invalidate method id

@[simp] theorem owed_append (trace : AccountTrace) (call : Call Op Ans Exception) :
    owed app (trace ++ [call]) = exhausts app call := by
  simp [owed]

/-- The calls that try no code. -/
def Codeless : Op → Prop
  | .validate _ _ _ => False
  | _ => True

theorem Codeless.free {op : Op} (codeless : Codeless op) : Free (guessDebt app) op := by
  intro past answer
  rw [guessDebt, owed_append]
  cases op with
  | validate method id input => exact codeless.elim
  | _ => rfl

theorem pays_codeless {α : Type} {program : Handler α}
    (met : ∀ past, program.Meets (fun _ op => Codeless op) (fun _ _ => True) (fun _ _ => True) past) :
    Pays (guessDebt app) program :=
  pays_of_free (fun _ => Codeless.free) met

theorem pays_request {op : Op} (codeless : Codeless op) : Pays (guessDebt app) (request op) :=
  pays_call codeless.free

theorem validateVerification_pays (method id : String) (input : ValidateVerificationInput) :
    Pays (guessDebt app) (VerificationClient.validateVerification app method id input) := by
  intro past free
  simp only [VerificationClient.validateVerification, VerificationClient.invalidateVerification,
    request, call, meets_tryCatch, meets_await, meets_done, meets_fail, meets_ite, meets_bind,
    meets_throw]
  refine ⟨owing_of_none free _, fun _ => ?_, fun e => ?_⟩
  · simp [guessDebt, exhausts]
  · refine ⟨fun wrong => ⟨fun last => ⟨?_, ?_⟩, fun more => ?_⟩, fun other => ?_⟩
    · simp [Owing, guessDebt, exhausts, wrong, last]
    · simp [guessDebt, owed, exhausts]
    · simp [guessDebt, exhausts, more]
    · simp [guessDebt, exhausts, other]

theorem check_pays (input : VerificationData) (consumer : String) (payload : Json.Object)
    (removeSecret : Option Bool) :
    Pays (guessDebt app) (VerificationClient.checkVerificationPayloadAndCode app input consumer
      payload removeSecret) := by
  refine Pays.bind ?_ fun verification => Pays.bind (pays_throwIf _) fun _ =>
    validateVerification_pays _ _ _
  refine Pays.tryCatch (pays_request trivial) fun e => Pays.ite (fun _ => ?_) fun _ => ?_
  · exact pays_fail _
  · exact pays_fail _

/-! ## The requests that check a code -/

theorem findInvestor_pays (query : InvestorQuery) (missing : Exception) :
    Pays (guessDebt app) (findInvestor query missing) :=
  Pays.bind (pays_request trivial) fun _ => pays_orThrow _ _

theorem notify_pays (name : String) (data : List (String × String)) (mail : String → Mail) :
    Pays (guessDebt app) (notify app name data mail) :=
  pays_codeless fun _ => notify_calls name data mail (fun _ _ => trivial) fun _ => trivial

theorem activate_pays (activationData : ActivationUserData) (draws : Draws) :
    Pays (guessDebt app) (UserService.activate app activationData draws) := by
  refine Pays.bind (findInvestor_pays _ _) fun user => Pays.bind (pays_throwIf _) fun _ =>
    Pays.bind (check_pays _ _ _ _) fun _ => Pays.bind ?_ fun _ => Pays.bind ?_ fun kycInitResult =>
    Pays.bind ?_ fun loginResult => Pays.bind ?_ fun _ => pays_done _
  · exact pays_codeless fun _ => addReferral_calls _ _ (fun _ => trivial) fun _ _ => trivial
  · exact pays_codeless fun _ =>
      kycInit_calls _ _ (fun _ => trivial) (fun _ => trivial) fun _ => trivial
  · exact Pays.bind (pays_request trivial) fun _ => Pays.bind (pays_request trivial) fun _ =>
      Pays.bind (pays_request trivial) fun _ => pays_done _
  · exact pays_codeless fun _ =>
      notifyActivation_calls _ _ (fun _ _ => trivial) (fun _ => trivial) fun _ _ _ _ _ => trivial

theorem verifyLogin_pays (inputData : VerifyLoginInput) (draws : Draws) :
    Pays (guessDebt app) (UserService.verifyLogin app inputData draws) := by
  refine Pays.bind (pays_request trivial) fun _ => Pays.bind (pays_orThrow _ _) fun token =>
    Pays.bind (pays_orThrow _ _) fun verification => Pays.bind (pays_orThrow _ _) fun input =>
    Pays.bind (pays_throwIf _) fun _ => Pays.bind (pays_request trivial) fun login =>
    Pays.bind (findInvestor_pays _ _) fun user => Pays.bind (check_pays _ _ _ _) fun _ =>
    Pays.bind (pays_throwIf _) fun _ => Pays.bind (pays_request trivial) fun _ =>
    Pays.bind (notify_pays _ _ _) fun _ => pays_done _

theorem verifyResetPassword_pays (params : ResetPasswordInput) (draws : Draws) :
    Pays (guessDebt app) (UserService.verifyResetPassword app params draws) := by
  refine Pays.bind (findInvestor_pays _ _) fun user => Pays.bind (check_pays _ _ _ _) fun _ =>
    Pays.bind (pays_request trivial) fun _ => Pays.bind (pays_request trivial) fun _ =>
    Pays.bind (notify_pays _ _ _) fun _ => pays_done _

theorem verifyChangePassword_pays (user : Doc ObjectID Investor) (params : ChangePasswordInput)
    (draws : Draws) :
    Pays (guessDebt app) (UserService.verifyChangePassword app user params draws) := by
  refine Pays.bind (pays_orThrow _ _) fun _ => Pays.bind (pays_throwIf _) fun _ =>
    Pays.bind (pays_orThrow _ _) fun verification =>
    Pays.bind (check_pays _ _ _ _) fun _ => Pays.bind (pays_request trivial) fun _ =>
    Pays.bind (notify_pays _ _ _) fun _ => Pays.bind (pays_request trivial) fun _ =>
    Pays.bind (pays_request trivial) fun _ => Pays.bind (pays_request trivial) fun _ => pays_done _

theorem verifyEnable2fa_pays (user : Doc ObjectID Investor) (verification : VerificationData) :
    Pays (guessDebt app) (UserService.verifyEnable2fa app user verification) := by
  refine Pays.bind (pays_throwIf _) fun _ => Pays.bind (check_pays _ _ _ _) fun _ =>
    Pays.bind (pays_request trivial) fun _ => pays_done _

theorem verifyDisable2fa_pays (user : Doc ObjectID Investor) (verification : VerificationData) :
    Pays (guessDebt app) (UserService.verifyDisable2fa app user verification) := by
  refine Pays.bind (pays_throwIf _) fun _ => Pays.bind (check_pays _ _ _ _) fun _ =>
    Pays.bind (pays_request trivial) fun _ => pays_done _

theorem checkReferralOf_pays (address : String) (referral : Option String) :
    Pays (guessDebt app) (DashboardController.checkReferralOf app address referral) := by
  cases referral with
  | none => exact pays_done ()
  | some email =>
      refine Pays.ite (fun _ => pays_done ()) fun _ => Pays.bind (pays_request trivial) fun _ =>
        Pays.bind (pays_request trivial) fun _ => Pays.bind (pays_orThrow _ _) fun _ =>
        pays_throwIf _

theorem gasPrice_pays (body : InvestBody) :
    Pays (guessDebt app) (DashboardController.gasPrice body) := by
  unfold DashboardController.gasPrice
  split
  · exact Pays.ite (fun _ => pays_request trivial) fun _ => pays_done _
  · exact pays_request trivial

theorem investVerify_pays (user : Doc ObjectID Investor) (body : InvestBody)
    (verification : VerificationData) :
    Pays (guessDebt app) (DashboardController.investVerify app user body verification) := by
  refine Pays.bind ?_ fun ethWallet => Pays.bind (checkReferralOf_pays _ _) fun _ =>
    Pays.bind ?_ fun _ => Pays.bind (check_pays _ _ _ _) fun _ =>
    Pays.bind (gasPrice_pays body) fun price => Pays.bind (pays_request trivial) fun _ => pays_done _
  · exact Pays.bind (pays_orThrow _ _) fun _ => Pays.bind (pays_throwIf _) fun _ => pays_done _
  · exact Pays.bind (pays_request trivial) fun _ => pays_throwIf _

theorem authenticate_codeless (authorization : Option String) (trace : AccountTrace) :
    (authenticate authorization).Meets (fun _ op => Codeless op) (fun _ _ => True) (fun _ _ => True)
      trace := by
  unfold authenticate
  split
  · trivial
  · simp only [authenticateToken, request, call, meets_bind, meets_await, meets_done, meets_fail,
      Codeless, implies_true, and_true, true_and]
    intro found
    split
    · simp only [meets_ite, meets_pure, loadUser, request, call, meets_bind, meets_await, meets_done,
        meets_fail, meets_tryCatch, implies_true, and_true, true_and]
      intro verified login answer
      split <;> trivial
    · trivial

theorem user_pays {authorization : Option String} {draws : Draws} {userRequest : UserRequest}
    (pays : ∀ user, Pays (guessDebt app) (handleUser app user draws userRequest)) :
    Pays (guessDebt app) (handle app draws (.user authorization userRequest)) := by
  refine Pays.bind (pays_codeless (authenticate_codeless authorization)) fun result => ?_
  cases result with
  | next user => exact pays user
  | notAuthorized => exact pays_done _
  | notFound => exact pays_done _

/-- A request that completes nothing tries no code. -/
theorem incomplete_pays (arrival : Arrival) (incomplete : arrival.request.completes = none) :
    (handle app arrival.draws arrival.request).Meets (Owing (guessDebt app))
      (fun later _ => guessDebt app later = none) (fun later _ => guessDebt app later = none) [] := by
  refine Meets.pays rfl ((handle_meets app arrival).mono (fun past op guard => Codeless.free ?_)
    (fun _ _ _ => trivial) fun _ _ _ => trivial)
  cases op with
  | validate method id input =>
      obtain ⟨purpose, _, completes, _⟩ := guard
      rw [incomplete] at completes
      cases completes
  | _ => trivial

/-- No request ends while it owes an invalidation, or makes another call first. -/
theorem handle_pays (app : App) (arrival : Arrival) :
    (handle app arrival.draws arrival.request).Meets (Owing (guessDebt app))
      (fun later _ => guessDebt app later = none) (fun later _ => guessDebt app later = none) [] := by
  have paying : Pays (guessDebt app) (handle app arrival.draws arrival.request) →
      (handle app arrival.draws arrival.request).Meets (Owing (guessDebt app))
        (fun later _ => guessDebt app later = none) (fun later _ => guessDebt app later = none) [] :=
    fun pays => pays [] rfl
  cases own : arrival.request with
  | activate activationData =>
      rw [own] at paying
      exact paying (Pays.bind (activate_pays _ _) fun _ => pays_done _)
  | verifyLogin inputData =>
      rw [own] at paying
      exact paying (Pays.bind (verifyLogin_pays _ _) fun _ => pays_done _)
  | verifyResetPassword params =>
      rw [own] at paying
      exact paying (Pays.bind (verifyResetPassword_pays _ _) fun _ => pays_done _)
  | user authorization userRequest =>
      rw [own] at paying
      cases userRequest with
      | verifyChangePassword params =>
          exact paying (user_pays fun _ => Pays.bind (verifyChangePassword_pays _ _ _) fun _ =>
            pays_done _)
      | enable2faVerify verification =>
          exact paying (user_pays fun _ => Pays.bind (verifyEnable2fa_pays _ _) fun _ => pays_done _)
      | disable2faVerify verification =>
          exact paying (user_pays fun _ => Pays.bind (verifyDisable2fa_pays _ _) fun _ => pays_done _)
      | investVerify body verification =>
          exact paying (user_pays fun _ => Pays.bind (investVerify_pays _ _ _) fun _ => pays_done _)
      | _ =>
          rw [← own]
          exact incomplete_pays arrival (by rw [own]; rfl)
  | _ =>
      rw [← own]
      exact incomplete_pays arrival (by rw [own]; rfl)

/-! ## The wrong codes of a run -/

def wrongCodes (method id : String) (log : List AccountEvent) : Nat :=
  log.countP fun event => isWrongCode method id event.call

/-- A request has used up the attempts and not invalidated the verification yet. -/
def Pending (app : App) (state : AccountState) (method id : String) : Prop :=
  ∃ thread < state.threads.length, owed app (localTrace thread state.log) = some (method, id)

instance (app : App) (state : AccountState) (method id : String) :
    Decidable (Pending app state method id) :=
  inferInstanceAs (Decidable (∃ thread < _, _))

/-- The verification whose code a call tries. -/
def triedCode : Op → Option (String × String)
  | .validate method id _ => some (method, id)
  | _ => none

def isInvalidation : Op → Bool
  | .invalidate _ _ => true
  | _ => false

/-- The verify service answers, and counts the attempts, and no code is tried
while an invalidation of the verification is pending. -/
def FairCall (app : App) (state : AccountState) (choice : Choice) (op : Op) : Prop :=
  (∀ code ∈ triedCode op, choice.rejects = none ∧
    wrongCodes code.1 code.2 state.log < choice.attempts ∧ ¬ Pending app state code.1 code.2) ∧
  (isInvalidation op = true → choice.rejects = none)

def Fair (app : App) (state : AccountState) : Action Choice Arrival → Prop
  | .start _ => True
  | .resume thread choice =>
      match state.threads[thread]? with
      | some ⟨_, .await op _⟩ => FairCall app state choice op
      | _ => True

instance (app : App) (state : AccountState) (choice : Choice) (op : Op) :
    Decidable (FairCall app state choice op) :=
  inferInstanceAs (Decidable (_ ∧ _))

instance (app : App) (state : AccountState) : (action : Action Choice Arrival) →
    Decidable (Fair app state action)
  | .start _ => .isTrue trivial
  | .resume thread choice =>
      match found : state.threads[thread]? with
      | some ⟨_, .await op _⟩ =>
          decidable_of_iff (FairCall app state choice op) (by simp [Fair, found])
      | some ⟨_, .done _⟩ => .isTrue (by simp [Fair, found])
      | some ⟨_, .fail _⟩ => .isTrue (by simp [Fair, found])
      | none => .isTrue (by simp [Fair, found])

/-- The attempts of the configuration, and one for the first wrong code. -/
def attemptsBound (app : App) : Nat := max 1 app.config.verifyMaxAttempts

def Exhausted (app : App) (method id : String) (log : List AccountEvent) : Prop :=
  ∃ event ∈ log, exhausts app event.call = some (method, id)

structure GuessInvariant (app : App) (method id : String) (state : AccountState) : Prop where
  fresh : ¬ Exhausted app method id state.log → wrongCodes method id state.log < attemptsBound app
  used : Exhausted app method id state.log →
    wrongCodes method id state.log ≤ attemptsBound app ∧
      ∃ verifier ∈ state.world.verifiers, verifier.Matches method id ∧
        (verifier.live = false ∨ Pending app state method id)
  accepted : ∀ past thread input result,
    Occurs state.log past ⟨thread, ⟨.validate method id input, .ok result⟩⟩ →
      wrongCodes method id past < attemptsBound app

/-! ## One answered call -/

theorem wrongCodes_append (method id : String) (log : List AccountEvent) (event : AccountEvent) :
    wrongCodes method id (log ++ [event]) =
      wrongCodes method id log + if isWrongCode method id event.call = true then 1 else 0 := by
  simp [wrongCodes, List.countP_append]

theorem exhausted_append {method id : String} {log : List AccountEvent} {event : AccountEvent} :
    Exhausted app method id (log ++ [event]) ↔
      Exhausted app method id log ∨ exhausts app event.call = some (method, id) := by
  simp [Exhausted, or_and_right, exists_or]

/-- Only a wrong code for the verification uses up its attempts. -/
theorem isWrongCode_of_exhausts {call : Call Op Ans Exception} {method id : String}
    (exhausting : exhausts app call = some (method, id)) : isWrongCode method id call = true := by
  unfold exhausts at exhausting
  split at exhausting
  · split at exhausting
    · rename_i used
      cases exhausting
      simp [isWrongCode, used.1]
    · cases exhausting
  · cases exhausting

/-- A wrong code is one for a verification that is open, and leaves the world as
it is. -/
theorem wrongCode_answered {choice : Choice} {op : Op} {world : World} {method id : String}
    (accepts : ∀ code ∈ triedCode op, choice.rejects = none)
    (wrong : isWrongCode method id ⟨op, (perform choice op world).1⟩ = true) :
    ∃ input verifier, op = .validate method id input ∧ world.findVerifier method id = some verifier ∧
      perform choice op world =
        (.error { requestError 422 with attempts := choice.attempts }, world) := by
  cases op with
  | validate method' id' input =>
      have performed : perform choice (.validate method' id' input) world =
          world.validate choice method' id' input := by
        simp [perform, accepts _ rfl, answer]
      rw [performed] at wrong ⊢
      unfold World.validate at wrong ⊢
      split at wrong
      · rename_i verifier found
        split at wrong
        · cases wrong
        · rename_i differs
          simp only [isWrongCode, Bool.and_eq_true, decide_eq_true_eq] at wrong
          obtain ⟨rfl, rfl⟩ := wrong.1
          exact ⟨input, verifier, rfl, found, by simp [differs]⟩
      · simp [isWrongCode, requestError] at wrong
  | _ => cases wrong

/-- A code is accepted only for an open verification. -/
theorem validated_found {choice : Choice} {world : World} {method id : String}
    {input : ValidateVerificationInput} {result : ValidationResult}
    (accepted : (perform choice (.validate method id input) world).1 = .ok result) :
    ∃ verifier, world.findVerifier method id = some verifier := by
  rw [perform_eq_ok accepted] at accepted
  simp only [answer, World.validate] at accepted
  split at accepted
  · rename_i verifier found
    exact ⟨verifier, found⟩
  · cases accepted

section Step

variable {thread : Nat} {choice : Choice} {request : Arrival} {op : Op}
  {resume : Except Exception (Ans op) → Handler Response} {method id : String}

/-- The state after a thread was answered. -/
def answered (state : AccountState) (thread : Nat) (choice : Choice) (request : Arrival) (op : Op)
    (resume : Except Exception (Ans op) → Handler Response) : AccountState where
  world := (perform choice op state.world).2
  threads := state.threads.set thread ⟨request, resume (perform choice op state.world).1⟩
  log := state.log ++ [⟨thread, ⟨op, (perform choice op state.world).1⟩⟩]

/-- An invalidation stays pending until its own thread is answered. -/
theorem Pending.answered (pending : Pending app state method id)
    (other : owed app (localTrace thread state.log) ≠ some (method, id)) :
    Pending app (answered state thread choice request op resume) method id := by
  obtain ⟨debtor, bound, owes⟩ := pending
  have different : thread ≠ debtor := by
    intro same
    rw [same] at other
    exact other owes
  refine ⟨debtor, by simpa [Accounts.answered] using bound, ?_⟩
  rw [Accounts.answered, localTrace_other _ _ different]
  exact owes

/-- What a call leaves of a verification whose attempts are used up. -/
theorem GuessInvariant.survives (reached : (accounts app).Reachable (.idle {}) state)
    (awaiting : state.threads[thread]? = some ⟨request, .await op resume⟩)
    (fair : FairCall app state choice op) {verifier : Verifier}
    (stored : verifier ∈ state.world.verifiers) (own : verifier.Matches method id)
    (closing : verifier.live = false ∨ Pending app state method id) :
    ∃ later ∈ (answered state thread choice request op resume).world.verifiers,
      later.Matches method id ∧ (later.live = false ∨
        Pending app (answered state thread choice request op resume) method id) := by
  by_cases owes : owed app (localTrace thread state.log) = some (method, id)
  · -- the thread makes the invalidation that it owes
    obtain rfl : op = .invalidate method id :=
      reached.owed (handle_pays app) awaiting (by simp [guessDebt, owes])
    have accepted := fair.2 rfl
    have removed : (perform choice (.invalidate method id) state.world).2 =
        state.world.removeVerifier method id := by
      simp [perform, accepted, answer]
    obtain ⟨later, member, becomes, closes⟩ := removed_of_stored method id stored
    exact ⟨later, by rw [Accounts.answered, removed]; exact member, becomes.matches own,
      .inl (closes own)⟩
  · obtain ⟨later, member, becomes⟩ := (perform_verifiers choice op state.world).survives stored
    refine ⟨later, member, becomes.matches own, ?_⟩
    rcases closing with closed | pending
    · rcases becomes with rfl | rfl
      · exact .inl closed
      · exact .inl rfl
    · exact .inr (pending.answered owes)

/-- A call that is no wrong code for the verification. -/
theorem GuessInvariant.other (reached : (accounts app).Reachable (.idle {}) state)
    (invariant : GuessInvariant app method id state)
    (awaiting : state.threads[thread]? = some ⟨request, .await op resume⟩)
    (fair : FairCall app state choice op)
    (right : isWrongCode method id ⟨op, (perform choice op state.world).1⟩ = false)
    (accepts : ∀ input result, (⟨op, (perform choice op state.world).1⟩ : Call Op Ans Exception) =
      ⟨.validate method id input, .ok result⟩ → wrongCodes method id state.log < attemptsBound app) :
    GuessInvariant app method id (answered state thread choice request op resume) := by
  have unused : exhausts app ⟨op, (perform choice op state.world).1⟩ ≠ some (method, id) := by
    intro exhausting
    rw [isWrongCode_of_exhausts exhausting] at right
    cases right
  have sameCount : wrongCodes method id (answered state thread choice request op resume).log =
      wrongCodes method id state.log := by
    simp [answered, wrongCodes_append, right]
  have sameUse : Exhausted app method id (answered state thread choice request op resume).log ↔
      Exhausted app method id state.log := by
    rw [answered, exhausted_append]
    exact or_iff_left unused
  refine ⟨?_, ?_, fun past other input result occurs => ?_⟩
  · rw [sameCount, sameUse]
    exact invariant.fresh
  · rw [sameCount, sameUse]
    intro exhausted
    obtain ⟨bound, verifier, stored, own, closing⟩ := invariant.used exhausted
    exact ⟨bound, GuessInvariant.survives reached awaiting fair stored own closing⟩
  · rcases occurs_append.mp occurs with old | ⟨rfl, new⟩
    · exact invariant.accepted past other input result old
    · exact accepts input result (congrArg Event.call new).symm

/-- An open verification with no pending invalidation has attempts left. -/
theorem GuessInvariant.attemptsLeft (reached : (accounts app).Reachable (.idle {}) state)
    (invariant : GuessInvariant app method id state) {verifier : Verifier}
    (found : state.world.findVerifier method id = some verifier)
    (settled : ¬ Pending app state method id) : ¬ Exhausted app method id state.log := by
  intro exhausted
  obtain ⟨_, closed, stored, own, closing⟩ := invariant.used exhausted
  obtain ⟨member, matching, live⟩ := findVerifier_stored found
  have same : closed = verifier := List.inj_on_of_nodup_map (verificationInvariant reached).distinct
    stored member (own.2.trans matching.2.symm)
  have dead := closing.resolve_right settled
  rw [same, live] at dead
  cases dead

/-- A wrong code for the verification. -/
theorem GuessInvariant.wrong (reached : (accounts app).Reachable (.idle {}) state)
    (invariant : GuessInvariant app method id state)
    (awaiting : state.threads[thread]? = some ⟨request, .await op resume⟩)
    (fair : FairCall app state choice op)
    (wrong : isWrongCode method id ⟨op, (perform choice op state.world).1⟩ = true) :
    GuessInvariant app method id (answered state thread choice request op resume) := by
  obtain ⟨input, verifier, rfl, found, performed⟩ :=
    wrongCode_answered (fun code tried => (fair.1 code tried).1) wrong
  obtain ⟨_, counted, settled⟩ := fair.1 (method, id) rfl
  change wrongCodes method id state.log < choice.attempts at counted
  have left := invariant.attemptsLeft reached found settled
  have fresh := invariant.fresh left
  obtain ⟨bound, _⟩ := List.getElem?_eq_some_iff.mp awaiting
  have count : wrongCodes method id (answered state thread choice request _ resume).log =
      wrongCodes method id state.log + 1 := by
    simp [answered, wrongCodes_append, wrong]
  have uses : Exhausted app method id (answered state thread choice request _ resume).log ↔
      app.config.verifyMaxAttempts ≤ choice.attempts := by
    rw [answered, exhausted_append, performed]
    simp [left, exhausts, requestError]
  refine ⟨?_, ?_, fun past other input' result occurs => ?_⟩
  · rw [count, uses]
    intro more
    unfold attemptsBound
    omega
  · rw [count, uses]
    intro last
    obtain ⟨member, own, _⟩ := findVerifier_stored found
    refine ⟨fresh, verifier, ?_, own, .inr ⟨thread, ?_, ?_⟩⟩
    · rw [answered, performed]
      exact member
    · simpa [answered] using bound
    · rw [answered, performed, localTrace_append, localTrace_own, owed_append]
      simp [exhausts, requestError, last]
  · rcases occurs_append.mp occurs with old | ⟨rfl, new⟩
    · exact invariant.accepted past other input' result old
    · have call := congrArg Event.call new
      rw [performed] at call
      cases call

end Step

/-! ## Runs -/

theorem GuessInvariant.step (reached : (accounts app).Reachable (.idle {}) state) {method id : String}
    (invariant : GuessInvariant app method id state) {action : Action Choice Arrival}
    (fair : Fair app state action) :
    GuessInvariant app method id ((accounts app).step state action) := by
  rcases (accounts app).step_cases state action with same | ⟨request, _, started⟩ |
    ⟨thread, choice, request, op, resume, actionEq, awaiting, resumed⟩
  · rw [same]
    exact invariant
  · rw [started]
    refine ⟨invariant.fresh, fun exhausted => ?_, invariant.accepted⟩
    obtain ⟨bound, verifier, stored, own, closing⟩ := invariant.used exhausted
    refine ⟨bound, verifier, stored, own, closing.imp_right fun pending => ?_⟩
    obtain ⟨debtor, present, owes⟩ := pending
    refine ⟨debtor, ?_, owes⟩
    simp only [List.length_append, List.length_cons, List.length_nil]
    omega
  · have step : (accounts app).step state action =
        answered state thread choice request op resume := resumed
    subst actionEq
    have call : FairCall app state choice op := by simpa only [Fair, awaiting] using fair
    rw [step]
    cases tried : isWrongCode method id ⟨op, (perform choice op state.world).1⟩ with
    | true => exact invariant.wrong reached awaiting call tried
    | false =>
        refine invariant.other reached awaiting call tried fun input result accepted => ?_
        obtain rfl : op = .validate method id input := congrArg Sigma.fst accepted
        obtain ⟨verifier, found⟩ := validated_found (eq_of_heq (Sigma.mk.inj accepted).2)
        have settled := (call.1 (method, id) rfl).2.2
        exact invariant.fresh (invariant.attemptsLeft reached found settled)

theorem guessInvariant {actions : List (Action Choice Arrival)}
    (fair : (accounts app).Along (Fair app) (.idle {}) actions) (method id : String) :
    GuessInvariant app method id (after app actions) := by
  have start : GuessInvariant app method id (.idle {}) := by
    refine ⟨fun _ => ?_, fun exhausted => ?_, fun past thread input result occurs => ?_⟩
    · simp [State.idle, wrongCodes, attemptsBound]
    · obtain ⟨event, member, _⟩ := exhausted
      cases member
    · cases occurs.mem
  exact System.run_induction (fun _ _ reached invariant fair => invariant.step reached fair) .initial
    start fair

/-- Whatever is interleaved, no more wrong codes of a verification are answered
than it has attempts, and a code is accepted only while some are left. -/
theorem guesses_bounded {actions : List (Action Choice Arrival)}
    (fair : (accounts app).Along (Fair app) (.idle {}) actions) (method id : String) :
    wrongCodes method id (after app actions).log ≤ max 1 app.config.verifyMaxAttempts ∧
    ∀ past thread input result,
      Occurs (after app actions).log past ⟨thread, ⟨.validate method id input, .ok result⟩⟩ →
        wrongCodes method id past < max 1 app.config.verifyMaxAttempts := by
  have invariant := guessInvariant fair method id
  refine ⟨?_, invariant.accepted⟩
  by_cases exhausted : Exhausted app method id (after app actions).log
  · exact (invariant.used exhausted).1
  · exact (invariant.fresh exhausted).le

/-! ## Three wrong codes -/

def wrongActivation (thread attempts : Nat) : List (Action Choice Arrival) :=
  [.start
      { request := .activate
          { email := "ann@example.com", verificationId := "v1", code := "000000" } },
    .resume thread {}, .resume thread {}, .resume thread { attempts }, .resume thread {}]

def guessed : List (Action Choice Arrival) :=
  signUp ++ wrongActivation 1 1 ++ wrongActivation 2 2 ++ wrongActivation 3 3

theorem guessed_bounded : wrongCodes "email" "v1" (after .plain guessed).log ≤ 3 := by
  have fair : (accounts .plain).Along (Fair .plain) (.idle {}) guessed := by decide
  exact (guesses_bounded fair "email" "v1").1

end IcoDashboard.Accounts
