import IcoDashboard.Accounts.Store

namespace IcoDashboard.Accounts

open IcoDashboard.Async IcoDashboard.Async.Program IcoDashboard.Data

/-! # Verifications

Every verification that authorises an operation was initiated for the same
operation and the same user, and authorises it once.
-/

variable {app : App} {state : AccountState}

/-! ## What a call does to the verifications -/

/-- The call opened the verification. -/
def Opens (call : Call Op Ans Exception) (verifier : Verifier) : Prop :=
  ∃ (data : InitiateData) (result : InitiateResult),
    (call = ⟨.initiate verifier.method data, .ok result⟩ ∨
      call = ⟨.resend verifier.method data, .ok result⟩) ∧
    data.consumer = verifier.consumer ∧ data.payload = verifier.payload ∧
    result.verificationId = verifier.id

def Verifier.Matches (verifier : Verifier) (method id : String) : Prop :=
  verifier.method = method ∧ verifier.id = id

def Verifier.Same (first second : Verifier) : Prop :=
  first.Matches second.method second.id ∧ first.consumer = second.consumer ∧
    first.payload = second.payload

theorem Opens.same {call : Call Op Ans Exception} {first second : Verifier}
    (left : Opens call first) (right : Opens call second) : first.Same second := by
  obtain ⟨data, result, same, consumer, payload, id⟩ := left
  obtain ⟨data', result', same', consumer', payload', id'⟩ := right
  obtain ⟨method, _⟩ := first
  obtain ⟨method', _⟩ := second
  rcases same with rfl | rfl <;> rcases same' with same' | same' <;> cases same' <;>
    exact ⟨⟨rfl, id.symm.trans id'⟩, consumer.symm.trans consumer', payload.symm.trans payload'⟩

theorem not_opens_rejected {op : Op} {error : Exception} {verifier : Verifier} :
    ¬ Opens ⟨op, .error error⟩ verifier := by
  intro opens
  obtain ⟨data, result, same | same, _⟩ := opens <;> exact rejected_ne_answered same

inductive VerifierEffect (before : World) : Call Op Ans Exception → List Verifier → Prop where
  | kept (call : Call Op Ans Exception) (noOpening : ∀ verifier, ¬ Opens call verifier)
      (noValidation : ∀ method id input result, call ≠ ⟨.validate method id input, .ok result⟩) :
      VerifierEffect before call before.verifiers
  | opened (call : Call Op Ans Exception) (verifier : Verifier) (opens : Opens call verifier)
      (fresh : verifier.id ∉ before.verifiers.map Verifier.id) :
      VerifierEffect before call (before.verifiers ++ [verifier])
  | invalidated (method id : String) :
      VerifierEffect before ⟨.invalidate method id, .ok ()⟩
        (before.removeVerifier method id).verifiers
  | validated (method id : String) (input : ValidateVerificationInput) (result : ValidationResult)
      (verifier : Verifier) (stored : verifier ∈ before.verifiers)
      (own : verifier.Matches method id) (live : verifier.live = true) :
      VerifierEffect before ⟨.validate method id input, .ok result⟩
        (before.removeVerifier method id).verifiers

theorem findVerifier_stored {world : World} {method id : String} {verifier : Verifier}
    (found : world.findVerifier method id = some verifier) :
    verifier ∈ world.verifiers ∧ verifier.Matches method id ∧ verifier.live = true := by
  have accepted := List.find?_some found
  simp only [Bool.and_eq_true, decide_eq_true_eq] at accepted
  exact ⟨List.mem_of_find?_eq_some found, accepted.1, accepted.2⟩

theorem initiate_effect (choice : Choice) (method : String) (data : InitiateData) (world : World)
    (call : Except Exception InitiateResult → Call Op Ans Exception)
    (opens : call = (fun answer => ⟨.initiate method data, answer⟩) ∨
      call = fun answer => ⟨.resend method data, answer⟩) :
    VerifierEffect world (call (world.initiate choice method data).1)
      (world.initiate choice method data).2.verifiers := by
  unfold World.initiate
  split
  · rcases opens with rfl | rfl
    · exact .kept _ (fun _ => not_opens_rejected) (by simp)
    · exact .kept _ (fun _ => not_opens_rejected) (by simp)
  · rename_i unused
    refine .opened _ _ ⟨data, ?_⟩ (by simpa using unused)
    rcases opens with rfl | rfl
    · exact ⟨_, .inl rfl, rfl, rfl, rfl⟩
    · exact ⟨_, .inr rfl, rfl, rfl, rfl⟩

/-- Verifications are opened by `initiate` and `resend`, and closed by a
validation or an invalidation. -/
theorem perform_verifiers (choice : Choice) (op : Op) (world : World) :
    VerifierEffect world ⟨op, (perform choice op world).1⟩ (perform choice op world).2.verifiers := by
  by_cases own : op.part = some .verifiers
  · unfold perform
    cases choice.rejects with
    | some error =>
        exact .kept _ (fun _ => not_opens_rejected) (fun _ _ _ _ => rejected_ne_answered)
    | none =>
        cases op with
        | initiate method data =>
            exact initiate_effect choice method data world (⟨.initiate method data, ·⟩) (.inl rfl)
        | resend method data =>
            exact initiate_effect choice method data world (⟨.resend method data, ·⟩) (.inr rfl)
        | validate method id input =>
            simp only [answer, World.validate]
            split
            · rename_i verifier found
              obtain ⟨stored, matching, live⟩ := findVerifier_stored found
              split
              · exact .validated method id input _ verifier stored matching live
              · exact .kept _ (by simp [Opens]) (by simp)
            · exact .kept _ (by simp [Opens]) (by simp)
        | invalidate method id => exact .invalidated method id
        | _ => cases own
  · rw [(perform_frame choice op world).verifiers own]
    refine .kept _ (fun verifier opens => own ?_) fun method id input result same => own ?_
    · obtain ⟨data, result, same | same, _⟩ := opens <;>
        · cases congrArg Sigma.fst same
          rfl
    · cases congrArg Sigma.fst same
      rfl

/-- The same verification, and not opened again. -/
def Verifier.Becomes (before after : Verifier) : Prop :=
  after = before ∨ after = { before with live := false }

theorem Verifier.Becomes.matches {before after : Verifier} {method id : String}
    (becomes : before.Becomes after) (own : before.Matches method id) : after.Matches method id := by
  rcases becomes with rfl | rfl <;> exact own

theorem Verifier.Becomes.same {before after verifier : Verifier} (becomes : before.Becomes after)
    (same : before.Same verifier) : after.Same verifier := by
  rcases becomes with rfl | rfl <;> exact same

theorem Opens.becomes {call : Call Op Ans Exception} {before after : Verifier}
    (opens : Opens call before) (becomes : before.Becomes after) : Opens call after := by
  rcases becomes with rfl | rfl <;> exact opens

theorem becomes_of_removed {world : World} {method id : String} {after : Verifier}
    (stored : after ∈ (world.removeVerifier method id).verifiers) :
    ∃ before ∈ world.verifiers, before.Becomes after := by
  obtain ⟨before, member, rfl⟩ := List.mem_map.mp stored
  refine ⟨before, member, ?_⟩
  split
  · exact .inr rfl
  · exact .inl rfl

theorem removed_of_stored {world : World} {before : Verifier} (method id : String)
    (stored : before ∈ world.verifiers) :
    ∃ after ∈ (world.removeVerifier method id).verifiers, before.Becomes after ∧
      (before.Matches method id → after.live = false) := by
  refine ⟨_, List.mem_map.mpr ⟨before, stored, rfl⟩, ?_⟩
  by_cases own : before.method = method ∧ before.id = id
  · rw [if_pos own]
    exact ⟨.inr rfl, fun _ => rfl⟩
  · rw [if_neg own]
    exact ⟨.inl rfl, fun matching => absurd matching own⟩

namespace VerifierEffect

variable {before : World} {call : Call Op Ans Exception} {after : List Verifier}

theorem origin (effect : VerifierEffect before call after) {verifier : Verifier}
    (stored : verifier ∈ after) :
    (∃ former ∈ before.verifiers, former.Becomes verifier) ∨ Opens call verifier := by
  cases effect with
  | kept => exact .inl ⟨verifier, stored, .inl rfl⟩
  | opened _ new opens fresh =>
      rcases List.mem_append.mp stored with old | added
      · exact .inl ⟨verifier, old, .inl rfl⟩
      · exact .inr (List.mem_singleton.mp added ▸ opens)
  | invalidated method id => exact .inl (becomes_of_removed stored)
  | validated method id input result consumed found own live =>
      exact .inl (becomes_of_removed stored)

theorem survives (effect : VerifierEffect before call after) {verifier : Verifier}
    (stored : verifier ∈ before.verifiers) : ∃ later ∈ after, verifier.Becomes later := by
  cases effect with
  | kept => exact ⟨verifier, stored, .inl rfl⟩
  | opened _ new opens fresh => exact ⟨verifier, List.mem_append_left _ stored, .inl rfl⟩
  | invalidated method id =>
      obtain ⟨later, member, becomes, _⟩ := removed_of_stored method id stored
      exact ⟨later, member, becomes⟩
  | validated method id input result consumed found own live =>
      obtain ⟨later, member, becomes, _⟩ := removed_of_stored method id stored
      exact ⟨later, member, becomes⟩

theorem stores (effect : VerifierEffect before call after) {verifier : Verifier}
    (opens : Opens call verifier) : ∃ stored ∈ after, stored.Same verifier := by
  cases effect with
  | kept _ noOpening _ => exact absurd opens (noOpening verifier)
  | opened _ stored stores fresh => exact ⟨stored, by simp, stores.same opens⟩
  | invalidated method id => obtain ⟨_, _, same | same, _⟩ := opens <;> cases same
  | validated method id input result _ _ _ _ =>
      obtain ⟨_, _, same | same, _⟩ := opens <;> cases same

theorem distinct (effect : VerifierEffect before call after)
    (distinct : (before.verifiers.map Verifier.id).Nodup) : (after.map Verifier.id).Nodup := by
  have removed : ∀ method id,
      (before.removeVerifier method id).verifiers.map Verifier.id =
        before.verifiers.map Verifier.id := by
    intro method id
    simp only [World.removeVerifier, List.map_map]
    refine List.map_congr_left fun verifier _ => ?_
    simp only [Function.comp_apply]
    split <;> rfl
  cases effect with
  | kept => exact distinct
  | opened _ new opens fresh =>
      rw [List.map_append, List.map_singleton, ← List.concat_eq_append]
      exact distinct.concat fresh
  | invalidated method id => rw [removed]; exact distinct
  | validated method id input result verifier found own live => rw [removed]; exact distinct

theorem of_validated {method id : String} {input : ValidateVerificationInput}
    {result : ValidationResult}
    (effect : VerifierEffect before ⟨.validate method id input, .ok result⟩ after) :
    ∃ verifier ∈ before.verifiers, verifier.Matches method id ∧ verifier.live = true ∧
      after = (before.removeVerifier method id).verifiers := by
  cases effect with
  | kept _ _ noValidation => exact absurd rfl (noValidation method id input result)
  | opened _ verifier opens _ =>
      obtain ⟨data, result, same | same, _⟩ := opens <;> cases same
  | validated _ _ _ _ verifier stored own live => exact ⟨verifier, stored, own, live, rfl⟩

end VerifierEffect

/-! ## The verifications of a run -/

structure VerificationInvariant (world : World) (log : List AccountEvent) : Prop where
  distinct : (world.verifiers.map Verifier.id).Nodup
  opened : ∀ verifier ∈ world.verifiers, ∃ past thread call,
    Occurs log past ⟨thread, call⟩ ∧ Opens call verifier
  listed : ∀ event ∈ log, ∀ verifier, Opens event.call verifier →
    ∃ stored ∈ world.verifiers, stored.Same verifier
  shown : ∀ thread method id result, ⟨thread, ⟨.getVerifier method id, .ok result⟩⟩ ∈ log →
    ∃ verifier ∈ world.verifiers, verifier.Matches method id ∧
      verifier.consumer = result.data.consumer ∧ verifier.payload = result.data.payload
  consumed : ∀ thread method id input result,
    ⟨thread, ⟨.validate method id input, .ok result⟩⟩ ∈ log →
      ∃ verifier ∈ world.verifiers, verifier.Matches method id ∧ verifier.live = false

theorem getVerifier_answered {choice : Choice} {world : World} {method id : String}
    {result : ValidationResult}
    (answered : (perform choice (.getVerifier method id) world).1 = .ok result) :
    ∃ verifier ∈ (perform choice (.getVerifier method id) world).2.verifiers,
      verifier.Matches method id ∧ verifier.consumer = result.data.consumer ∧
        verifier.payload = result.data.payload := by
  have answers := perform_eq_ok answered
  rw [answers] at answered ⊢
  simp only [answer, World.getVerifier] at answered
  split at answered
  · rename_i verifier found
    cases answered
    obtain ⟨stored, own, _⟩ := findVerifier_stored found
    exact ⟨verifier, stored, own, rfl, rfl⟩
  · cases answered

theorem VerificationInvariant.step {world : World} {log : List AccountEvent} {thread : Nat}
    {op : Op} {choice : Choice} (invariant : VerificationInvariant world log) :
    VerificationInvariant (perform choice op world).2
      (log ++ [⟨thread, ⟨op, (perform choice op world).1⟩⟩]) := by
  have effect := perform_verifiers choice op world
  refine ⟨effect.distinct invariant.distinct, ?_, ?_, ?_, ?_⟩
  · intro verifier stored
    rcases effect.origin stored with ⟨former, was, becomes⟩ | opens
    · obtain ⟨past, other, call, occurs, opens⟩ := invariant.opened former was
      exact ⟨past, other, call, occurs_append.mpr (.inl occurs), opens.becomes becomes⟩
    · exact ⟨log, thread, _, occurs_append.mpr (.inr ⟨rfl, rfl⟩), opens⟩
  · intro event member verifier opens
    rcases List.mem_append.mp member with old | new
    · obtain ⟨stored, listed, same⟩ := invariant.listed event old verifier opens
      obtain ⟨later, after, becomes⟩ := effect.survives listed
      exact ⟨later, after, becomes.same same⟩
    · rw [List.mem_singleton.mp new] at opens
      exact effect.stores opens
  · intro other method id result member
    rcases mem_performed.mp member with old | ⟨_, rfl, answered⟩
    · obtain ⟨verifier, stored, own, same⟩ := invariant.shown other method id result old
      obtain ⟨later, after, becomes⟩ := effect.survives stored
      refine ⟨later, after, becomes.matches own, ?_⟩
      rcases becomes with rfl | rfl <;> exact same
    · exact getVerifier_answered answered
  · intro other method id input result member
    rcases mem_performed.mp member with old | ⟨_, rfl, answered⟩
    · obtain ⟨verifier, stored, own, closed⟩ := invariant.consumed other method id input result old
      obtain ⟨later, after, becomes⟩ := effect.survives stored
      refine ⟨later, after, becomes.matches own, ?_⟩
      rcases becomes with rfl | rfl
      · exact closed
      · rfl
    · rw [answered] at effect
      obtain ⟨verifier, stored, own, _, removed⟩ := effect.of_validated
      obtain ⟨later, after, becomes, closes⟩ := removed_of_stored method id stored
      exact ⟨later, removed ▸ after, becomes.matches own, closes own⟩

theorem verificationInvariant (reached : (accounts app).Reachable (.idle {}) state) :
    VerificationInvariant state.world state.log := by
  have start : VerificationInvariant {} [] :=
    ⟨List.nodup_nil, by simp, by simp, by simp, by simp⟩
  exact account_calls start (fun _ _ _ _ _ _ _ _ invariant => invariant.step) reached

/-- A validated verification was not validated before. -/
theorem not_validated_before (reached : (accounts app).Reachable (.idle {}) state)
    {past : List AccountEvent} {thread other : Nat} {method id : String}
    {input input' : ValidateVerificationInput} {result result' : ValidationResult}
    (occurs : Occurs state.log past ⟨thread, ⟨.validate method id input, .ok result⟩⟩) :
    ⟨other, ⟨.validate method id input', .ok result'⟩⟩ ∉ past := by
  intro earlier
  obtain ⟨origin, _, choice, before, _, rfl, _, _, answered⟩ := event_guarded reached occurs
  have invariant := verificationInvariant before
  obtain ⟨closed, storedClosed, ownClosed, dead⟩ := invariant.consumed _ _ _ _ _ earlier
  have effect := perform_verifiers choice (.validate method id input) origin.world
  rw [answered] at effect
  obtain ⟨opened, storedOpened, ownOpened, live, _⟩ := effect.of_validated
  have same : closed = opened := List.inj_on_of_nodup_map invariant.distinct storedClosed
    storedOpened (ownClosed.2.trans ownOpened.2.symm)
  rw [same, live] at dead
  cases dead

/-! ## Authorised completions -/

/-- The request of a thread acts for a user, for the purpose its kind of request
has. -/
def ActsTo (app : App) (state : AccountState) (past : List AccountEvent) (thread : Nat)
    (kind : Request → Option Purpose) (purpose : Purpose) (email : String) : Prop :=
  ∃ arrival, Serving state thread arrival ∧ kind arrival.request = some purpose ∧
    ActsAs app arrival.request (localTrace thread past) email

theorem Opens.guard {arrival : Arrival} {trace : AccountTrace} {call : Call Op Ans Exception}
    {verifier : Verifier} (opens : Opens call verifier) (guard : Guard app arrival trace call.1) :
    ∃ purpose, arrival.request.initiates = some purpose ∧ verifier.payload = purpose.payload ∧
      ActsFor app arrival.request trace verifier.consumer := by
  obtain ⟨data, result, same, consumer, payload, _⟩ := opens
  rw [← consumer, ← payload]
  rcases same with rfl | rfl <;> exact guard

theorem ActsTo.of_reachable {later : AccountState} {past : List AccountEvent} {thread : Nat}
    {kind : Request → Option Purpose} {purpose : Purpose} {email : String}
    (acts : ActsTo app state past thread kind purpose email)
    (reached : (accounts app).Reachable state later) :
    ActsTo app later past thread kind purpose email := by
  obtain ⟨arrival, serving, rest⟩ := acts
  exact ⟨arrival, serving.of_reachable reached, rest⟩

/-- A request of the user initiated the verification for the purpose. -/
def Initiated (app : App) (state : AccountState) (past : List AccountEvent) (purpose : Purpose)
    (email method id : String) : Prop :=
  ∃ earlier initiator call verifier, Occurs past earlier ⟨initiator, call⟩ ∧ Opens call verifier ∧
    verifier.Matches method id ∧ verifier.payload = purpose.payload ∧
    app.toLowerCase verifier.consumer = email ∧
    ActsTo app state earlier initiator Request.initiates purpose email

theorem Opens.initiated (reached : (accounts app).Reachable (.idle {}) state)
    {past : List AccountEvent} {thread : Nat} {call : Call Op Ans Exception} {verifier : Verifier}
    (occurs : Occurs state.log past ⟨thread, call⟩) (opens : Opens call verifier) :
    ∃ purpose, verifier.payload = purpose.payload ∧
      ActsTo app state past thread Request.initiates purpose (app.toLowerCase verifier.consumer) := by
  obtain ⟨origin, arrival, _, before, _, rfl, serving, guard, _⟩ := event_guarded reached occurs
  obtain ⟨purpose, initiates, payload, acts⟩ := opens.guard guard
  exact ⟨purpose, payload, arrival, serving, initiates, (storeInvariant before).actsAs acts⟩

/-- A request validates only a verification that was initiated for its user and
its purpose. -/
theorem validated_initiated (reached : (accounts app).Reachable (.idle {}) state)
    {past : List AccountEvent} {thread : Nat} {method id : String}
    {input : ValidateVerificationInput} {result : ValidationResult}
    (occurs : Occurs state.log past ⟨thread, ⟨.validate method id input, .ok result⟩⟩) :
    ∃ purpose email, ActsTo app state past thread Request.completes purpose email ∧
      Initiated app state past purpose email method id := by
  obtain ⟨origin, arrival, _, before, onward, rfl, serving, guard, _⟩ := event_guarded reached occurs
  obtain ⟨purpose, shownResult, completes, shown, payload, query, user, acts, own⟩ := guard
  have invariant := verificationInvariant before
  obtain ⟨verifier, stored, matching, consumer, samePayload⟩ :=
    invariant.shown _ _ _ _ (mem_localTrace.mp shown)
  obtain ⟨earlier, initiator, call, opened, opens⟩ := invariant.opened verifier stored
  obtain ⟨initiating, initiatingPayload, acted⟩ := opens.initiated before opened
  obtain rfl : initiating = purpose :=
    Purpose.payload_injective (initiatingPayload.symm.trans (samePayload.trans payload))
  have email : app.toLowerCase verifier.consumer = user.val.email := by
    rw [consumer]
    exact (storeInvariant before).consumer acts own
  have serves : ActsAs app arrival.request (localTrace thread origin.log) user.val.email := by
    cases request : arrival.request with
    | create userData => rw [request] at completes; cases completes
    | _ => exact ⟨query, user, acts, rfl⟩
  refine ⟨initiating, user.val.email, ⟨arrival, serving, completes, serves⟩, earlier, initiator, call,
    verifier, opened, opens, matching, initiatingPayload, email, ?_⟩
  rw [email] at acted
  exact acted.of_reachable onward

/-- Ids are fresh: two initiations with one id are of the same verification. -/
theorem opens_unique (reached : (accounts app).Reachable (.idle {}) state)
    {first second : AccountEvent} {former latter : Verifier} (member : first ∈ state.log)
    (opens : Opens first.call former) (member' : second ∈ state.log)
    (opens' : Opens second.call latter) (sameId : former.id = latter.id) :
    former.Same latter := by
  have invariant := verificationInvariant reached
  obtain ⟨stored, listed, matching, consumer, payload⟩ := invariant.listed first member former opens
  obtain ⟨stored', listed', matching', consumer', payload'⟩ :=
    invariant.listed second member' latter opens'
  obtain rfl : stored = stored' := List.inj_on_of_nodup_map invariant.distinct listed listed'
    (matching.2.trans (sameId.trans matching'.2.symm))
  exact ⟨⟨matching.1.symm.trans matching'.1, sameId⟩, consumer.symm.trans consumer',
    payload.symm.trans payload'⟩

/-- The amount of a signed transaction is the amount of the verified purpose. -/
theorem sent_purpose (reached : (accounts app).Reachable (.idle {}) state) {thread : Nat}
    {arrival : Arrival} (serving : Serving state thread arrival) {transaction : TransactionInput}
    {mnemonic salt : String} {answer : Except Exception String}
    (sent : ⟨thread, ⟨.sendTransactionByMnemonic transaction mnemonic salt, answer⟩⟩ ∈ state.log) :
    arrival.request.completes = some (.invest transaction.amount) := by
  obtain ⟨past, later, split⟩ := List.mem_iff_append.mp sent
  obtain ⟨_, arrival', _, _, _, _, serving', guard, _⟩ := event_guarded reached ⟨later, split⟩
  obtain rfl := serving.unique serving'
  obtain ⟨authorization, body, verification, own, amount, _⟩ := guard
  rw [own, amount]
  rfl

/-- Every validated verification was initiated for the same user and purpose,
the amount signed is the amount verified, and it was validated only here. -/
theorem completion_authorised (reached : (accounts app).Reachable (.idle {}) state)
    {past : List AccountEvent} {thread : Nat} {method id : String}
    {input : ValidateVerificationInput} {result : ValidationResult}
    (occurs : Occurs state.log past ⟨thread, ⟨.validate method id input, .ok result⟩⟩) :
    ∃ purpose email,
      ActsTo app state past thread Request.completes purpose email ∧
      Initiated app state past purpose email method id ∧
      (∀ transaction mnemonic salt answer,
        ⟨thread, ⟨.sendTransactionByMnemonic transaction mnemonic salt, answer⟩⟩ ∈ state.log →
          purpose = .invest transaction.amount) ∧
      ∀ past' thread' input' result',
        Occurs state.log past' ⟨thread', ⟨.validate method id input', .ok result'⟩⟩ →
          past' = past := by
  obtain ⟨purpose, email, completes, initiation⟩ := validated_initiated reached occurs
  refine ⟨purpose, email, completes, initiation, ?_, ?_⟩
  · intro transaction mnemonic salt answer sent
    obtain ⟨arrival, serving, own, _⟩ := completes
    have amount := sent_purpose reached serving sent
    rw [own] at amount
    exact Option.some.inj amount
  · intro past' thread' input' result' occurs'
    rcases occurs.compare occurs' with ⟨same, _⟩ | earlier | earlier
    · exact same.symm
    · exact absurd earlier (not_validated_before reached occurs')
    · exact absurd earlier (not_validated_before reached occurs)

/-! ## A sign-up -/

def newcomer : UserData :=
  { email := "ann@example.com", firstName := "Ann", lastName := "Lee", country := "EE"
    dob := "1990-01-01", agreeTos := true, password := "secret" }

def signUp : List (Action Choice Arrival) :=
  [.start { request := .create newcomer }, .resume 0 {}, .resume 0 {},
    .resume 0 { verificationId := "v1", code := "123456" }, .resume 0 { id := 1 }, .resume 0 {}]

def activation (thread : Nat) : List (Action Choice Arrival) :=
  [.start
      { request := .activate
          { email := "ann@example.com", verificationId := "v1", code := "123456" }
        draws := { mnemonic := "pig", salt := "salt" } },
    .resume thread {}, .resume thread {}, .resume thread {}, .resume thread {},
    .resume thread { accessToken := "t1" }, .resume thread { id := 1 }, .resume thread {}]

def activated : AccountState := after .plain (signUp ++ activation 1)

theorem activated_authorised :
    ∃ purpose email, ActsTo .plain activated (activated.log.take 7) 1 Request.completes purpose email := by
  have occurs : Occurs activated.log (activated.log.take 7)
      ⟨1, ⟨.validate "email" "v1" { code := "123456" }, .ok { data :=
        { verificationId := "v1", consumer := "ann@example.com"
          payload := [("scope", "activate_user")] } }⟩⟩ := ⟨activated.log.drop 8, rfl⟩
  obtain ⟨purpose, email, completes, _⟩ := completion_authorised (System.reachable_run _ _) occurs
  exact ⟨purpose, email, completes⟩

end IcoDashboard.Accounts
