import IcoDashboard.Accounts.Contracts

namespace IcoDashboard.Accounts

open IcoDashboard.Async IcoDashboard.Async.Program IcoDashboard.Data

/-! # The stored investors

What every reachable state keeps of the investor collection: emails are stored
in lower case, no two investors have the same, and a save never changes one.
So a document a request has loaded names the investor it was loaded from.
-/

abbrev AccountState : Type := State Op Ans Exception World Arrival Response

abbrev AccountEvent : Type := Event Op Ans Exception

/-- The accounts after some actions, from an empty store. -/
def after (app : App) (actions : List (Action Choice Arrival)) : AccountState :=
  (accounts app).run (.idle {}) actions

variable {app : App} {initial : World} {state : AccountState}

/-- The thread serves the request. -/
def Serving (state : AccountState) (thread : Nat) (arrival : Arrival) : Prop :=
  ∃ program, state.threads[thread]? = some ⟨arrival, program⟩

theorem Serving.of_reachable {later : AccountState} {thread : Nat} {arrival : Arrival}
    (serving : Serving state thread arrival) (reached : (accounts app).Reachable state later) :
    Serving later thread arrival := by
  obtain ⟨program, found⟩ := serving
  exact reached.request_stable found

theorem Serving.unique {thread : Nat} {first second : Arrival}
    (left : Serving state thread first) (right : Serving state thread second) : first = second := by
  obtain ⟨_, foundFirst⟩ := left
  obtain ⟨_, foundSecond⟩ := right
  rw [foundFirst] at foundSecond
  cases foundSecond
  rfl

/-- A thread makes only calls its request is allowed to make. -/
theorem guarded (reached : (accounts app).Reachable (.idle initial) state) {thread : Nat}
    {arrival : Arrival} {op : Op} {resume : Except Exception (Ans op) → Handler Response}
    (awaiting : state.threads[thread]? = some ⟨arrival, .await op resume⟩) :
    Guard app arrival (localTrace thread state.log) op :=
  (reached.guarded (handle_meets app) awaiting).1

theorem mem_performed {choice : Choice} {world : World} {log : List AccountEvent}
    {thread other : Nat} {op op' : Op} {result : Except Exception (Ans op')} :
    ⟨other, ⟨op', result⟩⟩ ∈ log ++ [⟨thread, ⟨op, (perform choice op world).1⟩⟩] ↔
      ⟨other, ⟨op', result⟩⟩ ∈ log ∨
        other = thread ∧ op = op' ∧ (perform choice op' world).1 = result :=
  @mem_answered _ _ _ (fun op => (perform choice op world).1) _ _ _ _ _ _

theorem occurs_performed {choice : Choice} {world : World} {log past : List AccountEvent}
    {thread other : Nat} {op op' : Op} {result : Except Exception (Ans op')} :
    Occurs (log ++ [⟨thread, ⟨op, (perform choice op world).1⟩⟩]) past ⟨other, ⟨op', result⟩⟩ ↔
      Occurs log past ⟨other, ⟨op', result⟩⟩ ∨
        past = log ∧ other = thread ∧ op = op' ∧ (perform choice op' world).1 = result :=
  @occurs_answered _ _ _ (fun op => (perform choice op world).1) _ _ _ _ _ _ _

/-- A property of the world and the log that every allowed call preserves. -/
theorem account_calls {Holds : World → List AccountEvent → Prop} (start : Holds initial [])
    (answered : ∀ (state : AccountState) thread choice arrival op,
      (accounts app).Reachable (.idle initial) state → Serving state thread arrival →
      Guard app arrival (localTrace thread state.log) op → Holds state.world state.log →
      Holds (perform choice op state.world).2
        (state.log ++ [⟨thread, ⟨op, (perform choice op state.world).1⟩⟩]))
    (reached : (accounts app).Reachable (.idle initial) state) : Holds state.world state.log :=
  reached.calls start fun state thread choice arrival op _ before awaiting holds =>
    answered state thread choice arrival op before ⟨_, awaiting⟩ (guarded before awaiting) holds

/-- Every logged call was allowed to its request when it was made, and answered
by the world of that moment. -/
theorem event_guarded (reached : (accounts app).Reachable (.idle initial) state)
    {past : List AccountEvent} {thread : Nat} {op : Op} {result : Except Exception (Ans op)}
    (occurs : Occurs state.log past ⟨thread, ⟨op, result⟩⟩) :
    ∃ origin arrival choice, (accounts app).Reachable (.idle initial) origin ∧
      (accounts app).Reachable origin state ∧ origin.log = past ∧ Serving state thread arrival ∧
      Guard app arrival (localTrace thread past) op ∧
      (perform choice op origin.world).1 = result := by
  obtain ⟨origin, choice, arrival, resume, before, log, awaiting, answered, after⟩ :=
    reached.event_origin occurs
  have guard := guarded before awaiting
  rw [log] at guard
  have onward : (accounts app).Reachable origin state := (System.Reachable.initial.step _).trans after
  have serving : Serving origin thread arrival := ⟨_, awaiting⟩
  exact ⟨origin, arrival, choice, before, onward, log, serving.of_reachable onward, guard,
    answered.symm⟩

/-! ## What a call leaves as it is -/

/-- The parts of the world that calls write. -/
inductive Part where
  | investors | tokens | kycResults | verifiers | issued

/-- The part that an operation may write. -/
def Op.part : Op → Option Part
  | .saveInvestor _ | .insertInvestor _ => some .investors
  | .saveToken _ | .insertToken _ => some .tokens
  | .insertKycResult _ => some .kycResults
  | .initiate _ _ | .resend _ _ | .validate _ _ _ | .invalidate _ _ => some .verifiers
  | .loginUser _ => some .issued
  | _ => none

/-- The worlds agree outside the part. -/
structure Frame (part : Option Part) (before after : World) : Prop where
  investors : part ≠ some .investors → after.investors = before.investors
  tokens : part ≠ some .tokens → after.tokens = before.tokens
  kycResults : part ≠ some .kycResults → after.kycResults = before.kycResults
  verifiers : part ≠ some .verifiers → after.verifiers = before.verifiers
  issued : part ≠ some .issued → after.issued = before.issued

namespace Frame

theorem refl (part : Option Part) (world : World) : Frame part world world :=
  ⟨fun _ => rfl, fun _ => rfl, fun _ => rfl, fun _ => rfl, fun _ => rfl⟩

theorem of_investors (world : World) (investors : Collection ObjectID Investor) :
    Frame (some .investors) world { world with investors } :=
  ⟨fun other => absurd rfl other, fun _ => rfl, fun _ => rfl, fun _ => rfl, fun _ => rfl⟩

theorem of_tokens (world : World) (tokens : Collection ObjectID VerifiedToken) :
    Frame (some .tokens) world { world with tokens } :=
  ⟨fun _ => rfl, fun other => absurd rfl other, fun _ => rfl, fun _ => rfl, fun _ => rfl⟩

theorem of_kycResults (world : World) (kycResults : Collection ObjectID ShuftiproKycResult) :
    Frame (some .kycResults) world { world with kycResults } :=
  ⟨fun _ => rfl, fun _ => rfl, fun other => absurd rfl other, fun _ => rfl, fun _ => rfl⟩

theorem of_verifiers (world : World) (verifiers : List Verifier) :
    Frame (some .verifiers) world { world with verifiers } :=
  ⟨fun _ => rfl, fun _ => rfl, fun _ => rfl, fun other => absurd rfl other, fun _ => rfl⟩

theorem of_issued (world : World) (issued : List (String × String)) :
    Frame (some .issued) world { world with issued } :=
  ⟨fun _ => rfl, fun _ => rfl, fun _ => rfl, fun _ => rfl, fun other => absurd rfl other⟩

theorem of_initiate (world : World) (choice : Choice) (method : String) (data : InitiateData) :
    Frame (some .verifiers) world (world.initiate choice method data).2 := by
  unfold World.initiate
  split
  · exact refl _ _
  · exact of_verifiers world _

theorem of_validate (world : World) (choice : Choice) (method id : String)
    (input : ValidateVerificationInput) :
    Frame (some .verifiers) world (world.validate choice method id input).2 := by
  unfold World.validate
  split
  · split
    · exact of_verifiers world _
    · exact refl _ _
  · exact refl _ _

theorem of_loginUser (world : World) (choice : Choice) (data : UserLoginData) :
    Frame (some .issued) world (world.loginUser choice data).2 := by
  unfold World.loginUser
  split
  · exact refl _ _
  · exact of_issued world _

end Frame

theorem perform_frame (choice : Choice) (op : Op) (world : World) :
    Frame op.part world (perform choice op world).2 := by
  unfold perform
  cases choice.rejects with
  | some error => exact .refl _ _
  | none =>
      cases op with
      | saveInvestor investor => exact .of_investors world _
      | insertInvestor investor =>
          simp only [answer]
          split
          · exact .of_investors world _
          · exact .refl _ _
      | saveToken token => exact .of_tokens world _
      | insertToken token =>
          simp only [answer]
          split
          · exact .of_tokens world _
          · exact .refl _ _
      | insertKycResult result =>
          simp only [answer]
          split
          · exact .of_kycResults world _
          · exact .refl _ _
      | initiate method data => exact .of_initiate world choice method data
      | resend method data => exact .of_initiate world choice method data
      | validate method id input => exact .of_validate world choice method id input
      | invalidate method id => exact .of_verifiers world _
      | loginUser data => exact .of_loginUser world choice data
      | _ => exact .refl _ _

/-! ## What a call does to the investors -/

inductive InvestorWrite where
  | save (investor : Doc ObjectID Investor)
  | insert (investor : Doc ObjectID Investor)

def InvestorWrite.apply (investors : Collection ObjectID Investor) :
    InvestorWrite → Collection ObjectID Investor
  | .save investor => investors.save Investor.write investor
  | .insert investor => (investors.insert investor).getD investors

def investorWrite : Call Op Ans Exception → Option InvestorWrite
  | ⟨.saveInvestor investor, .ok _⟩ => some (.save investor)
  | ⟨.insertInvestor investor, .ok id⟩ => some (.insert ⟨id, investor⟩)
  | _ => none

@[simp] theorem investorWrite_rejected (op : Op) (error : Exception) :
    investorWrite ⟨op, .error error⟩ = none := by
  cases op <;> rfl

theorem investorWrite_other {op : Op} (other : op.part ≠ some .investors)
    (result : Except Exception (Ans op)) : investorWrite ⟨op, result⟩ = none := by
  cases op with
  | saveInvestor investor => exact absurd rfl other
  | insertInvestor investor => exact absurd rfl other
  | _ => rfl

inductive InvestorEffect (before : Collection ObjectID Investor) :
    Call Op Ans Exception → Collection ObjectID Investor → Prop where
  | kept (call : Call Op Ans Exception) (noWrite : investorWrite call = none) :
      InvestorEffect before call before
  | saved (investor : Doc ObjectID Investor) :
      InvestorEffect before ⟨.saveInvestor investor, .ok ()⟩ (before.save Investor.write investor)
  | inserted (investor : Investor) (id : ObjectID) (after : Collection ObjectID Investor)
      (unused : ∀ doc ∈ before.docs, doc.val.email ≠ investor.email)
      (stored : before.insert ⟨id, investor⟩ = some after) :
      InvestorEffect before ⟨.insertInvestor investor, .ok id⟩ after

theorem InvestorEffect.eq {before after : Collection ObjectID Investor}
    {call : Call Op Ans Exception} (effect : InvestorEffect before call after) :
    after = ((investorWrite call).map (InvestorWrite.apply before)).getD before := by
  cases effect with
  | kept _ noWrite => rw [noWrite]; rfl
  | saved investor => rfl
  | inserted investor id after unused stored => simp [investorWrite, InvestorWrite.apply, stored]

theorem insertInvestor_eq_some_iff {world : World} {id : ObjectID} {investor : Investor}
    {after : Collection ObjectID Investor} :
    world.insertInvestor id investor = some after ↔
      (∀ doc ∈ world.investors.docs, doc.val.email ≠ investor.email) ∧
        world.investors.insert ⟨id, investor⟩ = some after := by
  simp [World.insertInvestor, World.findInvestor, Collection.findOne]

/-- A call that is not rejected is answered from the world. -/
theorem perform_eq_ok {choice : Choice} {op : Op} {world : World} {value : Ans op}
    (answered : (perform choice op world).1 = .ok value) :
    perform choice op world = answer choice world op := by
  unfold perform at answered ⊢
  cases rejects : choice.rejects with
  | some error =>
      rw [rejects] at answered
      cases answered
  | none => rfl

/-- Only saves and inserts of investors change the collection. -/
theorem perform_investors (choice : Choice) (op : Op) (world : World) :
    InvestorEffect world.investors ⟨op, (perform choice op world).1⟩
      (perform choice op world).2.investors := by
  by_cases own : op.part = some .investors
  · unfold perform
    cases choice.rejects with
    | some error => exact .kept _ (investorWrite_rejected _ _)
    | none =>
        cases op with
        | saveInvestor investor => exact .saved investor
        | insertInvestor investor =>
            simp only [answer]
            split
            · rename_i after stored
              obtain ⟨unused, inserted⟩ := insertInvestor_eq_some_iff.mp stored
              exact .inserted investor _ after unused inserted
            · exact .kept _ (investorWrite_rejected _ _)
        | _ => cases own
  · rw [(perform_frame choice op world).investors own]
    exact .kept _ (investorWrite_other own _)

/-! ## Emails -/

def emailOf (investors : Collection ObjectID Investor) (id : ObjectID) : Option String :=
  (investors.lookup id).map Investor.email

structure StoreInvariant (app : App) (world : World) (log : List AccountEvent) : Prop where
  lowered : ∀ id email, emailOf world.investors id = some email → app.toLowerCase email = email
  unique : ∀ first second email, emailOf world.investors first = some email →
    emailOf world.investors second = some email → first = second
  loaded : ∀ thread query user, ⟨thread, ⟨.findInvestor query, .ok (some user)⟩⟩ ∈ log →
    emailOf world.investors user.id = some user.val.email ∧
      ∀ email, query = .email email → user.val.email = email

theorem emailOf_save {investors : Collection ObjectID Investor} {saved : Doc ObjectID Investor}
    (same : emailOf investors saved.id = some saved.val.email) :
    emailOf (investors.save Investor.write saved) = emailOf investors := by
  funext id
  unfold emailOf
  rw [Collection.lookup_save]
  by_cases own : id = saved.id
  · obtain ⟨stored, found, email⟩ := Option.map_eq_some_iff.mp same
    simp [own, found, email, Investor.write]
  · simp [own]

theorem emailOf_insert {before after : Collection ObjectID Investor} {id : ObjectID}
    {investor : Investor} (inserted : before.insert ⟨id, investor⟩ = some after)
    (other : ObjectID) :
    emailOf after other = if other = id then some investor.email else emailOf before other :=
  Collection.map_lookup_insert Investor.email inserted other

theorem emailOf_unused {investors : Collection ObjectID Investor} {email : String}
    (unused : ∀ doc ∈ investors.docs, doc.val.email ≠ email) (id : ObjectID) :
    emailOf investors id ≠ some email := by
  intro found
  obtain ⟨stored, lookup, same⟩ := Option.map_eq_some_iff.mp found
  exact unused ⟨id, stored⟩ (Collection.lookup_eq_some_iff.mp lookup) same

theorem findInvestor_loaded {world : World} {query : InvestorQuery} {user : Doc ObjectID Investor}
    (found : world.findInvestor query = some user) :
    world.investors.lookup user.id = some user.val ∧
      ∀ email, query = .email email → user.val.email = email := by
  unfold World.findInvestor at found
  split at found
  · refine ⟨Collection.lookup_of_findOne found, fun email same => ?_⟩
    cases same
    simpa using Collection.matching_of_findOne found
  · obtain ⟨own, lookup⟩ := Collection.lookup_of_findOneById found
    exact ⟨own ▸ lookup, fun _ same => by cases same⟩
  · cases found
  · exact ⟨Collection.lookup_of_findOne found, fun _ same => by cases same⟩

/-- A query that is answered is answered from the store. -/
theorem findInvestor_answered {choice : Choice} {world : World} {query : InvestorQuery}
    {found : Option (Doc ObjectID Investor)}
    (answered : (perform choice (.findInvestor query) world).1 = .ok found) :
    world.findInvestor query = found := by
  rw [perform_eq_ok answered] at answered
  exact Except.ok.inj answered

theorem findInvestor_keeps (choice : Choice) (query : InvestorQuery) (world : World) :
    (perform choice (.findInvestor query) world).2 = world := by
  unfold perform
  split <;> rfl

theorem loaded_now {choice : Choice} {world : World} {query : InvestorQuery}
    {user : Doc ObjectID Investor}
    (answered : (perform choice (.findInvestor query) world).1 = .ok (some user)) :
    emailOf (perform choice (.findInvestor query) world).2.investors user.id =
        some user.val.email ∧
      ∀ email, query = .email email → user.val.email = email := by
  obtain ⟨lookup, byEmail⟩ := findInvestor_loaded (findInvestor_answered answered)
  exact ⟨by rw [findInvestor_keeps]; simp [emailOf, lookup], byEmail⟩

theorem acting_loaded {log : List AccountEvent} {thread : Nat} {query : InvestorQuery}
    {user : Doc ObjectID Investor} (acts : acting (localTrace thread log) = some (query, user)) :
    ⟨thread, ⟨.findInvestor query, .ok (some user)⟩⟩ ∈ log :=
  mem_localTrace.mp (mem_of_acting acts)

/-- A save keeps the email under the id it saves to. -/
theorem saved_email {world : World} {log : List AccountEvent} {thread : Nat} {arrival : Arrival}
    {investor : Doc ObjectID Investor} (store : StoreInvariant app world log)
    (guard : GuardSaveInvestor app arrival (localTrace thread log) investor) :
    emailOf world.investors investor.id = some investor.val.email := by
  obtain ⟨query, user, acts, sameId, changes⟩ := guard
  rw [sameId, changes.email]
  exact (store.loaded thread query user (acting_loaded acts)).1

/-- A call adds at most one email, lowered and unused. -/
theorem emailOf_step {world : World} {log : List AccountEvent} {thread : Nat} {arrival : Arrival}
    {op : Op} {choice : Choice} (store : StoreInvariant app world log)
    (guard : Guard app arrival (localTrace thread log) op) :
    emailOf (perform choice op world).2.investors = emailOf world.investors ∨
    ∃ id email, (∀ other, emailOf world.investors other ≠ some email) ∧
      emailOf world.investors id = none ∧ app.toLowerCase email = email ∧
      ∀ other, emailOf (perform choice op world).2.investors other =
        if other = id then some email else emailOf world.investors other := by
  have effect := perform_investors choice op world
  generalize (perform choice op world).1 = result at effect
  generalize (perform choice op world).2.investors = after at effect ⊢
  cases effect with
  | kept => exact .inl rfl
  | saved investor => exact .inl (emailOf_save (saved_email store guard))
  | inserted investor id after unused inserted =>
      obtain ⟨userData, passwordHash, verificationId, _, created⟩ := guard
      refine .inr ⟨id, investor.email, emailOf_unused unused, ?_, ?_, emailOf_insert inserted⟩
      · simp [emailOf, (Collection.insert_eq_some_iff.mp inserted).1]
      · rw [created]
        exact app.toLowerCase_idem _

theorem StoreInvariant.step {world : World} {log : List AccountEvent} {thread : Nat}
    {arrival : Arrival} {op : Op} {choice : Choice} (store : StoreInvariant app world log)
    (guard : Guard app arrival (localTrace thread log) op) :
    StoreInvariant app (perform choice op world).2
      (log ++ [⟨thread, ⟨op, (perform choice op world).1⟩⟩]) := by
  rcases @emailOf_step _ _ _ _ _ _ choice store guard with
    same | ⟨id, email, unused, free, lowered, after⟩
  · refine ⟨?_, ?_, ?_⟩
    · rw [same]; exact store.lowered
    · rw [same]; exact store.unique
    · intro other query user member
      rcases mem_performed.mp member with old | ⟨_, rfl, answered⟩
      · rw [same]
        exact store.loaded other query user old
      · exact loaded_now answered
  · refine ⟨?_, ?_, ?_⟩
    · intro other found
      rw [after]
      split
      · intro same
        cases same
        exact lowered
      · exact store.lowered other found
    · intro first second found foundFirst foundSecond
      rw [after] at foundFirst foundSecond
      split at foundFirst <;> split at foundSecond
      · simp_all
      · cases foundFirst
        exact absurd foundSecond (unused second)
      · cases foundSecond
        exact absurd foundFirst (unused first)
      · exact store.unique first second found foundFirst foundSecond
    · intro other query user member
      rcases mem_performed.mp member with old | ⟨_, rfl, answered⟩
      · obtain ⟨stored, byEmail⟩ := store.loaded other query user old
        refine ⟨?_, byEmail⟩
        have different : user.id ≠ id := by
          intro own
          rw [own, free] at stored
          cases stored
        rw [after, if_neg different]
        exact stored
      · exact loaded_now answered

theorem storeInvariant (reached : (accounts app).Reachable (.idle {}) state) :
    StoreInvariant app state.world state.log := by
  refine account_calls ⟨?_, ?_, ?_⟩ ?_ reached
  · intro id email found
    cases found
  · intro first second email found
    cases found
  · intro thread query user member
    cases member
  · intro state thread choice arrival op _ _ guard store
    exact store.step guard

/-- An investor keeps its email. -/
theorem emailOf_kept {earlier later : AccountState}
    (before : (accounts app).Reachable (.idle {}) earlier)
    (reached : (accounts app).Reachable earlier later) {id : ObjectID} {email : String}
    (stored : emailOf earlier.world.investors id = some email) :
    emailOf later.world.investors id = some email := by
  induction reached with
  | initial => exact stored
  | @step state action reached ih =>
      rcases (accounts app).step_cases state action with same | ⟨arrival, _, started⟩ |
        ⟨thread, choice, arrival, op, resume, _, awaiting, resumed⟩
      · rw [same]; exact ih
      · rw [started]; exact ih
      · rw [resumed]
        have reachedState := before.trans reached
        rcases @emailOf_step _ _ _ _ _ _ choice (storeInvariant reachedState)
          (guarded reachedState awaiting) with same | ⟨new, added, _, free, _, after⟩
        · rw [← ih]
          exact congrFun same id
        · have different : id ≠ new := by
            intro own
            rw [own, free] at ih
            cases ih
          have unchanged := after id
          rw [if_neg different, ih] at unchanged
          exact unchanged

/-- The query by email finds the investor that has it. -/
theorem StoreInvariant.findInvestor {world : World} {log : List AccountEvent}
    (store : StoreInvariant app world log) {id : ObjectID} {investor : Investor}
    (stored : world.investors.lookup id = some investor) :
    world.findInvestor (.email investor.email) = some ⟨id, investor⟩ := by
  have member := Collection.lookup_eq_some_iff.mp stored
  cases found : world.findInvestor (.email investor.email) with
  | none =>
      have unmatched := List.find?_eq_none.mp found ⟨id, investor⟩ member
      simp at unmatched
  | some doc =>
      obtain ⟨lookup, byEmail⟩ := findInvestor_loaded found
      have sameId : doc.id = id := store.unique doc.id id investor.email
        (by simp [emailOf, lookup, byEmail _ rfl]) (by simp [emailOf, stored])
      have sameVal : doc.val = investor := by
        rw [sameId, stored] at lookup
        exact (Option.some.inj lookup).symm
      rw [← sameId, ← sameVal]

/-! ## Properties of every investor -/

/-- The stored investors and those that a request has loaded. -/
structure AllInvestors (P : Investor → Prop) (world : World) (log : List AccountEvent) : Prop where
  stored : ∀ id investor, world.investors.lookup id = some investor → P investor
  loaded : ∀ thread query user, ⟨thread, ⟨.findInvestor query, .ok (some user)⟩⟩ ∈ log → P user.val

theorem AllInvestors.kept {P : Investor → Prop} {world : World} {log : List AccountEvent}
    {thread : Nat} {op : Op} {choice : Choice} (all : AllInvestors P world log)
    (stored : ∀ id investor, (perform choice op world).2.investors.lookup id = some investor →
      P investor) :
    AllInvestors P (perform choice op world).2
      (log ++ [⟨thread, ⟨op, (perform choice op world).1⟩⟩]) where
  stored := stored
  loaded other query user member := by
    rcases mem_performed.mp member with old | ⟨_, rfl, answered⟩
    · exact all.loaded other query user old
    · exact all.stored user.id user.val (findInvestor_loaded (findInvestor_answered answered)).1

/-- What holds of a new investor, and of the investor that a request makes of one it
has loaded, holds of every stored investor. -/
theorem allInvestors {P : Investor → Prop}
    (created : ∀ request investor, GuardInsertInvestor app request investor → P investor)
    (saved : ∀ draws request loaded investor, Changes app draws loaded investor request →
      P loaded → P investor)
    (reached : (accounts app).Reachable (.idle {}) state) :
    AllInvestors P state.world state.log := by
  have start : AllInvestors P ({} : World) [] := by
    refine ⟨?_, fun _ _ _ member => nomatch member⟩
    intro id investor found
    cases found
  refine account_calls start ?_ reached
  intro state thread choice arrival op _ _ guard all
  apply all.kept
  have effect := perform_investors choice op state.world
  generalize (perform choice op state.world).1 = result at effect
  generalize (perform choice op state.world).2.investors = after at effect ⊢
  cases effect with
  | kept => exact all.stored
  | saved investor =>
      obtain ⟨query, user, acts, _, changes⟩ := guard
      intro id current found
      rw [Collection.lookup_save] at found
      split at found
      · obtain ⟨stored, before, same⟩ := Option.map_eq_some_iff.mp found
        rw [← same]
        exact saved _ _ _ _ changes (all.loaded thread query user (acting_loaded acts))
      · exact all.stored id current found
  | inserted investor new after unused inserted =>
      intro id current found
      rw [Collection.lookup_insert inserted] at found
      split at found
      · cases found
        exact created _ _ guard
      · exact all.stored id current found

/-! ## The user of a request -/

/-- The email of the user a request acts for. -/
def ActsAs (app : App) (request : Request) (trace : AccountTrace) (email : String) : Prop :=
  match request with
  | .create userData => email = app.toLowerCase userData.email
  | _ => ∃ query user, acting trace = some (query, user) ∧ email = user.val.email

theorem StoreInvariant.consumer {world : World} {log : List AccountEvent}
    (store : StoreInvariant app world log) {thread : Nat} {query : InvestorQuery}
    {user : Doc ObjectID Investor} (acts : acting (localTrace thread log) = some (query, user))
    {consumer : String} (own : IsConsumer app query user consumer) :
    app.toLowerCase consumer = user.val.email := by
  obtain ⟨stored, byEmail⟩ := store.loaded thread query user (acting_loaded acts)
  rcases own with same | queried
  · rw [same]
    exact store.lowered user.id user.val.email stored
  · exact (byEmail _ queried).symm

/-- The consumer of a verification is the user its request acts for. -/
theorem StoreInvariant.actsAs {world : World} {log : List AccountEvent}
    (store : StoreInvariant app world log) {thread : Nat} {request : Request} {consumer : String}
    (acts : ActsFor app request (localTrace thread log) consumer) :
    ActsAs app request (localTrace thread log) (app.toLowerCase consumer) := by
  cases request with
  | create userData =>
      have same : consumer = app.toLowerCase userData.email := acts
      subst same
      exact app.toLowerCase_idem _
  | _ =>
      obtain ⟨query, user, first, own⟩ := acts
      exact ⟨query, user, first, store.consumer first own⟩

end IcoDashboard.Accounts
