import IcoDashboard.Accounts.CodedSaves

namespace IcoDashboard.Accounts

open IcoDashboard.Async IcoDashboard.Async.Program IcoDashboard.Data

/-! # Where the values of a column come from

A save replaces the whole investor, and so writes the values that its request has
loaded along with those that it changes.  Whatever was interleaved, the stored
value of a column goes back to the sign-up or to a request that has changed it.
-/

variable {γ : Type} {column : Investor → γ} {app : App} {state : AccountState}

/-- The thread saved the value under the id, and had loaded another one. -/
def Brings (column : Investor → γ) (log past : List AccountEvent) (thread : Nat) (id : ObjectID)
    (value : γ) : Prop :=
  ∃ saved, Occurs log past ⟨thread, ⟨.saveInvestor saved, .ok ()⟩⟩ ∧ saved.id = id ∧
    column saved.val = value ∧
    ∀ query user, acting (localTrace thread past) = some (query, user) → column user.val ≠ value

def SignedUpWith (column : Investor → γ) (log past : List AccountEvent) (thread : Nat) (id : ObjectID)
    (value : γ) : Prop :=
  ∃ investor, Occurs log past ⟨thread, ⟨.insertInvestor investor, .ok id⟩⟩ ∧ column investor = value

def Introduced (column : Investor → γ) (log : List AccountEvent) (id : ObjectID) (value : γ) : Prop :=
  ∃ past thread, SignedUpWith column log past thread id value ∨ Brings column log past thread id value

theorem Introduced.extended {log later : List AccountEvent} {id : ObjectID} {value : γ}
    (introduced : Introduced column log id value) (extended : log <+: later) :
    Introduced column later id value := by
  obtain ⟨added, rfl⟩ := extended
  obtain ⟨past, thread, ⟨investor, ⟨rest, split⟩, has⟩ | ⟨saved, ⟨rest, split⟩, parts⟩⟩ := introduced
  · exact ⟨past, thread, .inl ⟨investor, ⟨rest ++ added, by simp [split]⟩, has⟩⟩
  · exact ⟨past, thread, .inr ⟨saved, ⟨rest ++ added, by simp [split]⟩, parts⟩⟩

theorem Introduced.append {log : List AccountEvent} {id : ObjectID} {value : γ}
    (introduced : Introduced column log id value) (event : AccountEvent) :
    Introduced column (log ++ [event]) id value :=
  introduced.extended (List.prefix_append _ _)

/-- Every value that is stored or was ever loaded has been introduced. -/
structure ColumnInvariant (column : Investor → γ) (world : World) (log : List AccountEvent) : Prop where
  stored : ∀ id investor, world.investors.lookup id = some investor →
    Introduced column log id (column investor)
  loaded : ∀ thread query user, ⟨thread, ⟨.findInvestor query, .ok (some user)⟩⟩ ∈ log →
    Introduced column log user.id (column user.val)

/-- The value of a save is one that was loaded, or is brought by the save. -/
theorem ColumnInvariant.saved {world : World} {log : List AccountEvent} {thread : Nat}
    {arrival : Arrival} {saved : Doc ObjectID Investor} (invariant : ColumnInvariant column world log)
    (guard : GuardSaveInvestor app arrival (localTrace thread log) saved) :
    Introduced column (log ++ [⟨thread, ⟨.saveInvestor saved, .ok ()⟩⟩]) saved.id
      (column saved.val) := by
  obtain ⟨query, user, acts, sameId, _⟩ := guard
  by_cases loaded : column user.val = column saved.val
  · rw [sameId, ← loaded]
    exact (invariant.loaded thread query user (acting_loaded acts)).append _
  · refine ⟨log, thread, .inr ⟨saved, occurs_append.mpr (.inr ⟨rfl, rfl⟩), rfl, rfl, ?_⟩⟩
    intro query' user' acts'
    rw [acts] at acts'
    cases acts'
    exact loaded

theorem ColumnInvariant.step {world : World} {log : List AccountEvent} {thread : Nat}
    {arrival : Arrival} {op : Op} {choice : Choice} (invariant : ColumnInvariant column world log)
    (guard : Guard app arrival (localTrace thread log) op) :
    ColumnInvariant column (perform choice op world).2
      (log ++ [⟨thread, ⟨op, (perform choice op world).1⟩⟩]) := by
  refine ⟨?_, fun other query user member => ?_⟩
  · have effect := perform_investors choice op world
    generalize (perform choice op world).1 = result at effect ⊢
    generalize (perform choice op world).2.investors = after at effect ⊢
    intro id investor found
    cases effect with
    | kept => exact (invariant.stored id investor found).append _
    | saved saved =>
        rw [Collection.lookup_save] at found
        split at found
        · rename_i own
          obtain ⟨stored, before, rfl⟩ := Option.map_eq_some_iff.mp found
          rw [own]
          exact invariant.saved guard
        · exact (invariant.stored id investor found).append _
    | inserted created new after unused inserted =>
        rw [Collection.lookup_insert inserted] at found
        split at found
        · rename_i own
          cases found
          rw [own]
          exact ⟨log, thread, .inl ⟨created, occurs_append.mpr (.inr ⟨rfl, rfl⟩), rfl⟩⟩
        · exact (invariant.stored id investor found).append _
  · rcases mem_performed.mp member with old | ⟨_, rfl, answered⟩
    · exact (invariant.loaded other query user old).append _
    · have lookup := (findInvestor_loaded (findInvestor_answered answered)).1
      exact (invariant.stored user.id user.val lookup).append _

theorem columnInvariant (column : Investor → γ) (reached : (accounts app).Reachable (.idle {}) state) :
    ColumnInvariant column state.world state.log := by
  have start : ColumnInvariant column {} [] := by
    refine ⟨fun id investor found => ?_, by simp⟩
    cases found
  exact account_calls start (fun _ _ _ _ _ _ _ guard invariant => invariant.step guard) reached

/-! ## The requests that change a column -/

/-- What the request of a save had loaded and checked. -/
structure Changed (column : Investor → γ) (app : App) (state : AccountState)
    (past : List AccountEvent) (thread : Nat) (id : ObjectID) (value : γ) (arrival : Arrival)
    (user : Doc ObjectID Investor) : Prop where
  serving : Serving state thread arrival
  acts : ∃ query, acting (localTrace thread past) = some (query, user)
  own : user.id = id
  early : past <+: state.log
  changes : ∃ saved, column saved = value ∧ column user.val ≠ value ∧
    Changes app arrival.draws user.val saved arrival.request
  coded : ∀ purpose, arrival.request.completes = some purpose → ∃ code,
    arrival.request.code = some code ∧
    CodeValidated app state past thread purpose user.val.email code.method code.verificationId
  known : ∀ authorization params,
    arrival.request = .user authorization (.verifyChangePassword params) →
    app.compareSync params.oldPassword user.val.passwordHash = some true

theorem Brings.changed (reached : (accounts app).Reachable (.idle {}) state)
    {past : List AccountEvent} {thread : Nat} {id : ObjectID} {value : γ}
    (brings : Brings column state.log past thread id value) :
    ∃ arrival user, Changed column app state past thread id value arrival user := by
  obtain ⟨saved, occurs, rfl, has, brought⟩ := brings
  obtain ⟨origin, choice, arrival, resume, before, rfl, awaiting, _, onward⟩ :=
    reached.event_origin occurs
  have after : (accounts app).Reachable origin state := (System.Reachable.initial.step _).trans onward
  have serving : Serving state thread arrival := Serving.of_reachable ⟨_, awaiting⟩ after
  obtain ⟨query, user, acts, sameId, changes⟩ := guarded before awaiting
  refine ⟨arrival, user, serving, ⟨query, acts⟩, sameId.symm, after.log_extends,
    ⟨saved.val, has, brought query user acts, changes⟩, fun purpose completes => ?_,
    fun authorization params own => ?_⟩
  · have coded := (before.guarded (handle_savesCoded app) awaiting).1 saved rfl (by simp [completes])
    obtain ⟨code, own, validated⟩ := coded
    exact ⟨code, own, codeValidated reached occurs serving completes acts validated⟩
  · obtain ⟨query', user', acts', knows⟩ :=
      (before.guarded (handle_savesKnown app) awaiting).1 saved authorization params rfl own
    rw [acts] at acts'
    cases acts'
    exact knows

end IcoDashboard.Accounts
