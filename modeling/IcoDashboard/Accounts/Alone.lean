import IcoDashboard.Accounts.Activation
import IcoDashboard.Async.Rounds

namespace IcoDashboard.Accounts

open IcoDashboard.Async IcoDashboard.Async.Program IcoDashboard.Data

/-! # Requests that run alone

While one request runs alone, its own writes are all that happens to the stored
investors, and until it writes, the copy it has loaded is what is stored.
-/

abbrev AccountRound : Type := Round Op Ans Exception World Arrival Response

/-- The stored investors after the calls a request has made. -/
def storedAfter (before : World) (past : AccountTrace) : Collection ObjectID Investor :=
  (investorWrites past).foldl InvestorWrite.apply before.investors

theorem storedAfter_append (before : World) (past : AccountTrace) (call : Call Op Ans Exception) :
    storedAfter before (past ++ [call]) =
      ((investorWrite call).map (InvestorWrite.apply (storedAfter before past))).getD
        (storedAfter before past) := by
  rw [storedAfter, investorWrites_append, List.foldl_append, investorWrites_single]
  cases investorWrite call with
  | none => simp [storedAfter]
  | some write => simp [storedAfter]

/-- The acting user was there before, or the call has just loaded it. -/
theorem acting_snoc {past : AccountTrace} {call : Call Op Ans Exception} {query : InvestorQuery}
    {user : Doc ObjectID Investor} (acts : acting (past ++ [call]) = some (query, user)) :
    acting past = some (query, user) ∨ call = ⟨.findInvestor query, .ok (some user)⟩ := by
  cases before : acting past with
  | none =>
      have member := acting_later before acts
      exact .inr (List.mem_singleton.mp member).symm
  | some found =>
      obtain ⟨query', user'⟩ := found
      rw [acting_append before] at acts
      exact .inl acts

/-- A document that a call has just loaded is stored after the call. -/
theorem loaded_stored {choice : Choice} {op : Op} {world : World} {query : InvestorQuery}
    {user : Doc ObjectID Investor}
    (answered : (⟨op, (perform choice op world).1⟩ : Call Op Ans Exception) =
      ⟨.findInvestor query, .ok (some user)⟩) :
    (perform choice op world).2.investors.lookup user.id = some user.val := by
  obtain rfl : op = .findInvestor query := congrArg Sigma.fst answered
  have result : (perform choice (.findInvestor query) world).1 = .ok (some user) := by
    simpa using answered
  rw [findInvestor_keeps]
  exact (findInvestor_loaded (findInvestor_answered result)).1

structure AloneInvariant (before : World) (past : AccountTrace) (world : World) : Prop where
  investors : world.investors = storedAfter before past
  unsaved : ∀ query user, acting past = some (query, user) → investorWrites past = [] →
    world.investors.lookup user.id = some user.val

theorem AloneInvariant.start (before : World) : AloneInvariant before [] before where
  investors := rfl
  unsaved _ _ acts := nomatch acts

theorem AloneInvariant.step {before world : World} {past : AccountTrace}
    (holds : AloneInvariant before past world) (op : Op) (choice : Choice) :
    AloneInvariant before (past ++ [⟨op, (perform choice op world).1⟩])
      (perform choice op world).2 := by
  have effect := perform_investors choice op world
  apply AloneInvariant.mk
  · rw [effect.eq, storedAfter_append, ← holds.investors]
  · intro query user acts noWrite
    rcases acting_snoc acts with old | loaded
    · rw [investorWrites_append, List.append_eq_nil_iff] at noWrite
      have noWriteNow : investorWrite ⟨op, (perform choice op world).1⟩ = none := by
        simpa using noWrite.2
      rw [effect.eq, noWriteNow]
      exact holds.unsaved query user old noWrite.1
    · exact loaded_stored loaded

/-! ## The acting user -/

/-- The acting user was loaded before anything was written. -/
structure LoadedFirst (before : World) (past : AccountTrace) (world : World) : Prop where
  unwritten : acting past = none → world.investors = before.investors
  loaded : ∀ query user, acting past = some (query, user) →
    before.investors.lookup user.id = some user.val

theorem LoadedFirst.step {app : App} {arrival : Arrival} {before world : World} {past : AccountTrace}
    (registers : ∀ userData, arrival.request ≠ .create userData) (op : Op) (choice : Choice)
    (guard : Guard app arrival past op) (holds : LoadedFirst before past world) :
    LoadedFirst before (past ++ [⟨op, (perform choice op world).1⟩]) (perform choice op world).2 := by
  have unwritten : acting past = none →
      (perform choice op world).2.investors = before.investors := by
    intro none
    have effect := perform_investors choice op world
    generalize (perform choice op world).1 = result at effect
    generalize (perform choice op world).2.investors = after at effect ⊢
    cases effect with
    | kept => exact holds.unwritten none
    | saved saved =>
        obtain ⟨query, user, acts, _⟩ := guard
        rw [none] at acts
        cases acts
    | inserted investor id after unused inserted =>
        obtain ⟨userData, _, _, asked, _⟩ := guard
        exact absurd asked (registers userData)
  refine ⟨fun none => ?_, fun query user acts => ?_⟩
  · cases former : acting past with
    | none => exact unwritten former
    | some found =>
        rw [acting_append former] at none
        cases none
  · cases former : acting past with
    | none =>
        rcases acting_snoc acts with old | loaded
        · rw [former] at old
          cases old
        · rw [← unwritten former]
          exact loaded_stored loaded
    | some found =>
        rw [acting_append former] at acts
        exact holds.loaded query user (former.trans acts)

/-- The user that a request acts for is the one stored before it. -/
theorem acting_stored {app : App} {round : AccountRound} (ran : (accounts app).Ran round)
    (registers : ∀ userData, round.request.request ≠ .create userData) {query : InvestorQuery}
    {user : Doc ObjectID Investor} (acts : acting round.trace = some (query, user)) :
    round.before.investors.lookup user.id = some user.val := by
  have start : LoadedFirst round.before [] round.before := ⟨fun _ => rfl, fun _ _ acts => nomatch acts⟩
  have ended := Executes.invariant ran (handle_meets app round.request)
    (fun past op world choice guard holds => LoadedFirst.step registers op choice guard holds) start
  exact ended.loaded query user acts

/-! ## Parts that a request keeps -/

section View

variable {View : Type} {view : Investor → View} {app : App} {arrival : Arrival}

/-- A part of the stored investor. -/
def viewOf (view : Investor → View) (investors : Collection ObjectID Investor) (id : ObjectID) :
    Option View :=
  (investors.lookup id).map view

/-- The request saves the part as it has loaded it. -/
def Request.Preserves (app : App) (view : Investor → View) (request : Request) : Prop :=
  ∀ draws loaded saved, Changes app draws loaded saved request → view saved = view loaded

/-- While a request runs, the part stays what it was, and a new investor has it as
it was created. -/
structure ViewKept (app : App) (view : Investor → View) (request : Request)
    (before : Collection ObjectID Investor) (past : AccountTrace) (world : World) : Prop where
  kept : ∀ id value, viewOf view before id = some value → viewOf view world.investors id = some value
  created : ∀ id value, viewOf view before id = none → viewOf view world.investors id = some value →
    ∃ investor, GuardInsertInvestor app request investor ∧ view investor = value
  acts : ∀ query user, acting past = some (query, user) →
    viewOf view world.investors user.id = some (view user.val)

theorem ViewKept.start (request : Request) (before : World) :
    ViewKept app view request before.investors [] before where
  kept _ _ found := found
  created _ _ absent found := by
    rw [absent] at found
    cases found
  acts _ _ acts := nomatch acts

theorem viewOf_save {investors : Collection ObjectID Investor} {saved : Doc ObjectID Investor}
    (same : viewOf view investors saved.id = some (view saved.val)) :
    viewOf view (investors.save Investor.write saved) = viewOf view investors := by
  funext id
  unfold viewOf at same ⊢
  rw [Collection.lookup_save]
  by_cases own : id = saved.id
  · obtain ⟨stored, found, stays⟩ := Option.map_eq_some_iff.mp same
    rw [if_pos own, own, found, Option.map_some, Option.map_some, Option.map_some, stays]
    rfl
  · rw [if_neg own]

theorem viewOf_insert {before after : Collection ObjectID Investor} {id : ObjectID}
    {investor : Investor} (inserted : before.insert ⟨id, investor⟩ = some after) (other : ObjectID) :
    viewOf view after other = if other = id then some (view investor) else viewOf view before other :=
  Collection.map_lookup_insert view inserted other

/-- The user that a call has just loaded is stored after it. -/
theorem viewOf_acting {past : AccountTrace} {op : Op} {choice : Choice} {world : World}
    {query : InvestorQuery} {user : Doc ObjectID Investor}
    (stays : acting past = some (query, user) →
      viewOf view (perform choice op world).2.investors user.id = some (view user.val))
    (acts : acting (past ++ [⟨op, (perform choice op world).1⟩]) = some (query, user)) :
    viewOf view (perform choice op world).2.investors user.id = some (view user.val) := by
  rcases acting_snoc acts with old | loaded
  · exact stays old
  · rw [viewOf, loaded_stored loaded]
    rfl

/-- A call keeps the part, or adds a new investor. -/
theorem viewOf_call {world : World} {past : AccountTrace} (preserves : arrival.request.Preserves app view)
    {op : Op} (choice : Choice) (guard : Guard app arrival past op)
    (acted : ∀ query user, acting past = some (query, user) →
      viewOf view world.investors user.id = some (view user.val)) :
    viewOf view (perform choice op world).2.investors = viewOf view world.investors ∨
    ∃ id investor, GuardInsertInvestor app arrival.request investor ∧
      viewOf view world.investors id = none ∧
      ∀ other, viewOf view (perform choice op world).2.investors other =
        if other = id then some (view investor) else viewOf view world.investors other := by
  have effect := perform_investors choice op world
  generalize (perform choice op world).1 = answer at effect
  generalize (perform choice op world).2.investors = after at effect ⊢
  cases effect with
  | kept => exact .inl rfl
  | saved investor =>
      obtain ⟨query, user, acts, sameId, changes⟩ := guard
      refine .inl (viewOf_save ?_)
      rw [sameId, preserves _ _ _ changes]
      exact acted query user acts
  | inserted investor id after unused inserted =>
      refine .inr ⟨id, investor, guard, ?_, viewOf_insert inserted⟩
      rw [viewOf, (Collection.insert_eq_some_iff.mp inserted).1]
      rfl

theorem ViewKept.step {before : Collection ObjectID Investor} {world : World} {past : AccountTrace}
    (preserves : arrival.request.Preserves app view) (op : Op) (choice : Choice)
    (guard : Guard app arrival past op)
    (holds : ViewKept app view arrival.request before past world) :
    ViewKept app view arrival.request before (past ++ [⟨op, (perform choice op world).1⟩])
      (perform choice op world).2 := by
  rcases viewOf_call preserves choice guard holds.acts with
    same | ⟨id, investor, created, free, after⟩
  · refine ⟨?_, ?_, fun query user acts => viewOf_acting (fun old => ?_) acts⟩
    · rw [same]; exact holds.kept
    · rw [same]; exact holds.created
    · rw [same]; exact holds.acts query user old
  · have others : ∀ other value, viewOf view world.investors other = some value →
        viewOf view (perform choice op world).2.investors other = some value := by
      intro other value found
      have different : other ≠ id := by
        intro own
        rw [own, free] at found
        cases found
      rw [after, if_neg different]
      exact found
    refine ⟨fun other value found => others other value (holds.kept other value found),
      fun other value absent found => ?_,
      fun query user acts => viewOf_acting (fun old => others _ _ (holds.acts query user old)) acts⟩
    rw [after] at found
    split at found
    · exact ⟨investor, created, Option.some.inj found⟩
    · exact holds.created other value absent found

/-- A request that preserves a part of the investors keeps it stored. -/
theorem viewKept {round : AccountRound} (ran : (accounts app).Ran round)
    (preserves : round.request.request.Preserves app view) :
    ViewKept app view round.request.request round.before.investors round.trace round.after := by
  have kept := Executes.invariant ran (handle_meets app round.request)
    (fun past op _ choice guard holds => ViewKept.step preserves op choice guard holds)
    (ViewKept.start round.request.request round.before)
  rw [List.nil_append] at kept
  exact kept

end View
end IcoDashboard.Accounts
