import IcoDashboard.Accounts.References

namespace IcoDashboard.Accounts

open IcoDashboard.Async IcoDashboard.Async.Program IcoDashboard.Data

/-! # References in every run

The records of a session and the investor of a reference, for all interleavings
of sessions with callbacks of any body.
-/

variable {app : App} {initial : World} {state last : AccountState}

/-- The session was recorded for the investor before it was posted, under a reference
drawn for the request. -/
def OpenedFor (state : AccountState) (reference : String) (user : ObjectID) : Prop :=
  ∃ thread arrival again timestamp id, Serving state thread arrival ∧
    arrival.request.opensSession = true ∧ arrival.draws.reference again = reference ∧
    ⟨thread, ⟨.insertKycResult (localRecord reference timestamp user), .ok id⟩⟩ ∈ state.log

/-- No two requests draw the same reference. -/
def FreshReferences (state : AccountState) : Prop :=
  ∀ first second arrival other again also, Serving state first arrival →
    Serving state second other → arrival.request.opensSession = true →
    other.request.opensSession = true →
    arrival.draws.reference again = other.draws.reference also → first = second

/-- The provider answers with the reference it was posted. -/
def echoes : AccountEvent → Bool
  | ⟨_, ⟨.shuftiproInit data, .ok response⟩⟩ =>
      response.error || response.reference = some data.reference
  | _ => true

def Echoes (log : List AccountEvent) : Prop := ∀ event ∈ log, echoes event = true

/-! ## What a call does to the records -/

inductive RecordEffect (before : Collection ObjectID ShuftiproKycResult) :
    Call Op Ans Exception → Collection ObjectID ShuftiproKycResult → Prop where
  | kept (call : Call Op Ans Exception) : RecordEffect before call before
  | recorded (record : ShuftiproKycResult) (id : ObjectID)
      (after : Collection ObjectID ShuftiproKycResult)
      (stored : before.insert ⟨id, record⟩ = some after) :
      RecordEffect before ⟨.insertKycResult record, .ok id⟩ after

theorem perform_kycResults (choice : Choice) (op : Op) (world : World) :
    RecordEffect world.kycResults ⟨op, (perform choice op world).1⟩
      (perform choice op world).2.kycResults := by
  by_cases own : op.part = some .kycResults
  · unfold perform
    cases choice.rejects with
    | some error => exact .kept _
    | none =>
        cases op with
        | insertKycResult record =>
            simp only [answer]
            split
            · rename_i after stored
              exact .recorded record _ after stored
            · exact .kept _
        | _ => cases own
  · rw [(perform_frame choice op world).kycResults own]
    exact .kept _

theorem findKycResult_answered {choice : Choice} {world : World} {reference : Option String}
    {stored : Doc ObjectID ShuftiproKycResult}
    (answered : (perform choice (.findKycResult reference) world).1 = .ok (some stored)) :
    stored.val.reference = reference ∧ world.kycResults.lookup stored.id = some stored.val := by
  rw [perform_eq_ok answered] at answered
  have found := Except.ok.inj answered
  exact ⟨by simpa using Collection.matching_of_findOne found, Collection.lookup_of_findOne found⟩

/-- The investor that a callback looks for. -/
def MatchesQuery : InvestorQuery → Doc ObjectID Investor → Prop
  | .id id, user => id = some user.id
  | .kycReference reference, user => user.val.kycInitResult.bind KycInitResult.reference = reference
  | .email _, _ => True

theorem findInvestor_matches {world : World} {query : InvestorQuery} {user : Doc ObjectID Investor}
    (found : world.findInvestor query = some user) : MatchesQuery query user := by
  unfold World.findInvestor at found
  split at found
  · trivial
  · obtain ⟨own, _⟩ := Collection.lookup_of_findOneById found
    exact congrArg some own.symm
  · cases found
  · rename_i reference
    have accepted : user.val.kycInitResult.bind KycInitResult.reference = reference := by
      simpa using Collection.matching_of_findOne found
    exact accepted

/-! ## The invariant -/

def NamesOwner (issued : String → ObjectID → Prop) (record : ShuftiproKycResult) : Prop :=
  ∀ reference, record.reference = some reference →
    ∃ user, record.user = some user ∧ issued reference user

def HoldsOwn (issued : String → ObjectID → Prop) (user : ObjectID)
    (kycInitResult : Option KycInitResult) : Prop :=
  ∀ reference, kycInitResult.bind KycInitResult.reference = some reference → issued reference user

/-- Records and investors, stored or loaded, have references that were issued to
them. -/
structure ReferencesBound (issued : String → ObjectID → Prop) (world : World)
    (log : List AccountEvent) : Prop where
  records : ∀ id record, world.kycResults.lookup id = some record → NamesOwner issued record
  investors : ∀ id investor, world.investors.lookup id = some investor →
    HoldsOwn issued id investor.kycInitResult
  found : ∀ thread reference stored, ⟨thread, ⟨.findKycResult reference, .ok (some stored)⟩⟩ ∈ log →
    stored.val.reference = reference ∧ NamesOwner issued stored.val
  loaded : ∀ thread query user, ⟨thread, ⟨.findInvestor query, .ok (some user)⟩⟩ ∈ log →
    MatchesQuery query user ∧ HoldsOwn issued user.id user.val.kycInitResult

section Invariant

variable {issued : String → ObjectID → Prop} {world : World} {log : List AccountEvent} {thread : Nat}
  {arrival : Arrival}

/-- A callback finds the investor that its reference was issued to. -/
theorem ReferencesBound.foundBy (bound : ReferencesBound issued world log) {reference : String}
    {investor : Doc ObjectID Investor}
    (found : FoundBy (localTrace thread log) (some reference) investor) :
    issued reference investor.id := by
  obtain ⟨stored, recorded, loaded⟩ := found
  obtain ⟨matching, holds⟩ := bound.loaded thread _ investor (mem_localTrace.mp loaded)
  cases stored with
  | none => exact holds reference matching
  | some stored =>
      obtain ⟨same, names⟩ := bound.found thread _ stored (mem_localTrace.mp recorded)
      obtain ⟨user, own, given⟩ := names reference same
      have target : user = investor.id := Option.some.inj (own.symm.trans matching)
      rw [← target]
      exact given

/-- An answer of the provider has the reference of the session it was posted. -/
theorem issued_of_sourced {reference : String} {user : ObjectID}
    (serving : Serving last thread arrival) (opens : arrival.request.opensSession = true)
    (earlier : log ⊆ last.log) (echoes : Echoes last.log)
    (sourced : Sourced arrival.draws (localTrace thread log) user (some reference)) :
    OpenedFor last reference user := by
  rcases sourced with none | ⟨again, data, response, timestamp, id, drawn, recorded, answered, fine,
    same⟩
  · cases none
  · have echoed : response.reference = some data.reference := by
      simpa [Accounts.echoes, fine] using echoes _ (earlier (mem_localTrace.mp answered))
    rw [echoed] at same
    obtain rfl := Option.some.inj same
    exact ⟨thread, arrival, again, timestamp, id, serving, opens, drawn.symm,
      earlier (mem_localTrace.mp recorded)⟩

/-- A record that a request adds is for the investor of its reference. -/
theorem ReferencesBound.record (bound : ReferencesBound (OpenedFor last) world log)
    (serving : Serving last thread arrival) (earlier : log ⊆ last.log) (echoes : Echoes last.log)
    {record : ShuftiproKycResult} {id : ObjectID}
    (logged : ⟨thread, ⟨.insertKycResult record, .ok id⟩⟩ ∈ last.log)
    (guard : RecordGuard arrival (localTrace thread log) record) :
    NamesOwner (OpenedFor last) record := by
  intro reference given
  unfold RecordGuard at guard
  split at guard
  · obtain ⟨same, investor, found, own⟩ := guard
    rw [← same, given] at found
    exact ⟨investor.id, own, bound.foundBy found⟩
  · rename_i request _
    obtain ⟨opens, query, user, acts, own, ⟨again, timestamp, local'⟩ | sourced⟩ := guard
    · subst local'
      obtain rfl : arrival.draws.reference again = reference := Option.some.inj given
      exact ⟨user.id, rfl, thread, arrival, again, timestamp, id, serving, opens, rfl, logged⟩
    · rw [given] at sourced
      exact ⟨user.id, own, issued_of_sourced serving opens earlier echoes sourced⟩

/-- A result that a request stores with an investor has a reference issued to it. -/
theorem ReferencesBound.result (bound : ReferencesBound (OpenedFor last) world log)
    (serving : Serving last thread arrival) (earlier : log ⊆ last.log) (echoes : Echoes last.log)
    {query : InvestorQuery} {user : Doc ObjectID Investor} {kycInitResult : Option KycInitResult}
    (acts : acting (localTrace thread log) = some (query, user))
    (guard : ResultGuard arrival (localTrace thread log) user kycInitResult) :
    HoldsOwn (OpenedFor last) user.id kycInitResult := by
  have kept : kycInitResult = user.val.kycInitResult →
      HoldsOwn (OpenedFor last) user.id kycInitResult := by
    intro same
    rw [same]
    exact (bound.loaded thread query user (acting_loaded acts)).2
  unfold ResultGuard at guard
  split at guard
  · obtain ⟨found, same | replaced⟩ := guard
    · exact kept same
    · intro reference given
      rw [← replaced, given] at found
      exact bound.foundBy found
  · exact kept guard
  · obtain ⟨opens, sourced⟩ := guard
    intro reference given
    rw [given] at sourced
    exact issued_of_sourced serving opens earlier echoes sourced

/-- What was issued last stays, so a call keeps the invariant for the references of
the state that the run ends in. -/
theorem ReferencesBound.call (bound : ReferencesBound (OpenedFor last) world log)
    (serving : Serving last thread arrival) {choice : Choice} {op : Op}
    (logged : log ++ [⟨thread, ⟨op, (perform choice op world).1⟩⟩] ⊆ last.log)
    (echoes : Echoes last.log) (guard : ReferenceGuard arrival (localTrace thread log) op) :
    ReferencesBound (OpenedFor last) (perform choice op world).2
      (log ++ [⟨thread, ⟨op, (perform choice op world).1⟩⟩]) := by
  have earlier : log ⊆ last.log := fun event member => logged (List.mem_append_left _ member)
  have now : ⟨thread, ⟨op, (perform choice op world).1⟩⟩ ∈ last.log := logged (by simp)
  refine ⟨?_, ?_, ?_, ?_⟩
  · have effect := perform_kycResults choice op world
    generalize (perform choice op world).1 = result at effect now
    generalize (perform choice op world).2.kycResults = after at effect ⊢
    cases effect with
    | kept => exact bound.records
    | recorded record new after stored =>
        intro id current found
        rw [Collection.lookup_insert stored] at found
        split at found
        · cases found
          exact bound.record serving earlier echoes now guard
        · exact bound.records id current found
  · have effect := perform_investors choice op world
    generalize (perform choice op world).1 = result at effect
    generalize (perform choice op world).2.investors = after at effect ⊢
    cases effect with
    | kept => exact bound.investors
    | saved saved =>
        obtain ⟨query, user, acts, own, result⟩ := guard
        intro id current found
        rw [Collection.lookup_save] at found
        split at found
        · rename_i here
          obtain ⟨stored, before, same⟩ := Option.map_eq_some_iff.mp found
          rw [← same, here, own]
          intro reference given
          exact bound.result serving earlier echoes acts result reference given
        · exact bound.investors id current found
    | inserted investor new after unused inserted => exact guard.elim
  · intro other reference stored member
    rcases mem_performed.mp member with old | ⟨_, rfl, answered⟩
    · exact bound.found other reference stored old
    · obtain ⟨same, found⟩ := findKycResult_answered answered
      exact ⟨same, bound.records stored.id stored.val found⟩
  · intro other query user member
    rcases mem_performed.mp member with old | ⟨_, rfl, answered⟩
    · exact bound.loaded other query user old
    · have found := findInvestor_answered answered
      exact ⟨findInvestor_matches found,
        bound.investors user.id user.val (findInvestor_loaded found).1⟩

end Invariant

/-! ## Runs -/

/-- Every request of the run is one of the KYC sessions. -/
def OnlySessions (state : AccountState) : Prop :=
  ∀ thread arrival, Serving state thread arrival → arrival.request.usesSessions = true

theorem bound_of_reachable (unrecorded : initial.kycResults = .empty)
    (unopened : ∀ id investor, initial.investors.lookup id = some investor →
      investor.kycInitResult = none)
    (reached : (accounts app).Reachable (.idle initial) state) (sessions : OnlySessions state)
    (echoes : Echoes state.log) : ReferencesBound (OpenedFor state) state.world state.log := by
  have general : ∀ now, (accounts app).Reachable (.idle initial) now →
      (accounts app).Reachable now state → ReferencesBound (OpenedFor state) now.world now.log := by
    intro now before
    induction before with
    | initial =>
        intro _
        refine ⟨?_, ?_, fun _ _ _ member => (nomatch member), fun _ _ _ member => nomatch member⟩
        · intro id record found
          change initial.kycResults.lookup id = some record at found
          rw [unrecorded] at found
          cases found
        · intro id investor found reference given
          rw [unopened id investor found] at given
          cases given
    | @step now action before ih =>
        intro onward
        have bound := ih ((System.Reachable.initial.step action).trans onward)
        rcases (accounts app).step_cases now action with same | ⟨arrival, _, started⟩ |
          ⟨thread, choice, arrival, op, resume, _, awaiting, resumed⟩
        · rw [same]; exact bound
        · rw [started]; exact bound
        · have reaches := (System.Reachable.initial.step action).trans onward
          have serving : Serving state thread arrival :=
            Serving.of_reachable ⟨_, awaiting⟩ reaches
          have guard := (before.guarded (handle_references app) awaiting).1
            (sessions thread arrival serving)
          have logged := onward.log_extends.subset
          rw [resumed] at logged ⊢
          exact bound.call serving logged echoes guard
  exact general state reached .initial

/-- A session is recorded for the user that its request acts for. -/
theorem issued_acting (reached : (accounts app).Reachable (.idle initial) state) {thread : Nat}
    {arrival : Arrival} (serving : Serving state thread arrival)
    (opens : arrival.request.opensSession = true) {reference timestamp : String} {user id : ObjectID}
    (logged : ⟨thread, ⟨.insertKycResult (localRecord reference timestamp user), .ok id⟩⟩ ∈ state.log) :
    ∃ query acted, acting (localTrace thread state.log) = some (query, acted) ∧ acted.id = user := by
  obtain ⟨past, occurs⟩ := occurs_of_mem logged
  obtain ⟨origin, choice, other, resume, before, log, awaiting, _, after⟩ := reached.event_origin occurs
  have same : other = arrival := by
    have onward := (System.Reachable.initial.step _).trans after
    exact (Serving.of_reachable ⟨_, awaiting⟩ onward).unique serving
  subst same
  have uses : other.request.usesSessions = true := by simp [Request.usesSessions, opens]
  have guard := (before.guarded (handle_references app) awaiting).1 uses
  rw [log] at guard
  change RecordGuard other (localTrace thread past) _ at guard
  unfold RecordGuard at guard
  split at guard
  · rename_i asked
    rw [asked] at opens
    cases opens
  · obtain ⟨_, query, acted, acts, own, _⟩ := guard
    exact ⟨query, acted, acting_extended (occurs.localTrace_extends thread) acts,
      (Option.some.inj own).symm⟩

/-- A fresh reference is issued to one investor. -/
theorem OpenedFor.unique (reached : (accounts app).Reachable (.idle initial) state)
    (fresh : FreshReferences state) {reference : String} {first second : ObjectID}
    (left : OpenedFor state reference first) (right : OpenedFor state reference second) :
    first = second := by
  obtain ⟨thread, arrival, again, timestamp, id, serving, opens, drawn, logged⟩ := left
  obtain ⟨other, arrival', again', timestamp', id', serving', opens', drawn', logged'⟩ := right
  have same := fresh thread other arrival arrival' again again' serving serving' opens opens'
    (drawn.trans drawn'.symm)
  subst same
  obtain ⟨query, acted, acts, own⟩ := issued_acting reached serving opens logged
  obtain ⟨query', acted', acts', own'⟩ := issued_acting reached serving' opens' logged'
  rw [acts] at acts'
  cases acts'
  exact own.symm.trans own'

/-- A callback changes no investor but the one its reference was issued to. -/
theorem callback_changes (reached : (accounts app).Reachable (.idle initial) state)
    (bound : ReferencesBound (OpenedFor state) state.world state.log) {thread : Nat} {choice : Choice}
    {arrival : Arrival} {result : ShuftiproInitResult} {reference : String}
    (serving : Serving state thread arrival)
    (asked : arrival.request = .kycCallback (.shuftipro result))
    (given : result.reference = some reference) {id : ObjectID}
    (changed : ((accounts app).step state (.resume thread choice)).world.investors.lookup id ≠
      state.world.investors.lookup id) : OpenedFor state reference id := by
  have uses : arrival.request.usesSessions = true := by rw [asked]; rfl
  rcases (accounts app).step_cases state (.resume thread choice) with same | ⟨_, started, _⟩ |
    ⟨other, choice', arrival', op, resume, resuming, awaiting, resumed⟩
  · exact absurd (by rw [same]) changed
  · cases started
  · cases resuming
    obtain rfl := Serving.unique ⟨_, awaiting⟩ serving
    have guard := (reached.guarded (handle_references app) awaiting).1 uses
    rw [resumed] at changed
    have effect := perform_investors choice op state.world
    change (perform choice op state.world).2.investors.lookup id ≠ _ at changed
    generalize (perform choice op state.world).1 = answer at effect
    generalize (perform choice op state.world).2.investors = after at effect changed
    cases effect with
    | kept => exact absurd rfl changed
    | saved saved =>
        obtain ⟨query, user, acts, own, result'⟩ := guard
        rw [ResultGuard, asked] at result'
        obtain ⟨found, _⟩ := result'
        rw [given] at found
        rw [Collection.lookup_save] at changed
        split at changed
        · rename_i here
          rw [here, own]
          exact bound.foundBy found
        · exact absurd rfl changed
    | inserted investor new after unused inserted => exact guard.elim

/-- The records of a reference name the investor it was issued to, and no other
investor is changed by a callback for it. -/
theorem references_bound (unrecorded : initial.kycResults = .empty)
    (unopened : ∀ id investor, initial.investors.lookup id = some investor →
      investor.kycInitResult = none)
    (reached : (accounts app).Reachable (.idle initial) state) (sessions : OnlySessions state)
    (fresh : FreshReferences state) (echoes : Echoes state.log) (reference : String) :
    (∀ id record, state.world.kycResults.lookup id = some record →
      record.reference = some reference → ∃ user, record.user = some user ∧
        OpenedFor state reference user ∧ ∀ other, OpenedFor state reference other → other = user) ∧
    ∀ thread choice arrival result, Serving state thread arrival →
      arrival.request = .kycCallback (.shuftipro result) → result.reference = some reference →
      ∀ id, ((accounts app).step state (.resume thread choice)).world.investors.lookup id ≠
          state.world.investors.lookup id →
        OpenedFor state reference id ∧ ∀ other, OpenedFor state reference other → other = id := by
  have bound := bound_of_reachable unrecorded unopened reached sessions echoes
  constructor
  · intro id record stored given
    obtain ⟨user, own, issued⟩ := bound.records id record stored reference given
    exact ⟨user, own, issued, fun other also => also.unique reached fresh issued⟩
  · intro thread choice arrival result serving asked given id changed
    have issued := callback_changes reached bound serving asked given changed
    exact ⟨issued, fun other also => also.unique reached fresh issued⟩

/-! ## A forged callback -/

/-- Ann is activated; then her reference is used by somebody who cannot sign, and
by the provider. -/
def annArrivals : List Arrival :=
  [{ request := .activate { email := "ann@example.com", verificationId := "v1", code := "123456" }
     draws := { mnemonic := "pig", salt := "salt", uuid := "r1", uuidAgain := "r2" } },
    { request := .kycCallback (.shuftipro { statusCode := some "SP1", reference := some "r1" }) },
    { request := .kycCallback (.shuftipro
        { statusCode := some "SP1", message := some "verified", reference := some "r1"
          signature := some "SP1verifiedr1" }) }]

/-- The calls of each request that were answered. -/
def annCalls : List (List Choice) :=
  [sessionChoices 21 "t1", (sessionChoices 41 "").take 3, (sessionChoices 61 "").take 4]

/-- The verdict of the provider has yet to be stored. -/
def annCallbacks : AccountState :=
  (accounts sessionApp).run (.idle (after sessionApp signUp).world)
    (annArrivals.map .start ++
      annCalls.zipIdx.flatMap fun (choices, thread) => choices.map (.resume thread ·))

theorem annCallbacks_bound : annCallbacks.world.kycResults.docs.length = 4 ∧
    (∀ id record, annCallbacks.world.kycResults.lookup id = some record →
      record.reference = some "r1" → record.user = some 1) ∧
    OpenedFor annCallbacks "r1" 1 := by
  have requests : annCallbacks.threads.map Thread.request = annArrivals := rfl
  have listed : ∀ thread arrival, Serving annCallbacks thread arrival →
      annArrivals[thread]? = some arrival := by
    intro thread arrival serving
    obtain ⟨program, found⟩ := serving
    rw [← requests, List.getElem?_map, found]
    rfl
  have sessions : OnlySessions annCallbacks := by
    intro thread arrival serving
    have all : ∀ arrival ∈ annArrivals, arrival.request.usesSessions = true := by decide
    exact all arrival (List.mem_of_getElem? (listed thread arrival serving))
  have first : ∀ thread arrival, Serving annCallbacks thread arrival →
      arrival.request.opensSession = true → thread = 0 := by
    intro thread arrival serving opens
    have found := listed thread arrival serving
    rcases thread with _ | _ | _ | thread
    · rfl
    · cases found
      cases opens
    · cases found
      cases opens
    · cases found
  have fresh : FreshReferences annCallbacks := by
    intro thread other arrival arrival' _ _ serving serving' opens opens' _
    rw [first thread arrival serving opens, first other arrival' serving' opens']
  have unopened : ∀ id investor,
      (after sessionApp signUp).world.investors.lookup id = some investor →
      investor.kycInitResult = none := by
    intro id investor stored
    have all : ∀ doc ∈ (after sessionApp signUp).world.investors.docs,
        doc.val.kycInitResult = none := by decide +kernel
    exact all _ (Collection.lookup_eq_some_iff.mp stored)
  have echoed : Echoes annCallbacks.log := by
    unfold Echoes
    decide +kernel
  have reached : (accounts sessionApp).Reachable (.idle (after sessionApp signUp).world)
      annCallbacks := System.reachable_run _ _
  obtain ⟨records, changes⟩ := references_bound rfl unopened reached sessions fresh echoed "r1"
  have changed : ((accounts sessionApp).step annCallbacks (.resume 2 {})).world.investors.lookup 1 ≠
      annCallbacks.world.investors.lookup 1 := by decide +kernel
  obtain ⟨issued, only⟩ := changes 2 {} _ _ ⟨_, rfl⟩ rfl rfl 1 changed
  refine ⟨rfl, fun id record stored given => ?_, issued⟩
  obtain ⟨user, own, issuedUser, _⟩ := records id record stored given
  rw [own, only user issuedUser]

end IcoDashboard.Accounts
