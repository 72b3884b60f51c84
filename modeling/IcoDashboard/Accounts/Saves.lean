import IcoDashboard.Accounts.Tokens

namespace IcoDashboard.Accounts

open IcoDashboard.Async IcoDashboard.Async.Program IcoDashboard.Data

/-! # Saves of one investor

A save replaces the stored investor by the copy that the request had loaded and
changed.  So of two requests that save the same investor, the later one decides
every column, and keeps what the other changed exactly where its copy has it.
-/

variable {app : App} {state : AccountState}

/-! ## Columns -/

/-- The columns that requests change. -/
inductive Column where
  | passwordHash | isVerified | defaultVerificationMethod | kycStatus | verification | ethWallet
  | invitees | kycInitResult
deriving DecidableEq, Repr

def Column.SameIn (first second : Investor) : Column → Prop
  | .passwordHash => first.passwordHash = second.passwordHash
  | .isVerified => first.isVerified = second.isVerified
  | .defaultVerificationMethod => first.defaultVerificationMethod = second.defaultVerificationMethod
  | .kycStatus => first.kycStatus = second.kycStatus
  | .verification => first.verification = second.verification
  | .ethWallet => first.ethWallet = second.ethWallet
  | .invitees => first.invitees = second.invitees
  | .kycInitResult => first.kycInitResult = second.kycInitResult

/-- The columns a request is meant to change. -/
def Request.changes : Request → List Column
  | .resendVerification _ => [.verification]
  | .activate _ => [.ethWallet, .kycInitResult, .isVerified]
  | .verifyResetPassword _ => [.passwordHash]
  | .kycCallback (.shuftipro _) => [.kycStatus, .kycInitResult]
  | .kycCallback (.jumio _) => [.kycStatus]
  | .kycUploaded _ _ => [.kycStatus]
  | .user _ (.verifyChangePassword _) => [.passwordHash]
  | .user _ (.invite _) => [.invitees]
  | .user _ (.enable2faVerify _) => [.defaultVerificationMethod]
  | .user _ (.disable2faVerify _) => [.defaultVerificationMethod]
  | .user _ .kycInit => [.kycInitResult]
  | .user _ .kycReinit => [.kycInitResult]
  | _ => []

namespace Column

variable {column : Column} {first second third : Investor}

theorem SameIn.symm (same : column.SameIn first second) : column.SameIn second first := by
  cases column <;> exact Eq.symm same

theorem SameIn.trans (left : column.SameIn first second) (right : column.SameIn second third) :
    column.SameIn first third := by
  cases column <;> exact Eq.trans left right

theorem SameIn.refl (column : Column) (investor : Investor) : column.SameIn investor investor := by
  cases column <;> exact rfl

end Column

/-- A request changes the columns it is meant to. -/
theorem Changes.columns {draws : Draws} {loaded saved : Investor} {request : Request}
    (changes : Changes app draws loaded saved request) {column : Column}
    (other : column ∉ request.changes) : column.SameIn loaded saved := by
  unfold Changes at changes
  split at changes <;> cases column <;> grind [Request.changes, Column.SameIn]

/-! ## The value of an investor -/

def savesTo (id : ObjectID) (event : AccountEvent) : Bool :=
  match investorWrite event.call with
  | some (.save doc) => doc.id = id
  | _ => false

/-- The log saves no copy of the investor. -/
def Unsaved (id : ObjectID) (log : List AccountEvent) : Prop :=
  ∀ event ∈ log, savesTo id event = false

instance (id : ObjectID) (log : List AccountEvent) : Decidable (Unsaved id log) :=
  inferInstanceAs (Decidable (∀ event ∈ log, _))

/-- The investors after the calls of a log. -/
def replayed (investors : Collection ObjectID Investor) (log : List AccountEvent) :
    Collection ObjectID Investor :=
  log.foldl (fun investors event =>
    ((investorWrite event.call).map (InvestorWrite.apply investors)).getD investors) investors

theorem replayed_append (investors : Collection ObjectID Investor) (log later : List AccountEvent) :
    replayed investors (log ++ later) = replayed (replayed investors log) later :=
  List.foldl_append

theorem replay_log (reached : (accounts app).Reachable (.idle {}) state) :
    state.world.investors = replayed .empty state.log := by
  have answered : ∀ (state : AccountState) thread choice arrival op,
      (accounts app).Reachable (.idle {}) state → Serving state thread arrival →
      Guard app arrival (localTrace thread state.log) op →
      state.world.investors = replayed .empty state.log →
      (perform choice op state.world).2.investors = replayed .empty
        (state.log ++ [⟨thread, ⟨op, (perform choice op state.world).1⟩⟩]) := by
    intro state thread choice arrival op _ _ _ same
    rw [(perform_investors choice op state.world).eq, replayed_append, ← same]
    rfl
  exact @account_calls app {} state
    (fun world log => world.investors = replayed .empty log) rfl answered reached

theorem InvestorWrite.lookup_apply {investors : Collection ObjectID Investor} {id : ObjectID}
    {investor : Investor} {write : InvestorWrite} (stored : investors.lookup id = some investor)
    (other : ∀ doc, write = .save doc → doc.id ≠ id) :
    (write.apply investors).lookup id = some investor := by
  cases write with
  | save doc =>
      have different : id ≠ doc.id := (other doc rfl).symm
      simp [InvestorWrite.apply, Collection.lookup_save, different, stored]
  | insert doc =>
      cases inserted : investors.insert doc with
      | none => simpa [InvestorWrite.apply, inserted] using stored
      | some after =>
          have taken : id ≠ doc.id := by
            intro own
            rw [own, (Collection.insert_eq_some_iff.mp inserted).1] at stored
            cases stored
          simp [InvestorWrite.apply, inserted, Collection.lookup_insert inserted, taken, stored]

/-- A log without a save of the investor keeps its value. -/
theorem lookup_unsaved {log : List AccountEvent} {investors : Collection ObjectID Investor}
    {id : ObjectID} {investor : Investor} (stored : investors.lookup id = some investor)
    (unsaved : Unsaved id log) : (replayed investors log).lookup id = some investor := by
  induction log generalizing investors with
  | nil => exact stored
  | cons event rest ih =>
      have unsavedRest : Unsaved id rest := fun other member =>
        unsaved other (List.mem_cons_of_mem _ member)
      have kept : (((investorWrite event.call).map (InvestorWrite.apply investors)).getD
          investors).lookup id = some investor := by
        have unsavedNow : savesTo id event = false := unsaved event List.mem_cons_self
        cases writes : investorWrite event.call with
        | none => exact stored
        | some write =>
            refine InvestorWrite.lookup_apply stored fun doc isSave => ?_
            simpa [savesTo, writes, isSave] using unsavedNow
      exact ih kept unsavedRest

/-- A save replaces the value before it, and the value stays until the next one. -/
theorem lookup_saved {past rest : List AccountEvent} {thread : Nat} {doc : Doc ObjectID Investor}
    {before : Investor} (stored : (replayed .empty past).lookup doc.id = some before)
    (unsaved : Unsaved doc.id rest) :
    (replayed .empty (past ++ ⟨thread, ⟨.saveInvestor doc, .ok ()⟩⟩ :: rest)).lookup doc.id =
      some doc.val := by
  rw [List.append_cons, replayed_append, replayed_append]
  refine lookup_unsaved ?_ unsaved
  change ((replayed .empty past).save Investor.write doc).lookup doc.id = _
  rw [Collection.lookup_save, if_pos rfl, stored]
  rfl

/-! ## Two saves of one investor -/

/-- A save of the investor that the request had loaded. -/
structure Save where
  thread : Nat
  arrival : Arrival
  loaded : Doc ObjectID Investor
  saved : Doc ObjectID Investor

namespace Save

variable (save : Save)

def event : AccountEvent := ⟨save.thread, ⟨.saveInvestor save.saved, .ok ()⟩⟩

def Changed (column : Column) : Prop := ¬ column.SameIn save.loaded.val save.saved.val

def Carried (stored : Investor) : Prop :=
  ∀ column, save.Changed column → column.SameIn save.saved.val stored

/-- The request made the save when the log held just `past`. -/
structure MadeAt (state : AccountState) (past : List AccountEvent) : Prop where
  occurs : Occurs state.log past save.event
  serving : Serving state save.thread save.arrival
  loaded : ∃ query, acting (localTrace save.thread past) = some (query, save.loaded)

end Save

/-- The last two saves of one investor. -/
structure LastSaves (state : AccountState) (past between rest : List AccountEvent)
    (first second : Save) : Prop where
  log : state.log = past ++ first.event :: (between ++ second.event :: rest)
  sameId : second.saved.id = first.saved.id
  betweenUnsaved : Unsaved first.saved.id between
  restUnsaved : Unsaved first.saved.id rest
  firstMade : first.MadeAt state past
  secondMade : second.MadeAt state (past ++ first.event :: between)

/-- What a save may have changed, over the value it was made on. -/
theorem Save.MadeAt.spec {save : Save} {past : List AccountEvent}
    (reached : (accounts app).Reachable (.idle {}) state) (made : save.MadeAt state past) :
    save.saved.id = save.loaded.id ∧
      Changes app save.arrival.draws save.loaded.val save.saved.val save.arrival.request ∧
      ∃ before, (replayed .empty past).lookup save.saved.id = some before := by
  obtain ⟨origin, arrival, choice, before, _, rfl, serving, guard, _⟩ :=
    event_guarded reached made.occurs
  obtain rfl : save.arrival = arrival := made.serving.unique serving
  have present := saved_email (storeInvariant before) guard
  obtain ⟨query, user, acts, sameId, changes⟩ := guard
  obtain ⟨query', acts'⟩ := made.loaded
  rw [acts'] at acts
  obtain ⟨rfl, rfl⟩ : query' = query ∧ save.loaded = user := by
    cases acts
    exact ⟨rfl, rfl⟩
  obtain ⟨stored, lookup, _⟩ := Option.map_eq_some_iff.mp present
  rw [replay_log before] at lookup
  exact ⟨sameId, changes, stored, lookup⟩

/-! ## The later save decides -/

variable {past between rest : List AccountEvent} {first second : Save}

theorem LastSaves.stored (reached : (accounts app).Reachable (.idle {}) state)
    (last : LastSaves state past between rest first second) {before : Investor}
    (found : (replayed .empty past).lookup first.saved.id = some before) :
    state.world.investors.lookup first.saved.id =
      some second.saved.val := by
  have afterFirst : (replayed .empty (past ++ first.event :: between)).lookup first.saved.id =
      some first.saved.val := lookup_saved found last.betweenUnsaved
  have split : state.log = (past ++ first.event :: between) ++ second.event :: rest := by
    rw [last.log]
    simp
  rw [replay_log reached, split, ← last.sameId]
  rw [← last.sameId] at afterFirst
  exact lookup_saved afterFirst (last.sameId ▸ last.restUnsaved)

theorem Save.MadeAt.unchanged {save : Save} {column : Column}
    (reached : (accounts app).Reachable (.idle {}) state) (made : save.MadeAt state past)
    (other : column ∉ save.arrival.request.changes) :
    column.SameIn save.loaded.val save.saved.val :=
  (made.spec reached).2.1.columns other

/-- A request that loads the investor between the two saves loads what the first
one wrote. -/
theorem LastSaves.loaded_between (reached : (accounts app).Reachable (.idle {}) state)
    (last : LastSaves state past between rest first second)
    (unloaded : acting (localTrace second.thread past) = none) {before : Investor}
    (stored : (replayed .empty past).lookup first.saved.id = some before) :
    second.loaded.val = first.saved.val := by
  obtain ⟨query, acts⟩ := last.secondMade.loaded
  rw [localTrace_append] at acts
  have loads := mem_localTrace.mp (acting_later unloaded acts)
  have loadsBetween : ⟨second.thread, ⟨.findInvestor query, .ok (some second.loaded)⟩⟩ ∈ between := by
    rcases List.mem_cons.mp loads with same | member
    · have sameOp : Op.findInvestor query = .saveInvestor first.saved :=
        congrArg (fun event => event.call.1) same
      cases sameOp
    · exact member
  obtain ⟨part, later, split⟩ := List.mem_iff_append.mp loadsBetween
  have occurs : Occurs state.log (past ++ first.event :: part)
      ⟨second.thread, ⟨.findInvestor query, .ok (some second.loaded)⟩⟩ :=
    ⟨later ++ second.event :: rest, by rw [last.log, split]; simp⟩
  obtain ⟨origin, _, _, reachedOrigin, _, log, _, _, answered⟩ := event_guarded reached occurs
  have found := (findInvestor_loaded (findInvestor_answered answered)).1
  have partUnsaved : Unsaved first.saved.id part := fun event member =>
    last.betweenUnsaved event (by rw [split]; exact List.mem_append_left _ member)
  have sameId : second.loaded.id = first.saved.id :=
    (last.secondMade.spec reached).1.symm.trans last.sameId
  rw [replay_log reachedOrigin, log, sameId] at found
  exact Option.some.inj (found.symm.trans (lookup_saved stored partUnsaved))

/-- What the stored investor has of the two requests that saved it last. -/
structure Decides (past : List AccountEvent) (first second : Save) (stored : Investor) : Prop where
  later : second.Carried stored
  earlier : ∀ column, first.Changed column → column ∉ second.arrival.request.changes →
    (column.SameIn first.saved.val stored ↔ column.SameIn first.saved.val second.loaded.val)
  sequential : acting (localTrace second.thread past) = none → ∀ column, first.Changed column →
    column ∉ second.arrival.request.changes → column.SameIn first.saved.val stored
  verified : .kycStatus ∉ second.arrival.request.changes →
    (stored.kycStatus = .verified ↔ second.loaded.val.kycStatus = .verified)

/-- The later save carries its own changes, and those of the earlier one where
the copy it had loaded has them. -/
theorem lastSaves_decide (reached : (accounts app).Reachable (.idle {}) state)
    (last : LastSaves state past between rest first second) :
    ∃ stored, state.world.investors.lookup first.saved.id = some stored ∧
      Decides past first second stored := by
  obtain ⟨_, _, before, found⟩ := last.firstMade.spec reached
  have decided := last.stored reached found
  have kept : ∀ column, column ∉ second.arrival.request.changes →
      column.SameIn second.loaded.val second.saved.val :=
    fun column other => last.secondMade.unchanged reached other
  have earlier : ∀ column, first.Changed column → column ∉ second.arrival.request.changes →
      (column.SameIn first.saved.val second.saved.val ↔
        column.SameIn first.saved.val second.loaded.val) :=
    fun column _ other => ⟨fun same => same.trans (kept column other).symm,
      fun same => same.trans (kept column other)⟩
  refine ⟨_, decided, fun column _ => .refl column _, earlier, ?_, ?_⟩
  · intro unloaded column changed other
    refine (earlier column changed other).mpr ?_
    rw [last.loaded_between reached unloaded found]
    exact .refl column _
  · intro other
    have same : second.loaded.val.kycStatus = second.saved.val.kycStatus := kept .kycStatus other
    rw [← same]

/-! ## An overlapping callback -/

def Completed (state : AccountState) (thread : Nat) : Prop :=
  ∃ arrival response, state.threads[thread]? = some ⟨arrival, .done response⟩

/-- Requests that change different columns both have their effect. -/
def BothCarried (state : AccountState) : Prop :=
  ∀ past between rest first second, LastSaves state past between rest first second →
    Completed state first.thread → Completed state second.thread →
    first.arrival.request.changes.Disjoint second.arrival.request.changes →
    ∃ stored, state.world.investors.lookup first.saved.id = some stored ∧
      first.Carried stored ∧ second.Carried stored

def inviteBob : Arrival :=
  { request := .user (some "Bearer t1") (.invite ["bob@example.com"]) }

def scanAnn : Arrival :=
  { request := .kycCallback (.jumio ⟨"000000000000000000000001", "SUCCESS", some (some true)⟩) }

/-- The invite loads the investor, the callback verifies her, the invite saves. -/
def inviteOverScan : AccountState := after .plain (signUp ++ activation 1 ++
  [.start inviteBob, .resume 2 {}, .resume 2 {}, .resume 2 {},
    .start scanAnn, .resume 3 {}, .resume 3 {}, .resume 3 {}, .resume 3 {},
    .resume 2 {}, .resume 2 {}, .resume 2 {}, .resume 2 {}])

def scanSave : Save where
  thread := 3
  arrival := scanAnn
  loaded := newcomerDoc
  saved := newcomerDoc.modify fun investor => { investor with kycStatus := .verified }

def inviteSave : Save where
  thread := 2
  arrival := inviteBob
  loaded := newcomerDoc
  saved := newcomerDoc.modify fun investor =>
    { investor with invitees := [{ email := "bob@example.com", lastSentAt := 0, attempts := 1 }] }

theorem inviteOverScan_saves : LastSaves inviteOverScan (inviteOverScan.log.take 18)
    ((inviteOverScan.log.drop 19).take 3) [] scanSave inviteSave where
  log := rfl
  sameId := rfl
  betweenUnsaved := by decide
  restUnsaved := by decide
  firstMade := ⟨⟨inviteOverScan.log.drop 19, rfl⟩, ⟨_, rfl⟩, _, rfl⟩
  secondMade := ⟨⟨[], rfl⟩, ⟨_, rfl⟩, _, rfl⟩

theorem inviteOverScan_decided : ∃ stored,
    inviteOverScan.world.investors.lookup newcomerDoc.id = some stored ∧
      Decides (inviteOverScan.log.take 18) scanSave inviteSave stored :=
  lastSaves_decide (System.reachable_run _ _) inviteOverScan_saves

theorem inviteOverScan_unverifies : ¬ BothCarried inviteOverScan := by
  intro both
  obtain ⟨stored, found, scanned, _⟩ := both _ _ _ _ _ inviteOverScan_saves
    ⟨_, _, rfl⟩ ⟨_, _, rfl⟩
    (by simp [scanSave, inviteSave, scanAnn, inviteBob, Request.changes])
  have verified : KycStatus.verified = stored.kycStatus :=
    scanned .kycStatus (by simp [Save.Changed, scanSave, Column.SameIn]; decide)
  have unverified : (inviteOverScan.world.investors.lookup newcomerDoc.id).map
      Investor.kycStatus = some .notVerified := by decide
  rw [show newcomerDoc.id = scanSave.saved.id from rfl, found, Option.map_some, ← verified]
    at unverified
  cases unverified

end IcoDashboard.Accounts
