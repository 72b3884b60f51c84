import IcoDashboard.Chain.Statuses

namespace IcoDashboard.Chain

open IcoDashboard.Async IcoDashboard.Async.Program IcoDashboard.Data
open TransactionService Web3Handler

/-! # Races for a record

Both a pending transaction and its block look for the record before they insert
it.  A block handler that returns has settled every ether transfer of its block;
one whose insert comes second is thrown out of its loop.
-/

variable {app : App} {web3 : Web3} {view : Choice} {blockData : BlockData} {header : BlockHeader}
  {thread : Nat} {state : ChainState}

/-- The ether transfers of investors are stored as their receipts say. -/
def TransfersSettled (app : App) (web3 : Web3) (view : Choice) (blockData : BlockData)
    (world : World) : Prop :=
  ∀ tx ∈ blockData.transactions, getTxTypeByData app tx = .ethereumTransfer →
    Involves app web3 view tx → ∀ receipt, view.node.getTransactionReceipt tx.hash = some receipt →
    ∃ addresses record, getFromToTokenAmount app web3 tx = .ok addresses ∧
      world.records (recordKey app tx addresses) = some record ∧
      record.status = getTxStatusByReceipt receipt

/-- The request has returned, or its insert was rejected by the unique index. -/
def Finished (state : ChainState) (thread : Nat) (request : Request) : Prop :=
  state.threads[thread]? = some ⟨request, .done ()⟩ ∨
    state.threads[thread]? = some ⟨request, .fail duplicateKey⟩ ∧
      ∃ tx, ⟨thread, ⟨.insertTransaction tx, .error duplicateKey⟩⟩ ∈ state.log

/-- All calls see the same chain and investors. -/
def Views (view : Choice) (_ : ChainState) : Action Choice Request → Prop
  | .start _ => True
  | .resume _ choice => choice = view

/-- When the thread inserts a record, there is none with its key. -/
def InsertsFree (thread : Nat) (state : ChainState) : Action Choice Request → Prop
  | .start _ => True
  | .resume resumed _ => resumed = thread → ∀ request tx resume,
      state.threads[thread]? = some ⟨request, .await (.insertTransaction tx) resume⟩ →
      state.world.records tx.key = none

/-- The record that the program is about to insert. -/
def inserting : Handler Unit → Option Transaction
  | .await (.insertTransaction tx) _ => some tx
  | _ => none

instance (thread : Nat) (state : ChainState) (action : Action Choice Request) :
    Decidable (InsertsFree thread state action) :=
  match action with
  | .start _ => .isTrue trivial
  | .resume resumed _ =>
      decidable_of_iff (resumed = thread →
        ∀ tx ∈ state.threads[thread]?.bind fun entry => inserting entry.program,
          state.world.records tx.key = none) <| by
        refine imp_congr_right fun _ => ?_
        constructor
        · intro free request tx resume awaiting
          exact free tx (by simp [awaiting, inserting])
        · intro free tx member
          obtain ⟨⟨request, program⟩, awaiting, inserts⟩ := Option.bind_eq_some_iff.mp member
          unfold inserting at inserts
          split at inserts
          · cases inserts
            rename_i resume same
            exact free request tx resume (by rw [awaiting, ← same])
          · cases inserts

/-! ## What passing a transaction leaves -/

/-- How `saveConfirmedTransaction` can return. -/
inductive PassedEvidence (app : App) (tx : TransactionData) (addresses : FromToTokenAmount)
    (trace : ChainTrace) : Prop where
  | settled (call : Call Op Ans Exception) (member : call ∈ trace)
      (finalizes : Finalizes call (recordKey app tx addresses))
  | saved (loaded doc : Doc Nat Transaction)
      (found : ⟨.findTransaction (recordKey app tx addresses), .ok (some loaded)⟩ ∈ trace)
      (sameKey : doc.val.key = loaded.val.key) (member : ⟨.saveTransaction doc, .ok ()⟩ ∈ trace)
  | skipped (loaded : Doc Nat Transaction)
      (found : ⟨.findTransaction (recordKey app tx addresses), .ok (some loaded)⟩ ∈ trace)
      (token : loaded.val.type = .tokenTransfer)
  | uninvolved (member : ⟨.countInvestors (investorAddresses addresses), .ok 0⟩ ∈ trace)

theorem saveConfirmedTransaction_passed {tx : TransactionData} {receipt : Receipt} :
    (saveConfirmedTransaction app web3 tx blockData receipt).Meets (fun _ _ => True)
      (fun trace _ => ∃ addresses, getFromToTokenAmount app web3 tx = .ok addresses ∧
        PassedEvidence app tx addresses trace) Unthrown [] := by
  simp only [saveConfirmedTransaction, getTxByTxData, request, call, meets_bind, meets_ofExcept,
    meets_await, meets_done, meets_fail, Unthrown, implies_true, and_true, true_and]
  intro addresses read found
  cases found with
  | none =>
      simp only [getUserCountByTxData, createAndSaveTransaction, request, call, meets_bind,
        meets_ofExcept, meets_await, meets_done, meets_fail, meets_ite, meets_pure, Unthrown,
        implies_true, and_true, true_and, read, Except.ok.injEq, forall_eq']
      intro count
      refine ⟨fun _ ethAmount _ answer => ?_, fun uncounted => ?_⟩
      · exact ⟨addresses, rfl, .settled _ (List.mem_append_right _ (List.mem_singleton.mpr rfl))
          (.inserted _ (status_decided receipt))⟩
      · obtain rfl : count = 0 := Nat.eq_zero_of_not_pos uncounted
        exact ⟨addresses, rfl, .uninvolved (by simp)⟩
  | some loaded =>
      simp only [getUserCountByTxData, updateTx, request, call, meets_bind,
        meets_ofExcept, meets_await, meets_done, meets_fail, meets_ite, meets_pure, Unthrown,
        implies_true, and_true, true_and, read, Except.ok.injEq, forall_eq']
      refine ⟨fun settled => ?_, fun unsettled count => ⟨fun _ answer => ?_, fun uncounted => ?_⟩⟩
      · rcases settled with ⟨token, _⟩ | final
        · exact ⟨addresses, rfl, .skipped loaded (by simp) token⟩
        · exact ⟨addresses, rfl, .settled _ (by simp) (.found _ loaded final)⟩
      · refine ⟨addresses, rfl, .saved loaded _ (by simp) ?_
          (List.mem_append_right _ (List.mem_singleton.mpr rfl))⟩
        rfl
      · obtain rfl : count = 0 := Nat.eq_zero_of_not_pos uncounted
        exact ⟨addresses, rfl, .uninvolved (by simp)⟩

/-! ## Runs under one view -/

/-- The receipts that the view shows. -/
def shownReceipts (view : Choice) (hash : String) : Receipt :=
  (view.node.getTransactionReceipt hash).getD ⟨.flag false⟩

theorem fixed_view : FixedReceipts (shownReceipts view) view := by
  intro hash receipt received
  simp [shownReceipts, received]

/-- Every call was answered under the view. -/
def Viewed (view : Choice) (log : List ChainEvent) : Prop :=
  ∀ event ∈ log, ∃ world, event.call.2 = (perform view event.call.1 world).1

structure RaceInvariant (view : Choice) (thread : Nat) (state : ChainState) : Prop where
  statuses : StatusInvariant (shownReceipts view) state.world state.log
  viewed : Viewed view state.log
  /-- No insert of the thread was rejected. -/
  unrejected : ∀ tx error, ⟨thread, ⟨.insertTransaction tx, .error error⟩⟩ ∉ state.log

/-- An insert under a free key is made. -/
theorem insert_ok (reliable : view.rejects = none) {world : World} {tx : Transaction}
    (free : world.records tx.key = none) : (perform view (.insertTransaction tx) world).1 = .ok () := by
  obtain ⟨after, inserted, _, _⟩ := insert_records reliable free
  rw [inserted]

theorem raceInvariant_step {initial : World} (reliable : view.rejects = none)
    (reached : (handlers app web3).Reachable (.idle initial) state)
    (holds : RaceInvariant view thread state) {action : Action Choice Request}
    (allowed : Views view state action ∧ InsertsFree thread state action) :
    RaceInvariant view thread ((handlers app web3).step state action) := by
  obtain ⟨views, free⟩ := allowed
  have fixed : ReceiptsFixed (shownReceipts view) state action := by
    cases action with
    | start request => trivial
    | resume resumed choice =>
        rw [show choice = view from views]
        exact fixed_view
  refine ⟨(statusInvariant_step reached holds.statuses fixed).1, ?_, ?_⟩
  · rcases (handlers app web3).step_cases state action with same | ⟨request, _, started⟩ |
      ⟨resumed, choice, request, op, resume, rfl, awaiting, stepped⟩
    · rw [same]
      exact holds.viewed
    · rw [started]
      exact holds.viewed
    · rw [stepped]
      intro event member
      rcases List.mem_append.mp member with before | now
      · exact holds.viewed event before
      · obtain rfl := List.mem_singleton.mp now
        obtain rfl : choice = view := views
        exact ⟨state.world, rfl⟩
  · rcases (handlers app web3).step_cases state action with same | ⟨request, _, started⟩ |
      ⟨resumed, choice, request, op, resume, rfl, awaiting, stepped⟩
    · rw [same]
      exact holds.unrejected
    · rw [started]
      exact holds.unrejected
    · rw [stepped]
      intro tx error member
      rcases mem_performed.mp member with before | ⟨rfl, rfl, answered⟩
      · exact holds.unrejected tx error before
      · obtain rfl : choice = view := views
        rw [insert_ok reliable (free rfl request tx resume awaiting)] at answered
        cases answered

/-! ## Blocks that were gone through -/

variable {initial : World} {actions : List (Action Choice Request)}

/-- A block handler that has returned has settled its ether transfers. -/
theorem transfersSettled_of_returned (reliable : view.rejects = none)
    (reached : (handlers app web3).Reachable (.idle initial) state)
    (holds : RaceInvariant view thread state) {number : Nat} (numbered : header.number = some number)
    (mined : number ≠ 0) (known : view.node.getBlock (.hash header.hash) = some blockData)
    (returned : state.threads[thread]? = some ⟨.newBlockHeaders header, .done ()⟩) :
    TransfersSettled app web3 view blockData state.world := by
  have fetched : Fetched app web3 (.hash header.hash) (localTrace thread state.log) :=
    reached.guarded handle_meets returned number numbered mined
  have answers : ∀ call ∈ localTrace thread state.log,
      ∃ world, call.2 = (answer view world call.1).1 := by
    intro call member
    obtain ⟨world, same⟩ := holds.viewed _ (mem_localTrace.mp member)
    rw [perform_answer reliable] at same
    exact ⟨world, same⟩
  obtain ⟨found, before, after, split, passed⟩ := fetched
  have shown : found = blockData := by
    obtain ⟨world, same⟩ := answers ⟨.getBlock (.hash header.hash), .ok (some found)⟩
      (by rw [split]; simp)
    simp only [answer, known, Except.ok.injEq, Option.some.injEq] at same
    exact same
  subst shown
  intro tx member plain involves receipt received
  obtain ⟨front, received', segment, last, splitAfter, follows⟩ := passed tx member
  have inTrace : ∀ call ∈ segment, call ∈ localTrace thread state.log := by
    intro call inSegment
    rw [split, splitAfter]
    simp [inSegment]
  have shownReceipt : received' = some receipt := by
    obtain ⟨world, same⟩ := answers ⟨.getTransactionReceipt tx.hash, .ok received'⟩
      (by rw [split, splitAfter]; simp)
    simp only [answer, received, Except.ok.injEq] at same
    exact same
  obtain ⟨addresses, read, evidence⟩ :=
    saveConfirmedTransaction_passed.follow (follows receipt shownReceipt)
  simp only [List.nil_append] at evidence
  have ownKey : ∀ loaded, ⟨.findTransaction (recordKey app tx addresses), .ok (some loaded)⟩ ∈ segment →
      loaded.val.key = recordKey app tx addresses := by
    intro loaded found
    exact (holds.statuses.loaded thread _ loaded (mem_localTrace.mp (inTrace _ found))).1
  have settled : ∀ call ∈ segment, ∀ key, Finalizes call key → Final state.world key := by
    intro call inSegment key finalizes
    exact holds.statuses.settled _ (mem_localTrace.mp (inTrace call inSegment)) key finalizes
  have final : Final state.world (recordKey app tx addresses) := by
    cases evidence with
    | settled call inSegment finalizes => exact settled call inSegment _ finalizes
    | saved loaded doc found sameKey inSegment =>
        have kept := settled _ inSegment _ (.saved doc)
        rwa [sameKey, ownKey loaded found] at kept
    | skipped loaded found token =>
        have type := congrArg TransactionKey.type (ownKey loaded found)
        change loaded.val.type = getTxTypeByData app tx at type
        rw [token, plain] at type
        cases type
    | uninvolved inSegment =>
        obtain ⟨world, same⟩ := answers _ (inTrace _ inSegment)
        simp only [answer, Except.ok.injEq] at same
        have counts := involved_of_involves involves read
        simp [involved, ← same] at counts
  obtain ⟨record, stored, decided⟩ := final
  refine ⟨addresses, record, read, stored, ?_⟩
  rw [holds.statuses.truthful _ record stored decided]
  simp [shownReceipts, recordKey, received]

theorem raceInvariant_run (reliable : view.rejects = none)
    (truthful : Truthful (shownReceipts view) initial)
    (allowed : (handlers app web3).Along
      (fun state action => Views view state action ∧ InsertsFree thread state action)
      (.idle initial) actions) :
    RaceInvariant view thread ((handlers app web3).run (.idle initial) actions) := by
  refine System.run_induction (fun state action reached holds allowed =>
    raceInvariant_step reliable reached holds allowed) .initial ?_ allowed
  exact ⟨statusInvariant_idle truthful, fun _ member => (nomatch member),
    fun _ _ member => nomatch member⟩

/-- Where no insert of the block handler is overtaken, its ether transfers are
settled, whatever else runs. -/
theorem transfersSettled_of_free (reliable : view.rejects = none)
    (truthful : Truthful (shownReceipts view) initial) {number : Nat}
    (numbered : header.number = some number) (mined : number ≠ 0)
    (known : view.node.getBlock (.hash header.hash) = some blockData)
    (allowed : (handlers app web3).Along
      (fun state action => Views view state action ∧ InsertsFree thread state action)
      (.idle initial) actions)
    (finished : Finished ((handlers app web3).run (.idle initial) actions) thread
      (.newBlockHeaders header)) :
    TransfersSettled app web3 view blockData ((handlers app web3).run (.idle initial) actions).world := by
  have holds := raceInvariant_run reliable truthful allowed
  rcases finished with returned | ⟨_, tx, rejected⟩
  · exact transfersSettled_of_returned reliable (System.reachable_run _ _) holds numbered mined known
      returned
  · exact absurd rejected (holds.unrejected tx _)

/-! ## An overtaken insert -/

/-- Alice pays once more in the same block. -/
def secondPayment : TransactionData := { payment with hash := "0xe5d6" }

def twoPayments : List TransactionData := [payment, secondPayment]

/-- The payment is announced as its block arrives: both handlers find no record,
and the announcement is the first to insert one. -/
def overtaking : List (Action Choice Request) :=
  [.start (.pendingTransaction payment.hash 1520846000), .start (.newBlockHeaders ⟨some 1, "0xb10c"⟩)] ++
    List.replicate 3 (.resume 0 (sampleChoice twoPayments)) ++
    List.replicate 4 (.resume 1 (sampleChoice twoPayments)) ++
    [.resume 0 (sampleChoice twoPayments), .resume 1 (sampleChoice twoPayments)]

/-- The block arrives, and then the announcement. -/
def inTurn : List (Action Choice Request) :=
  [.start (.pendingTransaction payment.hash 1520846000), .start (.newBlockHeaders ⟨some 1, "0xb10c"⟩)] ++
    List.replicate 9 (.resume 1 (sampleChoice twoPayments)) ++
    List.replicate 2 (.resume 0 (sampleChoice twoPayments))

theorem inTurn_settled :
    TransfersSettled sampleApp .sample (sampleChoice twoPayments) (sampleBlock twoPayments)
      ((handlers sampleApp .sample).run (.idle {}) inTurn).world := by
  have views : ∀ action ∈ inTurn, ∀ state, Views (sampleChoice twoPayments) state action := by
    intro action member state
    simp only [inTurn, List.mem_append, List.mem_cons, List.mem_replicate, List.not_mem_nil,
      or_false] at member
    rcases member with ((rfl | rfl) | ⟨_, rfl⟩) | ⟨_, rfl⟩ <;> trivial
  have allowed := (handlers sampleApp .sample).along_and
    ((handlers sampleApp .sample).along_of_all views (.idle {}))
    (by decide +kernel : (handlers sampleApp .sample).Along (InsertsFree 1) (.idle {}) inTurn)
  exact transfersSettled_of_free rfl truthful_empty rfl (by decide) rfl allowed (.inl rfl)

theorem overtaken_unsettled :
    Finished ((handlers sampleApp .sample).run (.idle {}) overtaking) 0
        (.pendingTransaction payment.hash 1520846000) ∧
      Finished ((handlers sampleApp .sample).run (.idle {}) overtaking) 1
        (.newBlockHeaders ⟨some 1, "0xb10c"⟩) ∧
      ¬ TransfersSettled sampleApp .sample (sampleChoice twoPayments) (sampleBlock twoPayments)
        ((handlers sampleApp .sample).run (.idle {}) overtaking).world := by
  refine ⟨.inl rfl, .inr ⟨rfl, ?_⟩, fun settled => ?_⟩
  · exact ⟨minedRecord sampleApp .sample (sampleBlock twoPayments) ⟨.flag true⟩ payment
      ⟨aliceAddress, some bobAddress, none⟩, List.mem_iff_getElem?.mpr ⟨8, rfl⟩⟩
  · obtain ⟨addresses, record, read, stored, status⟩ := settled payment (by decide) (by decide)
      ⟨aliceAddress, by decide, .sender _ rfl, alice, List.mem_singleton.mpr rfl, by decide⟩ _ rfl
    cases read
    cases stored
    cases status

end IcoDashboard.Chain
