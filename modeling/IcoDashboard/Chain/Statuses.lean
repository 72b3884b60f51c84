import IcoDashboard.Chain.Recording

namespace IcoDashboard.Chain

open IcoDashboard.Async IcoDashboard.Async.Program IcoDashboard.Data
open TransactionService Web3Handler

/-! # Statuses

However the handlers overlap, the status of a record that is not pending is that
of the receipt, and stays.  A handler that writes a copy it loaded before
another one settled the record writes the same status again.
-/

variable {app : App} {web3 : Web3} {receipts : String → Receipt}

/-- Once a transaction has a receipt, it is this one. -/
def FixedReceipts (receipts : String → Receipt) (choice : Choice) : Prop :=
  ∀ hash receipt, choice.node.getTransactionReceipt hash = some receipt → receipt = receipts hash

def ReceiptsFixed (receipts : String → Receipt) (_ : ChainState) : Action Choice Request → Prop
  | .start _ => True
  | .resume _ choice => FixedReceipts receipts choice

/-- Every final status is that of the receipt. -/
def Truthful (receipts : String → Receipt) (world : World) : Prop :=
  ∀ key tx, world.records key = some tx → tx.status ≠ .pending →
    tx.status = getTxStatusByReceipt (receipts key.transactionHash)

/-- The record under the key is not pending. -/
def Final (world : World) (key : TransactionKey) : Prop :=
  ∃ tx, world.records key = some tx ∧ tx.status ≠ .pending

/-- Calls after which the record under the key is not pending. -/
inductive Finalizes : Call Op Ans Exception → TransactionKey → Prop where
  | found (key : TransactionKey) (found : Doc Nat Transaction) (final : found.val.status ≠ .pending) :
      Finalizes ⟨.findTransaction key, .ok (some found)⟩ key
  | saved (tx : Doc Nat Transaction) : Finalizes ⟨.saveTransaction tx, .ok ()⟩ tx.val.key
  | inserted (tx : Transaction) (final : tx.status ≠ .pending) :
      Finalizes ⟨.insertTransaction tx, .ok ()⟩ tx.key

structure StatusInvariant (receipts : String → Receipt) (world : World) (log : List ChainEvent) :
    Prop where
  truthful : Truthful receipts world
  answered : ∀ thread hash receipt,
    ⟨thread, ⟨.getTransactionReceipt hash, .ok (some receipt)⟩⟩ ∈ log → receipt = receipts hash
  /-- Loaded copies are those of documents that are still under their key. -/
  loaded : ∀ thread key found, ⟨thread, ⟨.findTransaction key, .ok (some found)⟩⟩ ∈ log →
    found.val.key = key ∧
      ∃ stored, world.transactions.collection.lookup found.id = some stored ∧ stored.key = key
  settled : ∀ event ∈ log, ∀ key, Finalizes event.call key → Final world key

/-! ## What one call does -/

/-- What a call does to the records, in a state with the invariant. -/
inductive RecordStep (receipts : String → Receipt) (world after : World) :
    Call Op Ans Exception → Prop where
  | kept (call : Call Op Ans Exception) (same : after.transactions = world.transactions)
      (noInsert : ∀ tx, call ≠ ⟨.insertTransaction tx, .ok ()⟩)
      (noSave : ∀ tx, call ≠ ⟨.saveTransaction tx, .ok ()⟩) : RecordStep receipts world after call
  | inserted (tx : Transaction) (insertion : world.transactions.insert tx = some after.transactions)
      (status : tx.status ≠ .pending →
        tx.status = getTxStatusByReceipt (receipts tx.transactionHash)) :
      RecordStep receipts world after ⟨.insertTransaction tx, .ok ()⟩
  | saved (tx : Doc Nat Transaction) (stored : Transaction)
      (present : world.transactions.collection.lookup tx.id = some stored)
      (sameKey : tx.val.key = stored.key)
      (status : tx.val.status = getTxStatusByReceipt (receipts tx.val.key.transactionHash))
      (save : world.transactions.save Transaction.write tx = some after.transactions) :
      RecordStep receipts world after ⟨.saveTransaction tx, .ok ()⟩

section Calls

variable {world after : World} {log : List ChainEvent} {thread : Nat} {op : Op}
  {call : Call Op Ans Exception} {cursor : ChainTrace → Nat → Prop} {choice : Choice} {key : TransactionKey}

theorem StatusInvariant.received (holds : StatusInvariant receipts world log) {hash : String}
    {status : TransactionStatus} (received : Received (localTrace thread log) hash status) :
    status = getTxStatusByReceipt (receipts hash) := by
  obtain ⟨receipt, member, rfl⟩ := received
  rw [holds.answered thread hash receipt (mem_localTrace.mp member)]

theorem StatusInvariant.recordStep (holds : StatusInvariant receipts world log)
    (guard : WriteGuard app web3 cursor (localTrace thread log) op) :
    RecordStep receipts world (perform choice op world).2 ⟨op, (perform choice op world).1⟩ := by
  unfold perform
  cases choice.rejects with
  | some error =>
      exact .kept _ rfl (fun _ => rejected_ne_answered) (fun _ => rejected_ne_answered)
  | none =>
      cases op with
      | insertTransaction tx =>
          simp only [answer]
          split
          · rename_i transactions inserted
            refine .inserted tx inserted fun final => ?_
            rcases guard with announces | received
            · exact absurd announces.pending final
            · exact holds.received received
          · exact .kept _ rfl (fun _ => rejected_ne_answered) (fun _ => rejected_ne_answered)
      | saveTransaction tx =>
          simp only [answer]
          split
          · rename_i transactions saved
            obtain ⟨key, found, member, sameId, sameKey, _, received⟩ := guard.loaded
            obtain ⟨foundKey, stored, present, storedKey⟩ :=
              holds.loaded thread key found (mem_localTrace.mp member)
            have ownKey : tx.val.key = key := sameKey.trans foundKey
            refine .saved tx stored (sameId ▸ present) (ownKey.trans storedKey.symm) ?_ saved
            rw [ownKey]
            exact holds.received received
          · exact .kept _ rfl (fun _ => rejected_ne_answered) (fun _ => rejected_ne_answered)
      | _ => exact .kept _ rfl (fun _ same => by cases same) (fun _ same => by cases same)

theorem records_same (same : after.transactions = world.transactions) :
    after.records = world.records :=
  congrArg Indexed.record same

theorem records_inserted {tx : Transaction}
    (insertion : world.transactions.insert tx = some after.transactions) :
    world.records tx.key = none ∧
      ∀ key, after.records key = if key = tx.key then some tx else world.records key :=
  Indexed.record_insert insertion

theorem records_saved {tx : Doc Nat Transaction} {stored : Transaction}
    (present : world.transactions.collection.lookup tx.id = some stored)
    (sameKey : tx.val.key = stored.key)
    (save : world.transactions.save Transaction.write tx = some after.transactions)
    (key : TransactionKey) :
    after.records key =
      if key = stored.key then some tx.val else world.records key := by
  obtain ⟨written, saved, records⟩ :=
    @Indexed.save_keeping _ _ Transaction.key _ world.transactions tx Transaction.write stored present
      sameKey
  rw [save] at saved
  cases saved
  exact records key

/-- A final status is there to stay. -/
theorem RecordStep.final (step : RecordStep receipts world after call)
    (truthful : Truthful receipts world) {tx : Transaction}
    (stored : world.records key = some tx) (final : tx.status ≠ .pending) :
    ∃ later, after.records key = some later ∧ later.status = tx.status := by
  cases step with
  | kept _ same _ _ => exact ⟨tx, by rw [records_same same]; exact stored, rfl⟩
  | inserted inserted insertion status =>
      obtain ⟨free, records⟩ := records_inserted insertion
      have others : key ≠ inserted.key := by
        intro same
        rw [same, free] at stored
        cases stored
      exact ⟨tx, by rw [records, if_neg others]; exact stored, rfl⟩
  | saved saved old present sameKey status save =>
      have records := records_saved present sameKey save key
      by_cases own : key = old.key
      · rw [if_pos own] at records
        refine ⟨_, records, ?_⟩
        rw [status, sameKey, ← own]
        exact (truthful key tx stored final).symm
      · rw [if_neg own] at records
        exact ⟨tx, records.trans stored, rfl⟩

theorem RecordStep.truthful (step : RecordStep receipts world after call)
    (truthful : Truthful receipts world) : Truthful receipts after := by
  intro key tx stored final
  cases step with
  | kept _ same _ _ =>
      rw [records_same same] at stored
      exact truthful key tx stored final
  | inserted inserted insertion status =>
      rcases Indexed.record_of_insert insertion stored with before | ⟨rfl, own⟩
      · exact truthful key tx before final
      · rw [own]
        exact status final
  | saved saved old present sameKey status save =>
      rw [records_saved present sameKey save key] at stored
      split at stored
      · rename_i own
        cases stored
        rw [status, sameKey, ← own]
      · exact truthful key tx stored final

theorem RecordStep.loaded (step : RecordStep receipts world after call) {id : Nat}
    {stored : Transaction} (present : world.transactions.collection.lookup id = some stored) :
    ∃ later, after.transactions.collection.lookup id = some later ∧ later.key = stored.key := by
  cases step with
  | kept _ same _ _ => exact ⟨stored, by rw [same]; exact present, rfl⟩
  | inserted inserted insertion status =>
      exact ⟨stored, Indexed.lookup_insert insertion present, rfl⟩
  | saved saved old presentOld sameKey status save =>
      have lookups := Indexed.lookup_save save id
      by_cases own : id = saved.id
      · rw [if_pos own, present] at lookups
        refine ⟨_, lookups, sameKey.trans ?_⟩
        rw [own, presentOld] at present
        exact congrArg Transaction.key (Option.some.inj present)
      · rw [if_neg own] at lookups
        exact ⟨stored, lookups.trans present, rfl⟩

theorem RecordStep.keepsFinal (step : RecordStep receipts world after call)
    (truthful : Truthful receipts world) (final : Final world key) : Final after key := by
  obtain ⟨tx, stored, decided⟩ := final
  obtain ⟨later, kept, same⟩ := step.final truthful stored decided
  exact ⟨later, kept, same ▸ decided⟩

/-- What a call is answered says what it has left. -/
theorem finalizes_now
    (step : RecordStep receipts world (perform choice op world).2 ⟨op, (perform choice op world).1⟩)
    (finalizes : Finalizes ⟨op, (perform choice op world).1⟩ key) :
    Final (perform choice op world).2 key := by
  generalize given : (⟨op, (perform choice op world).1⟩ : Call Op Ans Exception) = call
    at step finalizes
  cases finalizes with
  | found _ found final =>
      have same := @event_answered _ _ _ (fun op => (perform choice op world).1) 0 0 op
        (.findTransaction key) (.ok (some found))
      obtain ⟨_, rfl, answered⟩ := same.mp (congrArg (Event.mk 0) given.symm)
      have performed := perform_eq_ok answered
      rw [performed] at answered ⊢
      have finds : world.transactions.find key = some found := Except.ok.inj answered
      exact ⟨found.val, congrArg (Option.map Doc.val) finds, final⟩
  | saved tx =>
      cases step with
      | kept _ _ _ noSave => exact absurd rfl (noSave tx)
      | saved _ stored present sameKey status save =>
          have records := records_saved present sameKey save tx.val.key
          rw [if_pos sameKey] at records
          refine ⟨_, records, ?_⟩
          rw [status]
          exact status_decided _
  | inserted tx final =>
      cases step with
      | kept _ _ noInsert _ => exact absurd rfl (noInsert tx)
      | inserted _ insertion status =>
          obtain ⟨_, records⟩ := records_inserted insertion
          exact ⟨tx, by rw [records, if_pos rfl], final⟩

theorem StatusInvariant.step (holds : StatusInvariant receipts world log)
    (guard : WriteGuard app web3 cursor (localTrace thread log) op)
    (fixed : FixedReceipts receipts choice) :
    StatusInvariant receipts (perform choice op world).2
      (log ++ [⟨thread, ⟨op, (perform choice op world).1⟩⟩]) := by
  have recordStep : RecordStep receipts world (perform choice op world).2
      ⟨op, (perform choice op world).1⟩ := holds.recordStep guard
  refine ⟨recordStep.truthful holds.truthful, ?_, ?_, ?_⟩
  · intro other hash receipt member
    rcases mem_performed_ok member with before | ⟨rfl, answered⟩
    · exact holds.answered other hash receipt before
    · exact fixed hash receipt (Except.ok.inj answered)
  · intro other wanted found member
    rcases mem_performed.mp member with before | ⟨_, rfl, answered⟩
    · obtain ⟨foundKey, stored, present, storedKey⟩ := holds.loaded other wanted found before
      obtain ⟨later, presentLater, laterKey⟩ := recordStep.loaded present
      exact ⟨foundKey, later, presentLater, laterKey.trans storedKey⟩
    · have performed := perform_eq_ok answered
      rw [performed] at answered ⊢
      have finds : world.transactions.find wanted = some found := Except.ok.inj answered
      have foundKey : found.val.key = wanted := (Indexed.find_eq_some_iff.mp finds).2
      exact ⟨foundKey, found.val, Indexed.lookup_of_find finds, foundKey⟩
  · intro event member wanted finalizes
    rcases List.mem_append.mp member with before | now
    · exact recordStep.keepsFinal holds.truthful (holds.settled event before wanted finalizes)
    · obtain rfl := List.mem_singleton.mp now
      exact finalizes_now recordStep finalizes

end Calls

/-! ## All interleavings -/

variable {first second : List (Action Choice Request)} {initial : World} {before state : ChainState}

/-- The later records keep the final statuses of the earlier ones. -/
def KeepsStatuses (earlier later : World) : Prop :=
  ∀ key tx, earlier.records key = some tx → tx.status ≠ .pending →
    ∃ tx', later.records key = some tx' ∧ tx'.status = tx.status

theorem KeepsStatuses.trans {earlier middle later : World} (left : KeepsStatuses earlier middle)
    (right : KeepsStatuses middle later) : KeepsStatuses earlier later := by
  intro key tx stored final
  obtain ⟨between, storedBetween, same⟩ := left key tx stored final
  obtain ⟨last, storedLast, same'⟩ := right key between storedBetween (same ▸ final)
  exact ⟨last, storedLast, same'.trans same⟩

theorem statusInvariant_step {action : Action Choice Request}
    (reached : (handlers app web3).Reachable (.idle initial) state)
    (holds : StatusInvariant receipts state.world state.log)
    (fixed : ReceiptsFixed receipts state action) :
    StatusInvariant receipts ((handlers app web3).step state action).world
        ((handlers app web3).step state action).log ∧
      KeepsStatuses state.world ((handlers app web3).step state action).world := by
  rcases (handlers app web3).step_cases state action with same | ⟨request, _, started⟩ |
    ⟨thread, choice, request, op, resume, rfl, awaiting, resumed⟩
  · rw [same]
    exact ⟨holds, fun _ tx stored _ => ⟨tx, stored, rfl⟩⟩
  · rw [started]
    exact ⟨holds, fun _ tx stored _ => ⟨tx, stored, rfl⟩⟩
  · rw [resumed]
    have guard := (reached.guarded handle_meets awaiting).1
    exact ⟨holds.step guard fixed, fun _ _ stored final =>
      (holds.recordStep guard).final holds.truthful stored final⟩

/-- In every interleaving the invariant holds and final statuses are kept. -/
theorem statusInvariant_run (reached : (handlers app web3).Reachable (.idle initial) before)
    (holds : StatusInvariant receipts before.world before.log)
    (fixed : (handlers app web3).Along (ReceiptsFixed receipts) before second) :
    StatusInvariant receipts ((handlers app web3).run before second).world
        ((handlers app web3).run before second).log ∧
      KeepsStatuses before.world ((handlers app web3).run before second).world := by
  let Holds : ChainState → Prop := fun state =>
    StatusInvariant receipts state.world state.log ∧ KeepsStatuses before.world state.world
  have preserved : ∀ state action, (handlers app web3).Reachable (.idle initial) state →
      Holds state → ReceiptsFixed receipts state action →
      Holds ((handlers app web3).step state action) := by
    intro state action reached holds fixed
    obtain ⟨kept, keeps⟩ := statusInvariant_step reached holds.1 fixed
    exact ⟨kept, holds.2.trans keeps⟩
  exact System.run_induction preserved reached ⟨holds, fun _ tx stored _ => ⟨tx, stored, rfl⟩⟩ fixed

theorem statusInvariant_idle (truthful : Truthful receipts initial) :
    StatusInvariant receipts initial [] where
  truthful := truthful
  answered _ _ _ member := nomatch member
  loaded _ _ _ member := nomatch member
  settled _ member := nomatch member

theorem truthful_empty : Truthful receipts {} := fun _ _ stored => nomatch stored

theorem confirmed_iff (receipt : Receipt) :
    getTxStatusByReceipt receipt = .confirmed ↔ receipt.status = .flag true := by
  unfold getTxStatusByReceipt
  split <;> simp [*]

/-- A final status never changes again, and is that of the receipt. -/
theorem statuses_final
    (fixed : (handlers app web3).Along (ReceiptsFixed receipts) (.idle {}) (first ++ second))
    {key : TransactionKey} {tx : Transaction}
    (stored : ((handlers app web3).run (.idle {}) first).world.records key = some tx)
    (final : tx.status ≠ .pending) :
    (∃ later, ((handlers app web3).run (.idle {}) (first ++ second)).world.records key =
        some later ∧ later.status = tx.status) ∧
      (tx.status = .confirmed ↔ (receipts key.transactionHash).status = .flag true) := by
  obtain ⟨fixedFirst, fixedSecond⟩ := (handlers app web3).along_append.mp fixed
  obtain ⟨holds, _⟩ := statusInvariant_run .initial (statusInvariant_idle truthful_empty) fixedFirst
  obtain ⟨_, keeps⟩ := statusInvariant_run (System.reachable_run _ first) holds fixedSecond
  rw [(handlers app web3).run_append]
  refine ⟨keeps key tx stored final, ?_⟩
  rw [holds.truthful key tx stored final]
  exact confirmed_iff _

/-- The handler of the sample block, run alone. -/
def blockActions (transactions : List TransactionData) (count : Nat) :
    List (Action Choice Request) :=
  .start (.newBlockHeaders ⟨some 1, "0xb10c"⟩) ::
    List.replicate count (.resume 0 (sampleChoice transactions))

/-- The payment is announced late. -/
def lateActions : List (Action Choice Request) :=
  .start (.pendingTransaction payment.hash 1520846000) ::
    List.replicate 4 (.resume 1 (sampleChoice [payment]))

theorem payment_final :
    ∃ later, ((handlers sampleApp .sample).run (.idle {})
        (blockActions [payment] 5 ++ lateActions)).world.records
          ⟨"0xe5d5", .ethereumTransfer, aliceAddress, some bobAddress⟩ = some later ∧
      later.status = .confirmed := by
  have fixed : (handlers sampleApp .sample).Along (ReceiptsFixed fun _ => ⟨.flag true⟩) (.idle {})
      (blockActions [payment] 5 ++ lateActions) := by
    refine (handlers sampleApp .sample).along_of_all ?_ _
    intro action member state
    cases action with
    | start request => trivial
    | resume thread choice =>
        intro hash receipt received
        have same : choice = sampleChoice [payment] := by
          simp [blockActions, lateActions] at member
          exact member.elim And.right And.right
        rw [same] at received
        exact (Option.some.inj received).symm
  have stored : ((handlers sampleApp .sample).run (.idle {}) (blockActions [payment] 5)).world.records
      ⟨"0xe5d5", .ethereumTransfer, aliceAddress, some bobAddress⟩ =
      some (minedRecord sampleApp .sample (sampleBlock [payment]) ⟨.flag true⟩ payment
        ⟨aliceAddress, some bobAddress, none⟩) := rfl
  obtain ⟨later, kept, same⟩ := (statuses_final fixed stored (by decide)).1
  exact ⟨later, kept, same⟩

end IcoDashboard.Chain
