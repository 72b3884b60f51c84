import IcoDashboard.Chain.Cursor

namespace IcoDashboard.Chain

open IcoDashboard.Async IcoDashboard.Async.Program IcoDashboard.Data
open TransactionService Web3Handler

/-! # Repeats

Events and blocks are handled again and again.  A second time nothing changes:
what a handling would do to a record it did the first time, or the record has
become final.
-/

variable {app : App} {web3 : Web3} {choice : Choice}

/-! ## Handlings a second time -/

namespace Handling

variable {handling : Handling} {handlings : List Handling} {records : Records}

/-- A handling that knows the outcome leaves the record as it is, or final. -/
theorem change_decided (decided : handling.Decided) (record : Option Transaction) :
    handling.change record = record ∨
      ∃ tx, handling.change record = some tx ∧ tx.status ≠ .pending := by
  cases record with
  | none =>
      cases created : handling.change none with
      | none => exact .inl rfl
      | some tx => exact .inr ⟨tx, rfl, settled_change decided (by simp [Settled]) tx created⟩
  | some tx =>
      cases handling with
      | announced record involved => exact .inl rfl
      | referred record => exact .inl rfl
      | mined record involved =>
          simp only [change, confirm]
          split
          · exact .inl rfl
          · split
            · exact .inr ⟨_, rfl, decided⟩
            · exact .inl rfl
      | transferred record =>
          simp only [change, settle]
          split
          · exact .inr ⟨_, rfl, decided⟩
          · exact .inl rfl

theorem change_twice (decided : handling.Decided) (record : Option Transaction) :
    handling.change (handling.change record) = handling.change record := by
  rcases change_decided decided record with same | ⟨tx, changed, final⟩
  · rw [same, same]
  · rw [changed, change_final final]

/-- What was among the handlings has nothing left to do. -/
theorem applyAll_repeats (decided : ∀ handling ∈ handlings, handling.Decided)
    (member : handling ∈ handlings) :
    handling.apply (applyAll handlings records) = applyAll handlings records := by
  have done : handling.change (applyAll handlings records handling.key) =
      applyAll handlings records handling.key := by
    refine @applyAll_through (fun _ => True) (fun record => handling.change record = record) _ _ _
      member trivial (fun _ _ _ _ _ => trivial)
      (fun record _ => change_twice (decided handling member) record) ?_
    intro other later _ record same
    rcases change_decided (decided other later) record with unchanged | ⟨tx, changed, final⟩
    · rw [unchanged, same]
    · rw [changed, change_final final]
  rw [apply, done, Function.update_eq_self]

end Handling

/-! ## Handlers that change nothing -/

/-- The calls that write a record. -/
def writesRecord : Op → Bool
  | .insertTransaction _ => true
  | .saveTransaction _ => true
  | _ => false

/-- After a write no call is made. -/
def WriteLast (trace : ChainTrace) (_ : Op) : Prop := ∀ call ∈ trace, writesRecord call.1 = false

@[simp] theorem writeLast_nil {op : Op} : WriteLast [] op := fun _ member => nomatch member

@[simp] theorem writeLast_cons {call : Call Op Ans Exception} {trace : ChainTrace} {op : Op} :
    WriteLast (call :: trace) op ↔ writesRecord call.1 = false ∧ WriteLast trace op := by
  simp [WriteLast]

theorem perform_unwritten {op : Op} (reads : writesRecord op = false) (world : World) :
    (perform choice op world).2.transactions = world.transactions := by
  unfold perform
  split
  · rfl
  · cases op <;> first | rfl | cases reads

/-- A write that leaves every record leaves every document. -/
theorem perform_unchanged {op : Op} {world : World}
    (same : (perform choice op world).2.records = world.records) :
    (perform choice op world).2.transactions = world.transactions := by
  unfold perform at same ⊢
  cases rejected : choice.rejects with
  | some error => rfl
  | none =>
      rw [rejected] at same
      cases op with
      | insertTransaction tx =>
          simp only [answer] at same ⊢
          split
          · rename_i transactions inserted
            simp only [inserted] at same
            exact absurd same (Indexed.insert_changes inserted)
          · rfl
      | saveTransaction tx =>
          simp only [answer] at same ⊢
          split
          · rename_i transactions saved
            simp only [saved] at same
            exact Indexed.save_unchanged saved same
          · rfl
      | _ => rfl

/-- A handler that writes at most once, and last, leaves the documents where it
leaves the records. -/
theorem unchanged_of_writeLast {handler : Handler Unit} {trace : ChainTrace}
    {onDone : ChainTrace → Unit → Prop} {onFail : ChainTrace → Exception → Prop}
    (met : handler.Meets WriteLast onDone onFail trace)
    {world : World}
    (same : (handler.evaluate (perform choice) world).2.records = world.records) :
    (handler.evaluate (perform choice) world).2.transactions = world.transactions := by
  induction handler generalizing trace world with
  | done value => rfl
  | fail error => rfl
  | await op resume ih =>
      rw [evaluate] at same ⊢
      have next := met.2 (perform choice op world).1
      cases writes : writesRecord op with
      | false =>
          have unwritten : (perform choice op world).2.transactions = world.transactions :=
            perform_unwritten writes world
          rw [← unwritten]
          refine ih _ next ?_
          rw [same]
          exact congrArg Indexed.record unwritten.symm
      | true =>
          cases rest : resume (perform choice op world).1 with
          | done value =>
              rw [rest] at same
              exact perform_unchanged same
          | fail error =>
              rw [rest] at same
              exact perform_unchanged same
          | await later resume' =>
              rw [rest] at next
              have clash := next.1 _ (List.mem_append_right _ (List.mem_singleton.mpr rfl))
              rw [writes] at clash
              cases clash

theorem processTransaction_writeLast {tx : TransactionData} {blockData : BlockData} :
    (processTransaction app web3 blockData tx).Meets WriteLast (fun _ _ => True) Unthrown [] := by
  simp only [processTransaction, request, call, meets_bind, meets_await, meets_done, meets_fail,
    Unthrown, implies_true, and_true]
  refine ⟨writeLast_nil, fun received => ?_⟩
  cases received with
  | none => trivial
  | some receipt =>
      simp only [saveConfirmedTransaction, getTxByTxData, request, call, meets_bind, meets_ofExcept,
        meets_await, meets_done, meets_fail, Unthrown, implies_true, and_true]
      refine fun addresses _ => ⟨by simp [writesRecord], fun found => ?_⟩
      cases found with
      | none =>
          simp [getUserCountByTxData, createAndSaveTransaction, request, call, Unthrown,
            writesRecord]
      | some loaded =>
          simp [getUserCountByTxData, updateTx, request, call, Unthrown, writesRecord]

theorem processTokenTransfer_writeLast {data : TransferEvent} :
    (processTokenTransfer web3 data).Meets WriteLast (fun _ _ => True) Unthrown [] := by
  simp only [processTokenTransfer, request, call, meets_bind, meets_await, meets_done, meets_fail,
    Unthrown, implies_true, and_true]
  refine ⟨writeLast_nil, fun found => ⟨by simp [writesRecord], fun received => ?_⟩⟩
  cases received with
  | none => trivial
  | some receipt =>
      cases found <;> simp [Unthrown, writesRecord]

theorem processReferralTransfer_writeLast {data : ReferralTransferEvent} :
    (processReferralTransfer web3 data).Meets WriteLast (fun _ _ => True) Unthrown [] := by
  simp only [processReferralTransfer, request, call, meets_bind, meets_await, meets_done,
    meets_fail, Unthrown, implies_true, and_true]
  refine ⟨writeLast_nil, fun existing => ?_⟩
  cases existing with
  | some _ => trivial
  | none =>
      simp only [meets_bind, meets_await, meets_done, meets_fail, Unthrown, implies_true, and_true]
      refine ⟨by simp [writesRecord], fun received => ?_⟩
      cases received with
      | none => trivial
      | some receipt => simp [Unthrown, writesRecord]

/-! ## The second time -/

/-- Where its handlings change no record, the handler leaves the store. -/
def Idles (choice : Choice) (handler : Handler Unit) (handlings : List Handling) : Prop :=
  ∀ world after, (∀ handling ∈ handlings, handling.apply world.records = world.records) →
    handler.evaluate (perform choice) world = (.ok (), after) →
    after.transactions = world.transactions

theorem applyAll_idle {handlings : List Handling} {records : Records}
    (idle : ∀ handling ∈ handlings, handling.apply records = records) :
    Handling.applyAll handlings records = records := by
  induction handlings with
  | nil => rfl
  | cons handling rest ih =>
      rw [Handling.applyAll, List.foldl_cons, idle handling List.mem_cons_self]
      exact ih fun other member => idle other (List.mem_cons_of_mem _ member)

theorem idles_of_writeLast {handler : Handler Unit} {handlings : List Handling}
    (performs : Performs choice handler handlings)
    (met : handler.Meets WriteLast (fun _ _ => True) Unthrown []) :
    Idles choice handler handlings := by
  intro world after idle returned
  have left := (performs world after returned).2
  rw [applyAll_idle idle] at left
  have same : (handler.evaluate (perform choice) world).2.records = world.records := by
    rw [returned]
    exact left
  have kept := unchanged_of_writeLast met same
  rw [returned] at kept
  exact kept

theorem Idles.forEach {β : Type} {values : List β} {body : β → Handler Unit}
    {handlings : β → List Handling}
    (idles : ∀ value ∈ values, Idles choice (body value) (handlings value)) :
    Idles choice (Program.forEach values body) (values.flatMap handlings) := by
  induction values with
  | nil =>
      intro world after _ returned
      cases returned
      rfl
  | cons first rest ih =>
      intro world after idle returned
      obtain ⟨_, between, passed, rests⟩ := evaluate_bind_ok returned
      have keptFirst := idles first List.mem_cons_self world between
        (fun handling member => idle handling (by simp [member])) passed
      have sameRecords : between.records = world.records := congrArg Indexed.record keptFirst
      have keptRest := ih (fun value member => idles value (List.mem_cons_of_mem _ member)) between
        after (fun handling member => by
          rw [sameRecords]
          exact idle handling (by
            rw [List.flatMap_cons]
            exact List.mem_append_right _ member)) rests
      exact keptRest.trans keptFirst

theorem processBlock_idles (reliable : choice.rejects = none) (block : BlockId) :
    Idles choice (processBlock app web3 block) (blockHandlings app web3 choice block) := by
  intro world after idle returned
  cases known : choice.node.getBlock block with
  | none =>
      rw [processBlock_without reliable known] at returned
      cases returned
  | some blockData =>
      rw [processBlock_with reliable known] at returned
      simp only [blockHandlings, known] at idle
      exact Idles.forEach (fun tx _ => idles_of_writeLast (processTransaction_performs reliable)
        processTransaction_writeLast) world after idle returned

theorem blockHandlings_decided {block : BlockId} :
    ∀ handling ∈ blockHandlings app web3 choice block, handling.Decided := by
  intro handling member
  unfold blockHandlings at member
  split at member
  · obtain ⟨tx, _, handled⟩ := List.mem_flatMap.mp member
    obtain ⟨receipt, addresses, _, _, rfl⟩ := mem_minedHandlings handled
    exact status_decided receipt
  · cases member

/-! ## The job a second time -/

section Job

variable {world once twice after : World}

theorem checkAndRestoreTransactions_idle (reliable : choice.rejects = none)
    (idle : ∀ handling ∈ restoreHandlings app web3 choice world.lastCheckedBlock,
      handling.apply world.records = world.records)
    (returned : (checkAndRestoreTransactions app web3).evaluate (perform choice) world =
      (.ok (), after)) : after.transactions = world.transactions := by
  obtain ⟨transferred, referred, scanned, first, second, third, rfl⟩ :=
    checkAndRestoreTransactions_parts reliable returned
  have idleFirst : transferred.transactions = world.transactions := by
    refine Idles.forEach (fun data _ => idles_of_writeLast (processTokenTransfer_performs reliable)
      processTokenTransfer_writeLast) world transferred ?_ first
    exact fun handling member => idle handling (List.mem_append_left _ member)
  have idleSecond : referred.transactions = transferred.transactions := by
    refine Idles.forEach (fun data _ => idles_of_writeLast
      (processReferralTransfer_performs reliable) processReferralTransfer_writeLast) transferred
      referred ?_ second
    intro handling member
    rw [World.records, idleFirst]
    exact idle handling (List.mem_append_right _ (List.mem_append_left _ member))
  have idleThird : scanned.transactions = referred.transactions := by
    refine Idles.forEach (fun number _ => processBlock_idles reliable (.number number)) referred
      scanned ?_ third
    intro handling member
    rw [World.records, idleSecond, idleFirst]
    exact idle handling (List.mem_append_right _ (List.mem_append_right _ member))
  exact idleThird.trans (idleSecond.trans idleFirst)

/-- The second run looks at no other blocks. -/
theorem restoreHandlings_again {lastCheckedBlock : Option Nat}
    (fromStart : app.config.startBlock ≤ choice.node.blockNumber)
    (fromLast : ∀ last, lastCheckedBlock = some last → last ≤ choice.node.blockNumber) :
    restoreHandlings app web3 choice (some choice.node.blockNumber) ⊆
      restoreHandlings app web3 choice lastCheckedBlock := by
  have lower : firstBlock app lastCheckedBlock ≤ firstBlock app (some choice.node.blockNumber) := by
    cases lastCheckedBlock with
    | none =>
        simp only [firstBlock, Option.map_none, Option.getD_none, Option.map_some, Option.getD_some,
          Int.ofNat_eq_natCast]
        omega
    | some last =>
        have below := fromLast last rfl
        simp only [firstBlock, Option.map_some, Option.getD_some, Int.ofNat_eq_natCast]
        omega
  intro handling member
  refine mem_restoreHandlings.mpr ((mem_restoreHandlings.mp member).imp_right ?_)
  refine Or.imp_right fun scans => ?_
  obtain ⟨blockData, ⟨number, inRange, known⟩, handled⟩ := scans
  obtain ⟨above, below⟩ := mem_blockRange.mp inRange
  exact ⟨blockData, ⟨number, mem_blockRange.mpr ⟨Int.le_trans lower above, below⟩, known⟩, handled⟩

/-- Blocks, events and the job. -/
def Repeatable : Request → Prop
  | .pendingTransaction _ _ => False
  | _ => True

/-- Handled a second time, none of them changes the store. -/
theorem repeated_unchanged {request : Request} (repeatable : Repeatable request)
    (reliable : choice.rejects = none)
    (high : request = .checkAndRestoreTransactions →
      app.config.startBlock ≤ choice.node.blockNumber ∧
        ∀ last, world.lastCheckedBlock = some last → last ≤ choice.node.blockNumber)
    (first : (handle app web3 request).evaluate (perform choice) world = (.ok (), once))
    (second : (handle app web3 request).evaluate (perform choice) once = (.ok (), twice)) :
    twice.transactions = once.transactions := by
  have again : ∀ handlings, Performs choice (handle app web3 request) handlings →
      Idles choice (handle app web3 request) handlings →
      (∀ handling ∈ handlings, handling.Decided) → twice.transactions = once.transactions := by
    intro handlings performs idles decided
    refine idles once twice (fun handling member => ?_) second
    rw [(performs world once first).2]
    exact Handling.applyAll_repeats decided member
  cases request with
  | pendingTransaction txHash now => exact repeatable.elim
  | newBlockHeaders data =>
      simp only [handle, processNewBlockHeaders] at first second again
      cases numbered : data.number with
      | none =>
          rw [numbered] at second
          cases second
          rfl
      | some number =>
          cases number with
          | zero =>
              rw [numbered] at second
              cases second
              rfl
          | succ number =>
              rw [numbered] at again
              exact again _ (processBlock_performs reliable) (processBlock_idles reliable _)
                blockHandlings_decided
  | tokenTransfer data =>
      refine again _ (processTokenTransfer_performs reliable)
        (idles_of_writeLast (processTokenTransfer_performs reliable) processTokenTransfer_writeLast)
        fun handling handled => ?_
      obtain ⟨receipt, tokenAmount, blockData, _, rfl⟩ := mem_transferHandlings handled
      exact status_decided receipt
  | referralTransfer data =>
      refine again _ (processReferralTransfer_performs reliable)
        (idles_of_writeLast (processReferralTransfer_performs reliable)
          processReferralTransfer_writeLast) fun handling handled => ?_
      obtain ⟨receipt, tokenAmount, blockData, _, rfl⟩ := mem_referralHandlings handled
      exact status_decided receipt
  | checkAndRestoreTransactions =>
      obtain ⟨remembered, left⟩ := checkAndRestoreTransactions_records reliable first
      refine checkAndRestoreTransactions_idle reliable (fun handling member => ?_) second
      rw [remembered] at member
      rw [left]
      exact Handling.applyAll_repeats restoreHandlings_decided
        (restoreHandlings_again (high rfl).1 (high rfl).2 member)

end Job

/-- The job has gone through the chain of the payment some times. -/
def restoredTimes : Nat → World
  | 0 => {}
  | times + 1 => ((checkAndRestoreTransactions sampleApp .sample).evaluate
      (perform (sampleChoice [payment])) (restoredTimes times)).2

theorem payment_restoredTwice :
    (restoredTimes 2).transactions = (restoredTimes 1).transactions := by
  have first : ((handle sampleApp .sample .checkAndRestoreTransactions).evaluate
      (perform (sampleChoice [payment])) (restoredTimes 0)).1 = .ok () := rfl
  have second : ((handle sampleApp .sample .checkAndRestoreTransactions).evaluate
      (perform (sampleChoice [payment])) (restoredTimes 1)).1 = .ok () := rfl
  have repeatable : Repeatable .checkAndRestoreTransactions := trivial
  have high : ∀ last, (restoredTimes 0).lastCheckedBlock = some last → last ≤ 2 := by
    intro last remembered
    cases remembered
  exact repeated_unchanged repeatable rfl (fun _ => ⟨by decide, high⟩) (Prod.ext first rfl)
    (Prod.ext second rfl)

end IcoDashboard.Chain
