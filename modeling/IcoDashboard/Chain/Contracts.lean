import IcoDashboard.Async.Evaluation
import IcoDashboard.Chain.Web3Handler

namespace IcoDashboard.Chain

open IcoDashboard.Async IcoDashboard.Async.Program IcoDashboard.Data
open TransactionService Web3Handler

/-! # Contracts of the chain handlers

What a handler knows when it writes: the receipt that the status is read from,
the copy that it loaded, and, for the block that Redis remembers, every block
that it went through.
-/

variable {app : App} {web3 : Web3}

abbrev ChainTrace : Type := Trace Op Ans Exception

abbrev ChainState : Type := State Op Ans Exception World Request Unit

abbrev ChainEvent : Type := Event Op Ans Exception

/-- The status is that of a receipt of the transaction. -/
def Received (trace : ChainTrace) (hash : String) (status : TransactionStatus) : Prop :=
  ∃ receipt, ⟨.getTransactionReceipt hash, .ok (some receipt)⟩ ∈ trace ∧
    status = getTxStatusByReceipt receipt

/-- The record is pending, of an announced transaction. -/
structure Announces (app : App) (web3 : Web3) (trace : ChainTrace) (tx : Transaction) : Prop where
  pending : tx.status = .pending
  announced : ∃ hash data addresses, ⟨.getTransaction hash, .ok (some data)⟩ ∈ trace ∧
    getFromToTokenAmount app web3 data = .ok addresses ∧ tx.key = recordKey app data addresses

/-- The save settles a copy that was loaded pending. -/
structure Settles (trace : ChainTrace) (tx : Doc Nat Transaction) : Prop where
  loaded : ∃ key found, ⟨.findTransaction key, .ok (some found)⟩ ∈ trace ∧ tx.id = found.id ∧
    tx.val.key = found.val.key ∧ found.val.status = .pending ∧
    Received trace key.transactionHash tx.val.status

/-- The guard of all handlers; `cursor` is what the one that moves the remembered
block knows then. -/
def WriteGuard (app : App) (web3 : Web3) (cursor : ChainTrace → Nat → Prop) (trace : ChainTrace) :
    Op → Prop
  | .insertTransaction tx =>
      Announces app web3 trace tx ∨ Received trace tx.transactionHash tx.status
  | .saveTransaction tx => Settles trace tx
  | .setLastCheckedBlock block => cursor trace block
  | _ => True

def Unthrown (_ : ChainTrace) (_ : Exception) : Prop := True

/-- Every receipt decides the status. -/
theorem status_decided (receipt : Receipt) : getTxStatusByReceipt receipt ≠ .pending := by
  unfold getTxStatusByReceipt
  split <;> simp

theorem Received.decided {trace : ChainTrace} {hash : String} {status : TransactionStatus}
    (received : Received trace hash status) : status ≠ .pending := by
  obtain ⟨receipt, _, rfl⟩ := received
  exact status_decided receipt

/-! ## Passing through blocks -/

/-- The receipt of the transaction was asked for, and where there was one, the
transaction was passed to `saveConfirmedTransaction`, which returned. -/
def Passed (app : App) (web3 : Web3) (blockData : BlockData) (tx : TransactionData)
    (trace : ChainTrace) : Prop :=
  ∃ before found segment after,
    trace = before ++ ⟨.getTransactionReceipt tx.hash, .ok found⟩ :: segment ++ after ∧
    ∀ receipt, found = some receipt →
      (saveConfirmedTransaction app web3 tx blockData receipt).Follows segment (.done ())

/-- The block was fetched, and then all its transactions were passed. -/
def Fetched (app : App) (web3 : Web3) (block : BlockId) (trace : ChainTrace) : Prop :=
  ∃ blockData before after, trace = before ++ ⟨.getBlock block, .ok (some blockData)⟩ :: after ∧
    ∀ tx ∈ blockData.transactions, Passed app web3 blockData tx after

theorem Passed.extended {blockData : BlockData} {tx : TransactionData} {trace later : ChainTrace}
    (passed : Passed app web3 blockData tx trace) (extended : trace <+: later) :
    Passed app web3 blockData tx later := by
  obtain ⟨before, found, segment, after, split, follows⟩ := passed
  obtain ⟨added, rfl⟩ := extended
  exact ⟨before, found, segment, after ++ added, by simp [split], follows⟩

theorem Fetched.extended {block : BlockId} {trace later : ChainTrace}
    (fetched : Fetched app web3 block trace) (extended : trace <+: later) :
    Fetched app web3 block later := by
  obtain ⟨blockData, before, after, split, passed⟩ := fetched
  obtain ⟨added, rfl⟩ := extended
  exact ⟨blockData, before, after ++ added, by simp [split], fun tx member =>
    (passed tx member).extended (List.prefix_append _ _)⟩

/-- All blocks that were to be looked at again have been. -/
def RangeFetched (app : App) (web3 : Web3) (trace : ChainTrace) (current : Nat) : Prop :=
  ∃ last, ⟨.getLastCheckedBlock, .ok last⟩ ∈ trace ∧
    ∀ number ∈ blockRange (firstBlock app last) current,
      Fetched app web3 (.number number) trace

/-- The others never move the remembered block. -/
def Unmoved (_ : ChainTrace) (_ : Nat) : Prop := False

/-! ## Contracts -/

section Contracts

variable {cursor : ChainTrace → Nat → Prop} {trace : ChainTrace} {tx : TransactionData}

theorem getTxByTxData_meets {onDone : ChainTrace → Option (Doc Nat Transaction) → Prop} :
    (getTxByTxData app web3 tx).Meets (WriteGuard app web3 cursor) onDone Unthrown trace ↔
      ∀ addresses, getFromToTokenAmount app web3 tx = .ok addresses →
        ∀ found, onDone (trace ++ [⟨.findTransaction (recordKey app tx addresses), .ok found⟩])
          found := by
  simp [getTxByTxData, request, call, WriteGuard, Unthrown]

theorem getUserCountByTxData_meets {onDone : ChainTrace → Nat → Prop} :
    (getUserCountByTxData app web3 tx).Meets (WriteGuard app web3 cursor) onDone Unthrown trace ↔
      ∀ addresses, getFromToTokenAmount app web3 tx = .ok addresses →
        ∀ count, onDone (trace ++ [⟨.countInvestors (investorAddresses addresses), .ok count⟩])
          count := by
  simp [getUserCountByTxData, request, call, WriteGuard, Unthrown]

theorem createAndSaveTransaction_meets {status : TransactionStatus} {blockData : Option BlockData}
    {now : Nat} (known : (status = .pending ∧ ∃ hash, ⟨.getTransaction hash, .ok (some tx)⟩ ∈ trace) ∨
      Received trace tx.hash status) :
    (createAndSaveTransaction app web3 tx status blockData now).Meets
      (WriteGuard app web3 cursor) (fun _ _ => True) Unthrown trace := by
  simp only [createAndSaveTransaction, request, call, meets_bind, meets_ofExcept, meets_await,
    meets_done, meets_fail, Unthrown, implies_true, and_true]
  intro addresses read ethAmount _
  rcases known with ⟨pending, hash, member⟩ | received
  · exact .inl ⟨pending, hash, tx, addresses, member, read, rfl⟩
  · exact .inr received

theorem saveConfirmedTransaction_meets {blockData : BlockData} {receipt : Receipt}
    (received : ⟨.getTransactionReceipt tx.hash, .ok (some receipt)⟩ ∈ trace) :
    (saveConfirmedTransaction app web3 tx blockData receipt).Meets (WriteGuard app web3 cursor)
      (fun _ _ => True) Unthrown trace := by
  simp only [saveConfirmedTransaction, meets_bind, getTxByTxData_meets]
  intro addresses _ found
  cases found with
  | none =>
      simp only [meets_bind, getUserCountByTxData_meets, meets_ite, meets_pure]
      exact fun _ _ _ => ⟨fun _ => createAndSaveTransaction_meets
        (.inr ⟨receipt, by simp [received], rfl⟩), fun _ => trivial⟩
  | some loaded =>
      simp only [meets_bind, getUserCountByTxData_meets, meets_ite, meets_pure, updateTx, request,
        call, meets_await, meets_done, meets_fail, WriteGuard]
      refine ⟨fun _ => trivial, fun unsettled _ _ _ => ⟨fun _ => ⟨?_, fun _ => trivial,
        fun _ => trivial⟩, fun _ => trivial⟩⟩
      have pending : loaded.val.status = .pending := by
        by_contra final
        exact unsettled (.inr final)
      exact ⟨recordKey app tx addresses, loaded, by simp, rfl, rfl, pending, receipt,
        by simp [recordKey, received], rfl⟩

theorem processTransaction_meets (blockData : BlockData) (trace : ChainTrace) :
    (processTransaction app web3 blockData tx).Meets (WriteGuard app web3 cursor)
      (fun last _ => ∃ added, last = trace ++ added ∧ Passed app web3 blockData tx added)
      Unthrown trace := by
  simp only [processTransaction, request, call, meets_bind, meets_await, meets_done, meets_fail,
    Unthrown, implies_true, and_true]
  refine ⟨trivial, fun found => ?_⟩
  cases found with
  | none =>
      exact ⟨[⟨.getTransactionReceipt tx.hash, .ok none⟩], rfl, [], none, [], [], rfl,
        fun receipt same => by cases same⟩
  | some receipt =>
      have met := @saveConfirmedTransaction_meets app web3 cursor
        (trace ++ [⟨.getTransactionReceipt tx.hash, .ok (some receipt)⟩]) tx blockData receipt
        (by simp)
      refine met.followed.mono (fun _ _ guarded => guarded) ?_ (fun _ _ _ => trivial)
      intro last _ ended
      obtain ⟨⟨segment, split, follows⟩, _⟩ := ended
      refine ⟨⟨.getTransactionReceipt tx.hash, .ok (some receipt)⟩ :: segment, by simp [split],
        [], some receipt, segment, [], by simp, ?_⟩
      intro receipt' same
      cases same
      exact follows

theorem processBlock_meets (block : BlockId) (trace : ChainTrace) :
    (processBlock app web3 block).Meets (WriteGuard app web3 cursor)
      (fun last _ => Fetched app web3 block last) Unthrown trace := by
  simp only [processBlock, request, call, meets_bind, meets_await, meets_done, meets_fail,
    meets_orThrow, Unthrown, implies_true, and_true]
  refine ⟨trivial, fun found blockData known => ?_⟩
  subst known
  let start := trace ++ [⟨.getBlock block, .ok (some blockData)⟩]
  have loops : (forEach blockData.transactions (processTransaction app web3 blockData)).Meets
      (WriteGuard app web3 cursor)
      (fun last _ => ∀ tx ∈ blockData.transactions, ∃ added, last = start ++ added ∧
        Passed app web3 blockData tx added) Unthrown start := by
    refine Meets.forEachDone ?_ ?_
    · intro tx earlier later extended passed
      obtain ⟨added, rfl, passed⟩ := passed
      obtain ⟨rest, rfl⟩ := extended
      exact ⟨added ++ rest, by simp, passed.extended (List.prefix_append _ _)⟩
    · intro tx _ later extended
      obtain ⟨before, rfl⟩ := extended
      refine (processTransaction_meets blockData _).mono (fun _ _ guarded => guarded) ?_
        (fun _ _ _ => trivial)
      intro last _ ended
      obtain ⟨added, rfl, front, found, segment, after, split, follows⟩ := ended
      exact ⟨before ++ added, by simp, before ++ front, found, segment, after, by simp [split],
        follows⟩
  refine loops.extending.mono (fun _ _ guarded => guarded) ?_ (fun _ _ _ => trivial)
  intro last _ ended
  obtain ⟨⟨after, rfl⟩, passed⟩ := ended
  refine ⟨blockData, trace, after, by simp [start], fun tx member => ?_⟩
  obtain ⟨added, same, passedTx⟩ := passed tx member
  rwa [List.append_cancel_left same]

theorem processPendingTransaction_meets (txHash : String) (now : Nat) :
    (processPendingTransaction app web3 txHash now).Meets (WriteGuard app web3 cursor)
      (fun _ _ => True) Unthrown trace := by
  simp only [processPendingTransaction, request, call, meets_bind, meets_await, meets_done,
    meets_fail, Unthrown, implies_true, and_true]
  refine ⟨trivial, fun data => ?_⟩
  cases data with
  | none => trivial
  | some tx =>
      simp only [meets_bind, getTxByTxData_meets]
      intro addresses _ found
      cases found with
      | some loaded => trivial
      | none =>
          simp only [meets_bind, getUserCountByTxData_meets, meets_ite, meets_pure]
          exact fun _ _ _ => ⟨fun _ => createAndSaveTransaction_meets
            (.inl ⟨rfl, txHash, by simp⟩), fun _ => trivial⟩

theorem processTokenTransfer_meets (data : TransferEvent) (trace : ChainTrace) :
    (processTokenTransfer web3 data).Meets (WriteGuard app web3 cursor) (fun _ _ => True) Unthrown
      trace := by
  simp only [processTokenTransfer, request, call, meets_bind, meets_await, meets_done, meets_fail,
    Unthrown, implies_true, and_true]
  refine ⟨trivial, fun found => ⟨trivial, fun received => ?_⟩⟩
  cases received with
  | none => trivial
  | some receipt =>
      simp only [meets_bind, meets_await, meets_done, meets_fail, meets_ofExcept, meets_orThrow,
        Unthrown, implies_true, and_true]
      refine ⟨trivial, fun _ _ _ blockData _ => ?_⟩
      cases found with
      | none =>
          simp only [meets_await, meets_done, meets_fail, Unthrown, implies_true, and_true]
          exact .inr ⟨receipt, by simp [transferRecord], rfl⟩
      | some loaded =>
          simp only [meets_ite, meets_await, meets_done, meets_fail, meets_pure, Unthrown,
            implies_true, and_true]
          exact fun pending => ⟨transferKey data, loaded, by simp, rfl, rfl, pending, receipt,
            by simp [transferKey], rfl⟩

theorem processReferralTransfer_meets (data : ReferralTransferEvent) (trace : ChainTrace) :
    (processReferralTransfer web3 data).Meets (WriteGuard app web3 cursor) (fun _ _ => True)
      Unthrown trace := by
  simp only [processReferralTransfer, request, call, meets_bind, meets_await, meets_done,
    meets_fail, Unthrown, implies_true, and_true]
  refine ⟨trivial, fun existing => ?_⟩
  cases existing with
  | some _ => trivial
  | none =>
      simp only [meets_bind, meets_await, meets_done, meets_fail, Unthrown, implies_true, and_true]
      refine ⟨trivial, fun received => ?_⟩
      cases received with
      | none => trivial
      | some receipt =>
          simp only [meets_bind, meets_await, meets_done, meets_fail, meets_ofExcept, meets_orThrow,
            Unthrown, implies_true, and_true]
          exact ⟨trivial, fun _ _ _ blockData _ => .inr ⟨receipt, by simp [referralRecord], rfl⟩⟩

theorem checkAndRestoreTransactions_meets :
    (checkAndRestoreTransactions app web3).Meets (WriteGuard app web3 (RangeFetched app web3))
      (fun _ _ => True) Unthrown trace := by
  simp only [checkAndRestoreTransactions, request, call, meets_bind, meets_await, meets_done,
    meets_fail, Unthrown, implies_true, and_true]
  refine ⟨trivial, fun transfers => ?_⟩
  refine (Meets.forEach fun data _ => processTokenTransfer_meets data).after fun _ _ _ => ?_
  refine ⟨trivial, fun referrals => ?_⟩
  refine (Meets.forEach fun data _ => processReferralTransfer_meets data).after fun _ _ _ => ?_
  refine ⟨trivial, fun current => ⟨trivial, fun last => ?_⟩⟩
  let range := blockRange (firstBlock app last) current
  have loops : ∀ start, (forEach range fun number => processBlock app web3 (.number number)).Meets
      (WriteGuard app web3 (RangeFetched app web3))
      (fun later _ => ∀ number ∈ range, Fetched app web3 (.number number) later) Unthrown start :=
    fun start => Meets.forEachDone (fun number _ _ extended fetched => fetched.extended extended)
      (fun number _ later _ => processBlock_meets (.number number) later)
  refine (loops _).extending.mono (fun _ _ guarded => guarded) ?_ (fun _ _ _ => trivial)
  intro later _ ended
  exact ⟨last, ended.1.subset (by simp), ended.2⟩

theorem processNewBlockHeaders_meets (data : BlockHeader) :
    (processNewBlockHeaders app web3 data).Meets (WriteGuard app web3 cursor)
      (fun last _ => ∀ number, data.number = some number → number ≠ 0 →
        Fetched app web3 (.hash data.hash) last) Unthrown trace := by
  unfold processNewBlockHeaders
  split
  · rename_i unmined
    exact fun number mined => by rw [unmined] at mined; cases mined
  · rename_i zero
    exact fun number mined positive => by
      rw [zero] at mined
      cases mined
      exact absurd rfl positive
  · exact (processBlock_meets _ trace).mono (fun _ _ guarded => guarded)
      (fun _ _ fetched _ _ _ => fetched) (fun _ _ _ => trivial)

/-- Only the job moves the remembered block. -/
def cursorOf (app : App) (web3 : Web3) : Request → ChainTrace → Nat → Prop
  | .checkAndRestoreTransactions => RangeFetched app web3
  | _ => Unmoved

/-- A handler of a block that has returned has gone through it. -/
def returnedOf (app : App) (web3 : Web3) : Request → ChainTrace → Unit → Prop
  | .newBlockHeaders data => fun last _ => ∀ number, data.number = some number → number ≠ 0 →
      Fetched app web3 (.hash data.hash) last
  | _ => fun _ _ => True

theorem handle_meets (request : Request) :
    (handle app web3 request).Meets (WriteGuard app web3 (cursorOf app web3 request))
      (returnedOf app web3 request) Unthrown [] := by
  cases request with
  | newBlockHeaders data => exact processNewBlockHeaders_meets data
  | pendingTransaction txHash now => exact processPendingTransaction_meets txHash now
  | tokenTransfer data => exact processTokenTransfer_meets data []
  | referralTransfer data => exact processReferralTransfer_meets data []
  | checkAndRestoreTransactions => exact checkAndRestoreTransactions_meets

theorem perform_eq_ok {choice : Choice} {world : World} {op : Op} {value : Ans op}
    (answered : (perform choice op world).1 = .ok value) :
    perform choice op world = answer choice world op := by
  unfold perform at answered ⊢
  cases rejected : choice.rejects with
  | none => rfl
  | some error =>
      rw [rejected] at answered
      cases answered

theorem mem_performed {choice : Choice} {world : World} {log : List ChainEvent}
    {thread other : Nat} {op op' : Op} {result : Except Exception (Ans op')} :
    ⟨other, ⟨op', result⟩⟩ ∈ log ++ [⟨thread, ⟨op, (perform choice op world).1⟩⟩] ↔
      ⟨other, ⟨op', result⟩⟩ ∈ log ∨
        other = thread ∧ op = op' ∧ (perform choice op' world).1 = result :=
  @mem_answered _ _ _ (fun op => (perform choice op world).1) _ _ _ _ _ _

/-- A value in the log was there before, or the world answers it now. -/
theorem mem_performed_ok {choice : Choice} {world : World} {log : List ChainEvent}
    {thread other : Nat} {op op' : Op} {value : Ans op'}
    (member : ⟨other, ⟨op', .ok value⟩⟩ ∈ log ++ [⟨thread, ⟨op, (perform choice op world).1⟩⟩]) :
    ⟨other, ⟨op', .ok value⟩⟩ ∈ log ∨ op = op' ∧ (answer choice world op').1 = .ok value := by
  rcases mem_performed.mp member with before | ⟨_, same, answered⟩
  · exact .inl before
  · rw [perform_eq_ok answered] at answered
    exact .inr ⟨same, answered⟩

/-- A call that is not to move the remembered block leaves it. -/
theorem perform_unmoved {trace : ChainTrace} {op : Op} (choice : Choice) (world : World)
    (guard : WriteGuard app web3 Unmoved trace op) :
    (perform choice op world).2.lastCheckedBlock = world.lastCheckedBlock := by
  unfold perform
  split
  · rfl
  · cases op with
    | setLastCheckedBlock block => exact guard.elim
    | insertTransaction tx => simp only [answer]; split <;> rfl
    | saveTransaction tx => simp only [answer]; split <;> rfl
    | _ => rfl

theorem handle_unmoved {request : Request} (choice : Choice) (world : World)
    (others : cursorOf app web3 request = Unmoved) :
    ((handle app web3 request).evaluate (perform choice) world).2.lastCheckedBlock =
      world.lastCheckedBlock := by
  have met := @handle_meets app web3 request
  rw [others] at met
  exact met.evaluate_keeps World.lastCheckedBlock
    (fun _ _ world guard => perform_unmoved choice world guard) world

end Contracts
end IcoDashboard.Chain
