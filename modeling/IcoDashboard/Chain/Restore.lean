import IcoDashboard.Chain.Handlings

namespace IcoDashboard.Chain

open IcoDashboard.Async IcoDashboard.Async.Program IcoDashboard.Data
open TransactionService Web3Handler

/-! # Handlings of the event handlers and of the job

With the blocks these make up everything that is done to the records.
-/

variable {app : App} {web3 : Web3} {choice : Choice} {world : World}

/-! ## Transfer events -/

section Transfers

variable {data : TransferEvent} {receipt : Receipt} {tokenAmount : String} {blockData : BlockData}

def transferHandlings (web3 : Web3) (choice : Choice) (data : TransferEvent) : List Handling :=
  match choice.node.getTransactionReceipt data.transactionHash,
      web3.fromWei data.returnValues.value, choice.node.getBlock (.number data.blockNumber) with
  | some receipt, .ok tokenAmount, some blockData =>
      [.transferred (transferRecord data tokenAmount (getTxStatusByReceipt receipt) blockData)]
  | _, _, _ => []

theorem processTokenTransfer_leaves (reliable : choice.rejects = none)
    (received : choice.node.getTransactionReceipt data.transactionHash = some receipt)
    (amount : web3.fromWei data.returnValues.value = .ok tokenAmount)
    (known : choice.node.getBlock (.number data.blockNumber) = some blockData) :
    Leaves choice (processTokenTransfer web3 data) world
      ((Handling.transferred (transferRecord data tokenAmount (getTxStatusByReceipt receipt)
        blockData)).apply world.records) True := by
  unfold Handling.apply
  change Leaves _ _ _ (Function.update _ (transferKey data)
    (Handling.change _ (world.records (transferKey data)))) _
  cases found : world.transactions.find (transferKey data) with
  | none =>
      have free : world.records (transferKey data) = none := records_of_find found
      rw [free]
      refine (insert_leaves reliable free rfl).congr ?_
      simp [processTokenTransfer, request, perform_answer reliable, answer, found, received, known,
        amount]
  | some loaded =>
      have stored : world.records (transferKey data) = some loaded.val := records_of_find found
      rw [stored, Handling.change]
      by_cases pending : loaded.val.status = .pending
      · have settled : Handling.settle (transferRecord data tokenAmount
            (getTxStatusByReceipt receipt) blockData) loaded.val =
            { loaded.val with status := getTxStatusByReceipt receipt } := by
          rw [Handling.settle, if_pos pending]
          rfl
        rw [settled]
        have sameKey : ({ loaded.val with status := getTxStatusByReceipt receipt } :
            Transaction).key = transferKey data := (Indexed.find_eq_some_iff.mp found).2
        refine (save_leaves reliable found sameKey).congr ?_
        simp [processTokenTransfer, request, perform_answer reliable, answer, found, received, known,
          amount, pending, Doc.modify]
      · have unchanged : Handling.settle (transferRecord data tokenAmount
            (getTxStatusByReceipt receipt) blockData) loaded.val = loaded.val := if_neg pending
        rw [unchanged, ← stored, Function.update_eq_self]
        refine leaves_return.congr ?_
        simp [processTokenTransfer, request, perform_answer reliable, answer, found, received, known,
          amount, pending]

theorem processTokenTransfer_without (reliable : choice.rejects = none)
    (unreceived : choice.node.getTransactionReceipt data.transactionHash = none) (world : World) :
    (processTokenTransfer web3 data).evaluate (perform choice) world = (.ok (), world) := by
  simp [processTokenTransfer, request, perform_answer reliable, answer, unreceived]

theorem processTokenTransfer_performs (reliable : choice.rejects = none) :
    Performs choice (processTokenTransfer web3 data) (transferHandlings web3 choice data) := by
  unfold transferHandlings
  cases received : choice.node.getTransactionReceipt data.transactionHash with
  | none =>
      intro world after returned
      rw [processTokenTransfer_without reliable received] at returned
      cases returned
      exact ⟨rfl, rfl⟩
  | some receipt =>
      cases amount : web3.fromWei data.returnValues.value with
      | error error =>
          have throws : ∀ world, (processTokenTransfer web3 data).evaluate (perform choice) world =
              (.error error, world) := by
            intro world
            simp [processTokenTransfer, request, perform_answer reliable, answer, received, amount]
          exact performs_throw throws
      | ok tokenAmount =>
          cases known : choice.node.getBlock (.number data.blockNumber) with
          | none =>
              have throws : ∀ world, (processTokenTransfer web3 data).evaluate (perform choice)
                  world = (.error typeError, world) := by
                intro world
                simp [processTokenTransfer, request, perform_answer reliable, answer, received,
                  amount, known]
              exact performs_throw throws
          | some blockData =>
              exact performs_of_leaves fun world =>
                processTokenTransfer_leaves reliable received amount known

theorem processTokenTransfer_reads (reliable : choice.rejects = none)
    (received : choice.node.getTransactionReceipt data.transactionHash = some receipt)
    (returned : ((processTokenTransfer web3 data).evaluate (perform choice) world).1 = .ok ()) :
    ∃ tokenAmount blockData, transferHandlings web3 choice data =
      [.transferred (transferRecord data tokenAmount (getTxStatusByReceipt receipt) blockData)] := by
  cases amount : web3.fromWei data.returnValues.value with
  | error error =>
      simp [processTokenTransfer, request, perform_answer reliable, answer, received, amount]
        at returned
  | ok tokenAmount =>
      cases known : choice.node.getBlock (.number data.blockNumber) with
      | none =>
          simp [processTokenTransfer, request, perform_answer reliable, answer, received, amount,
            known] at returned
      | some blockData => exact ⟨tokenAmount, blockData, by simp [transferHandlings, *]⟩

theorem mem_transferHandlings {handling : Handling}
    (handled : handling ∈ transferHandlings web3 choice data) :
    ∃ receipt tokenAmount blockData,
      choice.node.getTransactionReceipt data.transactionHash = some receipt ∧
      handling = .transferred
        (transferRecord data tokenAmount (getTxStatusByReceipt receipt) blockData) := by
  unfold transferHandlings at handled
  split at handled
  · rename_i receipt tokenAmount blockData received _ _
    exact ⟨receipt, tokenAmount, blockData, received, List.mem_singleton.mp handled⟩
  · cases handled

theorem processTokenTransfer_returns (reliable : choice.rejects = none)
    (readable : choice.node.getTransactionReceipt data.transactionHash ≠ none →
      (∃ tokenAmount, web3.fromWei data.returnValues.value = .ok tokenAmount) ∧
        ∃ blockData, choice.node.getBlock (.number data.blockNumber) = some blockData) :
    Returns choice (processTokenTransfer web3 data) := by
  cases received : choice.node.getTransactionReceipt data.transactionHash with
  | none =>
      intro world
      rw [processTokenTransfer_without reliable received]
  | some receipt =>
      obtain ⟨⟨tokenAmount, amount⟩, blockData, known⟩ := readable (by simp [received])
      exact returns_of_leaves trivial fun world =>
        processTokenTransfer_leaves reliable received amount known

end Transfers

/-! ## Referral transfer events -/

section Referrals

variable {data : ReferralTransferEvent}

def referralHandlings (web3 : Web3) (choice : Choice) (data : ReferralTransferEvent) :
    List Handling :=
  match choice.node.getTransactionReceipt data.transactionHash,
      web3.fromWei data.returnValues.tokenAmount,
      choice.node.getBlock (.number data.blockNumber) with
  | some receipt, .ok tokenAmount, some blockData =>
      [.referred (referralRecord data tokenAmount (getTxStatusByReceipt receipt) blockData)]
  | _, _, _ => []

theorem mem_referralHandlings {handling : Handling}
    (handled : handling ∈ referralHandlings web3 choice data) :
    ∃ receipt tokenAmount blockData,
      choice.node.getTransactionReceipt data.transactionHash = some receipt ∧
      handling = .referred
        (referralRecord data tokenAmount (getTxStatusByReceipt receipt) blockData) := by
  unfold referralHandlings at handled
  split at handled
  · rename_i receipt tokenAmount blockData received _ _
    exact ⟨receipt, tokenAmount, blockData, received, List.mem_singleton.mp handled⟩
  · cases handled

theorem processReferralTransfer_existing (reliable : choice.rejects = none)
    {existing : Doc Nat Transaction}
    (found : world.transactions.find (referralKey data) = some existing) :
    (processReferralTransfer web3 data).evaluate (perform choice) world = (.ok (), world) := by
  simp [processReferralTransfer, request, perform_answer reliable, answer, found]

theorem referred_existing {record : Transaction} {existing : Doc Nat Transaction}
    (found : world.transactions.find record.key = some existing) :
    (Handling.referred record).apply world.records = world.records := by
  have stored : world.records record.key = some existing.val := records_of_find found
  unfold Handling.apply
  change Function.update world.records record.key
    (Handling.change (.referred record) (world.records record.key)) = _
  rw [stored, Handling.change, ← stored, Function.update_eq_self]

theorem processReferralTransfer_leaves (reliable : choice.rejects = none) {receipt : Receipt}
    {tokenAmount : String} {blockData : BlockData}
    (received : choice.node.getTransactionReceipt data.transactionHash = some receipt)
    (amount : web3.fromWei data.returnValues.tokenAmount = .ok tokenAmount)
    (known : choice.node.getBlock (.number data.blockNumber) = some blockData) :
    Leaves choice (processReferralTransfer web3 data) world
      ((Handling.referred (referralRecord data tokenAmount (getTxStatusByReceipt receipt)
        blockData)).apply world.records) True := by
  cases found : world.transactions.find (referralKey data) with
  | some existing =>
      rw [referred_existing found]
      exact leaves_return.congr (processReferralTransfer_existing reliable found)
  | none =>
      unfold Handling.apply
      change Leaves _ _ _ (Function.update _ (referralKey data)
        (Handling.change _ (world.records (referralKey data)))) _
      have free : world.records (referralKey data) = none := records_of_find found
      rw [free]
      refine (insert_leaves reliable free rfl).congr ?_
      simp [processReferralTransfer, request, perform_answer reliable, answer, found, received,
        known, amount]

/-- Where an event cannot be recorded, nothing is. -/
theorem processReferralTransfer_unread (reliable : choice.rejects = none)
    (unread : referralHandlings web3 choice data = []) {after : World}
    (returned : (processReferralTransfer web3 data).evaluate (perform choice) world =
      (.ok (), after)) : after = world := by
  cases found : world.transactions.find (referralKey data) with
  | some existing =>
      rw [processReferralTransfer_existing reliable found] at returned
      cases returned
      rfl
  | none =>
      unfold referralHandlings at unread
      cases received : choice.node.getTransactionReceipt data.transactionHash with
      | none =>
          simp only [processReferralTransfer, request, evaluate_bind, evaluate_call,
            perform_answer reliable, answer, found, received, evaluate_pure] at returned
          cases returned
          rfl
      | some receipt =>
          cases amount : web3.fromWei data.returnValues.tokenAmount with
          | error error =>
              simp [processReferralTransfer, request, perform_answer reliable, answer, found,
                received, amount] at returned
          | ok tokenAmount =>
              cases known : choice.node.getBlock (.number data.blockNumber) with
              | none =>
                  simp [processReferralTransfer, request, perform_answer reliable, answer, found,
                    received, amount, known] at returned
              | some blockData => simp [received, amount, known] at unread

theorem processReferralTransfer_performs (reliable : choice.rejects = none) :
    Performs choice (processReferralTransfer web3 data) (referralHandlings web3 choice data) := by
  cases handlings : referralHandlings web3 choice data with
  | nil =>
      intro world after returned
      rw [processReferralTransfer_unread reliable handlings returned]
      exact ⟨rfl, rfl⟩
  | cons handling rest =>
      unfold referralHandlings at handlings
      split at handlings
      · rename_i receipt tokenAmount blockData received amount known
        cases handlings
        exact performs_of_leaves fun world =>
          processReferralTransfer_leaves reliable received amount known
      · cases handlings

theorem processReferralTransfer_returns (reliable : choice.rejects = none)
    (readable : choice.node.getTransactionReceipt data.transactionHash ≠ none →
      (∃ tokenAmount, web3.fromWei data.returnValues.tokenAmount = .ok tokenAmount) ∧
        ∃ blockData, choice.node.getBlock (.number data.blockNumber) = some blockData) :
    Returns choice (processReferralTransfer web3 data) := by
  cases received : choice.node.getTransactionReceipt data.transactionHash with
  | none =>
      intro world
      cases found : world.transactions.find (referralKey data) with
      | none =>
          simp [processReferralTransfer, request, perform_answer reliable, answer, found, received]
      | some existing => rw [processReferralTransfer_existing reliable found]
  | some receipt =>
      obtain ⟨⟨tokenAmount, amount⟩, blockData, known⟩ := readable (by simp [received])
      exact returns_of_leaves trivial fun world =>
        processReferralTransfer_leaves reliable received amount known

end Referrals

/-! ## Pending transactions and block headers -/

section Pending

variable {txHash : String} {now : Nat} {tx : TransactionData} {addresses : FromToTokenAmount}

/-- The record of a transaction that was announced at a time. -/
def announcedRecord (app : App) (web3 : Web3) (now : Nat) (tx : TransactionData)
    (addresses : FromToTokenAmount) : Transaction :=
  transformedTxData app tx addresses ((web3.fromWei tx.value).toOption.getD "") .pending none now

theorem processPendingTransaction_leaves (reliable : choice.rejects = none)
    (announced : choice.node.getTransaction txHash = some tx)
    (read : getFromToTokenAmount app web3 tx = .ok addresses) :
    Leaves choice (processPendingTransaction app web3 txHash now) world
      ((Handling.announced (announcedRecord app web3 now tx addresses)
        (involved choice addresses)).apply world.records)
      (∃ ethAmount, web3.fromWei tx.value = .ok ethAmount) := by
  unfold Handling.apply
  change Leaves _ _ _ (Function.update _ (recordKey app tx addresses)
    (Handling.change _ (world.records (recordKey app tx addresses)))) _
  cases found : world.transactions.find (recordKey app tx addresses) with
  | some loaded =>
      have stored : world.records (recordKey app tx addresses) = some loaded.val :=
        records_of_find found
      rw [stored, Handling.change, ← stored, Function.update_eq_self]
      refine leaves_return.congr ?_
      simp only [processPendingTransaction, request, evaluate_bind, evaluate_call,
        perform_answer reliable, answer, announced, evaluate_getTxByTxData reliable read, found]
  | none =>
      have free : world.records (recordKey app tx addresses) = none := records_of_find found
      rw [free, Handling.change]
      refine create_leaves reliable read rfl free (fun counts => ?_) (fun ignored => ?_)
      · simp only [processPendingTransaction, request, evaluate_bind, evaluate_call,
          perform_answer reliable, answer, announced, evaluate_getTxByTxData reliable read, found,
          evaluate_getUserCountByTxData reliable read, if_pos counts]
      · simp only [processPendingTransaction, request, evaluate_bind, evaluate_call,
          perform_answer reliable, answer, announced, evaluate_getTxByTxData reliable read, found,
          evaluate_getUserCountByTxData reliable read, if_neg ignored, evaluate_pure]

theorem processNewBlockHeaders_block {header : BlockHeader} {number : Nat} {world : World}
    (numbered : header.number = some number) (mined : number ≠ 0) :
    (processNewBlockHeaders app web3 header).evaluate (perform choice) world =
      (processBlock app web3 (.hash header.hash)).evaluate (perform choice) world := by
  unfold processNewBlockHeaders
  rw [numbered]
  cases number with
  | zero => exact absurd rfl mined
  | succ number => rfl

end Pending

/-! ## The job -/

section Job

/-- All that one run of the job does, from what Redis remembers. -/
def restoreHandlings (app : App) (web3 : Web3) (choice : Choice) (lastCheckedBlock : Option Nat) :
    List Handling :=
  choice.node.transfers.flatMap (transferHandlings web3 choice) ++
    (choice.node.referralTransfers.flatMap (referralHandlings web3 choice) ++
      (blockRange (firstBlock app lastCheckedBlock) choice.node.blockNumber).flatMap fun number =>
        blockHandlings app web3 choice (.number number))

/-- A run that returns was answered. -/
theorem reliable_of_returned {after : World}
    (returned : (checkAndRestoreTransactions app web3).evaluate (perform choice) world =
      (.ok (), after)) : choice.rejects = none := by
  obtain ⟨_, _, first, _⟩ := evaluate_bind_ok returned
  rw [request, evaluate_call] at first
  cases rejected : choice.rejects with
  | none => rfl
  | some error => simp [perform, rejected] at first

/-- A run that returns, with what each part of it leaves.  The events leave the
remembered block to the loop. -/
theorem checkAndRestoreTransactions_parts (reliable : choice.rejects = none) {after : World}
    (returned : (checkAndRestoreTransactions app web3).evaluate (perform choice) world =
      (.ok (), after)) :
    ∃ transferred referred scanned,
      (forEach choice.node.transfers (processTokenTransfer web3)).evaluate (perform choice) world =
        (.ok (), transferred) ∧
      (forEach choice.node.referralTransfers (processReferralTransfer web3)).evaluate
        (perform choice) transferred = (.ok (), referred) ∧
      (forEach (blockRange (firstBlock app world.lastCheckedBlock) choice.node.blockNumber)
        fun number => processBlock app web3 (.number number)).evaluate (perform choice) referred =
        (.ok (), scanned) ∧
      after = { scanned with lastCheckedBlock := some choice.node.blockNumber } := by
  have answers : ∀ op world, (request op).evaluate (perform choice) world =
      answer choice world op := by
    intro op world
    rw [request, evaluate_call, perform_answer reliable]
  obtain ⟨_, _, transfers, returned⟩ := evaluate_bind_ok returned
  obtain ⟨_, transferred, first, returned⟩ := evaluate_bind_ok returned
  obtain ⟨_, _, referrals, returned⟩ := evaluate_bind_ok returned
  obtain ⟨_, referred, second, returned⟩ := evaluate_bind_ok returned
  obtain ⟨_, _, current, returned⟩ := evaluate_bind_ok returned
  obtain ⟨_, _, last, returned⟩ := evaluate_bind_ok returned
  obtain ⟨_, scanned, third, remembered⟩ := evaluate_bind_ok returned
  rw [answers] at transfers referrals current last remembered
  cases transfers
  cases referrals
  cases current
  cases last
  cases remembered
  have keptFirst := (Performs.forEach (fun data _ => processTokenTransfer_performs reliable) _ _
    first).1
  have keptSecond := (Performs.forEach (fun data _ => processReferralTransfer_performs reliable) _ _
    second).1
  rw [keptSecond, keptFirst] at third
  exact ⟨transferred, referred, scanned, first, second, third, rfl⟩

theorem checkAndRestoreTransactions_records (reliable : choice.rejects = none) {after : World}
    (returned : (checkAndRestoreTransactions app web3).evaluate (perform choice) world =
      (.ok (), after)) :
    after.lastCheckedBlock = some choice.node.blockNumber ∧
      after.records = Handling.applyAll (restoreHandlings app web3 choice world.lastCheckedBlock)
        world.records := by
  obtain ⟨transferred, referred, scanned, first, second, third, rfl⟩ :=
    checkAndRestoreTransactions_parts reliable returned
  obtain ⟨_, recordsFirst⟩ :=
    Performs.forEach (fun data _ => processTokenTransfer_performs reliable) _ _ first
  obtain ⟨_, recordsSecond⟩ :=
    Performs.forEach (fun data _ => processReferralTransfer_performs reliable) _ _ second
  obtain ⟨_, recordsThird⟩ :=
    Performs.forEach (fun number _ => processBlock_performs reliable) _ _ third
  refine ⟨rfl, ?_⟩
  unfold restoreHandlings
  rw [Handling.applyAll_append, Handling.applyAll_append, ← recordsFirst, ← recordsSecond,
    ← recordsThird]
  rfl

/-- The blocks of one run. -/
def Scanned (app : App) (choice : Choice) (lastCheckedBlock : Option Nat) (blockData : BlockData) :
    Prop :=
  ∃ number ∈ blockRange (firstBlock app lastCheckedBlock) choice.node.blockNumber,
    choice.node.getBlock (.number number) = some blockData

/-- A run that returns has read every transaction with a receipt. -/
theorem checkAndRestoreTransactions_reads (reliable : choice.rejects = none) {after : World}
    (returned : (checkAndRestoreTransactions app web3).evaluate (perform choice) world =
      (.ok (), after)) {blockData : BlockData}
    (scanned : Scanned app choice world.lastCheckedBlock blockData) {tx : TransactionData}
    (member : tx ∈ blockData.transactions)
    (received : choice.node.getTransactionReceipt tx.hash ≠ none) :
    ∃ addresses, getFromToTokenAmount app web3 tx = .ok addresses := by
  obtain ⟨number, inRange, known⟩ := scanned
  obtain ⟨_, _, _, _, _, third, rfl⟩ := checkAndRestoreTransactions_parts reliable returned
  obtain ⟨before, passed⟩ := evaluate_forEach_ok (congrArg Prod.fst third) inRange
  obtain ⟨blockData', known', reads⟩ := processBlock_reads reliable passed
  rw [known] at known'
  cases known'
  exact reads tx member received

/-- It has read every Transfer event with a receipt. -/
theorem checkAndRestoreTransactions_transfers (reliable : choice.rejects = none) {after : World}
    (returned : (checkAndRestoreTransactions app web3).evaluate (perform choice) world =
      (.ok (), after)) {data : TransferEvent} (member : data ∈ choice.node.transfers)
    {receipt : Receipt}
    (received : choice.node.getTransactionReceipt data.transactionHash = some receipt) :
    ∃ tokenAmount blockData, transferHandlings web3 choice data =
      [.transferred (transferRecord data tokenAmount (getTxStatusByReceipt receipt) blockData)] := by
  obtain ⟨_, _, _, first, _⟩ := checkAndRestoreTransactions_parts reliable returned
  obtain ⟨before, passed⟩ := evaluate_forEach_ok (congrArg Prod.fst first) member
  exact processTokenTransfer_reads reliable received passed

/-- What the handlings of a run are about. -/
theorem mem_restoreHandlings {lastCheckedBlock : Option Nat} {handling : Handling} :
    handling ∈ restoreHandlings app web3 choice lastCheckedBlock ↔
      (∃ data ∈ choice.node.transfers, handling ∈ transferHandlings web3 choice data) ∨
      (∃ data ∈ choice.node.referralTransfers, handling ∈ referralHandlings web3 choice data) ∨
      ∃ blockData, Scanned app choice lastCheckedBlock blockData ∧
        ∃ tx ∈ blockData.transactions, handling ∈ minedHandlings app web3 choice blockData tx := by
  simp only [restoreHandlings, List.mem_append, List.mem_flatMap]
  refine or_congr Iff.rfl (or_congr Iff.rfl ?_)
  constructor
  · intro handled
    obtain ⟨number, inRange, handled⟩ := handled
    cases known : choice.node.getBlock (.number number) with
    | none => simp [blockHandlings, known] at handled
    | some blockData =>
        simp only [blockHandlings, known, List.mem_flatMap] at handled
        exact ⟨blockData, ⟨number, inRange, known⟩, handled⟩
  · intro handled
    obtain ⟨blockData, ⟨number, inRange, known⟩, handled⟩ := handled
    exact ⟨number, inRange, by simpa only [blockHandlings, known, List.mem_flatMap] using handled⟩

theorem restoreHandlings_decided {lastCheckedBlock : Option Nat} :
    ∀ handling ∈ restoreHandlings app web3 choice lastCheckedBlock, handling.Decided := by
  intro handling member
  rcases mem_restoreHandlings.mp member with ⟨data, _, handled⟩ | ⟨data, _, handled⟩ |
    ⟨blockData, _, tx, _, handled⟩
  · obtain ⟨receipt, tokenAmount, blockData, _, rfl⟩ := mem_transferHandlings handled
    exact status_decided receipt
  · obtain ⟨receipt, tokenAmount, blockData, _, rfl⟩ := mem_referralHandlings handled
    exact status_decided receipt
  · obtain ⟨receipt, addresses, _, _, rfl⟩ := mem_minedHandlings handled
    exact status_decided receipt

/-- What a run needs of the node and of web3 for its events. -/
structure EventsReadable (web3 : Web3) (choice : Choice) : Prop where
  transfers : ∀ data ∈ choice.node.transfers,
    choice.node.getTransactionReceipt data.transactionHash ≠ none →
    (∃ tokenAmount, web3.fromWei data.returnValues.value = .ok tokenAmount) ∧
      ∃ blockData, choice.node.getBlock (.number data.blockNumber) = some blockData
  referrals : ∀ data ∈ choice.node.referralTransfers,
    choice.node.getTransactionReceipt data.transactionHash ≠ none →
    (∃ tokenAmount, web3.fromWei data.returnValues.tokenAmount = .ok tokenAmount) ∧
      ∃ blockData, choice.node.getBlock (.number data.blockNumber) = some blockData

theorem checkAndRestoreTransactions_returns (reliable : choice.rejects = none)
    (events : EventsReadable web3 choice)
    (known : ∀ number ∈ blockRange (firstBlock app world.lastCheckedBlock) choice.node.blockNumber,
      ∃ blockData, choice.node.getBlock (.number number) = some blockData)
    (readable : ∀ blockData, Scanned app choice world.lastCheckedBlock blockData →
      ∀ tx ∈ blockData.transactions, choice.node.getTransactionReceipt tx.hash ≠ none →
      Readable app web3 tx) :
    ((checkAndRestoreTransactions app web3).evaluate (perform choice) world).1 = .ok () := by
  have first : Returns choice (forEach choice.node.transfers (processTokenTransfer web3)) :=
    Returns.forEach fun data member =>
      processTokenTransfer_returns reliable (events.transfers data member)
  have second : Returns choice (forEach choice.node.referralTransfers (processReferralTransfer web3)) :=
    Returns.forEach fun data member =>
      processReferralTransfer_returns reliable (events.referrals data member)
  have third : Returns choice (forEach
      (blockRange (firstBlock app world.lastCheckedBlock) choice.node.blockNumber)
      fun number => processBlock app web3 (.number number)) := by
    refine Returns.forEach fun number inRange => ?_
    obtain ⟨blockData, here⟩ := known number inRange
    exact processBlock_returns reliable here (readable blockData ⟨number, inRange, here⟩)
  have answers : ∀ op world, (request op).evaluate (perform choice) world =
      answer choice world op := by
    intro op world
    rw [request, evaluate_call, perform_answer reliable]
  obtain ⟨transferred, ranFirst⟩ := first.ran world
  obtain ⟨referred, ranSecond⟩ := second.ran transferred
  obtain ⟨scanned, ranThird⟩ := third.ran referred
  have keptFirst := (Performs.forEach (fun data _ => processTokenTransfer_performs reliable) _ _
    ranFirst).1
  have keptSecond := (Performs.forEach (fun data _ => processReferralTransfer_performs reliable) _ _
    ranSecond).1
  rw [← keptFirst, ← keptSecond] at ranThird
  rw [checkAndRestoreTransactions, evaluate_bind_of (answers .getPastTransfers world),
    evaluate_bind_of ranFirst, evaluate_bind_of (answers .getPastReferralTransfers transferred),
    evaluate_bind_of ranSecond, evaluate_bind_of (answers .getBlockNumber referred),
    evaluate_bind_of (answers .getLastCheckedBlock referred), evaluate_bind_of ranThird, answers]
  rfl

end Job

end IcoDashboard.Chain
