import IcoDashboard.Chain.Pending

namespace IcoDashboard.Chain

open IcoDashboard.Async IcoDashboard.Async.Program IcoDashboard.Data
open TransactionService Web3Handler

/-! # Orders of delivery

A mined transaction reaches the records through its announcement, its block, its
Transfer events and the job, in any order.  All orders leave the same record,
but for one: a successful call of the token contract whose announcement was the
first to make a record.
-/

/-- A request that is served alone, in the system of the handlers. -/
theorem served_reached (app : App) (web3 : Web3) (choice : Choice) (state : ChainState)
    (request : Request) :
    ∃ actions, ((handlers app web3).run state actions).world =
      ((handle app web3 request).evaluate (perform choice) state.world).2 := by
  obtain ⟨choices, world, _⟩ := System.started_evaluates
    (System.answeredBy_constant (handlers app web3) choice) state rfl request
  exact ⟨_, world⟩

/-- A mined transaction of an investor, as the node shows it. -/
structure Delivery (app : App) (web3 : Web3) (choice : Choice) (lastCheckedBlock : Option Nat) where
  tx : TransactionData
  receipt : Receipt
  addresses : FromToTokenAmount
  blockData : BlockData
  header : BlockHeader
  announced : choice.node.getTransaction tx.hash = some tx
  received : choice.node.getTransactionReceipt tx.hash = some receipt
  read : getFromToTokenAmount app web3 tx = .ok addresses
  investor : Involves app web3 choice tx
  listed : tx ∈ blockData.transactions
  scanned : Scanned app choice lastCheckedBlock blockData
  numbered : header.number = some blockData.number
  mined : blockData.number ≠ 0
  known : choice.node.getBlock (.hash header.hash) = some blockData
  /-- No other transaction has the hash, and no other block this one. -/
  once : ∀ other, Scanned app choice lastCheckedBlock other → ∀ data ∈ other.transactions,
    data.hash = tx.hash → data = tx ∧ other = blockData
  values : ∀ data ∈ blockData.transactions, ∃ ethAmount, web3.fromWei data.value = .ok ethAmount
  noValue : getTxTypeByData app tx = .tokenTransfer → web3.fromWei tx.value = .ok "0"
  /-- A Transfer event of the call was emitted in its block, by a success, for its amount. -/
  events : ∀ data ∈ choice.node.transfers, transferKey data = recordKey app tx addresses →
    receipt.status = .flag true ∧ choice.node.getBlock (.number data.blockNumber) = some blockData ∧
      ∃ tokenAmount, web3.fromWei data.returnValues.value = .ok tokenAmount ∧
        addresses.tokenAmount = some tokenAmount

/-- What handles the transaction before the job does. -/
inductive Step where
  | pending (now : Nat)
  | block
  | transfer (data : TransferEvent)
deriving DecidableEq, Repr

/-- The announcement is the first to make a record. -/
def pendingFirst (key : TransactionKey) : List Step → Bool
  | [] => false
  | .pending _ :: _ => true
  | .block :: _ => false
  | .transfer data :: rest => if transferKey data = key then false else pendingFirst key rest

namespace Delivery

variable {app : App} {web3 : Web3} {choice : Choice} {lastCheckedBlock : Option Nat}

section Orders

variable (delivery : Delivery app web3 choice lastCheckedBlock)

def key : TransactionKey := recordKey app delivery.tx delivery.addresses

/-- The record with the data of the block. -/
def record : Transaction :=
  minedRecord app web3 delivery.blockData delivery.receipt delivery.tx delivery.addresses

/-- The record of the announcement. -/
def pendingRecord (now : Nat) : Transaction :=
  announcedRecord app web3 now delivery.tx delivery.addresses

/-- Calls of the token contract that succeeded. -/
def TokenCall : Prop :=
  getTxTypeByData app delivery.tx = .tokenTransfer ∧
    getTxStatusByReceipt delivery.receipt = .confirmed

instance : Decidable delivery.TokenCall := inferInstanceAs (Decidable (_ ∧ _))

def request : Step → Request
  | .pending now => .pendingTransaction delivery.tx.hash now
  | .block => .newBlockHeaders delivery.header
  | .transfer data => .tokenTransfer data

/-- The steps one at a time, whether they throw or not. -/
def handleAll (steps : List Step) (world : World) : World :=
  steps.foldl (fun world step =>
    ((handle app web3 (delivery.request step)).evaluate (perform choice) world).2) world

/-- The steps, and then the job. -/
def deliver (steps : List Step) (world : World) : Except Exception Unit × World :=
  (checkAndRestoreTransactions app web3).evaluate (perform choice) (delivery.handleAll steps world)

theorem handleAll_reached (steps : List Step) (state : ChainState) :
    ∃ actions, ((handlers app web3).run state actions).world =
      delivery.handleAll steps state.world := by
  induction steps generalizing state with
  | nil => exact ⟨[], rfl⟩
  | cons step rest ih =>
      obtain ⟨first, served⟩ := served_reached app web3 choice state (delivery.request step)
      obtain ⟨later, handled⟩ := ih ((handlers app web3).run state first)
      refine ⟨first ++ later, ?_⟩
      rw [System.run_append, handled, served]
      rfl

/-- A delivery is a run of the system. -/
theorem deliver_reached (steps : List Step) (state : ChainState) :
    ∃ actions, ((handlers app web3).run state actions).world =
      (delivery.deliver steps state.world).2 := by
  obtain ⟨first, handled⟩ := delivery.handleAll_reached steps state
  obtain ⟨last, served⟩ := served_reached app web3 choice ((handlers app web3).run state first)
    .checkAndRestoreTransactions
  refine ⟨first ++ last, ?_⟩
  rw [System.run_append, served, handled]
  rfl

def stepHandlings : Step → List Handling
  | .pending now => [.announced (delivery.pendingRecord now) true]
  | .block => blockHandlings app web3 choice (.hash delivery.header.hash)
  | .transfer data => transferHandlings web3 choice data

/-! ## Handlings of the record -/

theorem involved : involved choice delivery.addresses = true :=
  involved_of_involves delivery.investor delivery.read

theorem record_final : delivery.record.status ≠ .pending := status_decided delivery.receipt

theorem minedHandlings_eq : minedHandlings app web3 choice delivery.blockData delivery.tx =
    [.mined delivery.record true] := by
  simp [minedHandlings, delivery.received, delivery.read, delivery.involved, record]

theorem mined_own {other : BlockData} (scanned : Scanned app choice lastCheckedBlock other)
    {data : TransactionData} (listed : data ∈ other.transactions) {handling : Handling}
    (handled : handling ∈ minedHandlings app web3 choice other data)
    (own : handling.key = delivery.key) : handling = .mined delivery.record true := by
  have sameHash : data.hash = delivery.tx.hash := by
    obtain ⟨receipt, addresses, _, _, rfl⟩ := mem_minedHandlings handled
    exact congrArg TransactionKey.transactionHash own
  obtain ⟨rfl, rfl⟩ := delivery.once other scanned data listed sameHash
  rw [delivery.minedHandlings_eq] at handled
  exact List.mem_singleton.mp handled

/-- The event records what the block records. -/
theorem transferHandlings_own {data : TransferEvent} (listed : data ∈ choice.node.transfers)
    (own : transferKey data = delivery.key) :
    delivery.TokenCall ∧ transferHandlings web3 choice data = [.transferred delivery.record] := by
  obtain ⟨success, known, tokenAmount, amount, same⟩ := delivery.events data listed own
  have token : getTxTypeByData app delivery.tx = .tokenTransfer :=
    (congrArg TransactionKey.type own).symm
  have hash : data.transactionHash = delivery.tx.hash :=
    congrArg TransactionKey.transactionHash own
  have sender : data.returnValues.from = delivery.addresses.from :=
    congrArg TransactionKey.from own
  have recipient : some data.returnValues.to = delivery.addresses.to :=
    congrArg TransactionKey.to own
  have confirmed : getTxStatusByReceipt delivery.receipt = .confirmed := if_pos success
  refine ⟨⟨token, confirmed⟩, ?_⟩
  have received : choice.node.getTransactionReceipt data.transactionHash = some delivery.receipt := by
    rw [hash]
    exact delivery.received
  have noValue := delivery.noValue token
  have recorded : transferRecord data tokenAmount (getTxStatusByReceipt delivery.receipt)
      delivery.blockData = delivery.record := by
    simp [transferRecord, record, minedRecord, transformedTxData, hash, sender, recipient, token,
      noValue, same, Except.toOption]
  simp [transferHandlings, received, amount, known, recorded]

/-- What can handle the record. -/
inductive Own : Handling → Prop where
  | announced (now : Nat) : Own (.announced (delivery.pendingRecord now) true)
  | mined : Own (.mined delivery.record true)
  | transferred (call : delivery.TokenCall) : Own (.transferred delivery.record)

theorem transfer_own {data : TransferEvent} (listed : data ∈ choice.node.transfers)
    {handling : Handling} (handled : handling ∈ transferHandlings web3 choice data)
    (own : handling.key = delivery.key) :
    delivery.TokenCall ∧ handling = .transferred delivery.record := by
  have dataOwn : transferKey data = delivery.key := by
    obtain ⟨_, _, _, _, rfl⟩ := mem_transferHandlings handled
    exact own
  obtain ⟨call, handlings⟩ := delivery.transferHandlings_own listed dataOwn
  rw [handlings] at handled
  exact ⟨call, List.mem_singleton.mp handled⟩

theorem block_own {handling : Handling}
    (handled : handling ∈ blockHandlings app web3 choice (.hash delivery.header.hash))
    (own : handling.key = delivery.key) : handling = .mined delivery.record true := by
  simp only [blockHandlings, delivery.known, List.mem_flatMap] at handled
  obtain ⟨data, listed, handled⟩ := handled
  exact delivery.mined_own delivery.scanned listed handled own

theorem restore_own {handling : Handling}
    (handled : handling ∈ restoreHandlings app web3 choice lastCheckedBlock)
    (own : handling.key = delivery.key) :
    handling = .mined delivery.record true ∨
      delivery.TokenCall ∧ handling = .transferred delivery.record := by
  rcases mem_restoreHandlings.mp handled with ⟨data, listed, handled⟩ | ⟨data, _, handled⟩ |
    ⟨other, scanned, data, listed, handled⟩
  · exact .inr (delivery.transfer_own listed handled own)
  · obtain ⟨receipt, tokenAmount, blockData, _, rfl⟩ := mem_referralHandlings handled
    have referral : TransactionType.referralTransfer = getTxTypeByData app delivery.tx :=
      congrArg TransactionKey.type own
    exact absurd referral.symm (getTxTypeByData_ne_referral app delivery.tx)
  · exact .inl (delivery.mined_own scanned listed handled own)

theorem mined_restored :
    .mined delivery.record true ∈ restoreHandlings app web3 choice lastCheckedBlock := by
  refine mem_restoreHandlings.mpr (.inr (.inr ⟨_, delivery.scanned, _, delivery.listed, ?_⟩))
  rw [delivery.minedHandlings_eq]
  exact List.mem_singleton.mpr rfl

theorem step_own {steps : List Step}
    (listed : ∀ data, .transfer data ∈ steps → data ∈ choice.node.transfers) {step : Step}
    (member : step ∈ steps) {handling : Handling} (handled : handling ∈ delivery.stepHandlings step)
    (own : handling.key = delivery.key) : delivery.Own handling := by
  cases step with
  | pending now =>
      obtain rfl := List.mem_singleton.mp handled
      exact .announced now
  | block =>
      obtain rfl := delivery.block_own handled own
      exact .mined
  | transfer data =>
      obtain ⟨call, rfl⟩ := delivery.transfer_own (listed data member) handled own
      exact .transferred call

/-! ## The record after each handling -/

/-- The record is the block's, or will be. -/
def Clear (record : Option Transaction) : Prop :=
  record = none ∨ record = some delivery.record ∨
    ¬ delivery.TokenCall ∧ ∃ now, record = some (delivery.pendingRecord now)

/-- The record will never have the data of the block. -/
def Stuck (record : Option Transaction) : Prop :=
  ∃ tx, record = some tx ∧ tx.type = .tokenTransfer ∧ tx.blockNumber = none

theorem change_record (handling : Handling) :
    handling.change (some delivery.record) = some delivery.record :=
  Handling.change_final delivery.record_final

theorem confirm_pending (plain : ¬ delivery.TokenCall) (now : Nat) :
    Handling.confirm delivery.record true (delivery.pendingRecord now) = delivery.record := by
  have unsettled : ¬ (((delivery.pendingRecord now).type = .tokenTransfer ∧
      delivery.record.status = .confirmed) ∨ (delivery.pendingRecord now).status ≠ .pending) := by
    intro settled
    rcases settled with call | final
    · exact plain call
    · exact final rfl
  rw [Handling.confirm, if_neg unsettled, if_pos rfl]
  rfl

theorem clear_mined {record : Option Transaction} (clear : delivery.Clear record) :
    Handling.change (.mined delivery.record true) record = some delivery.record := by
  rcases clear with rfl | rfl | ⟨plain, now, rfl⟩
  · rfl
  · exact delivery.change_record _
  · exact congrArg some (delivery.confirm_pending plain now)

theorem clear_transferred (call : delivery.TokenCall) {record : Option Transaction}
    (clear : delivery.Clear record) :
    Handling.change (.transferred delivery.record) record = some delivery.record := by
  rcases clear with rfl | rfl | ⟨plain, _⟩
  · rfl
  · exact delivery.change_record _
  · exact absurd call plain

theorem clear_own (plain : ¬ delivery.TokenCall) {handling : Handling} (own : delivery.Own handling)
    {record : Option Transaction} (clear : delivery.Clear record) :
    delivery.Clear (handling.change record) := by
  cases own with
  | announced now =>
      rcases clear with rfl | rfl | ⟨_, then', rfl⟩
      · exact .inr (.inr ⟨plain, now, rfl⟩)
      · exact .inr (.inl rfl)
      · exact .inr (.inr ⟨plain, then', rfl⟩)
  | mined => exact .inr (.inl (delivery.clear_mined clear))
  | transferred call => exact absurd call plain

theorem stuck_own (call : delivery.TokenCall) {handling : Handling} (own : delivery.Own handling)
    {record : Option Transaction} (stuck : Stuck record) : Stuck (handling.change record) := by
  obtain ⟨tx, rfl, token, noBlock⟩ := stuck
  cases own with
  | announced now => exact ⟨tx, rfl, token, noBlock⟩
  | mined => exact ⟨tx, congrArg some (if_pos (.inl ⟨token, call.2⟩)), token, noBlock⟩
  | transferred _ =>
      by_cases pending : tx.status = .pending
      · exact ⟨_, congrArg some (if_pos pending), token, noBlock⟩
      · exact ⟨tx, congrArg some (if_neg pending), token, noBlock⟩

/-! ## Runs of the steps -/

theorem applyAll_record {handlings : List Handling} {records : Records}
    (recorded : records delivery.key = some delivery.record) :
    Handling.applyAll handlings records delivery.key = some delivery.record :=
  Handling.applyAll_final recorded delivery.record_final

/-- A block with the transaction records it. -/
theorem applyAll_mined {handlings : List Handling} {records : Records}
    (clear : delivery.Clear (records delivery.key))
    (member : .mined delivery.record true ∈ handlings)
    (keeps : ∀ handling ∈ handlings, handling.key = delivery.key → ∀ record,
      delivery.Clear record → delivery.Clear (handling.change record)) :
    Handling.applyAll handlings records delivery.key = some delivery.record :=
  @Handling.applyAll_through delivery.Clear (· = some delivery.record) handlings records
    (.mined delivery.record true) member clear keeps (fun _ before => delivery.clear_mined before)
    fun other _ _ record recorded => by rw [recorded]; exact delivery.change_record other

theorem block_records {records : Records} (clear : delivery.Clear (records delivery.key)) :
    Handling.applyAll (delivery.stepHandlings .block) records delivery.key =
      some delivery.record := by
  refine delivery.applyAll_mined clear ?_ ?_
  · simp only [stepHandlings, blockHandlings, delivery.known, List.mem_flatMap]
    exact ⟨_, delivery.listed, by simp [delivery.minedHandlings_eq]⟩
  · intro handling handled own record before
    rw [delivery.block_own handled own]
    exact .inr (.inl (delivery.clear_mined before))

theorem restore_records {records : Records} (clear : delivery.Clear (records delivery.key)) :
    Handling.applyAll (restoreHandlings app web3 choice lastCheckedBlock) records delivery.key =
      some delivery.record := by
  refine delivery.applyAll_mined clear delivery.mined_restored ?_
  intro handling handled own record before
  rcases delivery.restore_own handled own with rfl | ⟨call, rfl⟩
  · exact .inr (.inl (delivery.clear_mined before))
  · exact .inr (.inl (delivery.clear_transferred call before))

/-- A Transfer event of another record does nothing here. -/
theorem transfer_other {data : TransferEvent} {records : Records}
    (other : transferKey data ≠ delivery.key) :
    Handling.applyAll (delivery.stepHandlings (.transfer data)) records delivery.key =
      records delivery.key := by
  refine Handling.applyAll_unchanged fun handling handled own => ?_
  obtain ⟨_, _, _, _, rfl⟩ := mem_transferHandlings handled
  exact absurd own other

section Steps

variable {steps : List Step}
  (listed : ∀ data, .transfer data ∈ steps → data ∈ choice.node.transfers)

include listed

theorem steps_clear {records : Records} (new : records delivery.key = none)
    (fine : ¬ (delivery.TokenCall ∧ pendingFirst delivery.key steps = true)) :
    delivery.Clear
      (Handling.applyAll (steps.flatMap delivery.stepHandlings) records delivery.key) := by
  by_cases call : delivery.TokenCall
  · induction steps generalizing records with
    | nil => exact .inl new
    | cons step rest ih =>
        have restListed : ∀ data, .transfer data ∈ rest → data ∈ choice.node.transfers :=
          fun data member => listed data (List.mem_cons_of_mem _ member)
        rw [List.flatMap_cons, Handling.applyAll_append]
        cases step with
        | pending now => exact absurd ⟨call, rfl⟩ fine
        | block =>
            exact .inr (.inl (delivery.applyAll_record (delivery.block_records (.inl new))))
        | transfer data =>
            by_cases own : transferKey data = delivery.key
            · obtain ⟨_, handlings⟩ :=
                delivery.transferHandlings_own (listed data List.mem_cons_self) own
              have recorded : Handling.applyAll (delivery.stepHandlings (.transfer data)) records
                  delivery.key = some delivery.record := by
                rw [stepHandlings, handlings]
                exact (Handling.apply_own (.transferred delivery.record) records).trans
                  (congrArg _ new)
              exact .inr (.inl (delivery.applyAll_record recorded))
            · refine ih restListed ?_ ?_
              · rw [delivery.transfer_other own]
                exact new
              · rwa [pendingFirst, if_neg own] at fine
  · refine Handling.applyAll_rule (.inl new) fun handling handled own record clear => ?_
    obtain ⟨step, member, handled⟩ := List.mem_flatMap.mp handled
    exact delivery.clear_own call (delivery.step_own listed member handled own) clear

theorem steps_stuck {records : Records} (new : records delivery.key = none)
    (call : delivery.TokenCall) (first : pendingFirst delivery.key steps = true) :
    Stuck (Handling.applyAll (steps.flatMap delivery.stepHandlings) records delivery.key) := by
  induction steps generalizing records with
  | nil => cases first
  | cons step rest ih =>
      have restListed : ∀ data, .transfer data ∈ rest → data ∈ choice.node.transfers :=
        fun data member => listed data (List.mem_cons_of_mem _ member)
      rw [List.flatMap_cons, Handling.applyAll_append]
      cases step with
      | pending now =>
          have created : Handling.applyAll (delivery.stepHandlings (.pending now)) records
              delivery.key = some (delivery.pendingRecord now) :=
            (Handling.apply_own (.announced (delivery.pendingRecord now) true) records).trans
              (congrArg _ new)
          refine Handling.applyAll_rule ?_ fun handling handled own record stuck => ?_
          · exact ⟨delivery.pendingRecord now, created, call.1, rfl⟩
          · obtain ⟨step, member, handled⟩ := List.mem_flatMap.mp handled
            exact delivery.stuck_own call (delivery.step_own restListed member handled own) stuck
      | block => cases first
      | transfer data =>
          by_cases own : transferKey data = delivery.key
          · rw [pendingFirst, if_pos own] at first
            cases first
          · rw [pendingFirst, if_neg own] at first
            refine ih restListed ?_ first
            rw [delivery.transfer_other own]
            exact new

end Steps

/-! ## Steps return where the job does -/

theorem handleAll_unmoved (steps : List Step) (world : World) :
    (delivery.handleAll steps world).lastCheckedBlock = world.lastCheckedBlock := by
  induction steps generalizing world with
  | nil => rfl
  | cons step rest ih =>
      refine (ih _).trans (handle_unmoved choice world ?_)
      cases step <;> rfl

/-- A step that returns does its handlings. -/
def Handles (step : Step) : Prop :=
  ∀ world, ∃ after, (handle app web3 (delivery.request step)).evaluate (perform choice) world =
      (.ok (), after) ∧
    after.records = Handling.applyAll (delivery.stepHandlings step) world.records

theorem handles_of {step : Step}
    (returns : Returns choice (handle app web3 (delivery.request step)))
    (performs : Performs choice (handle app web3 (delivery.request step))
      (delivery.stepHandlings step)) : delivery.Handles step := by
  intro world
  obtain ⟨after, ran⟩ := returns.ran world
  exact ⟨after, ran, (performs world after ran).2⟩

theorem pending_handles (reliable : choice.rejects = none) (now : Nat) :
    delivery.Handles (.pending now) := by
  have leaves : ∀ world, Leaves choice (processPendingTransaction app web3 delivery.tx.hash now)
      world (Handling.applyAll (delivery.stepHandlings (.pending now)) world.records)
      (∃ ethAmount, web3.fromWei delivery.tx.value = .ok ethAmount) := by
    intro world
    have left := @processPendingTransaction_leaves app web3 choice world _ now _ _ reliable
      delivery.announced delivery.read
    rw [delivery.involved] at left
    exact left
  exact delivery.handles_of (returns_of_leaves (delivery.values _ delivery.listed) leaves)
    (performs_of_leaves leaves)

theorem block_handles (reliable : choice.rejects = none)
    (reads : ∀ data ∈ delivery.blockData.transactions,
      choice.node.getTransactionReceipt data.hash ≠ none →
      ∃ addresses, getFromToTokenAmount app web3 data = .ok addresses) :
    delivery.Handles .block := by
  have readable : ∀ data ∈ delivery.blockData.transactions,
      choice.node.getTransactionReceipt data.hash ≠ none → Readable app web3 data :=
    fun data member received => ⟨reads data member received, delivery.values data member⟩
  have same : ∀ world, (handle app web3 (delivery.request .block)).evaluate (perform choice) world =
      (processBlock app web3 (.hash delivery.header.hash)).evaluate (perform choice) world :=
    fun world => processNewBlockHeaders_block delivery.numbered delivery.mined
  refine delivery.handles_of ?_ ((processBlock_performs reliable).congr same)
  intro world
  rw [same]
  exact processBlock_returns reliable delivery.known readable world

theorem transfer_handles (reliable : choice.rejects = none) {data : TransferEvent}
    (reads : ∀ receipt, choice.node.getTransactionReceipt data.transactionHash = some receipt →
      ∃ tokenAmount blockData, transferHandlings web3 choice data =
        [.transferred (transferRecord data tokenAmount (getTxStatusByReceipt receipt) blockData)]) :
    delivery.Handles (.transfer data) := by
  refine delivery.handles_of (processTokenTransfer_returns reliable fun received => ?_)
    (processTokenTransfer_performs reliable)
  obtain ⟨receipt, received⟩ := Option.ne_none_iff_exists'.mp received
  obtain ⟨_, _, handlings⟩ := reads receipt received
  unfold transferHandlings at handlings
  split at handlings
  · rename_i tokenAmount blockData _ amount known
    exact ⟨⟨tokenAmount, amount⟩, blockData, known⟩
  · cases handlings

theorem handleAll_records {steps : List Step}
    (handles : ∀ step ∈ steps, delivery.Handles step) (world : World) :
    (delivery.handleAll steps world).records =
      Handling.applyAll (steps.flatMap delivery.stepHandlings) world.records := by
  induction steps generalizing world with
  | nil => rfl
  | cons step rest ih =>
      obtain ⟨after, ran, records⟩ := handles step List.mem_cons_self world
      have rests := ih (fun other member => handles other (List.mem_cons_of_mem _ member)) after
      rw [List.flatMap_cons, Handling.applyAll_append, ← records, ← rests, handleAll, handleAll,
        List.foldl_cons, ran]

end Orders

/-! ## One record -/

/-- The job leaves the record of the block, whatever came before it, but for a
successful call of the token contract that was first recorded as pending. -/
theorem sameRecord_iff {world after : World} {steps : List Step}
    (delivery : Delivery app web3 choice world.lastCheckedBlock)
    (listed : ∀ data, .transfer data ∈ steps → data ∈ choice.node.transfers)
    (new : world.records delivery.key = none)
    (returned : delivery.deliver steps world = (.ok (), after)) :
    after.records delivery.key = some delivery.record ↔
      ¬ (delivery.TokenCall ∧ pendingFirst delivery.key steps = true) := by
  have reliable := reliable_of_returned returned
  have unmoved := delivery.handleAll_unmoved steps world
  have handles : ∀ step ∈ steps, delivery.Handles step := by
    intro step member
    cases step with
    | pending now => exact delivery.pending_handles reliable now
    | block =>
        refine delivery.block_handles reliable fun data inBlock received => ?_
        refine checkAndRestoreTransactions_reads reliable returned ?_ inBlock received
        rw [unmoved]
        exact delivery.scanned
    | transfer data =>
        refine delivery.transfer_handles reliable fun receipt received => ?_
        exact checkAndRestoreTransactions_transfers reliable returned (listed data member) received
  obtain ⟨_, left⟩ := checkAndRestoreTransactions_records reliable returned
  rw [left, unmoved, delivery.handleAll_records handles]
  constructor
  · intro recorded undated
    have stuck := delivery.steps_stuck listed new undated.1 undated.2
    obtain ⟨tx, last, _, noBlock⟩ : Stuck (Handling.applyAll (restoreHandlings app web3 choice
        world.lastCheckedBlock) (Handling.applyAll (steps.flatMap delivery.stepHandlings)
          world.records) delivery.key) := by
      refine Handling.applyAll_rule stuck fun handling handled own record before => ?_
      rcases delivery.restore_own handled own with rfl | ⟨call, rfl⟩
      · exact delivery.stuck_own undated.1 .mined before
      · exact delivery.stuck_own undated.1 (.transferred call) before
    rw [last] at recorded
    cases recorded
    cases noBlock
  · intro fine
    exact delivery.restore_records (delivery.steps_clear listed new fine)

end Delivery

/-! ## A transfer -/

/-- Alice sends Bob a token. -/
def transfer : TransactionData := tokenCall aliceAddress transferInput

def transferEvent : TransferEvent where
  transactionHash := "0xcdf4"
  blockNumber := 1
  returnValues := { «from» := aliceAddress, «to» := bobAddress, value := "1000000000000000000" }

def transferChoice : Choice :=
  { node := { sampleNode [transfer] with transfers := [transferEvent] }, investors := [alice] }

theorem read_sampleTransfer : getFromToTokenAmount sampleApp .sample transfer =
    .ok ⟨aliceAddress, some bobAddress, some "1"⟩ := by
  have token : getTxTypeByData sampleApp transfer = .tokenTransfer := by decide
  have decoded : decodeTransfer .sample transferInput = .ok (some (bobAddress, "1")) := by
    simp only [decodeTransfer, decode_transfer]
    rfl
  simp only [getFromToTokenAmount, getFromToTokenAmountByTxDataAndType, token]
  change (Web3.sample.toChecksumAddress aliceAddress >>= fun sender =>
    decodeTransfer .sample transferInput >>= fun transfer => _) = _
  rw [decoded]
  rfl

def transferDelivery : Delivery sampleApp .sample transferChoice none where
  tx := transfer
  receipt := ⟨.flag true⟩
  addresses := ⟨aliceAddress, some bobAddress, some "1"⟩
  blockData := sampleBlock [transfer]
  header := ⟨some 1, "0xb10c"⟩
  announced := by simp [transferChoice, sampleNode]
  received := rfl
  read := read_sampleTransfer
  investor := ⟨aliceAddress, by decide, .sender _ rfl, alice, List.mem_singleton.mpr rfl, by decide⟩
  listed := List.mem_singleton.mpr rfl
  scanned := ⟨1, by decide, rfl⟩
  numbered := rfl
  mined := by decide
  known := rfl
  once other scanned data member _ := by
    obtain rfl := @scanned_sample [transfer] other scanned
    exact ⟨List.mem_singleton.mp member, rfl⟩
  values data member := by
    obtain rfl := List.mem_singleton.mp member
    exact ⟨"0", rfl⟩
  noValue _ := rfl
  events data listed _ := by
    obtain rfl := List.mem_singleton.mp listed
    exact ⟨rfl, rfl, "1", rfl, rfl⟩

set_option maxRecDepth 4000 in
theorem minedTransfer_recorded :
    (transferDelivery.deliver [.block, .pending 1520846000, .transfer transferEvent] {}).2.records
      transferDelivery.key = some transferDelivery.record := by
  have returned : (transferDelivery.deliver [.block, .pending 1520846000,
      .transfer transferEvent] {}).1 = .ok () := rfl
  refine (@Delivery.sameRecord_iff sampleApp .sample transferChoice {} _ _ transferDelivery ?_ rfl
    (Prod.ext returned rfl)).mpr ?_
  · intro data member
    simp only [List.mem_cons, reduceCtorEq, Step.transfer.injEq, false_or, List.not_mem_nil,
      or_false] at member
    subst member
    exact List.mem_singleton.mpr rfl
  · exact fun undated => absurd undated.2 (by decide)

set_option maxRecDepth 4000 in
/-- The same transfer, announced before it was mined. -/
theorem announcedTransfer_undated :
    (transferDelivery.deliver [.pending 1520846000, .transfer transferEvent, .block] {}).1 =
        .ok () ∧
      (transferDelivery.deliver [.pending 1520846000, .transfer transferEvent, .block] {}).2.records
          transferDelivery.key =
        some { transferDelivery.record with timestamp := 1520846000, blockNumber := none } ∧
      (transferDelivery.deliver [.block] {}).2.records transferDelivery.key =
        some transferDelivery.record := by
  exact ⟨rfl, rfl, rfl⟩

end IcoDashboard.Chain
