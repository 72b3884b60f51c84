import IcoDashboard.Chain.Orders

namespace IcoDashboard.Chain

open IcoDashboard.Async IcoDashboard.Async.Program IcoDashboard.Data
open TransactionService Web3Handler

/-! # Sums of amounts

A record keeps the amount of the first event under its key.  So the amounts add
up to the values of the events where no transaction has two events between the
same addresses.  Calls without an event have records of their own.
-/

variable {app : App} {web3 : Web3} {choice : Choice} {world after : World}
  {M : Type} [AddCommMonoid M]

def transfersBetween (choice : Choice) («from» «to» : String) : List TransferEvent :=
  choice.node.transfers.filter fun data =>
    data.returnValues.from = «from» ∧ data.returnValues.to = «to»

def referralTransfersBetween (choice : Choice) (investor referral : String) :
    List ReferralTransferEvent :=
  choice.node.referralTransfers.filter fun data =>
    data.returnValues.investor = investor ∧ data.returnValues.referral = referral

def recordsBetween (world : World) (type : TransactionType) («from» «to» : String) :
    List Transaction :=
  world.transactions.vals.filter fun tx => tx.type = type ∧ tx.from = «from» ∧ tx.to = some «to»

/-- The sum of the amounts of the records. -/
def total (amount : String → M) (records : List Transaction) : M :=
  (records.map fun tx => (tx.tokenAmount.map amount).getD 0).sum

/-- The amounts of the stored records add up to the values of the events. -/
def SumsAgree (amount tokens : String → M) (choice : Choice) (world : World) : Prop :=
  ∀ «from» «to»,
    total amount (recordsBetween world .tokenTransfer «from» «to») =
        ((transfersBetween choice «from» «to»).map fun data => tokens data.returnValues.value).sum ∧
      total amount (recordsBetween world .referralTransfer «from» «to») =
        ((referralTransfersBetween choice «from» «to»).map fun data =>
          tokens data.returnValues.tokenAmount).sum

/-! ## The record of an event -/

/-- The first handling of a record that is to be created creates it for good. -/
theorem applyAll_first {first last : List Handling} {handling : Handling} {records : Records}
    {tx : Transaction} (untouched : ∀ other ∈ first, other.key ≠ handling.key)
    (new : records handling.key = none) (creates : handling.change none = some tx)
    (final : tx.status ≠ .pending) :
    Handling.applyAll (first ++ handling :: last) records handling.key = some tx := by
  have still : Handling.applyAll first records handling.key = none :=
    (Handling.applyAll_unchanged fun other member same => absurd same (untouched other member)).trans
      new
  rw [Handling.applyAll_append]
  refine @Handling.applyAll_final last (handling.apply (Handling.applyAll first records)) _ _ ?_ final
  rw [Handling.apply_own, still]
  exact creates

/-- Of the events that count, an earlier one has another hash. -/
theorem hash_ne_of_distinct {Values : Type} {events before later : List (ContractEvent Values)}
    {data : ContractEvent Values} {counts : ContractEvent Values → Bool}
    (distinct : ((events.filter counts).map ContractEvent.transactionHash).Nodup)
    (split : events = before ++ data :: later) (counted : counts data = true)
    {other : ContractEvent Values} (earlier : other ∈ before) (otherCounted : counts other = true) :
    other.transactionHash ≠ data.transactionHash := by
  rw [split, List.filter_append, List.filter_cons_of_pos counted, List.map_append,
    List.map_cons, List.nodup_append] at distinct
  intro same
  have inFront : other.transactionHash ∈
      (before.filter counts).map ContractEvent.transactionHash :=
    List.mem_map_of_mem (List.mem_filter.mpr ⟨earlier, otherCounted⟩)
  exact distinct.2.2 _ inFront _ List.mem_cons_self same

section Job

variable (reliable : choice.rejects = none) (empty : world.transactions = .empty)
  (returned : (checkAndRestoreTransactions app web3).evaluate (perform choice) world =
    (.ok (), after))

include reliable returned empty

theorem records_of_empty : after.records =
    Handling.applyAll (restoreHandlings app web3 choice world.lastCheckedBlock) fun _ => none := by
  obtain ⟨_, left⟩ := checkAndRestoreTransactions_records reliable returned
  rw [left, World.records, empty]
  rfl

theorem transfer_record {«from» «to» : String} {data : TransferEvent}
    (listed : data ∈ transfersBetween choice «from» «to»)
    (distinct : ((transfersBetween choice «from» «to»).map ContractEvent.transactionHash).Nodup)
    {receipt : Receipt}
    (received : choice.node.getTransactionReceipt data.transactionHash = some receipt) :
    ∃ tokenAmount blockData, web3.fromWei data.returnValues.value = .ok tokenAmount ∧
      after.records (transferKey data) =
        some (transferRecord data tokenAmount (getTxStatusByReceipt receipt) blockData) := by
  obtain ⟨member, counted⟩ := List.mem_filter.mp listed
  obtain ⟨tokenAmount, blockData, handlings⟩ :=
    checkAndRestoreTransactions_transfers reliable returned member received
  have amount : web3.fromWei data.returnValues.value = .ok tokenAmount := by
    unfold transferHandlings at handlings
    split at handlings
    · rename_i text _ _ read _
      have same : some text = some tokenAmount := by
        simp only [List.cons.injEq, Handling.transferred.injEq, and_true] at handlings
        exact congrArg Transaction.tokenAmount handlings
      cases same
      exact read
    · cases handlings
  refine ⟨tokenAmount, blockData, amount, ?_⟩
  obtain ⟨before, later, split⟩ := List.mem_iff_append.mp member
  rw [records_of_empty reliable empty returned, restoreHandlings, split, List.flatMap_append,
    List.flatMap_cons, handlings, List.append_assoc, List.append_assoc, List.singleton_append]
  refine @applyAll_first _ _ (.transferred _) _ _ ?_ rfl rfl (status_decided receipt)
  intro handling handled same
  obtain ⟨other, earlier, handled⟩ := List.mem_flatMap.mp handled
  obtain ⟨_, _, _, _, rfl⟩ := mem_transferHandlings handled
  have sameKey : transferKey other = transferKey data := same
  have otherCounted := counted
  simp only [transferKey, TransactionKey.mk.injEq, Option.some.injEq] at sameKey
  rw [← sameKey.2.2.1, ← sameKey.2.2.2] at otherCounted
  exact hash_ne_of_distinct distinct split counted earlier otherCounted sameKey.1

omit reliable empty returned

/-- A referral event that is not recorded yet is read. -/
theorem processReferralTransfer_reads (reliable : choice.rejects = none)
    {data : ReferralTransferEvent} {before : World} (new : before.records (referralKey data) = none)
    {receipt : Receipt}
    (received : choice.node.getTransactionReceipt data.transactionHash = some receipt)
    (passed : (processReferralTransfer web3 data).evaluate (perform choice) before = (.ok (), after)) :
    ∃ tokenAmount blockData, web3.fromWei data.returnValues.tokenAmount = .ok tokenAmount ∧
      referralHandlings web3 choice data =
        [.referred (referralRecord data tokenAmount (getTxStatusByReceipt receipt) blockData)] := by
  have found : before.transactions.find (referralKey data) = none := Indexed.find_none_iff.mpr new
  cases amount : web3.fromWei data.returnValues.tokenAmount with
  | error error =>
      simp [processReferralTransfer, request, perform_answer reliable, answer, found, received,
        amount] at passed
  | ok tokenAmount =>
      cases known : choice.node.getBlock (.number data.blockNumber) with
      | none =>
          simp [processReferralTransfer, request, perform_answer reliable, answer, found, received,
            amount, known] at passed
      | some blockData => exact ⟨tokenAmount, blockData, rfl, by simp [referralHandlings, *]⟩

include reliable empty returned

theorem referral_record {investor referral : String} {data : ReferralTransferEvent}
    (listed : data ∈ referralTransfersBetween choice investor referral)
    (distinct : ((referralTransfersBetween choice investor referral).map
      ContractEvent.transactionHash).Nodup) {receipt : Receipt}
    (received : choice.node.getTransactionReceipt data.transactionHash = some receipt) :
    ∃ tokenAmount blockData, web3.fromWei data.returnValues.tokenAmount = .ok tokenAmount ∧
      after.records (referralKey data) =
        some (referralRecord data tokenAmount (getTxStatusByReceipt receipt) blockData) := by
  obtain ⟨member, counted⟩ := List.mem_filter.mp listed
  obtain ⟨before, later, split⟩ := List.mem_iff_append.mp member
  have transfersOther : ∀ handling ∈ choice.node.transfers.flatMap (transferHandlings web3 choice),
      handling.key ≠ referralKey data := by
    intro handling handled same
    obtain ⟨other, _, handled⟩ := List.mem_flatMap.mp handled
    obtain ⟨_, _, _, _, rfl⟩ := mem_transferHandlings handled
    cases congrArg TransactionKey.type same
  have earlierOther : ∀ handling ∈ before.flatMap (referralHandlings web3 choice),
      handling.key ≠ referralKey data := by
    intro handling handled same
    obtain ⟨other, earlier, handled⟩ := List.mem_flatMap.mp handled
    obtain ⟨_, _, _, _, rfl⟩ := mem_referralHandlings handled
    have sameKey : referralKey other = referralKey data := same
    have otherCounted := counted
    simp only [referralKey, TransactionKey.mk.injEq, Option.some.injEq] at sameKey
    rw [← sameKey.2.2.1, ← sameKey.2.2.2] at otherCounted
    exact hash_ne_of_distinct distinct split counted earlier otherCounted sameKey.1
  have untouched : ∀ handling ∈ choice.node.transfers.flatMap (transferHandlings web3 choice) ++
      before.flatMap (referralHandlings web3 choice), handling.key ≠ referralKey data := by
    intro handling handled
    exact (List.mem_append.mp handled).elim (transfersOther handling) (earlierOther handling)
  obtain ⟨transferred, referred, _, first, second, _, _⟩ :=
    checkAndRestoreTransactions_parts reliable returned
  rw [split] at second
  obtain ⟨between, passed, front, here⟩ := evaluate_forEach_split (congrArg Prod.fst second)
  have leftFirst := (Performs.forEach (fun data _ => processTokenTransfer_performs reliable) _ _
    first).2
  have leftFront := (Performs.forEach (fun data _ => processReferralTransfer_performs reliable) _ _
    front).2
  have new : between.records (referralKey data) = none := by
    have blank : world.records (referralKey data) = none := by
      rw [World.records, empty]
      rfl
    rw [leftFront, leftFirst, ← Handling.applyAll_append, ← blank]
    exact Handling.applyAll_unchanged fun handling handled same =>
      absurd same (untouched handling handled)
  obtain ⟨tokenAmount, blockData, amount, handlings⟩ :=
    processReferralTransfer_reads reliable new received here
  refine ⟨tokenAmount, blockData, amount, ?_⟩
  rw [records_of_empty reliable empty returned, restoreHandlings, split, List.flatMap_append,
    List.flatMap_cons, handlings, List.append_assoc, List.append_assoc, List.singleton_append,
    ← List.append_assoc]
  exact @applyAll_first _ _ (.referred _) _ _ untouched rfl rfl (status_decided receipt)

/-- Referral records come from referral events only. -/
theorem referral_event {key : TransactionKey} (type : key.type = .referralTransfer)
    (stored : (after.records key).isSome = true) :
    ∃ data ∈ choice.node.referralTransfers, referralKey data = key := by
  by_contra none
  have unchanged : after.records key = (fun _ => Option.none : Records) key := by
    rw [records_of_empty reliable empty returned]
    refine Handling.applyAll_unchanged fun handling handled own => ?_
    rcases mem_restoreHandlings.mp handled with ⟨data, _, handled⟩ | ⟨data, listed, handled⟩ |
      ⟨blockData, _, tx, _, handled⟩
    · obtain ⟨_, _, _, _, rfl⟩ := mem_transferHandlings handled
      rw [← own] at type
      cases type
    · obtain ⟨_, _, _, _, rfl⟩ := mem_referralHandlings handled
      exact absurd ⟨data, listed, own⟩ none
    · obtain ⟨_, addresses, _, _, rfl⟩ := mem_minedHandlings handled
      rw [← own] at type
      exact absurd type (getTxTypeByData_ne_referral app tx)
  rw [unchanged] at stored
  cases stored

end Job
/-! ## Sums -/

section Sums

variable {amount tokens : String → M}

/-- Records under the keys of events, with their values, add up to these. -/
theorem sum_events {Values : Type} {events : List (ContractEvent Values)}
    {keyOf : ContractEvent Values → TransactionKey} {value : ContractEvent Values → M}
    (keyHash : ∀ data, (keyOf data).transactionHash = data.transactionHash)
    (distinct : (events.map ContractEvent.transactionHash).Nodup)
    (recorded : ∀ data ∈ events, ∃ tx, after.records (keyOf data) = some tx ∧
      (tx.tokenAmount.map amount).getD 0 = value data)
    {records : List Transaction}
    (these : records = after.transactions.vals.filter fun tx => tx.key ∈ events.map keyOf) :
    total amount records = (events.map value).sum := by
  have distinctKeys : (events.map keyOf).Nodup := by
    refine List.Nodup.of_map TransactionKey.transactionHash ?_
    rw [List.map_map]
    exact (List.map_congr_left fun data _ => keyHash data) ▸ distinct
  have stored : ∀ key ∈ events.map keyOf, (after.transactions.record key).isSome = true := by
    intro key member
    obtain ⟨data, listed, rfl⟩ := List.mem_map.mp member
    obtain ⟨tx, found, _⟩ := recorded data listed
    exact Option.isSome_iff_exists.mpr ⟨tx, found⟩
  rw [total, these, Indexed.sum_under distinctKeys stored, List.map_map]
  refine congrArg List.sum (List.map_congr_left fun data listed => ?_)
  obtain ⟨tx, found, same⟩ := recorded data listed
  have record : after.transactions.record (keyOf data) = some tx := found
  simp [record, same]

theorem mem_transferKeys {«from» «to» : String} {tx : Transaction} :
    tx.key ∈ (transfersBetween choice «from» «to»).map transferKey ↔
      (tx.type = .tokenTransfer ∧ tx.from = «from» ∧ tx.to = some «to») ∧
        tx.transactionHash ∈
          (transfersBetween choice «from» «to»).map ContractEvent.transactionHash := by
  simp only [List.mem_map]
  constructor
  · intro keyed
    obtain ⟨data, listed, same⟩ := keyed
    obtain ⟨_, counted⟩ := List.mem_filter.mp listed
    simp only [decide_eq_true_eq] at counted
    simp only [transferKey, Transaction.key, TransactionKey.mk.injEq] at same
    obtain ⟨hash, type, sender, recipient⟩ := same
    exact ⟨⟨type.symm, sender ▸ counted.1, by rw [← recipient, counted.2]⟩, data, listed, hash⟩
  · intro parts
    obtain ⟨⟨type, sender, recipient⟩, data, listed, hash⟩ := parts
    obtain ⟨_, counted⟩ := List.mem_filter.mp listed
    simp only [decide_eq_true_eq] at counted
    exact ⟨data, listed, by simp [transferKey, Transaction.key, type, sender, recipient, hash, counted]⟩

theorem mem_referralKeys {investor referral : String} {tx : Transaction}
    (shown : ∃ data ∈ choice.node.referralTransfers, referralKey data = tx.key) :
    tx.key ∈ (referralTransfersBetween choice investor referral).map referralKey ↔
      tx.type = .referralTransfer ∧ tx.from = investor ∧ tx.to = some referral := by
  simp only [List.mem_map]
  constructor
  · intro keyed
    obtain ⟨data, listed, same⟩ := keyed
    obtain ⟨_, counted⟩ := List.mem_filter.mp listed
    simp only [decide_eq_true_eq] at counted
    simp only [referralKey, Transaction.key, TransactionKey.mk.injEq] at same
    obtain ⟨hash, type, sender, recipient⟩ := same
    exact ⟨type.symm, sender ▸ counted.1, by rw [← recipient, counted.2]⟩
  · intro parts
    obtain ⟨_, sender, recipient⟩ := parts
    obtain ⟨data, listed, same⟩ := shown
    refine ⟨data, List.mem_filter.mpr ⟨listed, ?_⟩, same⟩
    simp only [referralKey, Transaction.key, TransactionKey.mk.injEq, sender, recipient,
      Option.some.injEq] at same
    simpa using same.2.2

/-- What the amounts add up to, where an event of a transaction is the only one
between its addresses.  Only the records of transactions with such an event count
for token transfers: calls that failed have none. -/
theorem sums_agree (empty : world.transactions = .empty)
    (amounts : ∀ value text, web3.fromWei value = .ok text → amount text = tokens value)
    (transfersReceived : ∀ data ∈ choice.node.transfers,
      choice.node.getTransactionReceipt data.transactionHash ≠ none)
    (referralsReceived : ∀ data ∈ choice.node.referralTransfers,
      choice.node.getTransactionReceipt data.transactionHash ≠ none)
    (returned : (checkAndRestoreTransactions app web3).evaluate (perform choice) world =
      (.ok (), after)) («from» «to» : String) :
    (((transfersBetween choice «from» «to»).map ContractEvent.transactionHash).Nodup →
      total amount ((recordsBetween after .tokenTransfer «from» «to»).filter fun tx =>
          tx.transactionHash ∈
            (transfersBetween choice «from» «to»).map ContractEvent.transactionHash) =
        ((transfersBetween choice «from» «to»).map fun data => tokens data.returnValues.value).sum) ∧
    (((referralTransfersBetween choice «from» «to»).map ContractEvent.transactionHash).Nodup →
      total amount (recordsBetween after .referralTransfer «from» «to») =
        ((referralTransfersBetween choice «from» «to»).map fun data =>
          tokens data.returnValues.tokenAmount).sum) := by
  have reliable := reliable_of_returned returned
  constructor
  · intro distinct
    refine @sum_events after M _ amount _ _ transferKey _ (fun _ => rfl) distinct ?_ _ ?_
    · intro data listed
      obtain ⟨receipt, received⟩ := Option.ne_none_iff_exists'.mp
        (transfersReceived data (List.mem_of_mem_filter listed))
      obtain ⟨tokenAmount, blockData, text, stored⟩ :=
        transfer_record reliable empty returned listed distinct received
      exact ⟨_, stored, amounts _ _ text⟩
    · rw [recordsBetween, List.filter_filter]
      refine List.filter_congr fun tx _ => ?_
      rw [← Bool.decide_and]
      exact decide_eq_decide.mpr ((and_comm).trans mem_transferKeys.symm)
  · intro distinct
    refine @sum_events after M _ amount _ _ referralKey _ (fun _ => rfl) distinct ?_ _ ?_
    · intro data listed
      obtain ⟨receipt, received⟩ := Option.ne_none_iff_exists'.mp
        (referralsReceived data (List.mem_of_mem_filter listed))
      obtain ⟨tokenAmount, blockData, text, stored⟩ :=
        referral_record reliable empty returned listed distinct received
      exact ⟨_, stored, amounts _ _ text⟩
    · refine List.filter_congr fun tx member => ?_
      have stored : (after.records tx.key).isSome = true :=
        Option.isSome_iff_exists.mpr ⟨tx, Indexed.record_eq_some_iff_vals.mpr ⟨member, rfl⟩⟩
      refine decide_eq_decide.mpr ?_
      by_cases type : tx.type = .referralTransfer
      · exact (mem_referralKeys (referral_event reliable empty returned type stored)).symm
      · refine iff_of_false (fun parts => type parts.1) fun keyed => ?_
        obtain ⟨data, _, same⟩ := List.mem_map.mp keyed
        exact type (congrArg TransactionKey.type same).symm

end Sums
/-! ## Samples -/

def wholeTokens (text : String) : Nat := if text = "1" then 1 else 0

def tokensOfWei (value : String) : Nat := if value = "1000000000000000000" then 1 else 0

theorem exact_sample (value text : String) (read : Web3.sample.fromWei value = .ok text) :
    wholeTokens text = tokensOfWei value := by
  simp only [Web3.sample] at read
  split at read
  · rename_i zero
    cases read
    rw [zero]
    rfl
  · split at read
    · rename_i one
      cases read
      rw [one]
      rfl
    · cases read

/-- The job has gone through a chain, from an empty store. -/
def restoredUnder (choice : Choice) : Except Exception Unit × World :=
  (checkAndRestoreTransactions sampleApp .sample).evaluate (perform choice) {}

/-- One call makes two transfers of a token from Alice to Bob. -/
def doubledChoice : Choice :=
  { transferChoice with
    node := { sampleNode [transfer] with transfers := [transferEvent, transferEvent] } }

/-- The transfer has failed, and emitted nothing. -/
def failedChoice : Choice :=
  { node := { sampleNode [transfer] with getTransactionReceipt := fun _ => some ⟨.flag false⟩ }
    investors := [alice] }

set_option maxRecDepth 4000 in
theorem transfer_sum :
    total wholeTokens ((recordsBetween (restoredUnder transferChoice).2 .tokenTransfer aliceAddress
        bobAddress).filter fun tx => tx.transactionHash ∈
          (transfersBetween transferChoice aliceAddress bobAddress).map
            ContractEvent.transactionHash) =
      ((transfersBetween transferChoice aliceAddress bobAddress).map fun data =>
        tokensOfWei data.returnValues.value).sum := by
  have returned : (restoredUnder transferChoice).1 = .ok () := rfl
  have received : ∀ hash, transferChoice.node.getTransactionReceipt hash ≠ none :=
    fun hash none => nomatch none
  exact (sums_agree rfl exact_sample (fun data _ => received data.transactionHash)
    (fun data _ => received data.transactionHash) (Prod.ext returned rfl) aliceAddress bobAddress).1
    (by decide)

set_option maxRecDepth 4000 in
theorem sums_disagree :
    ((restoredUnder doubledChoice).1 = .ok () ∧
      ¬ SumsAgree wholeTokens tokensOfWei doubledChoice (restoredUnder doubledChoice).2) ∧
    ((restoredUnder failedChoice).1 = .ok () ∧
      ¬ SumsAgree wholeTokens tokensOfWei failedChoice (restoredUnder failedChoice).2) := by
  refine ⟨⟨rfl, fun agree => ?_⟩, rfl, fun agree => ?_⟩
  · have doubled := (agree aliceAddress bobAddress).1
    exact absurd doubled (by decide +kernel)
  · have failed := (agree aliceAddress bobAddress).1
    exact absurd failed (by decide +kernel)

end IcoDashboard.Chain
