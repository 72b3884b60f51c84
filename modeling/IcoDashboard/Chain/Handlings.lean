import IcoDashboard.Chain.Contracts
import Mathlib.Logic.Function.Basic

namespace IcoDashboard.Chain

open IcoDashboard.Async IcoDashboard.Async.Program IcoDashboard.Data

/-! # Handlings

What the component is for, without its queries: a record under each key, and
four ways in which a handler treats the record it is about.  The handlers are
shown to do just that.
-/

abbrev Records : Type := TransactionKey → Option Transaction

def World.records (world : World) : Records := world.transactions.record

/-- Each carries the record it creates when there is none. -/
inductive Handling where
  | announced (record : Transaction) (involved : Bool)
  | mined (record : Transaction) (involved : Bool)
  | transferred (record : Transaction)
  | referred (record : Transaction)

namespace Handling

def record : Handling → Transaction
  | .announced record _ => record
  | .mined record _ => record
  | .transferred record => record
  | .referred record => record

def key (handling : Handling) : TransactionKey := handling.record.key

/-- What a block leaves of a record that is stored already. -/
def confirm (record : Transaction) (involved : Bool) (tx : Transaction) : Transaction :=
  if (tx.type = .tokenTransfer ∧ record.status = .confirmed) ∨ tx.status ≠ .pending then tx
  else if involved then
    { tx with
      status := record.status, timestamp := record.timestamp, blockNumber := record.blockNumber }
  else tx

/-- What a Transfer event leaves of it. -/
def settle (record : Transaction) (tx : Transaction) : Transaction :=
  if tx.status = .pending then { tx with status := record.status } else tx

def change : Handling → Option Transaction → Option Transaction
  | .announced record involved, none => if involved then some record else none
  | .mined record involved, none => if involved then some record else none
  | .transferred record, none => some record
  | .referred record, none => some record
  | .announced _ _, some tx => some tx
  | .mined record involved, some tx => some (confirm record involved tx)
  | .transferred record, some tx => some (settle record tx)
  | .referred _, some tx => some tx

def apply (handling : Handling) (records : Records) : Records :=
  Function.update records handling.key (handling.change (records handling.key))

def applyAll (handlings : List Handling) (records : Records) : Records :=
  handlings.foldl (fun records handling => handling.apply records) records

theorem applyAll_append (first second : List Handling) (records : Records) :
    applyAll (first ++ second) records = applyAll second (applyAll first records) :=
  List.foldl_append

theorem apply_own (handling : Handling) (records : Records) :
    handling.apply records handling.key = handling.change (records handling.key) :=
  Function.update_self _ _ _

/-- The invariant rule for the record under one key. -/
theorem applyAll_rule {P : Option Transaction → Prop} {handlings : List Handling}
    {records : Records} {key : TransactionKey} (holds : P (records key))
    (step : ∀ handling ∈ handlings, handling.key = key → ∀ record, P record →
      P (handling.change record)) : P (applyAll handlings records key) := by
  induction handlings generalizing records with
  | nil => exact holds
  | cons handling rest ih =>
      apply ih
      · change P (handling.apply records key)
        by_cases own : key = handling.key
        · subst own
          rw [apply, Function.update_self]
          exact step handling List.mem_cons_self rfl _ holds
        · rw [apply, Function.update_of_ne own]
          exact holds
      · intro other member
        exact step other (List.mem_cons_of_mem _ member)

/-- The rule for a list with a handling that takes one invariant to another. -/
theorem applyAll_through {P Q : Option Transaction → Prop} {handlings : List Handling}
    {records : Records} {handling : Handling} (member : handling ∈ handlings)
    (holds : P (records handling.key))
    (before : ∀ other ∈ handlings, other.key = handling.key → ∀ record, P record →
      P (other.change record))
    (here : ∀ record, P record → Q (handling.change record))
    (after : ∀ other ∈ handlings, other.key = handling.key → ∀ record, Q record →
      Q (other.change record)) : Q (applyAll handlings records handling.key) := by
  obtain ⟨first, last, rfl⟩ := List.mem_iff_append.mp member
  have reached : P (applyAll first records handling.key) :=
    applyAll_rule holds fun other earlier => before other (by simp [earlier])
  rw [applyAll_append]
  refine @applyAll_rule Q last (handling.apply (applyAll first records)) _ ?_
    fun other later => after other (by simp [later])
  rw [apply_own]
  exact here _ reached

theorem change_isSome {handling : Handling} {record : Option Transaction}
    (stored : record.isSome = true) : (handling.change record).isSome = true := by
  obtain ⟨tx, rfl⟩ := Option.isSome_iff_exists.mp stored
  cases handling <;> rfl

/-- No record is ever removed. -/
theorem applyAll_creates {handlings : List Handling} {records : Records} {handling : Handling}
    (member : handling ∈ handlings) (creates : (handling.change none).isSome = true) :
    (applyAll handlings records handling.key).isSome = true := by
  have created : ∀ record, True → (handling.change record).isSome = true := by
    intro record _
    cases record with
    | none => exact creates
    | some tx => exact change_isSome rfl
  have kept : ∀ other ∈ handlings, other.key = handling.key → ∀ record,
      record.isSome = true → (other.change record).isSome = true :=
    fun _ _ _ _ stored => change_isSome stored
  exact @applyAll_through (fun _ => True) (fun record => record.isSome = true) _ _ _ member trivial
    (fun _ _ _ _ _ => trivial) created kept

theorem applyAll_unchanged {handlings : List Handling} {records : Records} {key : TransactionKey}
    (unchanged : ∀ handling ∈ handlings, handling.key = key →
      handling.change (records key) = records key) :
    applyAll handlings records key = records key := by
  refine @applyAll_rule (· = records key) handlings records key rfl ?_
  intro handling member own record same
  rw [same]
  exact unchanged handling member own

/-! ### Pending records -/

/-- No pending record. -/
def Settled (record : Option Transaction) : Prop :=
  ∀ tx, record = some tx → tx.status ≠ .pending

/-- A handling that knows the outcome of the transaction. -/
def Decided (handling : Handling) : Prop := handling.record.status ≠ .pending

theorem change_final {handling : Handling} {tx : Transaction} (final : tx.status ≠ .pending) :
    handling.change (some tx) = some tx := by
  cases handling with
  | announced record involved => rfl
  | mined record involved => exact congrArg some (if_pos (.inr final))
  | transferred record => exact congrArg some (if_neg final)
  | referred record => rfl

/-- A record that is not pending never changes again. -/
theorem applyAll_final {handlings : List Handling} {records : Records} {key : TransactionKey}
    {tx : Transaction} (stored : records key = some tx) (final : tx.status ≠ .pending) :
    applyAll handlings records key = some tx := by
  rw [← stored]
  refine applyAll_unchanged fun handling _ _ => ?_
  rw [stored]
  exact change_final final

theorem settled_change {handling : Handling} {record : Option Transaction}
    (decided : handling.Decided) (settled : Settled record) : Settled (handling.change record) := by
  cases record with
  | some tx =>
      rw [change_final (settled tx rfl)]
      exact settled
  | none =>
      intro tx created
      have own : tx = handling.record := by
        cases handling with
        | announced record involved =>
            cases involved <;> cases created
            rfl
        | mined record involved =>
            cases involved <;> cases created
            rfl
        | transferred record => cases created; rfl
        | referred record => cases created; rfl
      rw [own]
      exact decided

theorem applyAll_settled {handlings : List Handling} {records : Records} {key : TransactionKey}
    (decided : ∀ handling ∈ handlings, handling.Decided) (settled : Settled (records key)) :
    Settled (applyAll handlings records key) :=
  applyAll_rule settled fun handling member _ _ before =>
    settled_change (decided handling member) before

/-- The records are stored under their own keys. -/
def Keyed (records : Records) : Prop := ∀ key tx, records key = some tx → tx.key = key

theorem confirm_key (record : Transaction) (involved : Bool) (tx : Transaction) :
    (confirm record involved tx).key = tx.key := by
  unfold confirm
  split
  · rfl
  · split <;> rfl

theorem settle_key (record tx : Transaction) : (settle record tx).key = tx.key := by
  unfold settle
  split <;> rfl

theorem change_key {handling : Handling} {record : Option Transaction} {tx : Transaction}
    (changed : handling.change record = some tx)
    (own : ∀ old, record = some old → old.key = handling.key) : tx.key = handling.key := by
  cases record with
  | none =>
      cases handling with
      | announced record involved =>
          cases involved <;> cases changed
          rfl
      | mined record involved =>
          cases involved <;> cases changed
          rfl
      | transferred record => cases changed; rfl
      | referred record => cases changed; rfl
  | some old =>
      have oldKey := own old rfl
      cases handling with
      | announced record involved => cases changed; exact oldKey
      | mined record involved => cases changed; exact (confirm_key _ _ _).trans oldKey
      | transferred record => cases changed; exact (settle_key _ _).trans oldKey
      | referred record => cases changed; exact oldKey

/-- One handling that settles the record settles it for good. -/
theorem applyAll_settles {handlings : List Handling} {records : Records} {handling : Handling}
    (keyed : Keyed records) (decided : ∀ handling ∈ handlings, handling.Decided)
    (member : handling ∈ handlings)
    (settles : ∀ tx, tx.key = handling.key → Settled (handling.change (some tx))) :
    Settled (applyAll handlings records handling.key) := by
  have keeps : ∀ other ∈ handlings, other.key = handling.key → ∀ record,
      (∀ tx, record = some tx → tx.key = handling.key) →
      ∀ tx, other.change record = some tx → tx.key = handling.key := by
    intro other _ same record keyed tx changed
    rw [← same] at keyed ⊢
    exact change_key changed keyed
  refine applyAll_through member (keyed handling.key) keeps ?_ fun other later _ _ =>
    settled_change (decided other later)
  intro record own
  cases record with
  | none => exact settled_change (decided handling member) (by simp [Settled])
  | some tx => exact settles tx (own tx rfl)

end Handling

/-! ## The store -/

variable {choice : Choice} {world : World}

theorem insert_records (reliable : choice.rejects = none) {tx : Transaction}
    (free : world.records tx.key = none) :
    ∃ after, perform choice (.insertTransaction tx) world = (.ok (), after) ∧
      after.lastCheckedBlock = world.lastCheckedBlock ∧
      after.records = Function.update world.records tx.key (some tx) := by
  obtain ⟨transactions, inserted, stored⟩ := Indexed.insert_free free
  refine ⟨{ world with transactions }, by simp [perform, reliable, answer, inserted], rfl, ?_⟩
  funext key
  rw [Function.update_apply]
  exact stored key

theorem save_records (reliable : choice.rejects = none) {key : TransactionKey}
    {loaded : Doc Nat Transaction} (found : world.transactions.find key = some loaded)
    {saved : Transaction} (sameKey : saved.key = key) :
    ∃ after, perform choice (.saveTransaction ⟨loaded.id, saved⟩) world = (.ok (), after) ∧
      after.lastCheckedBlock = world.lastCheckedBlock ∧
      after.records = Function.update world.records key (some saved) := by
  have present := Indexed.lookup_of_find found
  have ownKey : loaded.val.key = key := (Indexed.find_eq_some_iff.mp found).2
  obtain ⟨transactions, written, stored⟩ :=
    @Indexed.save_keeping _ _ Transaction.key _ world.transactions ⟨loaded.id, saved⟩ Transaction.write
      loaded.val present (sameKey.trans ownKey.symm)
  refine ⟨{ world with transactions }, by simp [perform, reliable, answer, written], rfl, ?_⟩
  funext other
  rw [Function.update_apply, ← ownKey]
  exact stored other

theorem records_keyed (world : World) : Handling.Keyed world.records := by
  intro key tx stored
  exact Indexed.key_of_record stored

theorem records_of_find {key : TransactionKey} {found : Option (Doc Nat Transaction)}
    (finds : world.transactions.find key = found) : world.records key = found.map Doc.val := by
  rw [← finds]
  rfl

theorem perform_answer (reliable : choice.rejects = none) (op : Op) (world : World) :
    perform choice op world = answer choice world op := by
  simp [perform, reliable]

/-! ## What the handlers do -/

open TransactionService Web3Handler

variable (app : App) (web3 : Web3)

/-- Run to its end, the handler does nothing but these handlings. -/
def Performs (choice : Choice) (handler : Handler Unit) (handlings : List Handling) : Prop :=
  ∀ world after, handler.evaluate (perform choice) world = (.ok (), after) →
    after.lastCheckedBlock = world.lastCheckedBlock ∧
      after.records = Handling.applyAll handlings world.records

def Returns (choice : Choice) (handler : Handler Unit) : Prop :=
  ∀ world, (handler.evaluate (perform choice) world).1 = .ok ()

theorem Returns.ran {handler : Handler Unit} (returns : Returns choice handler) (world : World) :
    ∃ after, handler.evaluate (perform choice) world = (.ok (), after) :=
  ⟨_, Prod.ext (returns world) rfl⟩

/-- Whether one of the addresses is the wallet of an investor. -/
def involved (choice : Choice) (addresses : FromToTokenAmount) : Bool :=
  0 < choice.investors.countP (hasWallet (investorAddresses addresses))

/-- The record of a mined transaction.  Where the amount cannot be read, none is
ever created. -/
def minedRecord (blockData : BlockData) (receipt : Receipt) (tx : TransactionData)
    (addresses : FromToTokenAmount) : Transaction :=
  transformedTxData app tx addresses ((web3.fromWei tx.value).toOption.getD "")
    (getTxStatusByReceipt receipt) (some blockData) 0

def minedHandlings (choice : Choice) (blockData : BlockData) (tx : TransactionData) :
    List Handling :=
  match choice.node.getTransactionReceipt tx.hash, getFromToTokenAmount app web3 tx with
  | some receipt, .ok addresses =>
      [.mined (minedRecord app web3 blockData receipt tx addresses) (involved choice addresses)]
  | _, _ => []

variable {app web3}

theorem mem_minedHandlings {blockData : BlockData} {tx : TransactionData} {handling : Handling}
    (handled : handling ∈ minedHandlings app web3 choice blockData tx) :
    ∃ receipt addresses, choice.node.getTransactionReceipt tx.hash = some receipt ∧
      getFromToTokenAmount app web3 tx = .ok addresses ∧
      handling = .mined (minedRecord app web3 blockData receipt tx addresses)
        (involved choice addresses) := by
  unfold minedHandlings at handled
  split at handled
  · rename_i receipt addresses received read
    exact ⟨receipt, addresses, received, read, List.mem_singleton.mp handled⟩
  · cases handled

/-- Run on the world, the handler leaves these records when it returns, and it
returns when it can. -/
def Leaves (choice : Choice) (handler : Handler Unit) (world : World) (records : Records)
    (can : Prop) : Prop :=
  ∃ outcome after, handler.evaluate (perform choice) world = (outcome, after) ∧
    (outcome = .ok () → after.lastCheckedBlock = world.lastCheckedBlock ∧ after.records = records) ∧
    (can → outcome = .ok ())

theorem Leaves.congr {first second : Handler Unit} {records : Records} {can : Prop}
    (leaves : Leaves choice second world records can)
    (same : first.evaluate (perform choice) world = second.evaluate (perform choice) world) :
    Leaves choice first world records can := by
  unfold Leaves
  rw [same]
  exact leaves

theorem leaves_return {can : Prop} : Leaves choice (pure ()) world world.records can :=
  ⟨_, _, rfl, fun _ => ⟨rfl, rfl⟩, fun _ => rfl⟩

theorem insert_leaves (reliable : choice.rejects = none) {key : TransactionKey}
    (free : world.records key = none) {tx : Transaction} (sameKey : tx.key = key) {can : Prop} :
    Leaves choice (request (.insertTransaction tx)) world
      (Function.update world.records key (some tx)) can := by
  subst sameKey
  obtain ⟨after, inserted, kept, records⟩ := insert_records reliable free
  exact ⟨_, after, (evaluate_call _ _).trans inserted, fun _ => ⟨kept, records⟩, fun _ => rfl⟩

theorem save_leaves (reliable : choice.rejects = none) {key : TransactionKey}
    {loaded : Doc Nat Transaction} (found : world.transactions.find key = some loaded)
    {saved : Transaction} (sameKey : saved.key = key) {can : Prop} :
    Leaves choice (request (.saveTransaction ⟨loaded.id, saved⟩)) world
      (Function.update world.records key (some saved)) can := by
  obtain ⟨after, written, kept, records⟩ := save_records reliable found sameKey
  exact ⟨_, after, (evaluate_call _ _).trans written, fun _ => ⟨kept, records⟩, fun _ => rfl⟩

section Transactions

variable {tx : TransactionData} {addresses : FromToTokenAmount}

theorem evaluate_getTxByTxData (reliable : choice.rejects = none)
    (read : getFromToTokenAmount app web3 tx = .ok addresses) :
    (getTxByTxData app web3 tx).evaluate (perform choice) world =
      (.ok (world.transactions.find (recordKey app tx addresses)), world) := by
  simp [getTxByTxData, read, request, perform_answer reliable, answer]

theorem evaluate_getUserCountByTxData (reliable : choice.rejects = none)
    (read : getFromToTokenAmount app web3 tx = .ok addresses) :
    (getUserCountByTxData app web3 tx).evaluate (perform choice) world =
      (.ok (choice.investors.countP (hasWallet (investorAddresses addresses))), world) := by
  simp [getUserCountByTxData, read, request, perform_answer reliable, answer]

theorem createAndSaveTransaction_leaves (reliable : choice.rejects = none)
    (read : getFromToTokenAmount app web3 tx = .ok addresses) {status : TransactionStatus}
    {blockData : Option BlockData} {now : Nat} {record : Transaction}
    (creates : record = transformedTxData app tx addresses
      ((web3.fromWei tx.value).toOption.getD "") status blockData now)
    (free : world.records (recordKey app tx addresses) = none) :
    Leaves choice (createAndSaveTransaction app web3 tx status blockData now) world
      (Function.update world.records (recordKey app tx addresses) (some record))
      (∃ ethAmount, web3.fromWei tx.value = .ok ethAmount) := by
  cases amount : web3.fromWei tx.value with
  | error error =>
      have thrown : (createAndSaveTransaction app web3 tx status blockData now).evaluate
          (perform choice) world = (.error error, world) := by
        simp [createAndSaveTransaction, read, amount]
      exact ⟨_, _, thrown, by simp, by simp⟩
  | ok ethAmount =>
      rw [amount] at creates
      have sameKey : record.key = recordKey app tx addresses := by rw [creates]; rfl
      refine (insert_leaves reliable free sameKey).congr ?_
      rw [creates]
      simp [createAndSaveTransaction, read, amount, Except.toOption]

/-- A transaction without a record gets one if it is somebody's. -/
theorem create_leaves (reliable : choice.rejects = none)
    (read : getFromToTokenAmount app web3 tx = .ok addresses) {handler : Handler Unit}
    {status : TransactionStatus} {blockData : Option BlockData} {now : Nat} {record : Transaction}
    (creates : record = transformedTxData app tx addresses
      ((web3.fromWei tx.value).toOption.getD "") status blockData now)
    (free : world.records (recordKey app tx addresses) = none)
    (creating : choice.investors.countP (hasWallet (investorAddresses addresses)) > 0 →
      handler.evaluate (perform choice) world =
        (createAndSaveTransaction app web3 tx status blockData now).evaluate (perform choice) world)
    (ignoring : ¬ choice.investors.countP (hasWallet (investorAddresses addresses)) > 0 →
      handler.evaluate (perform choice) world = (.ok (), world)) :
    Leaves choice handler world
      (Function.update world.records (recordKey app tx addresses)
        (if involved choice addresses then some record else none))
      (∃ ethAmount, web3.fromWei tx.value = .ok ethAmount) := by
  by_cases counted : choice.investors.countP (hasWallet (investorAddresses addresses)) > 0
  · have counts : involved choice addresses = true := by simpa [involved] using counted
    rw [if_pos counts]
    exact (createAndSaveTransaction_leaves reliable read creates free).congr (creating counted)
  · have counts : ¬ involved choice addresses = true := by simpa [involved] using counted
    rw [if_neg counts, ← free, Function.update_eq_self]
    exact leaves_return.congr (ignoring counted)

theorem updateTx_leaves (reliable : choice.rejects = none) {key : TransactionKey}
    {loaded : Doc Nat Transaction} (found : world.transactions.find key = some loaded)
    {status : TransactionStatus} {blockData : BlockData} {can : Prop} :
    Leaves choice (updateTx loaded status blockData) world
      (Function.update world.records key (some { loaded.val with
        status, timestamp := blockData.timestamp, blockNumber := some blockData.number })) can := by
  have sameKey : ({ loaded.val with
      status, timestamp := blockData.timestamp, blockNumber := some blockData.number } :
      Transaction).key = key := (Indexed.find_eq_some_iff.mp found).2
  exact save_leaves reliable found sameKey

theorem saveConfirmedTransaction_leaves (reliable : choice.rejects = none)
    {blockData : BlockData} {receipt : Receipt}
    (read : getFromToTokenAmount app web3 tx = .ok addresses) :
    Leaves choice (saveConfirmedTransaction app web3 tx blockData receipt) world
      ((Handling.mined (minedRecord app web3 blockData receipt tx addresses)
        (involved choice addresses)).apply world.records)
      (∃ ethAmount, web3.fromWei tx.value = .ok ethAmount) := by
  have counted : (choice.investors.countP (hasWallet (investorAddresses addresses)) > 0) ↔
      involved choice addresses = true := by simp [involved]
  unfold Handling.apply
  change Leaves _ _ _ (Function.update _ (recordKey app tx addresses)
    (Handling.change _ (world.records (recordKey app tx addresses)))) _
  cases found : world.transactions.find (recordKey app tx addresses) with
  | none =>
      have free : world.records (recordKey app tx addresses) = none := records_of_find found
      rw [free, Handling.change]
      refine create_leaves reliable read rfl free (fun counts => ?_) (fun ignored => ?_)
      · simp only [saveConfirmedTransaction, evaluate_bind, evaluate_getTxByTxData reliable read,
          found, evaluate_getUserCountByTxData reliable read, if_pos counts]
      · simp only [saveConfirmedTransaction, evaluate_bind, evaluate_getTxByTxData reliable read,
          found, evaluate_getUserCountByTxData reliable read, if_neg ignored, evaluate_pure]
  | some loaded =>
      have stored : world.records (recordKey app tx addresses) = some loaded.val :=
        records_of_find found
      rw [stored, Handling.change]
      by_cases settled : (loaded.val.type = .tokenTransfer ∧
          getTxStatusByReceipt receipt = .confirmed) ∨ loaded.val.status ≠ .pending
      · have unchanged : Handling.confirm (minedRecord app web3 blockData receipt tx addresses)
            (involved choice addresses) loaded.val = loaded.val := if_pos settled
        rw [unchanged, ← stored, Function.update_eq_self]
        refine leaves_return.congr ?_
        simp only [saveConfirmedTransaction, evaluate_bind, evaluate_getTxByTxData reliable read,
          found, if_pos settled]
      · by_cases counts : involved choice addresses = true
        · have updated : Handling.confirm (minedRecord app web3 blockData receipt tx addresses)
              (involved choice addresses) loaded.val = { loaded.val with
                status := getTxStatusByReceipt receipt, timestamp := blockData.timestamp
                blockNumber := some blockData.number } := (if_neg settled).trans (if_pos counts)
          rw [updated]
          refine (updateTx_leaves reliable found).congr ?_
          simp only [saveConfirmedTransaction, evaluate_bind, evaluate_getTxByTxData reliable read,
            found, if_neg settled, evaluate_getUserCountByTxData reliable read,
            if_pos (counted.mpr counts)]
        · have unchanged : Handling.confirm (minedRecord app web3 blockData receipt tx addresses)
              (involved choice addresses) loaded.val = loaded.val :=
            (if_neg settled).trans (if_neg counts)
          rw [unchanged, ← stored, Function.update_eq_self]
          refine leaves_return.congr ?_
          simp only [saveConfirmedTransaction, evaluate_bind, evaluate_getTxByTxData reliable read,
            found, if_neg settled, evaluate_getUserCountByTxData reliable read,
            if_neg (mt counted.mp counts)]

end Transactions

/-! ## Composition -/

variable {handler : Handler Unit} {handlings : List Handling} {can : Prop}

theorem performs_of_leaves
    (leaves : ∀ world, Leaves choice handler world (Handling.applyAll handlings world.records) can) :
    Performs choice handler handlings := by
  intro world after returned
  obtain ⟨outcome, left, evaluates, records, _⟩ := leaves world
  rw [evaluates] at returned
  cases returned
  exact records rfl

theorem returns_of_leaves {records : World → Records} (able : can)
    (leaves : ∀ world, Leaves choice handler world (records world) can) :
    Returns choice handler := by
  intro world
  obtain ⟨outcome, left, evaluates, _, returns⟩ := leaves world
  rw [evaluates]
  exact returns able

theorem performs_throw {error : Exception}
    (throws : ∀ world, handler.evaluate (perform choice) world = (.error error, world)) :
    Performs choice handler handlings := by
  intro world after returned
  rw [throws] at returned
  cases returned

theorem Performs.congr {other : Handler Unit} (performs : Performs choice other handlings)
    (same : ∀ world, handler.evaluate (perform choice) world = other.evaluate (perform choice) world) :
    Performs choice handler handlings := by
  intro world after returned
  rw [same] at returned
  exact performs world after returned

theorem Performs.forEach {β : Type} {values : List β} {body : β → Handler Unit}
    {handlings : β → List Handling}
    (performs : ∀ value ∈ values, Performs choice (body value) (handlings value)) :
    Performs choice (Program.forEach values body) (values.flatMap handlings) := by
  induction values with
  | nil =>
      intro world after returned
      cases returned
      exact ⟨rfl, rfl⟩
  | cons first rest ih =>
      intro world after returned
      obtain ⟨_, between, passed, rests⟩ := evaluate_bind_ok returned
      obtain ⟨keptFirst, recordsFirst⟩ := performs first List.mem_cons_self world between passed
      obtain ⟨keptRest, recordsRest⟩ :=
        ih (fun value member => performs value (List.mem_cons_of_mem _ member)) between after rests
      refine ⟨keptRest.trans keptFirst, ?_⟩
      rw [List.flatMap_cons, Handling.applyAll_append, ← recordsFirst]
      exact recordsRest

theorem Returns.forEach {β : Type} {values : List β} {body : β → Handler Unit}
    (returns : ∀ value ∈ values, Returns choice (body value)) :
    Returns choice (Program.forEach values body) := by
  induction values with
  | nil => exact fun _ => rfl
  | cons first rest ih =>
      intro world
      have passes := returns first List.mem_cons_self world
      have rests := ih fun value member => returns value (List.mem_cons_of_mem _ member)
      rw [Program.forEach, evaluate_bind]
      cases passed : (body first).evaluate (perform choice) world with
      | mk outcome between =>
          rw [passed] at passes
          cases passes
          exact rests between

/-! ## Blocks -/

section Blocks

variable {blockData : BlockData} {tx : TransactionData}

theorem processTransaction_without (reliable : choice.rejects = none)
    (none : choice.node.getTransactionReceipt tx.hash = none) (world : World) :
    (processTransaction app web3 blockData tx).evaluate (perform choice) world = (.ok (), world) := by
  simp [processTransaction, request, perform_answer reliable, answer, none]

theorem processTransaction_with (reliable : choice.rejects = none) {receipt : Receipt}
    (some : choice.node.getTransactionReceipt tx.hash = some receipt) (world : World) :
    (processTransaction app web3 blockData tx).evaluate (perform choice) world =
      (saveConfirmedTransaction app web3 tx blockData receipt).evaluate (perform choice) world := by
  simp [processTransaction, request, perform_answer reliable, answer, some]

theorem saveConfirmedTransaction_throws {receipt : Receipt} {error : Exception}
    (unreadable : getFromToTokenAmount app web3 tx = .error error) (world : World) :
    (saveConfirmedTransaction app web3 tx blockData receipt).evaluate (perform choice) world =
      (.error error, world) := by
  simp [saveConfirmedTransaction, getTxByTxData, unreadable]

theorem processTransaction_performs (reliable : choice.rejects = none) :
    Performs choice (processTransaction app web3 blockData tx)
      (minedHandlings app web3 choice blockData tx) := by
  unfold minedHandlings
  cases received : choice.node.getTransactionReceipt tx.hash with
  | none =>
      intro world after returned
      rw [processTransaction_without reliable received] at returned
      cases returned
      exact ⟨rfl, rfl⟩
  | some receipt =>
      cases read : getFromToTokenAmount app web3 tx with
      | error error =>
          exact performs_throw fun world => (processTransaction_with reliable received world).trans
            (saveConfirmedTransaction_throws read world)
      | ok addresses =>
          exact (performs_of_leaves fun world =>
            saveConfirmedTransaction_leaves reliable read).congr
              (processTransaction_with reliable received)

/-- What the code needs to read of a transaction that it records. -/
def Readable (app : App) (web3 : Web3) (tx : TransactionData) : Prop :=
  (∃ addresses, getFromToTokenAmount app web3 tx = .ok addresses) ∧
    ∃ ethAmount, web3.fromWei tx.value = .ok ethAmount

theorem processTransaction_returns (reliable : choice.rejects = none)
    (readable : choice.node.getTransactionReceipt tx.hash ≠ none → Readable app web3 tx) :
    Returns choice (processTransaction app web3 blockData tx) := by
  intro world
  cases received : choice.node.getTransactionReceipt tx.hash with
  | none => rw [processTransaction_without reliable received]
  | some receipt =>
      obtain ⟨⟨addresses, read⟩, amount⟩ := readable (by simp [received])
      obtain ⟨outcome, after, evaluates, _, returns⟩ :=
        @saveConfirmedTransaction_leaves choice world app web3 tx addresses reliable blockData
          receipt read
      rw [processTransaction_with reliable received, evaluates]
      exact returns amount

theorem processTransaction_reads (reliable : choice.rejects = none) {receipt : Receipt}
    (received : choice.node.getTransactionReceipt tx.hash = some receipt) {world : World}
    (returned : ((processTransaction app web3 blockData tx).evaluate (perform choice) world).1 =
      .ok ()) : ∃ addresses, getFromToTokenAmount app web3 tx = .ok addresses := by
  cases read : getFromToTokenAmount app web3 tx with
  | error error =>
      rw [processTransaction_with reliable received, saveConfirmedTransaction_throws read] at returned
      cases returned
  | ok addresses => exact ⟨addresses, rfl⟩

def blockHandlings (app : App) (web3 : Web3) (choice : Choice) (block : BlockId) : List Handling :=
  match choice.node.getBlock block with
  | some blockData => blockData.transactions.flatMap (minedHandlings app web3 choice blockData)
  | none => []

theorem processBlock_with (reliable : choice.rejects = none) {block : BlockId}
    (known : choice.node.getBlock block = some blockData) (world : World) :
    (processBlock app web3 block).evaluate (perform choice) world =
      (forEach blockData.transactions (processTransaction app web3 blockData)).evaluate
        (perform choice) world := by
  simp [processBlock, request, perform_answer reliable, answer, known]

theorem processBlock_without (reliable : choice.rejects = none) {block : BlockId}
    (unknown : choice.node.getBlock block = none) (world : World) :
    (processBlock app web3 block).evaluate (perform choice) world = (.error typeError, world) := by
  simp [processBlock, request, perform_answer reliable, answer, unknown]

theorem processBlock_performs (reliable : choice.rejects = none) {block : BlockId} :
    Performs choice (processBlock app web3 block) (blockHandlings app web3 choice block) := by
  unfold blockHandlings
  cases known : choice.node.getBlock block with
  | none =>
      exact performs_throw (processBlock_without reliable known)
  | some blockData =>
      exact (Performs.forEach fun tx _ => processTransaction_performs reliable).congr
        (processBlock_with reliable known)

theorem processBlock_returns (reliable : choice.rejects = none) {block : BlockId}
    (known : choice.node.getBlock block = some blockData)
    (readable : ∀ tx ∈ blockData.transactions, choice.node.getTransactionReceipt tx.hash ≠ none →
      Readable app web3 tx) : Returns choice (processBlock app web3 block) := by
  intro world
  rw [processBlock_with reliable known]
  exact Returns.forEach (fun tx member => processTransaction_returns reliable (readable tx member))
    world

theorem processBlock_reads (reliable : choice.rejects = none) {block : BlockId} {world : World}
    (returned : ((processBlock app web3 block).evaluate (perform choice) world).1 = .ok ()) :
    ∃ blockData, choice.node.getBlock block = some blockData ∧ ∀ tx ∈ blockData.transactions,
      choice.node.getTransactionReceipt tx.hash ≠ none →
      ∃ addresses, getFromToTokenAmount app web3 tx = .ok addresses := by
  cases known : choice.node.getBlock block with
  | none =>
      rw [processBlock_without reliable known] at returned
      cases returned
  | some blockData =>
      refine ⟨blockData, rfl, fun tx member received => ?_⟩
      obtain ⟨receipt, received⟩ := Option.ne_none_iff_exists'.mp received
      rw [processBlock_with reliable known] at returned
      obtain ⟨before, passed⟩ := evaluate_forEach_ok returned member
      exact processTransaction_reads reliable received passed

end Blocks

end IcoDashboard.Chain
