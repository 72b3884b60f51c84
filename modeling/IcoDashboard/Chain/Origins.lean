import IcoDashboard.Chain.Statuses

namespace IcoDashboard.Chain

open IcoDashboard.Async IcoDashboard.Async.Program IcoDashboard.Data
open TransactionService Web3Handler

/-! # Origins of records

What a stored record goes back to, in any interleaving of the handlers: a
transaction that the node has shown and that involves an investor, or an event
of the contracts.  The columns that say so never change.
-/

variable {app : App} {web3 : Web3}

/-- The columns that no save changes. -/
structure Columns where
  transactionHash : String
  type : TransactionType
  «from» : String
  «to» : Option String
  ethAmount : String
  tokenAmount : Option String
deriving DecidableEq, Repr

def Columns.of (tx : Transaction) : Columns where
  transactionHash := tx.transactionHash
  type := tx.type
  «from» := tx.from
  «to» := tx.to
  ethAmount := tx.ethAmount
  tokenAmount := tx.tokenAmount

/-- The node has shown the transaction, in a block or by its hash. -/
def ShownBy (trace : ChainTrace) (data : TransactionData) : Prop :=
  (∃ block blockData, ⟨.getBlock block, .ok (some blockData)⟩ ∈ trace ∧
    data ∈ blockData.transactions) ∨
  ∃ hash, ⟨.getTransaction hash, .ok (some data)⟩ ∈ trace

theorem ShownBy.extended {trace later : ChainTrace} {data : TransactionData}
    (shown : ShownBy trace data) (extended : trace <+: later) : ShownBy later data := by
  rcases shown with ⟨block, blockData, member, inBlock⟩ | ⟨hash, member⟩
  · exact .inl ⟨block, blockData, extended.subset member, inBlock⟩
  · exact .inr ⟨hash, extended.subset member⟩

/-- The record of a transaction that was shown, once an investor was found with
one of its addresses. -/
def OfTransaction (app : App) (web3 : Web3) (trace : ChainTrace) (columns : Columns) : Prop :=
  ∃ data addresses ethAmount count, ShownBy trace data ∧
    getFromToTokenAmount app web3 data = .ok addresses ∧ web3.fromWei data.value = .ok ethAmount ∧
    ⟨.countInvestors (investorAddresses addresses), .ok count⟩ ∈ trace ∧ 0 < count ∧
    columns =
      { transactionHash := data.hash, type := getTxTypeByData app data, «from» := addresses.from
        «to» := addresses.to, ethAmount, tokenAmount := addresses.tokenAmount }

/-- The record of an event of the token contract, announced or asked for. -/
def OfTransfer (web3 : Web3) (request : Request) (trace : ChainTrace) (columns : Columns) : Prop :=
  ∃ data tokenAmount,
    (request = .tokenTransfer data ∨ ∃ events, ⟨.getPastTransfers, .ok events⟩ ∈ trace ∧ data ∈ events) ∧
    web3.fromWei data.returnValues.value = .ok tokenAmount ∧
    columns =
      { transactionHash := data.transactionHash, type := .tokenTransfer
        «from» := data.returnValues.from, «to» := some data.returnValues.to, ethAmount := "0"
        tokenAmount := some tokenAmount }

/-- The record of an event of the referral contract. -/
def OfReferralTransfer (web3 : Web3) (request : Request) (trace : ChainTrace) (columns : Columns) :
    Prop :=
  ∃ data tokenAmount,
    (request = .referralTransfer data ∨
      ∃ events, ⟨.getPastReferralTransfers, .ok events⟩ ∈ trace ∧ data ∈ events) ∧
    web3.fromWei data.returnValues.tokenAmount = .ok tokenAmount ∧
    columns =
      { transactionHash := data.transactionHash, type := .referralTransfer
        «from» := data.returnValues.investor, «to» := some data.returnValues.referral
        ethAmount := "0", tokenAmount := some tokenAmount }

def Origin (app : App) (web3 : Web3) (request : Request) (trace : ChainTrace) (columns : Columns) :
    Prop :=
  OfTransaction app web3 trace columns ∨ OfTransfer web3 request trace columns ∨
    OfReferralTransfer web3 request trace columns

def OriginGuard (app : App) (web3 : Web3) (req : Request) (trace : ChainTrace) : Op → Prop
  | .insertTransaction tx => Origin app web3 req trace (Columns.of tx)
  | .saveTransaction tx => ∃ key found, ⟨.findTransaction key, .ok (some found)⟩ ∈ trace ∧
      tx.id = found.id ∧ Columns.of tx.val = Columns.of found.val
  | _ => True

/-! ## The handlers -/

section Handlers

variable {req : Request} {trace : ChainTrace} {tx : TransactionData}

/-- The meeting of the guard, whatever is returned or thrown. -/
abbrev KeepsOrigins (app : App) (web3 : Web3) (req : Request) (handler : Handler Unit)
    (trace : ChainTrace) : Prop :=
  handler.Meets (OriginGuard app web3 req) (fun _ _ => True) (fun _ _ => True) trace

theorem createAndSaveTransaction_origins {status : TransactionStatus} {blockData : Option BlockData}
    {now count : Nat} {addresses : FromToTokenAmount} (shown : ShownBy trace tx)
    (read : getFromToTokenAmount app web3 tx = .ok addresses)
    (counted : ⟨.countInvestors (investorAddresses addresses), .ok count⟩ ∈ trace)
    (positive : 0 < count) :
    KeepsOrigins app web3 req (createAndSaveTransaction app web3 tx status blockData now) trace := by
  simp only [KeepsOrigins, createAndSaveTransaction, request, call, meets_bind, meets_ofExcept,
    meets_await, meets_done, meets_fail, implies_true, and_true]
  intro addresses' read' ethAmount value
  rw [read] at read'
  cases read'
  exact .inl ⟨tx, addresses, ethAmount, count, shown, read, value, counted, positive, rfl⟩

theorem saveConfirmedTransaction_origins {blockData : BlockData} {receipt : Receipt}
    (shown : ShownBy trace tx) :
    KeepsOrigins app web3 req (saveConfirmedTransaction app web3 tx blockData receipt) trace := by
  simp only [KeepsOrigins, saveConfirmedTransaction, getTxByTxData, getUserCountByTxData, updateTx,
    request, call, meets_bind, meets_ofExcept, meets_await, meets_done, meets_fail, OriginGuard,
    implies_true, and_true, true_and]
  intro addresses read found
  cases found with
  | none =>
      simp only [meets_bind, meets_ofExcept, meets_await, meets_done, meets_fail, meets_ite,
        meets_pure, OriginGuard, implies_true, and_true, true_and]
      intro addresses' read' count positive
      exact createAndSaveTransaction_origins (shown.extended (by simp)) read' (by simp) positive
  | some loaded =>
      simp only [meets_bind, meets_ofExcept, meets_await, meets_done, meets_fail, meets_ite,
        meets_pure, OriginGuard, implies_true, and_true, true_and]
      intro _ _ _ _ _
      exact ⟨recordKey app tx addresses, loaded, by simp, rfl, rfl⟩

theorem processTransaction_origins {blockData : BlockData} (shown : ShownBy trace tx) :
    KeepsOrigins app web3 req (processTransaction app web3 blockData tx) trace := by
  simp only [KeepsOrigins, processTransaction, request, call, meets_bind, meets_await, meets_done,
    meets_fail, OriginGuard, implies_true, and_true, true_and]
  intro found
  cases found with
  | none => trivial
  | some receipt => exact saveConfirmedTransaction_origins (shown.extended (List.prefix_append _ _))

theorem processBlock_origins (block : BlockId) :
    KeepsOrigins app web3 req (processBlock app web3 block) trace := by
  simp only [KeepsOrigins, processBlock, request, call, meets_bind, meets_await, meets_done,
    meets_fail, meets_orThrow, OriginGuard, implies_true, and_true, true_and]
  intro found blockData known
  subst known
  exact Meets.forEachIn fun tx inBlock later extended =>
    processTransaction_origins (.inl ⟨block, blockData, extended.subset (by simp), inBlock⟩)

theorem processPendingTransaction_origins (txHash : String) (now : Nat) :
    KeepsOrigins app web3 req (processPendingTransaction app web3 txHash now) trace := by
  simp only [KeepsOrigins, processPendingTransaction, request, call, meets_bind, meets_await,
    meets_done, meets_fail, OriginGuard, implies_true, and_true, true_and]
  intro data
  cases data with
  | none => trivial
  | some tx =>
      simp only [getTxByTxData, getUserCountByTxData, request, call, meets_bind, meets_ofExcept,
        meets_await, meets_done, meets_fail, OriginGuard, implies_true, and_true, true_and]
      intro addresses _ found
      cases found with
      | some _ => trivial
      | none =>
          simp only [meets_bind, meets_ofExcept, meets_await, meets_done, meets_fail, meets_ite,
            meets_pure, OriginGuard, implies_true, and_true, true_and]
          intro addresses' read' count positive
          exact createAndSaveTransaction_origins (.inr ⟨txHash, by simp⟩) read' (by simp) positive

theorem processTokenTransfer_origins {data : TransferEvent}
    (announced : req = .tokenTransfer data ∨
      ∃ events, ⟨.getPastTransfers, .ok events⟩ ∈ trace ∧ data ∈ events) :
    KeepsOrigins app web3 req (processTokenTransfer web3 data) trace := by
  simp only [KeepsOrigins, processTokenTransfer, request, call, meets_bind, meets_await, meets_done,
    meets_fail, OriginGuard, implies_true, and_true, true_and]
  intro found received
  cases received with
  | none => trivial
  | some receipt =>
      simp only [meets_bind, meets_await, meets_done, meets_fail, meets_ofExcept, meets_orThrow,
        OriginGuard, implies_true, and_true, true_and]
      intro fetched tokenAmount value blockData _
      cases found with
      | none =>
          simp only [meets_await, meets_done, meets_fail, implies_true, and_true]
          refine .inr (.inl ⟨data, tokenAmount, announced.imp_right fun asked => ?_, value, rfl⟩)
          obtain ⟨events, member, inEvents⟩ := asked
          exact ⟨events, by simp [member], inEvents⟩
      | some loaded =>
          simp only [meets_ite, meets_await, meets_done, meets_fail, meets_pure, implies_true, and_true]
          exact fun _ => ⟨transferKey data, loaded, by simp, rfl, rfl⟩

theorem processReferralTransfer_origins {data : ReferralTransferEvent}
    (announced : req = .referralTransfer data ∨
      ∃ events, ⟨.getPastReferralTransfers, .ok events⟩ ∈ trace ∧ data ∈ events) :
    KeepsOrigins app web3 req (processReferralTransfer web3 data) trace := by
  simp only [KeepsOrigins, processReferralTransfer, request, call, meets_bind, meets_await,
    meets_done, meets_fail, OriginGuard, implies_true, and_true, true_and]
  intro existing
  cases existing with
  | some _ => trivial
  | none =>
      simp only [meets_bind, meets_await, meets_done, meets_fail, OriginGuard, implies_true, and_true,
        true_and]
      intro received
      cases received with
      | none => trivial
      | some receipt =>
          simp only [meets_bind, meets_await, meets_done, meets_fail, meets_ofExcept, meets_orThrow,
            OriginGuard, implies_true, and_true, true_and]
          intro fetched tokenAmount value blockData _
          refine .inr (.inr ⟨data, tokenAmount, announced.imp_right fun asked => ?_, value, rfl⟩)
          obtain ⟨events, member, inEvents⟩ := asked
          exact ⟨events, by simp [member], inEvents⟩

theorem checkAndRestoreTransactions_origins :
    KeepsOrigins app web3 req (checkAndRestoreTransactions app web3) trace := by
  simp only [KeepsOrigins, checkAndRestoreTransactions, request, call, meets_bind, meets_await,
    meets_done, meets_fail, OriginGuard, implies_true, and_true, true_and]
  intro transfers
  refine Meets.afterEither (Meets.forEachIn fun data inEvents later extended =>
    processTokenTransfer_origins (.inr ⟨transfers, extended.subset (by simp), inEvents⟩)) ?_
    fun _ _ _ => trivial
  intro _ _ _ referrals
  refine Meets.afterEither (Meets.forEachIn fun data inEvents later extended =>
    processReferralTransfer_origins (.inr ⟨referrals, extended.subset (by simp), inEvents⟩)) ?_
    fun _ _ _ => trivial
  intro _ _ _ current last
  exact Meets.afterEither (Meets.forEach fun number _ _ => processBlock_origins (.number number))
    (fun _ _ _ => trivial) fun _ _ _ => trivial

theorem handle_origins (app : App) (web3 : Web3) (req : Request) :
    KeepsOrigins app web3 req (handle app web3 req) [] := by
  cases req with
  | newBlockHeaders data =>
      simp only [handle, processNewBlockHeaders]
      split
      · trivial
      · trivial
      · exact processBlock_origins _
  | pendingTransaction txHash now => exact processPendingTransaction_origins txHash now
  | tokenTransfer data => exact processTokenTransfer_origins (.inl rfl)
  | referralTransfer data => exact processReferralTransfer_origins (.inl rfl)
  | checkAndRestoreTransactions => exact checkAndRestoreTransactions_origins

end Handlers

/-! ## The stored records -/

def columnsOf (world : World) (id : Nat) : Option Columns :=
  (world.transactions.collection.lookup id).map Columns.of

/-- A handler inserted a record with these columns. -/
def Inserted (log : List ChainEvent) (columns : Columns) : Prop :=
  ∃ past thread inserted, Occurs log past ⟨thread, ⟨.insertTransaction inserted, .ok ()⟩⟩ ∧
    Columns.of inserted = columns

theorem Inserted.append {log : List ChainEvent} {columns : Columns} (inserted : Inserted log columns)
    (event : ChainEvent) : Inserted (log ++ [event]) columns := by
  obtain ⟨past, thread, tx, occurs, same⟩ := inserted
  exact ⟨past, thread, tx, occurs_append.mpr (.inl occurs), same⟩

/-- Stored columns were inserted, and those of loaded copies are stored. -/
structure ColumnsInvariant (world : World) (log : List ChainEvent) : Prop where
  stored : ∀ id columns, columnsOf world id = some columns → Inserted log columns
  loaded : ∀ thread key found, ⟨thread, ⟨.findTransaction key, .ok (some found)⟩⟩ ∈ log →
    columnsOf world found.id = some (Columns.of found.val)

section Calls

variable {world : World} {log : List ChainEvent} {thread : Nat} {req : Request} {op : Op}
  {choice : Choice}

/-- A call keeps the columns under every id, and may insert a record. -/
theorem columnsOf_step (invariant : ColumnsInvariant world log)
    (guard : OriginGuard app web3 req (localTrace thread log) op) :
    columnsOf (perform choice op world).2 = columnsOf world ∨
    ∃ tx, (⟨op, (perform choice op world).1⟩ : Call Op Ans Exception) = ⟨.insertTransaction tx, .ok ()⟩ ∧
      (∀ id columns, columnsOf world id = some columns →
        columnsOf (perform choice op world).2 id = some columns) ∧
      ∀ id columns, columnsOf (perform choice op world).2 id = some columns →
        columnsOf world id = some columns ∨ columns = Columns.of tx := by
  unfold perform
  cases choice.rejects with
  | some error => exact .inl rfl
  | none =>
      cases op with
      | insertTransaction tx =>
          simp only [answer]
          split
          · rename_i after inserted
            refine .inr ⟨tx, rfl, fun id columns found => ?_, fun id columns found => ?_⟩
            · obtain ⟨stored, lookup, same⟩ := Option.map_eq_some_iff.mp found
              exact Option.map_eq_some_iff.mpr ⟨stored, Indexed.lookup_insert inserted lookup, same⟩
            · obtain ⟨stored, lookup, same⟩ := Option.map_eq_some_iff.mp found
              rcases Indexed.lookup_of_insert inserted lookup with old | new
              · exact .inl (Option.map_eq_some_iff.mpr ⟨stored, old, same⟩)
              · exact .inr (by rw [← same, new])
          · exact .inl rfl
      | saveTransaction tx =>
          simp only [answer]
          split
          · rename_i after saved
            left
            funext id
            obtain ⟨key, found, member, sameId, same⟩ := guard
            have current := invariant.loaded thread key found (mem_localTrace.mp member)
            unfold columnsOf
            rw [Indexed.lookup_save saved]
            split
            · rename_i own
              obtain ⟨stored, lookup, columns⟩ := Option.map_eq_some_iff.mp current
              rw [own, sameId, lookup]
              simp [Transaction.write, same, columns]
            · rfl
          · exact .inl rfl
      | _ => exact .inl rfl

theorem ColumnsInvariant.step (invariant : ColumnsInvariant world log)
    (guard : OriginGuard app web3 req (localTrace thread log) op) :
    ColumnsInvariant (perform choice op world).2
      (log ++ [⟨thread, ⟨op, (perform choice op world).1⟩⟩]) := by
  have stepped := @columnsOf_step app web3 world log thread req op choice invariant guard
  refine ⟨fun id columns found => ?_, fun other key found member => ?_⟩
  · rcases stepped with same | ⟨tx, call, _, inserted⟩
    · rw [same] at found
      exact (invariant.stored id columns found).append _
    · rcases inserted id columns found with old | new
      · exact (invariant.stored id columns old).append _
      · rw [call]
        exact ⟨log, thread, tx, occurs_append.mpr (.inr ⟨rfl, rfl⟩), new.symm⟩
  · have keeps : ∀ id columns, columnsOf world id = some columns →
        columnsOf (perform choice op world).2 id = some columns := by
      rcases stepped with same | ⟨_, _, kept, _⟩
      · rw [same]
        exact fun _ _ found => found
      · exact kept
    rcases mem_performed_ok member with old | ⟨rfl, answered⟩
    · exact keeps _ _ (invariant.loaded other key found old)
    · refine keeps _ _ (Option.map_eq_some_iff.mpr ⟨found.val, ?_, rfl⟩)
      exact Indexed.lookup_of_find (Except.ok.inj answered)

end Calls

variable {state later : ChainState}

theorem columnsInvariant (reached : (handlers app web3).Reachable (.idle {}) state) :
    ColumnsInvariant state.world state.log := by
  have start : ColumnsInvariant ({} : World) [] := by
    refine ⟨fun id columns found => ?_, fun _ _ _ member => ?_⟩
    · cases found
    · cases member
  refine System.Reachable.calls start ?_ reached
  intro state thread choice req op _ before awaiting invariant
  exact invariant.step (before.guarded (handle_origins app web3) awaiting).1

/-- The columns under an id stay. -/
theorem columnsOf_kept (before : (handlers app web3).Reachable (.idle {}) state)
    (reached : (handlers app web3).Reachable state later) {id : Nat} {columns : Columns}
    (stored : columnsOf state.world id = some columns) :
    columnsOf later.world id = some columns := by
  induction reached with
  | initial => exact stored
  | @step state action reached ih =>
      rcases (handlers app web3).step_cases state action with same | ⟨request, _, started⟩ |
        ⟨thread, choice, request, op, resume, _, awaiting, resumed⟩
      · rw [same]
        exact ih
      · rw [started]
        exact ih
      · rw [resumed]
        have current := before.trans reached
        rcases columnsOf_step (columnsInvariant current)
          (current.guarded (handle_origins app web3) awaiting).1 with same | ⟨_, _, kept, _⟩
        · exact (congrFun same id).trans ih
        · exact kept id columns ih

theorem key_of_columns {first second : Transaction} (same : Columns.of first = Columns.of second) :
    first.key = second.key := by
  simp only [Columns.of, Columns.mk.injEq] at same
  simp [Transaction.key, same]

/-- The record stays under its key, with its columns. -/
theorem record_kept (before : (handlers app web3).Reachable (.idle {}) state)
    (reached : (handlers app web3).Reachable state later) {key : TransactionKey} {tx : Transaction}
    (stored : state.world.records key = some tx) :
    ∃ tx', later.world.records key = some tx' ∧ Columns.of tx' = Columns.of tx := by
  obtain ⟨id, lookup, ownKey⟩ := Indexed.record_eq_some_iff.mp stored
  have kept := columnsOf_kept before reached
    (Option.map_eq_some_iff.mpr ⟨tx, lookup, rfl⟩ : columnsOf state.world id = some (Columns.of tx))
  obtain ⟨tx', lookup', same⟩ := Option.map_eq_some_iff.mp kept
  exact ⟨tx', Indexed.record_eq_some_iff.mpr ⟨id, lookup', (key_of_columns same).trans ownKey⟩, same⟩

/-- The thread serves this request. -/
def Serves (state : ChainState) (thread : Nat) (req : Request) : Prop :=
  ∃ program, state.threads[thread]? = some ⟨req, program⟩

/-- The insertion that a stored record goes back to, and what its handler knew. -/
def RecordedBy (app : App) (web3 : Web3) (state : ChainState) (past : List ChainEvent) (thread : Nat)
    (req : Request) (tx : Transaction) : Prop :=
  ∃ inserted, Occurs state.log past ⟨thread, ⟨.insertTransaction inserted, .ok ()⟩⟩ ∧
    Columns.of inserted = Columns.of tx ∧ Serves state thread req ∧
    Origin app web3 req (localTrace thread past) (Columns.of tx)

theorem recordedBy (reached : (handlers app web3).Reachable (.idle {}) state) {key : TransactionKey}
    {tx : Transaction} (stored : state.world.records key = some tx) :
    ∃ past thread req, RecordedBy app web3 state past thread req tx := by
  obtain ⟨id, lookup, _⟩ := Indexed.record_eq_some_iff.mp stored
  obtain ⟨past, thread, inserted, occurs, same⟩ := (columnsInvariant reached).stored id (Columns.of tx)
    (Option.map_eq_some_iff.mpr ⟨tx, lookup, rfl⟩)
  obtain ⟨origin, choice, req, resume, before, rfl, awaiting, _, after⟩ := reached.event_origin occurs
  have guard := (before.guarded (handle_origins app web3) awaiting).1
  have onward := (System.Reachable.initial.step (.resume thread choice)).trans after
  exact ⟨origin.log, thread, req, inserted, occurs, same, onward.request_stable awaiting, same ▸ guard⟩

/-- In every interleaving of the handlers, a stored record goes back to one
insertion: of a transaction that the node had shown and of which an investor had
an address, or of an event of the contracts; its hash, type, addresses and
amounts are what was read there, and they never change. -/
theorem record_origin (reached : (handlers app web3).Reachable (.idle {}) state) {key : TransactionKey}
    {tx : Transaction} (stored : state.world.records key = some tx) :
    (∃ past thread req, RecordedBy app web3 state past thread req tx) ∧
    ∀ later, (handlers app web3).Reachable state later →
      ∃ tx', later.world.records key = some tx' ∧ Columns.of tx' = Columns.of tx :=
  ⟨recordedBy reached stored, fun _ onward => record_kept reached onward stored⟩

/-- The block of the sample payment is handled. -/
def paidBlock : ChainState := (handlers sampleApp .sample).run (.idle {}) (blockActions [payment] 5)

theorem payment_origin :
    ∃ past thread req, RecordedBy sampleApp .sample paidBlock past thread req
      (minedRecord sampleApp .sample (sampleBlock [payment]) ⟨.flag true⟩ payment
        ⟨aliceAddress, some bobAddress, none⟩) := by
  have stored : paidBlock.world.records
      ⟨"0xe5d5", .ethereumTransfer, aliceAddress, some bobAddress⟩ =
      some (minedRecord sampleApp .sample (sampleBlock [payment]) ⟨.flag true⟩ payment
        ⟨aliceAddress, some bobAddress, none⟩) := rfl
  exact (record_origin (System.reachable_run _ _) stored).1

end IcoDashboard.Chain
