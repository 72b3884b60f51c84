import IcoDashboard.Chain.Recording

namespace IcoDashboard.Chain

open IcoDashboard.Async IcoDashboard.Async.Program IcoDashboard.Data
open TransactionService Web3Handler

/-! # Pending records

A record is stored as pending only for a transaction that was announced.  The
job settles it through the block of the transaction, or through a Transfer event
with the same hash and addresses.
-/

variable {app : App} {web3 : Web3}

/-! ## What the handlers store -/

/-- Pending records are created for announced transactions, and never by a save. -/
def StoreGuard (app : App) (web3 : Web3) (trace : ChainTrace) : Op → Prop
  | .insertTransaction tx => tx.status = .pending → ∃ hash data addresses,
      ⟨.getTransaction hash, .ok (some data)⟩ ∈ trace ∧
      getFromToTokenAmount app web3 data = .ok addresses ∧ tx.key = recordKey app data addresses
  | .saveTransaction tx => tx.val.status ≠ .pending
  | _ => True

theorem storeGuard_of_writeGuard {cursor : ChainTrace → Nat → Prop} {trace : ChainTrace} {op : Op}
    (guard : WriteGuard app web3 cursor trace op) : StoreGuard app web3 trace op := by
  cases op with
  | insertTransaction tx =>
      intro pending
      rcases guard with announces | received
      · exact announces.announced
      · exact absurd pending received.decided
  | saveTransaction tx =>
      obtain ⟨key, found, _, _, _, _, received⟩ := guard.loaded
      exact received.decided
  | _ => trivial

/-! ## Pending records were announced -/

def announcement : ChainEvent → Option TransactionData
  | ⟨_, ⟨.getTransaction _, .ok found⟩⟩ => found
  | _ => none

/-- The transactions that the node has given by their hash. -/
def announcements (log : List ChainEvent) : List TransactionData := log.filterMap announcement

/-- The key is that of a transaction that the node has announced. -/
def Announced (app : App) (web3 : Web3) (log : List ChainEvent) (key : TransactionKey) : Prop :=
  ∃ data ∈ announcements log, ∃ addresses,
    getFromToTokenAmount app web3 data = .ok addresses ∧ key = recordKey app data addresses

theorem Announced.append {log rest : List ChainEvent} {key : TransactionKey}
    (announced : Announced app web3 log key) : Announced app web3 (log ++ rest) key := by
  obtain ⟨data, member, addresses, read, same⟩ := announced
  refine ⟨data, ?_, addresses, read, same⟩
  unfold announcements
  rw [List.filterMap_append]
  exact List.mem_append_left _ member

def PendingAnnounced (app : App) (web3 : Web3) (world : World) (log : List ChainEvent) : Prop :=
  ∀ key tx, world.records key = some tx → tx.status = .pending → Announced app web3 log key

variable {state : ChainState}

/-- A call leaves a pending record only where one was, or where one was created. -/
theorem pending_performed {choice : Choice} {op : Op} {world : World} {key : TransactionKey}
    {tx : Transaction} (stored : (perform choice op world).2.records key = some tx)
    (pending : tx.status = .pending) {trace : ChainTrace} (guard : StoreGuard app web3 trace op) :
    world.records key = some tx ∨ (op = .insertTransaction tx ∧ key = tx.key) := by
  unfold perform at stored
  cases rejected : choice.rejects with
  | some error => exact .inl (by simpa [rejected] using stored)
  | none =>
      rw [rejected] at stored
      cases op with
      | insertTransaction inserted =>
          simp only [answer] at stored
          split at stored
          · rename_i after insertion
            rcases Indexed.record_of_insert insertion stored with before | ⟨rfl, own⟩
            · exact .inl before
            · exact .inr ⟨rfl, own⟩
          · exact .inl stored
      | saveTransaction saved =>
          simp only [answer] at stored
          split at stored
          · rename_i after save
            rcases Indexed.record_of_save save stored with before | ⟨before, rfl⟩
            · exact .inl before
            · exact absurd pending guard
          · exact .inl stored
      | _ => exact .inl stored

/-- In every reachable state the pending records are those of announced transactions. -/
theorem pendingAnnounced (reached : (handlers app web3).Reachable (.idle {}) state) :
    PendingAnnounced app web3 state.world state.log := by
  refine reached.calls ?_ ?_
  · intro key tx stored
    cases stored
  · intro state thread choice request op resume before awaiting holds key tx stored pending
    have guard := storeGuard_of_writeGuard (before.guarded handle_meets awaiting).1
    rcases pending_performed stored pending guard with old | ⟨rfl, rfl⟩
    · exact (holds key tx old pending).append
    · obtain ⟨hash, data, addresses, member, read, same⟩ := guard pending
      have shown : data ∈ announcements state.log :=
        List.mem_filterMap.mpr ⟨_, mem_localTrace.mp member, rfl⟩
      exact Announced.append ⟨data, shown, addresses, read, same⟩

/-! ## What the job leaves pending -/

/-- The transaction is in a scanned block and has the receipt. -/
structure Mined (app : App) (choice : Choice) (lastCheckedBlock : Option Nat) (tx : TransactionData)
    (receipt : Receipt) : Prop where
  scanned : ∃ blockData, Scanned app choice lastCheckedBlock blockData ∧ tx ∈ blockData.transactions
  received : choice.node.getTransactionReceipt tx.hash = some receipt

def NonePending (app : App) (choice : Choice) (lastCheckedBlock : Option Nat) (after : World) :
    Prop :=
  ∀ tx receipt, Mined app choice lastCheckedBlock tx receipt →
    ∀ key record, after.records key = some record → record.transactionHash = tx.hash →
      record.status ≠ .pending

/-- A Transfer event has the key of the record, or the block may confirm it: it is
no successful call of the token contract, and still that of an investor. -/
def Confirmable (choice : Choice) (receipt : Receipt) (record : Transaction) : Prop :=
  (∃ data ∈ choice.node.transfers, transferKey data = record.key) ∨
    ¬ (record.type = .tokenTransfer ∧ getTxStatusByReceipt receipt = .confirmed) ∧
      involved choice ⟨record.from, record.to, none⟩ = true

section Job

variable {choice : Choice} {world after : World} {tx : TransactionData} {receipt : Receipt}
  {record : Transaction} {key : TransactionKey}

/-- Two transactions of one hash are the same. -/
def HashesIdentify (app : App) (choice : Choice) (lastCheckedBlock : Option Nat)
    (log : List ChainEvent) : Prop :=
  ∀ data ∈ announcements log, ∀ tx receipt, Mined app choice lastCheckedBlock tx receipt →
    tx.hash = data.hash → tx = data

/-- What cannot be confirmed is left as it is. -/
theorem kept_of_not_confirmable (mined : Mined app choice world.lastCheckedBlock tx receipt)
    (returned : (checkAndRestoreTransactions app web3).evaluate (perform choice) world =
      (.ok (), after)) (stored : world.records key = some record)
    (sameHash : record.transactionHash = tx.hash) (stuck : ¬ Confirmable choice receipt record) :
    after.records key = some record := by
  have reliable := reliable_of_returned returned
  have keyed : record.key = key := records_keyed world key record stored
  obtain ⟨_, left⟩ := checkAndRestoreTransactions_records reliable returned
  rw [left, ← stored]
  refine Handling.applyAll_unchanged fun handling member own => ?_
  rw [stored]
  rcases mem_restoreHandlings.mp member with ⟨data, listed, handled⟩ | ⟨data, _, handled⟩ |
    ⟨blockData, _, other, _, handled⟩
  · obtain ⟨_, tokenAmount, blockData, _, rfl⟩ := mem_transferHandlings handled
    exact absurd (.inl ⟨data, listed, own.trans keyed.symm⟩) stuck
  · obtain ⟨_, tokenAmount, blockData, _, rfl⟩ := mem_referralHandlings handled
    rfl
  · obtain ⟨receipt', addresses, received, _, rfl⟩ := mem_minedHandlings handled
    have recordOwn : recordKey app other addresses = record.key := own.trans keyed.symm
    have otherHash : other.hash = tx.hash :=
      (congrArg TransactionKey.transactionHash recordOwn).trans sameHash
    obtain rfl : receipt' = receipt := by
      rw [otherHash, mined.received] at received
      exact (Option.some.inj received).symm
    by_cases token : record.type = .tokenTransfer ∧ getTxStatusByReceipt receipt' = .confirmed
    · exact congrArg some (if_pos (.inl token))
    · have sameFrom : addresses.from = record.from := congrArg TransactionKey.from recordOwn
      have sameTo : addresses.to = record.to := congrArg TransactionKey.to recordOwn
      have uninvolved : involved choice addresses ≠ true := by
        intro involves
        refine stuck (.inr ⟨token, ?_⟩)
        rw [← sameFrom, ← sameTo]
        exact involves
      refine congrArg some ?_
      unfold Handling.confirm
      rw [if_neg uninvolved]
      exact ite_self _

/-- A confirmable record of an announced transaction is confirmed. -/
theorem settled_of_confirmable (mined : Mined app choice world.lastCheckedBlock tx receipt)
    (returned : (checkAndRestoreTransactions app web3).evaluate (perform choice) world =
      (.ok (), after)) (stored : world.records key = some record)
    (sameHash : record.transactionHash = tx.hash) {addresses : FromToTokenAmount}
    (read : getFromToTokenAmount app web3 tx = .ok addresses)
    (own : key = recordKey app tx addresses) (confirmable : Confirmable choice receipt record) :
    Handling.Settled (after.records key) := by
  have reliable := reliable_of_returned returned
  have keyed : record.key = key := records_keyed world key record stored
  obtain ⟨_, left⟩ := checkAndRestoreTransactions_records reliable returned
  rw [left]
  rcases confirmable with ⟨data, listed, dataKey⟩ | ⟨notToken, involves⟩
  · have received : choice.node.getTransactionReceipt data.transactionHash = some receipt := by
      have dataHash : data.transactionHash = record.transactionHash :=
        congrArg TransactionKey.transactionHash dataKey
      rw [dataHash, sameHash]
      exact mined.received
    obtain ⟨tokenAmount, blockData, handlings⟩ :=
      checkAndRestoreTransactions_transfers reliable returned listed received
    have member : Handling.transferred (transferRecord data tokenAmount
        (getTxStatusByReceipt receipt) blockData) ∈
        restoreHandlings app web3 choice world.lastCheckedBlock :=
      mem_restoreHandlings.mpr (.inl ⟨data, listed, by simp [handlings]⟩)
    have handlingKey : key = (Handling.transferred (transferRecord data tokenAmount
        (getTxStatusByReceipt receipt) blockData)).key := keyed.symm.trans dataKey.symm
    rw [handlingKey]
    refine Handling.applyAll_settles (records_keyed world) restoreHandlings_decided member ?_
    intro pendingTx _ settledTx changed
    cases changed
    unfold Handling.settle
    split
    · exact status_decided receipt
    · assumption
  · obtain ⟨blockData, scanned, listed⟩ := mined.scanned
    have member : Handling.mined (minedRecord app web3 blockData receipt tx addresses)
        (involved choice addresses) ∈ restoreHandlings app web3 choice world.lastCheckedBlock := by
      refine mem_restoreHandlings.mpr (.inr (.inr ⟨blockData, scanned, tx, listed, ?_⟩))
      simp [minedHandlings, mined.received, read]
    have recordOwn : record.key = recordKey app tx addresses := keyed.trans own
    have sameType : record.type = getTxTypeByData app tx := congrArg TransactionKey.type recordOwn
    have sameFrom : record.from = addresses.from := congrArg TransactionKey.from recordOwn
    have sameTo : record.to = addresses.to := congrArg TransactionKey.to recordOwn
    have counts : involved choice addresses = true := by
      rw [sameFrom, sameTo] at involves
      exact involves
    rw [own]
    refine Handling.applyAll_settles (records_keyed world) restoreHandlings_decided member ?_
    intro pendingTx pendingKey settledTx changed
    cases changed
    have pendingType : pendingTx.type = getTxTypeByData app tx :=
      congrArg TransactionKey.type pendingKey
    have notConfirmed : ¬ (pendingTx.type = .tokenTransfer ∧
        (minedRecord app web3 blockData receipt tx addresses).status = .confirmed) := by
      rw [pendingType, ← sameType]
      exact notToken
    unfold Handling.confirm
    split
    · rename_i untouched
      exact untouched.resolve_left notConfirmed
    · exact status_decided receipt

/-- A completed run leaves none of its transactions pending exactly when every
pending record can be confirmed. -/
theorem nonePending_iff (reached : (handlers app web3).Reachable (.idle {}) state)
    (identify : HashesIdentify app choice state.world.lastCheckedBlock state.log)
    (returned : (checkAndRestoreTransactions app web3).evaluate (perform choice) state.world =
      (.ok (), after)) :
    NonePending app choice state.world.lastCheckedBlock after ↔
      ∀ tx receipt, Mined app choice state.world.lastCheckedBlock tx receipt →
        ∀ key record, state.world.records key = some record →
          record.transactionHash = tx.hash → record.status = .pending →
          Confirmable choice receipt record := by
  constructor
  · intro nonePending tx receipt mined key record stored sameHash pending
    by_contra stuck
    have kept := kept_of_not_confirmable mined returned stored sameHash stuck
    exact nonePending tx receipt mined key record kept sameHash pending
  · intro confirmable tx receipt mined key record left sameHash
    have settled : Handling.Settled (after.records key) := by
      cases stored : state.world.records key with
      | none =>
          obtain ⟨_, records⟩ :=
            checkAndRestoreTransactions_records (reliable_of_returned returned) returned
          rw [records]
          exact Handling.applyAll_settled restoreHandlings_decided (by simp [Handling.Settled, stored])
      | some before =>
          by_cases pending : before.status = .pending
          · obtain ⟨data, shown, addresses, read, own⟩ :=
              pendingAnnounced reached key before stored pending
            have keyHash : before.transactionHash = record.transactionHash := by
              have first := records_keyed _ _ _ stored
              have last := records_keyed _ _ _ left
              exact congrArg TransactionKey.transactionHash (first.trans last.symm)
            have dataHash : before.transactionHash = data.hash := by
              have first := records_keyed _ _ _ stored
              exact congrArg TransactionKey.transactionHash (first.trans own)
            have beforeHash : before.transactionHash = tx.hash := keyHash.trans sameHash
            obtain rfl : tx = data :=
              identify data shown tx receipt mined (beforeHash.symm.trans dataHash)
            exact settled_of_confirmable mined returned stored beforeHash read own
              (confirmable tx receipt mined key before stored beforeHash pending)
          · obtain ⟨_, records⟩ :=
              checkAndRestoreTransactions_records (reliable_of_returned returned) returned
            rw [records, Handling.applyAll_final stored pending]
            intro same final
            cases final
            exact pending
    exact settled record left

end Job

/-! ## An approval -/

/-- Alice lets Bob spend her tokens. -/
def approval : TransactionData := tokenCall aliceAddress approveInput

/-- The transaction has been announced to an empty store. -/
def announce (tx : TransactionData) : ChainState :=
  (handlers sampleApp .sample).run (.idle {})
    (.start (.pendingTransaction tx.hash 1520846000) ::
      List.replicate 4 (.resume 0 (sampleChoice [tx])))

def restored (tx : TransactionData) : Except Exception Unit × World :=
  (checkAndRestoreTransactions sampleApp .sample).evaluate (perform (sampleChoice [tx]))
    (announce tx).world

theorem payment_confirmed : NonePending sampleApp (sampleChoice [payment]) none (restored payment).2 := by
  have only : ∀ tx receipt, Mined sampleApp (sampleChoice [payment]) none tx receipt → tx = payment := by
    intro tx receipt mined
    obtain ⟨blockData, scanned, member⟩ := mined.scanned
    rw [scanned_sample scanned] at member
    exact List.mem_singleton.mp member
  have identify : HashesIdentify sampleApp (sampleChoice [payment]) none (announce payment).log := by
    intro data shown tx receipt mined _
    have announced : announcements (announce payment).log = [payment] := rfl
    rw [announced, List.mem_singleton] at shown
    rw [shown, only tx receipt mined]
  have reached : (handlers sampleApp .sample).Reachable (.idle {}) (announce payment) :=
    System.reachable_run _ _
  refine (nonePending_iff reached identify (Prod.ext rfl rfl)).mpr ?_
  intro tx receipt mined key record stored _ pending
  obtain ⟨data, shown, addresses, read, own⟩ :=
    pendingAnnounced reached key record stored pending
  have announced : announcements (announce payment).log = [payment] := rfl
  rw [announced, List.mem_singleton] at shown
  subst shown
  cases read
  subst own
  cases stored
  exact .inr ⟨fun token => absurd token.1 (by decide), by decide⟩

set_option maxRecDepth 4000 in
theorem approval_staysPending :
    (restored approval).1 = .ok () ∧
      ¬ NonePending sampleApp (sampleChoice [approval]) none (restored approval).2 := by
  refine ⟨rfl, fun nonePending => ?_⟩
  have mined : Mined sampleApp (sampleChoice [approval]) none approval ⟨.flag true⟩ :=
    ⟨⟨sampleBlock [approval], ⟨1, by decide, rfl⟩, List.mem_singleton.mpr rfl⟩, rfl⟩
  exact nonePending approval _ mined ⟨"0xcdf4", .tokenTransfer, aliceAddress, none⟩ _ rfl rfl rfl

end IcoDashboard.Chain
