import IcoDashboard.Async.Rounds
import IcoDashboard.Gateway.Payouts

namespace IcoDashboard.Gateway

open IcoDashboard.Async IcoDashboard.Async.Program IcoDashboard.Data

/-! # Notifications of one transaction

The three handlers of `IPNService`, called directly.  Each of them loads the
transaction of the notification and saves it last, so what it makes of the copy
it loaded is all it does to the store.
-/

inductive Notification where
  | fail (data : IPNApiTypeResponse)
  | pending (data : IPNApiTypeResponse)
  | complete (data : IPNApiTypeResponse)

def Notification.data : Notification → IPNApiTypeResponse
  | .fail data | .pending data | .complete data => data

def ipnService (app : App) : System Op Ans Exception World Choice Notification
    (Doc ObjectID PaymentGateTransaction) where
  handler
    | .fail data => IPNService.processFail data
    | .pending data => IPNService.processPending data
    | .complete data => IPNService.processComplete app data
  perform := perform

abbrev IpnTrace : Type := Trace Op Ans Exception

/-! ## What a handler makes of the transaction it loaded -/

/-- A conversion has succeeded. -/
def Converted (trace : IpnTrace) : Prop := ∃ call ∈ trace, isConversion call = true

@[simp] theorem not_converted_nil : ¬ Converted [] := by
  simp [Converted]

@[simp] theorem converted_append {trace later : IpnTrace} :
    Converted (trace ++ later) ↔ Converted trace ∨ Converted later := by
  simp only [Converted, List.mem_append]
  grind

@[simp] theorem converted_cons {call : Call Op Ans Exception} {rest : IpnTrace} :
    Converted (call :: rest) ↔ isConversion call = true ∨ Converted rest := by
  simp [Converted]

/-- The transaction a handler has saved. -/
def savedTransaction (trace : IpnTrace) : Option (Doc ObjectID PaymentGateTransaction) :=
  trace.findSome? fun
    | ⟨.saveTransaction tx, .ok _⟩ => some tx
    | _ => none

theorem savedTransaction_append (trace : IpnTrace) (call : Call Op Ans Exception) :
    savedTransaction (trace ++ [call]) = (savedTransaction trace).or (savedTransaction [call]) :=
  List.findSome?_append

/-- The statuses a handler goes on with. -/
def Notification.accepts : Notification → List PaymentGateTransactionStatus
  | .fail _ => [.started, .failed, .pending]
  | .pending _ => [.started, .pending]
  | .complete _ => [.started, .pending]

/-- What a handler saves of the transaction it loaded. -/
def Makes (trace : IpnTrace) (loaded saved : PaymentGateTransaction) : Notification → Prop
  | .fail data => ¬ Converted trace ∧
      saved = IPNService.pushIfBuy data { loaded with status := .failed }
  | .pending data => ¬ Converted trace ∧
      saved = IPNService.pushIfBuy data { loaded with status := .pending }
  | .complete data =>
      (Converted trace ∧ ∃ result, saved = { IPNService.pushBuyIpn data loaded with
        convertCoinpaymentsData := .result result, type := .convert, status := .started }) ∨
      (¬ Converted trace ∧ ∃ error, saved = { IPNService.pushBuyIpn data loaded with
        status := .failed, convertCoinpaymentsData := .error error })

/-- The handler has loaded this transaction, and accepted it. -/
def Accepts (notification : Notification) (trace : IpnTrace)
    (loaded : Doc ObjectID PaymentGateTransaction) : Prop :=
  trace.head? = some ⟨.findTransaction notification.data.txnId, .ok (some loaded)⟩ ∧
    loaded.val.status ∈ notification.accepts

def NotificationGuard (notification : Notification) (trace : IpnTrace) (op : Op) : Prop :=
  savedTransaction trace = none ∧
  match op with
  | .saveTransaction tx => ∃ loaded, Accepts notification trace loaded ∧ tx.id = loaded.id ∧
      Makes trace loaded.val tx.val notification
  | .convertCoins _ => ¬ Converted trace ∧ ∃ data loaded, notification = .complete data ∧
      Accepts notification trace loaded
  | .insertTransaction _ => False
  | _ => True

/-- A handler returns what it has saved. -/
def Returns (notification : Notification) (trace : IpnTrace)
    (saved : Doc ObjectID PaymentGateTransaction) : Prop :=
  savedTransaction trace = some saved ∧ ∃ loaded, Accepts notification trace loaded ∧
    saved.id = loaded.id ∧ Makes trace loaded.val saved.val notification

/-- A handler that throws has saved nothing. -/
def ThrowsUnsaved (trace : IpnTrace) (_ : Exception) : Prop := savedTransaction trace = none

theorem Makes.saved {trace : IpnTrace} {loaded saved : PaymentGateTransaction}
    {notification : Notification} (makes : Makes trace loaded saved notification)
    (tx : Doc ObjectID PaymentGateTransaction) (answer : Except Exception Unit) :
    Makes (trace ++ [⟨.saveTransaction tx, answer⟩]) loaded saved notification := by
  have same : Converted (trace ++ [⟨.saveTransaction tx, answer⟩]) ↔ Converted trace := by
    simp [isConversion]
  unfold Makes at makes ⊢
  split at makes <;> simpa only [same] using makes

/-- The save that ends a handler, in terms of what it saves. -/
theorem save_returns {notification : Notification} {trace : IpnTrace}
    {loaded saved : Doc ObjectID PaymentGateTransaction} (unsaved : savedTransaction trace = none)
    (accepts : Accepts notification trace loaded) (sameId : saved.id = loaded.id)
    (makes : Makes trace loaded.val saved.val notification) :
    NotificationGuard notification trace (.saveTransaction saved) ∧
      (∀ value, Returns notification (trace ++ [⟨.saveTransaction saved, .ok value⟩]) saved) ∧
      ∀ error, ThrowsUnsaved (trace ++ [⟨.saveTransaction saved, .error error⟩]) error := by
  refine ⟨⟨unsaved, loaded, accepts, sameId, makes⟩, fun value => ?_, fun error => ?_⟩
  · refine ⟨?_, loaded, ⟨?_, accepts.2⟩, sameId, makes.saved saved (.ok value)⟩
    · rw [savedTransaction_append, unsaved]
      rfl
    · rw [List.head?_append, accepts.1]
      rfl
  · rw [ThrowsUnsaved, savedTransaction_append, unsaved]
    rfl

theorem processStatus_returns {notification : Notification}
    {status : PaymentGateTransactionStatus}
    (makes : ∀ trace loaded, ¬ Converted trace → Makes trace loaded
      (IPNService.pushIfBuy notification.data { loaded with status }) notification) :
    (IPNService.processStatus notification.accepts status notification.data).Meets
      (NotificationGuard notification) (Returns notification) ThrowsUnsaved [] := by
  simp only [IPNService.processStatus, request, call, meets_bind, meets_await, meets_done,
    meets_fail, meets_pure, meets_throwIf, meets_orThrow, List.nil_append]
  refine ⟨⟨rfl, trivial⟩, fun found => ⟨fun loaded same => ⟨fun _ => rfl, fun accepted => ?_⟩,
    fun _ => rfl⟩, fun _ => rfl⟩
  subst same
  have accepts : Accepts notification
      [⟨.findTransaction notification.data.txnId, .ok (some loaded)⟩] loaded :=
    ⟨rfl, not_not.mp accepted⟩
  have unconverted : ¬ Converted
      [⟨.findTransaction notification.data.txnId, .ok (some loaded)⟩] := by
    simp [isConversion]
  exact save_returns rfl accepts rfl (makes _ _ unconverted)

theorem processComplete_returns (app : App) (data : IPNApiTypeResponse) :
    (IPNService.processComplete app data).Meets (NotificationGuard (.complete data))
      (Returns (.complete data)) ThrowsUnsaved [] := by
  simp only [IPNService.processComplete, IPNService.convert,
    CoinpaymentsClient.convertCoinsTransaction, request, call, meets_bind, meets_await, meets_done,
    meets_fail, meets_pure, meets_tryCatch, meets_throwIf, meets_orThrow, List.nil_append]
  refine ⟨⟨rfl, trivial⟩, fun found => ⟨fun loaded same => ⟨fun _ => rfl, fun accepted => ?_⟩,
    fun _ => rfl⟩, fun _ => rfl⟩
  subst same
  have accepts : ∀ rest : IpnTrace, Accepts (.complete data)
      (⟨.findTransaction data.txnId, .ok (some loaded)⟩ :: rest) loaded :=
    fun _ => ⟨rfl, not_not.mp accepted⟩
  refine ⟨⟨rfl, trivial⟩, fun investor => ⟨fun ethWallet owned => ?_, fun _ => ?_⟩, fun _ => rfl⟩
  · refine ⟨⟨rfl, by simp [isConversion], data, loaded, rfl, accepts _⟩, fun id => ?_, fun error => ?_⟩
    · exact save_returns rfl (accepts _) rfl (.inl ⟨by simp [isConversion], _, rfl⟩)
    · exact save_returns rfl (accepts _) rfl (.inr ⟨by simp [isConversion], _, rfl⟩)
  · -- without a wallet there is nothing to convert to
    exact save_returns rfl (accepts _) rfl (.inr ⟨by simp [isConversion], _, rfl⟩)

theorem notification_returns (app : App) (notification : Notification) :
    ((ipnService app).handler notification).Meets (NotificationGuard notification)
      (Returns notification) ThrowsUnsaved [] := by
  cases notification with
  | fail data => exact processStatus_returns fun _ _ unconverted => ⟨unconverted, rfl⟩
  | pending data => exact processStatus_returns fun _ _ unconverted => ⟨unconverted, rfl⟩
  | complete data => exact processComplete_returns app data

/-! ## What a handler does to the store -/

/-- The transactions after the calls of a handler. -/
def storedAfter (before : Collection ObjectID PaymentGateTransaction) (trace : IpnTrace) :
    Collection ObjectID PaymentGateTransaction :=
  match savedTransaction trace with
  | some tx => before.save PaymentGateTransaction.write tx
  | none => before

/-- Only a save that is answered changes the transactions. -/
theorem perform_transactions (choice : Choice) {op : Op} (world : World)
    (noInsert : ∀ tx, op ≠ .insertTransaction tx) :
    (perform choice op world).2.transactions =
      storedAfter world.transactions [⟨op, (perform choice op world).1⟩] := by
  unfold perform
  cases choice.rejects with
  | some error => cases op <;> rfl
  | none =>
      cases op with
      | insertTransaction tx => exact absurd rfl (noInsert tx)
      | _ => rfl

theorem perform_stored {notification : Notification} {trace : IpnTrace} {op : Op}
    {before : Collection ObjectID PaymentGateTransaction} {world : World} (choice : Choice)
    (guard : NotificationGuard notification trace op)
    (stored : world.transactions = storedAfter before trace) :
    (perform choice op world).2.transactions =
      storedAfter before (trace ++ [⟨op, (perform choice op world).1⟩]) := by
  obtain ⟨unsaved, allowed⟩ := guard
  have noInsert : ∀ tx, op ≠ .insertTransaction tx := by
    intro tx insert
    rw [insert] at allowed
    exact allowed
  have unchanged : world.transactions = before := by
    rw [stored, storedAfter, unsaved]
  rw [perform_transactions choice world noInsert, unchanged, storedAfter, storedAfter,
    savedTransaction_append, unsaved, Option.none_or]

/-- A query that is answered is answered from the store. -/
theorem findTransaction_answered {choice : Choice} {world : World} {txnId : String}
    {found : Option (Doc ObjectID PaymentGateTransaction)}
    (answered : (perform choice (.findTransaction txnId) world).1 = .ok found) :
    world.transactions.findOne (fun tx => tx.buyCoinpaymentsData.txnId = txnId) = found := by
  unfold perform at answered
  split at answered
  · cases answered
  · exact Except.ok.inj answered

/-- A handler throws and leaves the store as it was, or it saves what it makes of
the transaction it found. -/
theorem notification_cases {app : App} {notification : Notification} {before after : World}
    {trace : IpnTrace} {outcome : Except Exception (Doc ObjectID PaymentGateTransaction)}
    (ran : Executes perform ((ipnService app).handler notification) before trace outcome after) :
    (after = before ∧ savedTransaction trace = none ∧ ∃ error, outcome = .error error) ∨
    ∃ loaded saved, outcome = .ok saved ∧
      before.transactions.findOne (fun tx =>
        tx.buyCoinpaymentsData.txnId = notification.data.txnId) = some loaded ∧
      loaded.val.status ∈ notification.accepts ∧ saved.id = loaded.id ∧
      Makes trace loaded.val saved.val notification ∧
      after.transactions = before.transactions.save PaymentGateTransaction.write saved := by
  have step : ∀ past op world choice, NotificationGuard notification past op →
      world.transactions = storedAfter before.transactions past →
      (perform choice op world).2.transactions =
        storedAfter before.transactions (past ++ [⟨op, (perform choice op world).1⟩]) :=
    fun _ _ _ choice guard stored => perform_stored choice guard stored
  have stored := ran.invariant (notification_returns app notification) step rfl
  obtain ⟨returned, thrown⟩ := ran.meets (notification_returns app notification)
  simp only [List.nil_append] at stored returned thrown
  cases outcome with
  | error error =>
      have unsaved : savedTransaction trace = none := thrown error rfl
      rw [storedAfter, unsaved] at stored
      have same : after = before := by
        cases after
        cases before
        cases stored
        rfl
      exact .inl ⟨same, unsaved, error, rfl⟩
  | ok saved =>
      obtain ⟨savedEq, loaded, ⟨first, accepted⟩, sameId, makes⟩ := returned saved rfl
      obtain ⟨choice, answered⟩ := ran.first first
      have found : before.transactions.findOne (fun tx =>
          tx.buyCoinpaymentsData.txnId = notification.data.txnId) = some loaded := by
        exact findTransaction_answered answered.symm
      rw [storedAfter, savedEq] at stored
      exact .inr ⟨loaded, saved, rfl, found, accepted, sameId, makes, stored⟩

/-- A handler converts only for a transaction that it found started or pending. -/
theorem converting_accepted {app : App} {notification : Notification} {before after : World}
    {trace : IpnTrace} {outcome : Except Exception (Doc ObjectID PaymentGateTransaction)}
    (ran : Executes perform ((ipnService app).handler notification) before trace outcome after)
    {options : ConversionOptions} {result : Except Exception String}
    (member : ⟨.convertCoins options, result⟩ ∈ trace) :
    ∃ loaded, before.transactions.findOne (fun tx =>
        tx.buyCoinpaymentsData.txnId = notification.data.txnId) = some loaded ∧
      loaded.val.status ∈ [PaymentGateTransactionStatus.started, .pending] := by
  obtain ⟨front, later, split⟩ := List.mem_iff_append.mp member
  obtain ⟨_, _, data, loaded, own, first, accepted⟩ :=
    ran.guarded (notification_returns app notification) split
  subst own
  have head : trace.head? = some ⟨.findTransaction data.txnId, .ok (some loaded)⟩ := by
    rw [split, List.head?_append, ← List.nil_append front, first]
    rfl
  obtain ⟨choice, answered⟩ := ran.first head
  refine ⟨loaded, ?_, accepted⟩
  exact findTransaction_answered answered.symm

/-! ## The copy and what is made of it -/

section Makes

variable {notification : Notification} {trace : IpnTrace} {loaded saved : PaymentGateTransaction}

theorem Makes.buyCoinpaymentsData (makes : Makes trace loaded saved notification) :
    saved.buyCoinpaymentsData = loaded.buyCoinpaymentsData := by
  unfold Makes at makes
  split at makes <;> grind [IPNService.pushIfBuy, IPNService.pushBuyIpn]

/-- A failed transaction is accepted only to fail again. -/
theorem Makes.failed (makes : Makes trace loaded saved notification)
    (accepted : loaded.status ∈ notification.accepts) (failed : loaded.status = .failed) :
    saved.status = .failed := by
  unfold Makes at makes
  split at makes <;>
    grind [IPNService.pushIfBuy, IPNService.pushBuyIpn, Notification.accepts]

theorem Makes.type (makes : Makes trace loaded saved notification) :
    saved.type = .convert ↔ loaded.type = .convert ∨ Converted trace := by
  unfold Makes at makes
  split at makes <;> grind [IPNService.pushIfBuy, IPNService.pushBuyIpn]

theorem Makes.buyIpns (makes : Makes trace loaded saved notification) :
    saved.buyIpns = loaded.buyIpns ∨
      saved.buyIpns = loaded.buyIpns ++ [IPNResponse.createIPNResponse notification.data] := by
  unfold Makes at makes
  split at makes <;> grind [IPNService.pushIfBuy, IPNService.pushBuyIpn, Notification.data]

/-- What a transaction accepts while it is still a buy, it records. -/
theorem Makes.recorded (makes : Makes trace loaded saved notification) (buy : loaded.type = .buy) :
    IPNResponse.createIPNResponse notification.data ∈ saved.buyIpns := by
  unfold Makes at makes
  split at makes <;> grind [IPNService.pushIfBuy, IPNService.pushBuyIpn, Notification.data]

end Makes

/-! ## The record of one transaction -/

abbrev IpnRound : Type :=
  Round Op Ans Exception World Notification (Doc ObjectID PaymentGateTransaction)

/-- The store has the record under this id, and no other one of its payment. -/
structure Stores (id : ObjectID) (txnId : String) (transactions : Collection ObjectID PaymentGateTransaction)
    (tx : PaymentGateTransaction) : Prop where
  stored : transactions.lookup id = some tx
  payment : tx.buyCoinpaymentsData.txnId = txnId
  only : ∀ doc ∈ transactions.docs, doc.val.buyCoinpaymentsData.txnId = txnId → doc.id = id

variable {id : ObjectID} {txnId : String} {tx : PaymentGateTransaction}
  {transactions : Collection ObjectID PaymentGateTransaction}

theorem Stores.found (stores : Stores id txnId transactions tx)
    {loaded : Doc ObjectID PaymentGateTransaction}
    (found : transactions.findOne (fun tx => tx.buyCoinpaymentsData.txnId = txnId) = some loaded) :
    loaded = ⟨id, tx⟩ := by
  have lookup := Collection.lookup_of_findOne found
  have payment : loaded.val.buyCoinpaymentsData.txnId = txnId := by
    simpa using Collection.matching_of_findOne found
  have own := stores.only loaded (Collection.lookup_eq_some_iff.mp lookup) payment
  rw [own, stores.stored] at lookup
  cases loaded
  cases own
  cases lookup
  rfl

theorem Stores.save (stores : Stores id txnId transactions tx) {saved : PaymentGateTransaction}
    (payment : saved.buyCoinpaymentsData.txnId = txnId) :
    Stores id txnId (transactions.save PaymentGateTransaction.write ⟨id, saved⟩) saved := by
  have lookups : ∀ other, (transactions.save PaymentGateTransaction.write ⟨id, saved⟩).lookup other =
      if other = id then some saved else transactions.lookup other := by
    intro other
    rw [Collection.lookup_save]
    by_cases same : other = id
    · rw [if_pos same, if_pos same, same, stores.stored]
      rfl
    · rw [if_neg same, if_neg same]
  refine ⟨by rw [lookups, if_pos rfl], payment, fun doc member ours => ?_⟩
  have lookup := Collection.lookup_eq_some_iff.mpr member
  rw [lookups] at lookup
  by_cases same : doc.id = id
  · exact same
  · rw [if_neg same] at lookup
    exact stores.only doc (Collection.lookup_eq_some_iff.mp lookup) ours

/-- In this round the payment was converted, and the handler returned. -/
def ConvertsIn (round : IpnRound) : Prop :=
  Converted round.trace ∧ ∃ saved, round.outcome = .ok saved

/-- What one notification does to the record. -/
structure RoundLaw (round : IpnRound) (before after : PaymentGateTransaction) : Prop where
  failed_kept : before.status = .failed → after.status = .failed
  failed_unconverted : before.status = .failed →
    ∀ options result, ⟨.convertCoins options, result⟩ ∉ round.trace
  type : after.type = .convert ↔ before.type = .convert ∨ ConvertsIn round
  ipns : after.buyIpns = before.buyIpns ∨
    after.buyIpns = before.buyIpns ++ [IPNResponse.createIPNResponse round.request.data]
  thrown : ∀ error, round.outcome = .error error → after = before

theorem round_law {app : App} {round : IpnRound} (ran : (ipnService app).Ran round)
    (ours : round.request.data.txnId = txnId)
    (stores : Stores id txnId round.before.transactions tx) :
    ∃ after, Stores id txnId round.after.transactions after ∧ RoundLaw round tx after := by
  have unconverted : tx.status = .failed →
      ∀ options result, ⟨.convertCoins options, result⟩ ∉ round.trace := by
    intro failed options result member
    obtain ⟨loaded, found, accepted⟩ := converting_accepted ran member
    rw [ours] at found
    rw [stores.found found, failed] at accepted
    simp at accepted
  rcases notification_cases ran with ⟨same, _, error, threw⟩ |
    ⟨loaded, saved, returned, found, accepted, sameId, makes, savedTo⟩
  · refine ⟨tx, same ▸ stores, fun failed => failed, unconverted, ⟨.inl, ?_⟩, .inl rfl, fun _ _ => rfl⟩
    intro either
    rcases either with already | ⟨_, saved, returned⟩
    · exact already
    · rw [threw] at returned
      cases returned
  · rw [ours] at found
    obtain rfl := stores.found found
    obtain ⟨savedId, saved⟩ := saved
    obtain rfl : savedId = id := sameId
    refine ⟨saved, ?_, ?_⟩
    · rw [savedTo]
      exact stores.save (makes.buyCoinpaymentsData ▸ stores.payment)
    · refine ⟨makes.failed accepted, unconverted, ?_, makes.buyIpns, ?_⟩
      · rw [makes.type]
        exact ⟨fun either => either.imp_right fun converted => ⟨converted, _, returned⟩,
          fun either => either.imp_right fun converts => converts.1⟩
      · intro error threw
        rw [returned] at threw
        cases threw

/-- What one notification of a run does to the record, where the payment has been
converted in the rounds before exactly when it is of type convert. -/
structure RecordLaw (earlier : List IpnRound) (round : IpnRound)
    (before after : PaymentGateTransaction) : Prop extends RoundLaw round before after where
  converted : before.type = .convert ↔ ∃ done ∈ earlier, ConvertsIn done
  convertedNow : after.type = .convert ↔ ∃ done ∈ earlier ++ [round], ConvertsIn done

theorem rounds_law {app : App} {first last : World} {rounds : List IpnRound}
    (run : (ipnService app).InTurn first rounds last)
    (ours : ∀ round ∈ rounds, round.request.data.txnId = txnId)
    (stores : Stores id txnId first.transactions tx) {done : List IpnRound}
    (typed : tx.type = .convert ↔ ∃ round ∈ done, ConvertsIn round) :
    ∀ earlier round later, rounds = earlier ++ round :: later → ∃ before after,
      Stores id txnId round.before.transactions before ∧
      Stores id txnId round.after.transactions after ∧
      RecordLaw (done ++ earlier) round before after := by
  induction run generalizing tx done with
  | none world =>
      intro earlier round later split
      simp at split
  | @next current rounds last ran rest ih =>
      obtain ⟨after, storesAfter, law⟩ := round_law ran (ours current List.mem_cons_self) stores
      have typedAfter : after.type = .convert ↔ ∃ round ∈ done ++ [current], ConvertsIn round := by
        rw [law.type, typed]
        simp [or_and_right, exists_or]
      intro earlier round later split
      cases earlier with
      | nil =>
          obtain ⟨same, _⟩ := List.cons.inj split
          subst same
          refine ⟨tx, after, stores, storesAfter, { law with converted := ?_, convertedNow := ?_ }⟩
          · rw [List.append_nil]
            exact typed
          · rw [List.append_nil]
            exact typedAfter
      | cons head others =>
          obtain ⟨same, tail⟩ := List.cons.inj split
          subst same
          have later := ih (fun round member => ours round (List.mem_cons_of_mem _ member)) storesAfter
            typedAfter others round later tail
          rw [List.append_assoc] at later
          exact later

/-- `initiateBuyEths` inserts a started buy without notifications. -/
theorem initiateBuyEths_inserts {app : App} {user : Investor} {amount currency : String} {now : Nat}
    {first second : World} {trace : IpnTrace} {tx : Doc ObjectID PaymentGateTransaction}
    (created : Executes perform (PaymentsService.initiateBuyEths app user amount currency now) first
      trace (.ok tx) second) :
    first.transactions.insert tx = some second.transactions ∧ tx.val.type = .buy ∧
      tx.val.status = .started ∧ tx.val.buyIpns = [] := by
  cases created with
  | await choice rest =>
      cases rejects : choice.rejects with
      | some error =>
          simp only [perform, rejects] at rest
          cases rest
      | none =>
          simp only [perform, rejects] at rest
          cases rest with
          | await insertion ended =>
              cases refuses : insertion.rejects with
              | some error =>
                  simp only [perform, refuses] at ended
                  cases ended
              | none =>
                  simp only [perform, refuses, answer] at ended
                  split at ended
                  · rename_i id chosen
                    split at chosen
                    · rename_i transactions inserted
                      simp only [inserted] at ended
                      cases chosen
                      cases ended
                      exact ⟨inserted, rfl, rfl, rfl⟩
                    · cases chosen
                  · cases ended

theorem stores_inserted {before after : Collection ObjectID PaymentGateTransaction}
    {tx : Doc ObjectID PaymentGateTransaction} (inserted : before.insert tx = some after)
    (fresh : ∀ doc ∈ before.docs,
      doc.val.buyCoinpaymentsData.txnId ≠ tx.val.buyCoinpaymentsData.txnId) :
    Stores tx.id tx.val.buyCoinpaymentsData.txnId after tx.val := by
  refine ⟨?_, rfl, fun doc member payment => ?_⟩
  · rw [Collection.lookup_insert inserted, if_pos rfl]
  · rw [(Collection.insert_eq_some_iff.mp inserted).2] at member
    rcases List.mem_append.mp member with old | new
    · exact absurd payment (fresh doc old)
    · rw [List.mem_singleton.mp new]

/-- Every run of notifications of a new transaction, each handled to its end,
keeps the law of its record. -/
theorem record_lawful {app : App} {user : Investor} {amount currency : String} {now : Nat}
    {first second last : World} {trace : IpnTrace} {tx : Doc ObjectID PaymentGateTransaction}
    {rounds : List IpnRound}
    (created : Executes perform (PaymentsService.initiateBuyEths app user amount currency now) first
      trace (.ok tx) second)
    (fresh : ∀ doc ∈ first.transactions.docs,
      doc.val.buyCoinpaymentsData.txnId ≠ tx.val.buyCoinpaymentsData.txnId)
    (run : (ipnService app).InTurn second rounds last)
    (ours : ∀ round ∈ rounds, round.request.data.txnId = tx.val.buyCoinpaymentsData.txnId) :
    (tx.val.type = .buy ∧ tx.val.status = .started ∧ tx.val.buyIpns = []) ∧
    ∀ earlier round later, rounds = earlier ++ round :: later → ∃ before after,
      round.before.transactions.lookup tx.id = some before ∧
      round.after.transactions.lookup tx.id = some after ∧
      RecordLaw earlier round before after := by
  obtain ⟨inserted, isBuy, isStarted, noIpns⟩ := initiateBuyEths_inserts created
  refine ⟨⟨isBuy, isStarted, noIpns⟩, ?_⟩
  have stores := stores_inserted inserted fresh
  have typed : tx.val.type = .convert ↔ ∃ round ∈ ([] : List IpnRound), ConvertsIn round := by
    rw [isBuy]
    simp
  intro earlier round later split
  obtain ⟨before, after, storesBefore, storesAfter, law⟩ :=
    rounds_law run ours stores typed earlier round later split
  exact ⟨before, after, storesBefore.stored, storesAfter.stored, law⟩

/-! ## A conversion that is not saved -/

def boughtTx : Doc ObjectID PaymentGateTransaction where
  id := 7
  val :=
    { type := .buy, status := .started, userEmail := "ann@example.com", expiredOn := 0
      buyCoinpaymentsData :=
        { email := "ann@example.com", amount := "1", txnId := "t1", address := ""
          confirmsNeeded := "", timeout := 0, statusUrl := "", qrcodeUrl := "", currency1 := "ETH"
          currency2 := "BTC" }
      convertCoinpaymentsData := .null, buyIpns := [], timestamp := 0 }

def boughtWorld : World := { transactions := ⟨[boughtTx], List.nodup_singleton _⟩ }

theorem bought_ran : ∃ trace,
    Executes perform (PaymentsService.initiateBuyEths .plain payer "1" "BTC" 0) {} trace
      (.ok boughtTx) boughtWorld := by
  have ran : execute perform [{ created := { txnId := "t1" } }, { id := 7 }]
      (PaymentsService.initiateBuyEths .plain payer "1" "BTC" 0) {} =
        some (_, .ok boughtTx, boughtWorld) := rfl
  exact ⟨_, executes_of_execute ran⟩

def deliveredRounds (deliveries : List (Notification × List Choice)) : List IpnRound :=
  ((ipnService .plain).rounds boughtWorld deliveries).getD []

/-- A pending notification, the complete one, and a reversal. -/
def deliveries : List (Notification × List Choice) :=
  [(.pending { status := some 1, txnId := "t1" }, [{}, {}]),
    (.complete completeIpn, [{}, { investor := some payer }, { converted := "c1" }, {}]),
    (.fail { status := some (-2), txnId := "t1" }, [{}, {}])]

/-- The conversion succeeds, and its save is rejected. -/
def unsavedDelivery : List (Notification × List Choice) :=
  [(.complete completeIpn, [{}, { investor := some payer }, { converted := "c1" },
    { rejects := some { constructor := .mongo } }])]

theorem delivered_inTurn {deliveries : List (Notification × List Choice)}
    (served : ((ipnService .plain).rounds boughtWorld deliveries).isSome = true) :
    (ipnService .plain).InTurn boughtWorld (deliveredRounds deliveries)
      (System.lastWorld boughtWorld (deliveredRounds deliveries)) := by
  obtain ⟨rounds, ran⟩ := Option.isSome_iff_exists.mp served
  have same : deliveredRounds deliveries = rounds := by
    rw [deliveredRounds, ran]
    rfl
  rw [same]
  exact System.inTurn_of_rounds ran

theorem delivered_lawful : (deliveredRounds deliveries).length = 3 ∧ ∀ earlier round later,
    deliveredRounds deliveries = earlier ++ round :: later → ∃ before after,
      round.before.transactions.lookup 7 = some before ∧
      round.after.transactions.lookup 7 = some after ∧ RecordLaw earlier round before after := by
  obtain ⟨trace, created⟩ := bought_ran
  refine ⟨rfl, (record_lawful created (fun _ member => nomatch member) (delivered_inTurn rfl) ?_).2⟩
  intro round member
  have payments : (deliveredRounds deliveries).map (fun round => round.request.data.txnId) =
      ["t1", "t1", "t1"] := rfl
  have listed : round.request.data.txnId ∈
      (deliveredRounds deliveries).map (fun round => round.request.data.txnId) :=
    List.mem_map_of_mem member
  rw [payments] at listed
  have payment : round.request.data.txnId = "t1" := by simpa using listed
  exact payment

/-- The payment has been converted, and its record is still a buy. -/
theorem unsaved_conversion : ∃ trace last,
    Executes perform (PaymentsService.initiateBuyEths .plain payer "1" "BTC" 0) {} trace
      (.ok boughtTx) boughtWorld ∧
    (ipnService .plain).InTurn boughtWorld (deliveredRounds unsavedDelivery) last ∧
    ¬ ((last.transactions.lookup 7).map PaymentGateTransaction.type = some .convert ↔
      ∃ round ∈ deliveredRounds unsavedDelivery, Converted round.trace) := by
  obtain ⟨trace, created⟩ := bought_ran
  refine ⟨trace, _, created, delivered_inTurn rfl, fun exactly => ?_⟩
  have converted : ∃ round ∈ deliveredRounds unsavedDelivery, Converted round.trace :=
    ⟨_, List.mem_singleton.mpr rfl, _, List.mem_of_getElem? (i := 2) rfl, rfl⟩
  have stored := exactly.mpr converted
  revert stored
  decide

end IcoDashboard.Gateway
