import IcoDashboard.Async.Evaluation
import IcoDashboard.Data.StableSort
import IcoDashboard.Entities.Transaction
import IcoDashboard.Gateway.Notifications

namespace IcoDashboard.Gateway

open IcoDashboard.Async IcoDashboard.Async.Program IcoDashboard.Data

/-! # Transaction history

What a user sees of the transactions of the wallet and of the payment gateway.  Of
the notifications of a payment one is shown: the first by status when that is
negative, otherwise the last.
-/

inductive HistoryQuery where
  | transactions (address : String)
  | gatewayTransactions (userEmail : String)

abbrev HistoryQuery.Ans : HistoryQuery → Type
  | .transactions _ => List (Doc Nat Transaction)
  | .gatewayTransactions _ => List (Doc ObjectID PaymentGateTransaction)

structure HistoryStore where
  transactions : TransactionStore
  gateway : Collection ObjectID PaymentGateTransaction

def HistoryStore.answer (query : HistoryQuery) (store : HistoryStore) :
    Except Exception query.Ans × HistoryStore :=
  match query with
  | .transactions address => (.ok (store.transactions.collection.docs.filter fun tx =>
      (tx.val.from = address ∨ tx.val.to = some address) ∧ tx.val.type ≠ .referralTransfer), store)
  | .gatewayTransactions userEmail =>
      (.ok (store.gateway.docs.filter fun tx => tx.val.userEmail = userEmail), store)

abbrev HistoryHandler (α : Type) : Type := Program HistoryQuery HistoryQuery.Ans Exception α

def requestHistory (query : HistoryQuery) : HistoryHandler query.Ans := Program.call query

inductive Direction where
  | incoming | outgoing
deriving DecidableEq, Repr

structure ExtendedTransaction where
  transaction : Doc Nat Transaction
  direction : Direction

structure PaymentGateTransactionView where
  address : String
  confirmsNeeded : String
  currency : String
  expiredOn : Nat
  id : String
  qrcodeUrl : String
  receivedAmount : String
  receivedConfirms : String
  status : Option Int
  statusUrl : String
  totalAmount : String
  txnId : String
  type : String
  timestamp : Nat
  timeout : Nat
deriving DecidableEq, Repr

inductive GenericTransaction where
  | extended (transaction : ExtendedTransaction)
  | gateway (view : PaymentGateTransactionView)

namespace TransactionService

/-- `a.status - b.status`, where a status that is not a number compares as equal. -/
def statusAtMost (a b : IPNResponse) : Prop :=
  match a.status, b.status with
  | some first, some second => first ≤ second
  | _, _ => True

instance : DecidableRel statusAtMost := fun a b => by
  unfold statusAtMost
  split <;> infer_instance

def actualIPN (buyIpns : List IPNResponse) : Option IPNResponse :=
  let sorted := buyIpns.insertionSort statusAtMost
  match sorted.head? with
  | some first =>
      if first.status.any (fun status => status < 0) then some first else sorted.getLast?
  | none => none

def paymentGateView (item : Doc ObjectID PaymentGateTransaction) :
    Option PaymentGateTransactionView :=
  (actualIPN item.val.buyIpns).map fun actualIPN => {
    address := item.val.buyCoinpaymentsData.address
    confirmsNeeded := item.val.buyCoinpaymentsData.confirmsNeeded
    currency := item.val.buyCoinpaymentsData.currency2
    expiredOn := item.val.expiredOn
    id := item.id.toHexString
    qrcodeUrl := item.val.buyCoinpaymentsData.qrcodeUrl
    receivedAmount := actualIPN.receivedAmount
    receivedConfirms := actualIPN.receivedConfirms
    status := actualIPN.status
    statusUrl := item.val.buyCoinpaymentsData.statusUrl
    totalAmount := item.val.buyCoinpaymentsData.amount
    txnId := item.val.buyCoinpaymentsData.txnId
    type := "gateway_transaction"
    timestamp := item.val.timestamp
    timeout := item.val.buyCoinpaymentsData.timeout }

def getPaymentGateTransactions (app : App) (user : Investor) :
    HistoryHandler (List PaymentGateTransactionView) := do
  let txs ← requestHistory (.gatewayTransactions (app.toLowerCase user.email))
  return txs.filterMap paymentGateView

def extend (address : String) (transaction : Doc Nat Transaction) : ExtendedTransaction where
  transaction := transaction
  direction := if transaction.val.from = address then .outgoing else .incoming

def getExtendedTransactions (user : Investor) : HistoryHandler (List ExtendedTransaction) := do
  let ethWallet ← orThrow user.ethWallet typeError
  let txs ← requestHistory (.transactions ethWallet.address)
  return txs.map (extend ethWallet.address)

def getTransactionsOfUser (app : App) (user : Investor) :
    HistoryHandler (List GenericTransaction) := do
  let extended ← getExtendedTransactions user
  let gateway ← getPaymentGateTransactions app user
  return extended.map .extended ++ gateway.map .gateway

end TransactionService

/-! ## The shown notification -/

namespace TransactionService

/-- The statuses of the recorded bodies that are numbers. -/
def statuses (bodies : List IPNApiTypeResponse) : List Int := bodies.filterMap (·.status)

/-- The lowest status when one is negative, otherwise the highest. -/
def shownStatus (bodies : List IPNApiTypeResponse) : Option Int :=
  if (statuses bodies).any (fun status => status < 0) then (statuses bodies).min?
  else (statuses bodies).max?

def withStatus (bodies : List IPNApiTypeResponse) (status : Option Int) : List IPNApiTypeResponse :=
  bodies.filter fun body => body.status = status

/-- The view shows what the latest body with the shown status reports. -/
def Reports (bodies : List IPNApiTypeResponse) (view : PaymentGateTransactionView) : Prop :=
  view.status = shownStatus bodies ∧ ∃ latest,
    (withStatus bodies (shownStatus bodies)).getLast? = some latest ∧
      view.receivedAmount = latest.receivedAmount ∧ view.receivedConfirms = latest.receivedConfirms

/-- The latest body with the shown status has received as much as it has
confirmations, and for a negative status the first one has received the same. -/
def Consistent (bodies : List IPNApiTypeResponse) : Prop :=
  ∃ first latest, (withStatus bodies (shownStatus bodies)).head? = some first ∧
    (withStatus bodies (shownStatus bodies)).getLast? = some latest ∧
    latest.receivedAmount = latest.receivedConfirms ∧
    ((∃ status ∈ statuses bodies, status < 0) → first.receivedAmount = latest.receivedAmount)

variable {bodies : List IPNApiTypeResponse}

def Numeric (bodies : List IPNApiTypeResponse) : Prop := ∀ body ∈ bodies, body.status.isSome = true

/-- The status of a body, as a number. -/
def statusOf (body : IPNApiTypeResponse) : Int := body.status.getD 0

theorem Numeric.status (numeric : Numeric bodies) {body : IPNApiTypeResponse}
    (member : body ∈ bodies) : body.status = some (statusOf body) := by
  obtain ⟨status, same⟩ := Option.isSome_iff_exists.mp (numeric body member)
  rw [statusOf, same]
  rfl

theorem Numeric.mem_statuses (numeric : Numeric bodies) {status : Int} :
    status ∈ statuses bodies ↔ ∃ body ∈ bodies, statusOf body = status := by
  rw [statuses, List.mem_filterMap]
  refine exists_congr fun body => and_congr_right fun member => ?_
  rw [numeric.status member, Option.some.injEq]

theorem Numeric.withStatus (numeric : Numeric bodies) (status : Int) :
    TransactionService.withStatus bodies (some status) =
      bodies.filter fun body => statusOf body = status := by
  refine List.filter_congr fun body member => ?_
  simp only [numeric.status member, Option.some.injEq]

/-- The sort of the notifications is a sort of the bodies they were made of. -/
theorem Numeric.sorted (numeric : Numeric bodies) :
    (bodies.map IPNResponse.createIPNResponse).insertionSort statusAtMost =
      (StableSort.sortBy statusOf bodies).map IPNResponse.createIPNResponse := by
  refine (List.map_insertionSort _ statusAtMost IPNResponse.createIPNResponse bodies ?_).symm
  intro first isFirst second isSecond
  have firstStatus : (IPNResponse.createIPNResponse first).status = some (statusOf first) :=
    numeric.status isFirst
  have secondStatus : (IPNResponse.createIPNResponse second).status = some (statusOf second) :=
    numeric.status isSecond
  rw [statusAtMost, firstStatus, secondStatus]

/-- The earliest body of the least status and the latest of the greatest, of which
the sign of the least chooses one. -/
theorem Numeric.actualIPN (numeric : Numeric bodies) (nonempty : bodies ≠ []) :
    ∃ first last, first ∈ bodies ∧ last ∈ bodies ∧
      (∀ other ∈ bodies, statusOf first ≤ statusOf other) ∧
      (∀ other ∈ bodies, statusOf other ≤ statusOf last) ∧
      (bodies.filter fun body => statusOf body = statusOf first).head? = some first ∧
      (bodies.filter fun body => statusOf body = statusOf last).getLast? = some last ∧
      TransactionService.actualIPN (bodies.map IPNResponse.createIPNResponse) =
        some (IPNResponse.createIPNResponse (if statusOf first < 0 then first else last)) := by
  have full : StableSort.sortBy statusOf bodies ≠ [] := by
    intro none
    have sizes := List.length_insertionSort (fun first second => statusOf first ≤ statusOf second) bodies
    rw [StableSort.sortBy] at none
    rw [none] at sizes
    exact nonempty (List.eq_nil_of_length_eq_zero sizes.symm)
  obtain ⟨first, head⟩ : ∃ first, (StableSort.sortBy statusOf bodies).head? = some first :=
    ⟨_, List.head?_eq_some_head full⟩
  obtain ⟨last, ending⟩ : ∃ last, (StableSort.sortBy statusOf bodies).getLast? = some last :=
    ⟨_, List.getLast?_eq_some_getLast full⟩
  have firstMember := (StableSort.mem_sortBy statusOf).mp (List.mem_of_head? head)
  have lastMember := (StableSort.mem_sortBy statusOf).mp (List.mem_of_getLast? ending)
  obtain ⟨least, earliest⟩ := StableSort.head_sortBy head
  obtain ⟨greatest, latest⟩ := StableSort.last_sortBy ending
  refine ⟨first, last, firstMember, lastMember, least, greatest, earliest, latest, ?_⟩
  have firstStatus : (IPNResponse.createIPNResponse first).status = some (statusOf first) :=
    numeric.status firstMember
  simp only [TransactionService.actualIPN, numeric.sorted, List.head?_map, head, List.getLast?_map,
    ending, Option.map_some, firstStatus, Option.any_some, decide_eq_true_eq]
  split <;> rfl

theorem Numeric.negative_iff (numeric : Numeric bodies) {first : IPNApiTypeResponse}
    (member : first ∈ bodies) (least : ∀ other ∈ bodies, statusOf first ≤ statusOf other) :
    (∃ status ∈ statuses bodies, status < 0) ↔ statusOf first < 0 := by
  constructor
  · rintro ⟨status, listed, negative⟩
    obtain ⟨body, bodyMember, same⟩ := numeric.mem_statuses.mp listed
    have below := least body bodyMember
    omega
  · intro negative
    exact ⟨statusOf first, numeric.mem_statuses.mpr ⟨first, member, rfl⟩, negative⟩

theorem Numeric.shownStatus (numeric : Numeric bodies) {first last : IPNApiTypeResponse}
    (firstMember : first ∈ bodies) (lastMember : last ∈ bodies)
    (least : ∀ other ∈ bodies, statusOf first ≤ statusOf other)
    (greatest : ∀ other ∈ bodies, statusOf other ≤ statusOf last) :
    TransactionService.shownStatus bodies =
      some (if statusOf first < 0 then statusOf first else statusOf last) := by
  have lowest : (statuses bodies).min? = some (statusOf first) := by
    refine List.min?_eq_some_iff.mpr ⟨numeric.mem_statuses.mpr ⟨first, firstMember, rfl⟩, ?_⟩
    intro status listed
    obtain ⟨body, member, same⟩ := numeric.mem_statuses.mp listed
    rw [← same]
    exact least body member
  have highest : (statuses bodies).max? = some (statusOf last) := by
    refine List.max?_eq_some_iff.mpr ⟨numeric.mem_statuses.mpr ⟨last, lastMember, rfl⟩, ?_⟩
    intro status listed
    obtain ⟨body, member, same⟩ := numeric.mem_statuses.mp listed
    rw [← same]
    exact greatest body member
  have sign : (statuses bodies).any (fun status => status < 0) = true ↔ statusOf first < 0 := by
    rw [List.any_eq_true, ← numeric.negative_iff firstMember least]
    simp only [decide_eq_true_eq]
  rw [TransactionService.shownStatus, lowest, highest]
  by_cases negative : statusOf first < 0
  · rw [if_pos (sign.mpr negative), if_pos negative]
  · rw [if_neg (mt sign.mp negative), if_neg negative]

/-- The view of a payment reports the latest body with the shown status exactly when
the bodies are consistent. -/
theorem reports_iff (numeric : Numeric bodies) (nonempty : bodies ≠ [])
    {item : Doc ObjectID PaymentGateTransaction}
    (recorded : item.val.buyIpns = bodies.map IPNResponse.createIPNResponse) :
    ∃ view, paymentGateView item = some view ∧ (Reports bodies view ↔ Consistent bodies) := by
  obtain ⟨first, last, firstMember, lastMember, least, greatest, earliest, latest, actual⟩ :=
    numeric.actualIPN nonempty
  have view : ∃ view, paymentGateView item = some view ∧
      view.receivedAmount = (if statusOf first < 0 then first else last).receivedAmount ∧
      view.receivedConfirms = (if statusOf first < 0 then first else last).receivedAmount ∧
      view.status = (if statusOf first < 0 then first else last).status := by
    refine ⟨_, by rw [paymentGateView, recorded, actual]; rfl, rfl, rfl, rfl⟩
  obtain ⟨view, shown, amount, confirms, status⟩ := view
  refine ⟨view, shown, ?_⟩
  have shownStatus := numeric.shownStatus firstMember lastMember least greatest
  rw [Reports, Consistent, shownStatus, numeric.withStatus, amount, confirms, status,
    numeric.negative_iff firstMember least]
  by_cases negative : statusOf first < 0
  · simp only [negative, if_true, numeric.status firstMember, earliest, Option.some.injEq, true_and,
      true_implies]
    constructor
    · rintro ⟨last, ending, sameAmount, sameConfirms⟩
      exact ⟨first, last, rfl, ending, by rw [← sameAmount, sameConfirms], sameAmount⟩
    · rintro ⟨_, last, rfl, ending, agree, sameAmount⟩
      exact ⟨last, ending, sameAmount, by rw [sameAmount, agree]⟩
  · simp only [negative, if_false, numeric.status lastMember, latest, Option.some.injEq, true_and,
      false_implies, and_true]
    constructor
    · rintro ⟨_, rfl, _, agree⟩
      have latestOnes : (bodies.filter fun body => statusOf body = statusOf last) ≠ [] :=
        List.ne_nil_of_mem (List.mem_of_getLast? latest)
      exact ⟨_, last, List.head?_eq_some_head latestOnes, rfl, agree⟩
    · rintro ⟨_, _, _, rfl, agree⟩
      exact ⟨last, rfl, rfl, agree⟩

/-- A returned history ends with the views of the payments of the user. -/
theorem history_views {app : App} {user : Investor} {store : HistoryStore}
    {views : List GenericTransaction}
    (returned : (evaluate HistoryStore.answer (getTransactionsOfUser app user) store).1 = .ok views) :
    ∃ extended : List ExtendedTransaction, views = extended.map .extended ++
      ((store.gateway.docs.filter fun tx => tx.val.userEmail = app.toLowerCase user.email).filterMap
        paymentGateView).map .gateway := by
  cases wallet : user.ethWallet with
  | none =>
      simp only [getTransactionsOfUser, getExtendedTransactions, wallet, orThrow, evaluate_bind]
        at returned
      cases returned
  | some ethWallet =>
      simp only [getTransactionsOfUser, getExtendedTransactions, getPaymentGateTransactions, wallet,
        orThrow, requestHistory, HistoryStore.answer, evaluate_bind, evaluate_call, evaluate_pure]
        at returned
      exact ⟨_, (Except.ok.inj returned).symm⟩

end TransactionService

/-! ## Runs of notifications -/

/-- The accepted bodies of one payment, in the order in which they were handled. -/
def recordedBodies (txnId : String) (rounds : List IpnRound) : List IPNApiTypeResponse :=
  (rounds.filter fun round => round.request.data.txnId = txnId ∧ round.outcome.isOk = true).map
    fun round => round.request.data

theorem recordedBodies_cons (txnId : String) (round : IpnRound) (rest : List IpnRound) :
    recordedBodies txnId (round :: rest) =
      recordedBodies txnId [round] ++ recordedBodies txnId rest := by
  rw [recordedBodies, ← List.singleton_append, List.filter_append, List.map_append]
  rfl

/-- A record that is a buy, with the notifications of some bodies. -/
structure Keeps (userEmail : String) (bodies : List IPNApiTypeResponse)
    (tx : PaymentGateTransaction) : Prop where
  buy : tx.type = .buy
  ipns : tx.buyIpns = bodies.map IPNResponse.createIPNResponse
  owner : tx.userEmail = userEmail

variable {id : ObjectID} {txnId userEmail : String} {tx : PaymentGateTransaction}
  {bodies : List IPNApiTypeResponse}

theorem Keeps.push (keeps : Keeps userEmail bodies tx) {trace : IpnTrace}
    {notification : Notification} {saved : PaymentGateTransaction}
    (makes : Makes trace tx saved notification)
    (unfinished : ∀ data, notification ≠ .complete data) :
    Keeps userEmail (bodies ++ [notification.data]) saved := by
  have pushed : ∃ status, saved =
      IPNService.pushBuyIpn notification.data { tx with status := status } := by
    cases notification with
    | complete data => exact absurd rfl (unfinished data)
    | fail data =>
        refine ⟨.failed, makes.2.trans ?_⟩
        rw [IPNService.pushIfBuy, if_pos keeps.buy]
        rfl
    | pending data =>
        refine ⟨.pending, makes.2.trans ?_⟩
        rw [IPNService.pushIfBuy, if_pos keeps.buy]
        rfl
  obtain ⟨status, same⟩ := pushed
  rw [same]
  refine ⟨keeps.buy, ?_, keeps.owner⟩
  rw [List.map_append, ← keeps.ipns]
  rfl

/-- The save of another payment. -/
theorem Stores.saveOther {transactions : Collection ObjectID PaymentGateTransaction}
    (stores : Stores id txnId transactions tx) {saved : Doc ObjectID PaymentGateTransaction}
    (different : saved.id ≠ id) (payment : saved.val.buyCoinpaymentsData.txnId ≠ txnId) :
    Stores id txnId (transactions.save PaymentGateTransaction.write saved) tx := by
  refine ⟨?_, stores.payment, fun doc member ours => ?_⟩
  · rw [Collection.lookup_save, if_neg different.symm]
    exact stores.stored
  · obtain ⟨before, known, same⟩ := List.mem_map.mp member
    by_cases own : before.id = saved.id
    · rw [if_pos own] at same
      rw [← same] at ours
      exact absurd ours payment
    · rw [if_neg own] at same
      rw [same] at known
      exact stores.only doc known ours

theorem round_keeps {app : App} {round : IpnRound} (ran : (ipnService app).Ran round)
    (stores : Stores id txnId round.before.transactions tx) (keeps : Keeps userEmail bodies tx)
    (unfinished : round.request.data.txnId = txnId → ∀ data, round.request ≠ .complete data) :
    ∃ after, Stores id txnId round.after.transactions after ∧
      Keeps userEmail (bodies ++ recordedBodies txnId [round]) after := by
  rcases notification_cases ran with ⟨same, _, error, threw⟩ |
    ⟨loaded, saved, returned, found, _, sameId, makes, savedTo⟩
  · have none : recordedBodies txnId [round] = [] := by
      simp [recordedBodies, threw, Except.isOk, Except.toBool]
    rw [same, none, List.append_nil]
    exact ⟨tx, stores, keeps⟩
  · by_cases ours : round.request.data.txnId = txnId
    · have one : recordedBodies txnId [round] = [round.request.data] := by
        simp [recordedBodies, returned, ours, Except.isOk, Except.toBool]
      rw [ours] at found
      obtain rfl := stores.found found
      obtain ⟨savedId, saved⟩ := saved
      obtain rfl : savedId = id := sameId
      rw [savedTo, one]
      exact ⟨saved, stores.save (makes.buyCoinpaymentsData ▸ stores.payment),
        keeps.push makes (unfinished ours)⟩
    · have none : recordedBodies txnId [round] = [] := by
        simp [recordedBodies, ours]
      have payment : loaded.val.buyCoinpaymentsData.txnId = round.request.data.txnId := by
        simpa using Collection.matching_of_findOne found
      have different : saved.id ≠ id := by
        intro same
        have lookup := Collection.lookup_of_findOne found
        rw [← sameId, same, stores.stored] at lookup
        cases lookup
        exact ours (payment.symm.trans stores.payment)
      rw [savedTo, none, List.append_nil]
      refine ⟨tx, stores.saveOther different ?_, keeps⟩
      rw [makes.buyCoinpaymentsData, payment]
      exact ours

/-- In a run without a complete notification of the payment, the record keeps the
accepted bodies. -/
theorem rounds_keep {app : App} {first last : World} {rounds : List IpnRound}
    (run : (ipnService app).InTurn first rounds last)
    (unfinished : ∀ round ∈ rounds, round.request.data.txnId = txnId →
      ∀ data, round.request ≠ .complete data)
    (stores : Stores id txnId first.transactions tx) (keeps : Keeps userEmail bodies tx) :
    ∃ after, Stores id txnId last.transactions after ∧
      Keeps userEmail (bodies ++ recordedBodies txnId rounds) after := by
  induction run generalizing tx bodies with
  | none world =>
      rw [recordedBodies, List.filter_nil, List.map_nil, List.append_nil]
      exact ⟨tx, stores, keeps⟩
  | @next current rounds last ran rest ih =>
      obtain ⟨after, storesAfter, keepsAfter⟩ :=
        round_keeps ran stores keeps (unfinished current List.mem_cons_self)
      have later := ih (fun round member => unfinished round (List.mem_cons_of_mem _ member))
        storesAfter keepsAfter
      rw [recordedBodies_cons, ← List.append_assoc]
      exact later

/-- The history shows a bought payment as its latest notification with the shown
status exactly when the accepted bodies are consistent. -/
theorem history_reports_iff {app : App} {user viewer : Investor} {amount currency : String}
    {now : Nat} {first second last : World} {trace : IpnTrace}
    {tx : Doc ObjectID PaymentGateTransaction} {rounds : List IpnRound}
    (created : Executes perform (PaymentsService.initiateBuyEths app user amount currency now) first
      trace (.ok tx) second)
    (fresh : ∀ doc ∈ first.transactions.docs,
      doc.val.buyCoinpaymentsData.txnId ≠ tx.val.buyCoinpaymentsData.txnId)
    (run : (ipnService app).InTurn second rounds last)
    (unfinished : ∀ round ∈ rounds,
      round.request.data.txnId = tx.val.buyCoinpaymentsData.txnId →
        ∀ data, round.request ≠ .complete data)
    (recorded : recordedBodies tx.val.buyCoinpaymentsData.txnId rounds ≠ [])
    (numeric : TransactionService.Numeric
      (recordedBodies tx.val.buyCoinpaymentsData.txnId rounds))
    {transactions : TransactionStore} {views : List GenericTransaction}
    (returned : (evaluate HistoryStore.answer
      (TransactionService.getTransactionsOfUser app viewer) ⟨transactions, last.transactions⟩).1 =
        .ok views) :
    (app.toLowerCase viewer.email = tx.val.userEmail →
      ∃ view, .gateway view ∈ views ∧ view.txnId = tx.val.buyCoinpaymentsData.txnId) ∧
    ∀ view, .gateway view ∈ views → view.txnId = tx.val.buyCoinpaymentsData.txnId →
      (TransactionService.Reports (recordedBodies tx.val.buyCoinpaymentsData.txnId rounds) view ↔
        TransactionService.Consistent
          (recordedBodies tx.val.buyCoinpaymentsData.txnId rounds)) := by
  obtain ⟨inserted, isBuy, _, noIpns⟩ := initiateBuyEths_inserts created
  have keepsFirst : Keeps tx.val.userEmail [] tx.val := ⟨isBuy, noIpns, rfl⟩
  obtain ⟨after, stores, keeps⟩ := rounds_keep run unfinished (stores_inserted inserted fresh) keepsFirst
  rw [List.nil_append] at keeps
  have known : ⟨tx.id, after⟩ ∈ last.transactions.docs :=
    Collection.lookup_eq_some_iff.mp stores.stored
  obtain ⟨shown, made, reports⟩ := @TransactionService.reports_iff _ numeric recorded
    ⟨tx.id, after⟩ keeps.ipns
  have ofPayment : ∀ item view, TransactionService.paymentGateView item = some view →
      view.txnId = item.val.buyCoinpaymentsData.txnId := by
    intro item view viewed
    obtain ⟨_, _, same⟩ := Option.map_eq_some_iff.mp viewed
    rw [← same]
  obtain ⟨extended, listed⟩ := TransactionService.history_views returned
  refine ⟨fun owner => ⟨shown, ?_, (ofPayment _ _ made).trans stores.payment⟩, ?_⟩
  · have own : ⟨tx.id, after⟩ ∈ last.transactions.docs.filter fun tx =>
        tx.val.userEmail = app.toLowerCase viewer.email :=
      List.mem_filter.mpr ⟨known, decide_eq_true (keeps.owner.trans owner.symm)⟩
    rw [listed]
    exact List.mem_append_right _ (List.mem_map_of_mem (List.mem_filterMap.mpr ⟨_, own, made⟩))
  · intro view member payment
    rw [listed] at member
    rcases List.mem_append.mp member with chain | gateway
    · obtain ⟨_, _, different⟩ := List.mem_map.mp chain
      cases different
    · obtain ⟨other, viewed, same⟩ := List.mem_map.mp gateway
      obtain ⟨item, itemMember, itemMade⟩ := List.mem_filterMap.mp viewed
      cases same
      have itemKnown := (List.mem_filter.mp itemMember).1
      have sameId := stores.only item itemKnown ((ofPayment _ _ itemMade).symm.trans payment)
      have sameVal := Collection.lookup_eq_some_iff.mpr itemKnown
      rw [sameId, stores.stored] at sameVal
      have sameItem : item = ⟨tx.id, after⟩ := by
        cases item
        cases sameId
        cases sameVal
        rfl
      rw [sameItem, made] at itemMade
      cases itemMade
      exact reports

/-! ## Payments with few confirmations -/

/-- Notifications of the bought payment, each saved. -/
def notified (notifications : List Notification) : List IpnRound :=
  deliveredRounds (notifications.map fun notification => (notification, [{}, {}]))

/-- What the payer sees after them. -/
def shownHistory (notifications : List Notification) : Except Exception (List GenericTransaction) :=
  (evaluate HistoryStore.answer (TransactionService.getTransactionsOfUser .plain payer)
    ⟨Indexed.empty, (System.lastWorld boughtWorld (notified notifications)).transactions⟩).1

def received (status : Int) (receivedAmount receivedConfirms : String) : IPNApiTypeResponse :=
  { status := some status, txnId := "t1", receivedAmount, receivedConfirms }

/-- The second notification confirms as many times as coins were received. -/
def confirmed : List Notification := [.pending (received 1 "2" "1"), .pending (received 1 "2" "2")]

theorem confirmed_reports : ∃ view, shownHistory confirmed = .ok [.gateway view] ∧
    TransactionService.Reports [received 1 "2" "1", received 1 "2" "2"] view := by
  obtain ⟨trace, created⟩ := bought_ran
  have run : (ipnService .plain).InTurn boughtWorld (notified confirmed)
      (System.lastWorld boughtWorld (notified confirmed)) := delivered_inTurn rfl
  have bodies : recordedBodies "t1" (notified confirmed) =
      [received 1 "2" "1", received 1 "2" "2"] := by decide
  have pending : (notified confirmed).map (fun round => round.request) = confirmed := rfl
  have unfinished : ∀ round ∈ notified confirmed, round.request.data.txnId = "t1" →
      ∀ data, round.request ≠ .complete data := by
    intro round member _ data complete
    have listed := List.mem_map_of_mem (f := fun round : IpnRound => round.request) member
    rw [pending, complete] at listed
    simp [confirmed] at listed
  have numeric : TransactionService.Numeric (recordedBodies "t1" (notified confirmed)) := by
    rw [bodies, TransactionService.Numeric]
    decide
  have shown : ∃ view, shownHistory confirmed = .ok [.gateway view] ∧ view.txnId = "t1" :=
    ⟨_, rfl, rfl⟩
  obtain ⟨view, shown, payment⟩ := shown
  have law := (history_reports_iff created (fun _ member => nomatch member) run unfinished
    (bodies ▸ List.cons_ne_nil _ _) numeric shown).2 view (List.mem_singleton.mpr rfl) payment
  refine ⟨view, shown, ?_⟩
  change TransactionService.Reports (recordedBodies "t1" (notified confirmed)) view ↔
    TransactionService.Consistent (recordedBodies "t1" (notified confirmed)) at law
  rw [bodies] at law
  exact law.mpr ⟨received 1 "2" "1", received 1 "2" "2", rfl, rfl, rfl, fun _ => rfl⟩

/-- Nine confirmations of half a coin are shown as half a confirmation. -/
theorem halfCoin_misreported : ∃ trace last view,
    Executes perform (PaymentsService.initiateBuyEths .plain payer "1" "BTC" 0) {} trace
      (.ok boughtTx) boughtWorld ∧
    (ipnService .plain).InTurn boughtWorld (notified [.pending (received 1 "0.5" "9")]) last ∧
    recordedBodies "t1" (notified [.pending (received 1 "0.5" "9")]) = [received 1 "0.5" "9"] ∧
    shownHistory [.pending (received 1 "0.5" "9")] = .ok [.gateway view] ∧
    view.receivedConfirms = "0.5" ∧
    ¬ TransactionService.Reports [received 1 "0.5" "9"] view := by
  obtain ⟨trace, created⟩ := bought_ran
  refine ⟨trace, _, _, created, delivered_inTurn rfl, by decide, rfl, rfl, fun reports => ?_⟩
  obtain ⟨latest, ending, _, confirms⟩ := reports.2
  cases ending
  exact absurd confirms (by decide)

end IcoDashboard.Gateway
