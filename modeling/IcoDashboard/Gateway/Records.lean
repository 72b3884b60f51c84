import IcoDashboard.Gateway.Notifications

namespace IcoDashboard.Gateway

open IcoDashboard.Async IcoDashboard.Async.Program IcoDashboard.Data

/-! # Payment records

What a stored payment-gate transaction says, in any interleaving: the order it
was created for, the notifications it has received, and its conversion.
-/

variable {app : App} {req : Request} {past : Trace Op Ans Exception}

/-- The columns that are set when the transaction is created. -/
structure Order where
  userEmail : String
  expiredOn : Nat
  buyCoinpaymentsData : CoinpaymentsTransactionResult
  timestamp : Nat
deriving DecidableEq, Repr

def Order.of (tx : PaymentGateTransaction) : Order where
  userEmail := tx.userEmail
  expiredOn := tx.expiredOn
  buyCoinpaymentsData := tx.buyCoinpaymentsData
  timestamp := tx.timestamp

/-- The order of a request that CoinPayments has answered. -/
def Order.ordered (app : App) (user : Investor) (amount currency : String) (now : Nat)
    (created : CreateTransactionAnswer) : Order where
  userEmail := user.email
  expiredOn := created.timeout + now
  buyCoinpaymentsData :=
    { email := user.email
      amount
      txnId := created.txnId
      address := created.address
      confirmsNeeded := created.confirmsNeeded
      timeout := created.timeout
      statusUrl := created.statusUrl
      qrcodeUrl := created.qrcodeUrl
      currency1 := app.config.coinPaymentsCurrency1
      currency2 := currency }
  timestamp := now

/-- A complete notification converts what it has received, for the wallet of the
investor that has ordered. -/
def PaysTo (app : App) (body : IPNApiTypeResponse) (order : Order) (options : ConversionOptions)
    (past : Trace Op Ans Exception) : Prop :=
  IPNApiTypeResponse.isComplete body = true ∧ ∃ investor wallet,
    ⟨.findInvestor (app.toLowerCase order.userEmail), .ok (some investor)⟩ ∈ past ∧
    investor.ethWallet = some wallet ∧
    options = {
      amount := body.net
      «from» := order.buyCoinpaymentsData.currency2
      «to» := app.config.coinPaymentsCurrency1
      address := wallet.address }

/-- What a notification makes of the transaction that it has loaded. -/
structure Updates (app : App) (body : IPNApiTypeResponse) (past : Trace Op Ans Exception)
    (loaded saved : PaymentGateTransaction) : Prop where
  order : Order.of saved = Order.of loaded
  ipns : ∀ ipn ∈ saved.buyIpns, ipn ∈ loaded.buyIpns ∨ ipn = IPNResponse.createIPNResponse body
  conversion : ∀ result, saved.convertCoinpaymentsData = .result result →
    loaded.convertCoinpaymentsData = .result result ∨
      ∃ before, past = before ++ [⟨.convertCoins result.options, .ok result.id⟩] ∧
        PaysTo app body (Order.of loaded) result.options before

def RecordGuard (app : App) (req : Request) (past : Trace Op Ans Exception) : Op → Prop
  | .saveTransaction tx => ∃ body loaded, req = .ipn body ∧
      ⟨.findTransaction body.txnId, .ok (some loaded)⟩ ∈ past ∧ tx.id = loaded.id ∧
      Updates app body past loaded.val tx.val
  | .insertTransaction tx => ∃ user amount currency now created,
      req = .createTransaction user amount currency now ∧
      ⟨.createTransaction
        { currency1 := app.config.coinPaymentsCurrency1, currency2 := currency, amount,
          buyerEmail := user.email }, .ok created⟩ ∈ past ∧
      Order.of tx = Order.ordered app user amount currency now created ∧
      tx.buyIpns = [] ∧ tx.convertCoinpaymentsData = .null
  | .convertCoins options => ∃ body loaded, req = .ipn body ∧
      ⟨.findTransaction body.txnId, .ok (some loaded)⟩ ∈ past ∧
      PaysTo app body (Order.of loaded.val) options past
  | _ => True

theorem pushIfBuy_updates (body : IPNApiTypeResponse) (past : Trace Op Ans Exception)
    (tx : PaymentGateTransaction) (status : PaymentGateTransactionStatus) :
    Updates app body past tx (IPNService.pushIfBuy body { tx with status }) := by
  unfold IPNService.pushIfBuy
  split
  · refine ⟨rfl, fun ipn member => ?_, fun result same => .inl same⟩
    rcases List.mem_append.mp member with old | new
    · exact .inl old
    · exact .inr (List.mem_singleton.mp new)
  · exact ⟨rfl, fun ipn member => .inl member, fun result same => .inl same⟩

theorem processStatus_records (accepted : List PaymentGateTransactionStatus)
    (status : PaymentGateTransactionStatus) (body : IPNApiTypeResponse) :
    (IPNService.processStatus accepted status body).Meets (RecordGuard app (.ipn body))
      (fun _ _ => True) (fun _ _ => True) [] := by
  simp only [IPNService.processStatus, request, call, meets_bind, meets_await, meets_done,
    meets_fail, meets_pure, meets_throwIf, meets_orThrow, RecordGuard, implies_true, and_true,
    true_and, List.nil_append]
  intro found tx same _
  subst same
  exact ⟨body, tx, rfl, by simp, rfl, pushIfBuy_updates body _ tx.val status⟩

theorem processComplete_records (body : IPNApiTypeResponse)
    (complete : IPNApiTypeResponse.isComplete body = true) :
    (IPNService.processComplete app body).Meets (RecordGuard app (.ipn body)) (fun _ _ => True)
      (fun _ _ => True) [] := by
  have pushed : ∀ (tx : PaymentGateTransaction), ∀ ipn ∈ tx.buyIpns ++
      [IPNResponse.createIPNResponse body], ipn ∈ tx.buyIpns ∨
        ipn = IPNResponse.createIPNResponse body := by simp
  simp only [IPNService.processComplete, IPNService.convert,
    CoinpaymentsClient.convertCoinsTransaction, request, call, meets_bind, meets_await, meets_done,
    meets_fail, meets_pure, meets_tryCatch, meets_throwIf, meets_orThrow, RecordGuard, implies_true,
    and_true, true_and, List.nil_append]
  intro found tx same _ investor
  subst same
  have failed : ∀ (past : Trace Op Ans Exception) error, Updates app body past tx.val
      { IPNService.pushBuyIpn body tx.val with
        status := .failed, convertCoinpaymentsData := .error error } :=
    fun past error => ⟨rfl, pushed tx.val, fun result same => by cases same⟩
  refine ⟨fun wallet owned => ?_, fun _ => ⟨body, tx, rfl, by simp, rfl, failed _ _⟩⟩
  obtain ⟨owner, rfl, has⟩ := Option.bind_eq_some_iff.mp owned
  refine ⟨⟨body, tx, rfl, by simp, complete, owner, wallet,
    by simp [Order.of, IPNService.pushBuyIpn], has, rfl⟩,
    fun answer => ⟨body, tx, rfl, by simp, rfl, rfl, pushed tx.val, fun result same => ?_⟩,
    fun error => ⟨body, tx, rfl, by simp, rfl, failed _ _⟩⟩
  cases same
  exact .inr ⟨_, rfl, complete, owner, wallet,
    by simp [Order.of, IPNService.pushBuyIpn], has, rfl⟩

theorem createTransaction_records (user : Investor) (amount currency : String) (now : Nat) :
    (GatewayController.createTransaction app user amount currency now).Meets
      (RecordGuard app (.createTransaction user amount currency now)) (fun _ _ => True)
      (fun _ _ => True) [] := by
  simp only [GatewayController.createTransaction, PaymentsService.initiateBuyEths,
    CoinpaymentsClient.createTransaction, request, call, meets_bind, meets_await, meets_done,
    meets_fail, meets_pure, meets_tryCatch, RecordGuard, implies_true, and_true, true_and]
  exact fun created => ⟨user, amount, currency, now, created, rfl, by simp, rfl⟩

theorem handle_records (app : App) (req : Request) :
    (handle app req).Meets (RecordGuard app req) (fun _ _ => True) (fun _ _ => True) [] := by
  cases req with
  | createTransaction user amount currency now =>
      exact createTransaction_records user amount currency now
  | ipn body =>
      simp only [handle, GatewayController.ipn, meets_bind, meets_tryCatch, meets_pure, meets_ite]
      refine ⟨fun complete => ?_, fun _ => ⟨fun _ => ?_, fun _ => ?_⟩⟩
      · exact processComplete_records body complete
      · exact processStatus_records _ _ body
      · exact processStatus_records _ _ body

/-! ## What a call does to the stored transactions -/

/-- A call keeps the stored transactions, saves over one, or inserts one. -/
inductive TransactionEffect (before : Collection ObjectID PaymentGateTransaction) :
    Call Op Ans Exception → Collection ObjectID PaymentGateTransaction → Prop where
  | kept (call : Call Op Ans Exception) : TransactionEffect before call before
  | saved (tx : Doc ObjectID PaymentGateTransaction) :
      TransactionEffect before ⟨.saveTransaction tx, .ok ()⟩
        (before.save PaymentGateTransaction.write tx)
  | inserted (tx : PaymentGateTransaction) (id : ObjectID)
      (after : Collection ObjectID PaymentGateTransaction) (inserted : before.insert ⟨id, tx⟩ = some after) :
      TransactionEffect before ⟨.insertTransaction tx, .ok id⟩ after

theorem perform_effect (choice : Choice) (op : Op) (world : World) :
    TransactionEffect world.transactions ⟨op, (perform choice op world).1⟩
      (perform choice op world).2.transactions := by
  unfold perform
  cases choice.rejects with
  | some error => exact .kept _
  | none =>
      cases op with
      | saveTransaction tx => exact .saved tx
      | insertTransaction tx =>
          simp only [answer]
          split
          · rename_i after inserted
            exact .inserted tx choice.id after inserted
          · exact .kept _
      | findTransaction txnId => exact .kept _
      | findInvestor email => exact .kept _
      | createTransaction options => exact .kept _
      | convertCoins options => exact .kept _

/-! ## The invariant -/

/-- The thread serves this request. -/
def Requested (state : GatewayState) (thread : Nat) (req : Request) : Prop :=
  ∃ program, state.threads[thread]? = some ⟨req, program⟩

/-- What the log and the requests say about a transaction under an id. -/
structure Recorded (app : App) (state : GatewayState) (id : ObjectID) (tx : PaymentGateTransaction) :
    Prop where
  ordered : ∃ thread user amount currency now created inserted,
    Requested state thread (.createTransaction user amount currency now) ∧
    ⟨thread, ⟨.createTransaction
      { currency1 := app.config.coinPaymentsCurrency1, currency2 := currency, amount,
        buyerEmail := user.email }, .ok created⟩⟩ ∈ state.log ∧
    ⟨thread, ⟨.insertTransaction inserted, .ok id⟩⟩ ∈ state.log ∧
    Order.of inserted = Order.of tx ∧ Order.of tx = Order.ordered app user amount currency now created
  notified : ∀ ipn ∈ tx.buyIpns, ∃ thread body, Requested state thread (.ipn body) ∧
    body.txnId = tx.buyCoinpaymentsData.txnId ∧ ipn = IPNResponse.createIPNResponse body
  converted : ∀ result, tx.convertCoinpaymentsData = .result result → ∃ past thread body,
    Occurs state.log past ⟨thread, ⟨.convertCoins result.options, .ok result.id⟩⟩ ∧
    Requested state thread (.ipn body) ∧ body.txnId = tx.buyCoinpaymentsData.txnId ∧
    PaysTo app body (Order.of tx) result.options (localTrace thread past)

variable {state later : GatewayState} {id : ObjectID} {tx : PaymentGateTransaction} {thread : Nat}

theorem Requested.of_reachable (requested : Requested state thread req)
    (reached : (gateway app).Reachable state later) : Requested later thread req := by
  obtain ⟨program, found⟩ := requested
  exact reached.request_stable found

theorem Recorded.of_reachable (recorded : Recorded app state id tx)
    (reached : (gateway app).Reachable state later) : Recorded app later id tx := by
  obtain ⟨rest, extended⟩ := reached.log_extends
  have kept : ∀ event ∈ state.log, event ∈ later.log := by
    intro event member
    rw [← extended]
    exact List.mem_append_left rest member
  refine ⟨?_, fun ipn member => ?_, fun result same => ?_⟩
  · obtain ⟨thread, user, amount, currency, now, created, inserted, requested, answered, stored,
      orders⟩ := recorded.ordered
    exact ⟨thread, user, amount, currency, now, created, inserted, requested.of_reachable reached,
      kept _ answered, kept _ stored, orders⟩
  · obtain ⟨thread, body, requested, addressed⟩ := recorded.notified ipn member
    exact ⟨thread, body, requested.of_reachable reached, addressed⟩
  · obtain ⟨past, thread, body, ⟨after, split⟩, requested, pays⟩ := recorded.converted result same
    exact ⟨past, thread, body, ⟨after ++ rest, by rw [← extended, split]; simp⟩,
      requested.of_reachable reached, pays⟩

def storedOrder (id : ObjectID) (state : GatewayState) : Option Order :=
  (stored id state).map Order.of

/-- Every stored transaction and every copy of one is recorded, and the copies
have the order that is stored. -/
structure RecordInvariant (app : App) (state : GatewayState) : Prop where
  recorded : ∀ id tx, stored id state = some tx → Recorded app state id tx
  loaded : ∀ thread txnId tx, ⟨thread, ⟨.findTransaction txnId, .ok (some tx)⟩⟩ ∈ state.log →
    tx.val.buyCoinpaymentsData.txnId = txnId ∧ Recorded app state tx.id tx.val
  orders : ∀ thread txnId tx, ⟨thread, ⟨.findTransaction txnId, .ok (some tx)⟩⟩ ∈ state.log →
    storedOrder tx.id state = some (Order.of tx.val)

theorem Recorded.saved {body : IPNApiTypeResponse} {loaded : Doc ObjectID PaymentGateTransaction}
    {saved : PaymentGateTransaction} (recorded : Recorded app state loaded.id loaded.val)
    (addressed : loaded.val.buyCoinpaymentsData.txnId = body.txnId)
    (requested : Requested state thread (.ipn body))
    (updates : Updates app body (localTrace thread state.log) loaded.val saved) :
    Recorded app state loaded.id saved := by
  have sameTxn : saved.buyCoinpaymentsData.txnId = loaded.val.buyCoinpaymentsData.txnId :=
    congrArg (fun order => order.buyCoinpaymentsData.txnId) updates.order
  refine ⟨?_, fun ipn member => ?_, fun result same => ?_⟩
  · rw [updates.order]
    exact recorded.ordered
  · rw [sameTxn]
    rcases updates.ipns ipn member with old | new
    · exact recorded.notified ipn old
    · exact ⟨thread, body, requested, addressed.symm, new⟩
  · rw [sameTxn, updates.order]
    rcases updates.conversion result same with old | ⟨before, trace, pays⟩
    · exact recorded.converted result old
    · obtain ⟨past, occurs, pastEq⟩ := occurs_of_localTrace trace
      exact ⟨past, thread, body, occurs, requested, addressed.symm, pastEq ▸ pays⟩

/-- The transaction of a request is recorded once it is inserted. -/
theorem recorded_of_insert {user : Investor} {amount currency : String} {now : Nat}
    {created : CreateTransactionAnswer} {tx : PaymentGateTransaction}
    (requested : Requested state thread (.createTransaction user amount currency now))
    (answered : ⟨thread, ⟨.createTransaction
      { currency1 := app.config.coinPaymentsCurrency1, currency2 := currency, amount,
        buyerEmail := user.email }, .ok created⟩⟩ ∈ state.log)
    (inserted : ⟨thread, ⟨.insertTransaction tx, .ok id⟩⟩ ∈ state.log)
    (order : Order.of tx = Order.ordered app user amount currency now created)
    (new : tx.buyIpns = [] ∧ tx.convertCoinpaymentsData = .null) : Recorded app state id tx where
  ordered := ⟨thread, user, amount, currency, now, created, tx, requested, answered, inserted, rfl, order⟩
  notified := by simp [new.1]
  converted := by simp [new.2]

/-- What the answer of one call leaves stored. -/
theorem stored_recorded {before after : GatewayState} {thread : Nat} {req : Request}
    {op : Op} {answer : Except Exception (Ans op)} (invariant : RecordInvariant app before)
    (guard : RecordGuard app req (localTrace thread before.log) op)
    (requested : Requested before thread req) (reached : (gateway app).Reachable before after)
    (logged : after.log = before.log ++ [⟨thread, ⟨op, answer⟩⟩])
    (effect : TransactionEffect before.world.transactions ⟨op, answer⟩ after.world.transactions)
    {id : ObjectID} {tx : PaymentGateTransaction} (found : stored id after = some tx) :
    Recorded app after id tx := by
  unfold stored at found
  generalize after.world.transactions = transactions at effect found
  cases effect with
  | kept => exact (invariant.recorded id tx found).of_reachable reached
  | saved saved =>
      obtain ⟨body, loaded, rfl, member, sameId, updates⟩ := guard
      obtain ⟨addressed, recorded⟩ := invariant.loaded thread _ loaded (mem_localTrace.mp member)
      rw [Collection.lookup_save] at found
      split at found
      · rename_i own
        obtain ⟨_, _, rfl⟩ := Option.map_eq_some_iff.mp found
        rw [own, sameId]
        exact (recorded.saved addressed requested updates).of_reachable reached
      · exact (invariant.recorded id tx found).of_reachable reached
  | inserted inserted new _ insert =>
      obtain ⟨user, amount, currency, now, created, rfl, answered, order, fresh⟩ := guard
      rw [Collection.lookup_insert insert] at found
      split at found
      · rename_i own
        cases found
        refine recorded_of_insert (requested.of_reachable reached) ?_ ?_ order fresh
        · rw [logged]
          exact List.mem_append_left _ (mem_localTrace.mp answered)
        · rw [logged, own]
          exact List.mem_append_right _ (List.mem_singleton.mpr rfl)
      · exact (invariant.recorded id tx found).of_reachable reached

/-- The order that is stored under an id stays. -/
theorem storedOrder_kept {before after : GatewayState} {thread : Nat} {req : Request}
    {call : Call Op Ans Exception} (invariant : RecordInvariant app before)
    (guard : RecordGuard app req (localTrace thread before.log) call.1)
    (effect : TransactionEffect before.world.transactions call after.world.transactions)
    {id : ObjectID} {order : Order} (found : storedOrder id before = some order) :
    storedOrder id after = some order := by
  unfold storedOrder stored at found ⊢
  generalize after.world.transactions = transactions at effect ⊢
  cases effect with
  | kept => exact found
  | saved saved =>
      obtain ⟨body, loaded, _, member, sameId, updates⟩ := guard
      have current := invariant.orders thread _ loaded (mem_localTrace.mp member)
      rw [Collection.lookup_save]
      split
      · rename_i own
        rw [own, sameId] at found ⊢
        obtain ⟨tx, txFound, orderEq⟩ := Option.map_eq_some_iff.mp found
        rw [storedOrder, stored, txFound] at current
        rw [txFound, ← orderEq]
        simpa [PaymentGateTransaction.write, updates.order] using current.symm
      · exact found
  | inserted inserted new _ insert =>
      rw [Collection.lookup_insert insert]
      split
      · rename_i own
        rw [own, (Collection.insert_eq_some_iff.mp insert).1] at found
        cases found
      · exact found

theorem mem_performed {choice : Choice} {world : World} {log : Log} {thread other : Nat} {op op' : Op}
    {result : Except Exception (Ans op')} :
    ⟨other, ⟨op', result⟩⟩ ∈ log ++ [⟨thread, ⟨op, (perform choice op world).1⟩⟩] ↔
      ⟨other, ⟨op', result⟩⟩ ∈ log ∨
        other = thread ∧ op = op' ∧ (perform choice op' world).1 = result :=
  @mem_answered _ _ _ (fun op => (perform choice op world).1) _ _ _ _ _ _

theorem RecordInvariant.step (reached : (gateway app).Reachable (.idle {}) state)
    (invariant : RecordInvariant app state) (action : Action Choice Request) :
    RecordInvariant app ((gateway app).step state action) := by
  have stepped : (gateway app).Reachable state ((gateway app).step state action) :=
    .step action .initial
  rcases (gateway app).step_cases state action with same | ⟨req, _, started⟩ |
    ⟨thread, choice, req, op, resume, _, awaiting, resumed⟩
  · rw [same]
    exact invariant
  · refine ⟨fun id tx found => ?_, fun thread txnId tx member => ?_, fun thread txnId tx member => ?_⟩
    · rw [started] at found
      exact (invariant.recorded id tx found).of_reachable stepped
    · rw [started] at member
      obtain ⟨addressed, recorded⟩ := invariant.loaded thread txnId tx member
      exact ⟨addressed, recorded.of_reachable stepped⟩
    · rw [started] at member ⊢
      exact invariant.orders thread txnId tx member
  · have guard := (reached.guarded (handle_records app) awaiting).1
    have effect : TransactionEffect state.world.transactions ⟨op, (perform choice op state.world).1⟩
        ((gateway app).step state action).world.transactions := by
      rw [resumed]
      exact perform_effect choice op state.world
    refine ⟨fun id tx found => ?_, fun other txnId tx member => ?_, fun other txnId tx member => ?_⟩
    · exact stored_recorded invariant guard ⟨_, awaiting⟩ stepped (by rw [resumed]; rfl) effect found
    · rw [resumed] at member
      rcases mem_performed.mp member with old | ⟨_, rfl, answered⟩
      · obtain ⟨addressed, recorded⟩ := invariant.loaded other txnId tx old
        exact ⟨addressed, recorded.of_reachable stepped⟩
      · have located := findTransaction_answered answered
        refine ⟨by simpa using Collection.matching_of_findOne located, ?_⟩
        exact (invariant.recorded _ _ (Collection.lookup_of_findOne located)).of_reachable stepped
    · rw [resumed] at member
      refine storedOrder_kept invariant guard effect ?_
      rcases mem_performed.mp member with old | ⟨_, rfl, answered⟩
      · exact invariant.orders other txnId tx old
      · rw [storedOrder, stored, Collection.lookup_of_findOne (findTransaction_answered answered)]
        rfl

theorem recordInvariant (reached : (gateway app).Reachable (.idle {}) state) :
    RecordInvariant app state := by
  induction reached with
  | initial =>
      refine ⟨fun id tx found => ?_, fun thread txnId tx member => ?_, fun thread txnId tx member => ?_⟩
      · cases found
      · cases member
      · cases member
  | step action reached invariant => exact invariant.step reached action

/-- A conversion was made for a transaction that is stored. -/
def ConvertedFor (app : App) (state : GatewayState) (past : Log) (thread : Nat)
    (options : ConversionOptions) (id : ObjectID) (tx : PaymentGateTransaction) : Prop :=
  ∃ body, Requested state thread (.ipn body) ∧ stored id state = some tx ∧
    body.txnId = tx.buyCoinpaymentsData.txnId ∧
    PaysTo app body (Order.of tx) options (localTrace thread past)

theorem convertedFor (reached : (gateway app).Reachable (.idle {}) state) {past : Log} {thread : Nat}
    {options : ConversionOptions} {answer : Except Exception String}
    (occurs : Occurs state.log past ⟨thread, ⟨.convertCoins options, answer⟩⟩) :
    ∃ id tx, ConvertedFor app state past thread options id tx := by
  have invariant := recordInvariant reached
  obtain ⟨origin, choice, req, resume, before, rfl, awaiting, _, after⟩ := reached.event_origin occurs
  obtain ⟨body, loaded, rfl, member, pays⟩ := (before.guarded (handle_records app) awaiting).1
  have inLog : ⟨thread, ⟨.findTransaction body.txnId, .ok (some loaded)⟩⟩ ∈ state.log :=
    mem_localTrace.mp ((occurs.localTrace_extends thread).subset member)
  obtain ⟨tx, found, order⟩ := Option.map_eq_some_iff.mp (invariant.orders thread _ loaded inLog)
  have requested : Requested origin thread (.ipn body) := ⟨_, awaiting⟩
  refine ⟨loaded.id, tx, body, (requested.of_reachable (.step _ .initial)).of_reachable after, found,
    ?_, order ▸ pays⟩
  rw [← (invariant.loaded thread _ loaded inLog).1]
  exact congrArg (fun order => order.buyCoinpaymentsData.txnId) order.symm

/-- However the requests and the notifications interleave and fail, a stored
transaction is as its request ordered it, has only the notifications that were
sent for it, and shows only a conversion that was made for it; and each
conversion was made for a transaction that is stored, to the wallet of the
investor that had ordered. -/
theorem payment_record (reached : (gateway app).Reachable (.idle {}) state) :
    (∀ id tx, stored id state = some tx → Recorded app state id tx) ∧
    ∀ past thread options answer,
      Occurs state.log past ⟨thread, ⟨.convertCoins options, answer⟩⟩ →
      ∃ id tx, ConvertedFor app state past thread options id tx :=
  ⟨(recordInvariant reached).recorded, fun _ _ _ _ occurs => convertedFor reached occurs⟩

theorem paid_payment_record :
    (∀ id tx, stored id (after .plain paidRun) = some tx → Recorded .plain (after .plain paidRun) id tx) ∧
    ∀ past thread options answer,
      Occurs (after .plain paidRun).log past ⟨thread, ⟨.convertCoins options, answer⟩⟩ →
      ∃ id tx, ConvertedFor .plain (after .plain paidRun) past thread options id tx :=
  payment_record (System.reachable_run _ _)

end IcoDashboard.Gateway
