import IcoDashboard.Async.Joint
import IcoDashboard.Accounts.WalletOwners
import IcoDashboard.Gateway.Records

namespace IcoDashboard.Backend

open IcoDashboard.Async IcoDashboard.Data

/-! # Payments of the investors

The account requests and the payment gateway run side by side over the stored
investors: a transaction is ordered by a user whom the authentication has
loaded, and a notification reads the investor as it is stored at that moment.
-/

/-- The call has loaded this user by email, as the authentication does. -/
def loadsUser (user : Investor) : Call Accounts.Op Accounts.Ans Exception → Bool
  | ⟨.findInvestor (.email _), .ok (some found)⟩ => found.val = user
  | _ => false

def ordersAdmitted (accounts : Accounts.AccountState) : Gateway.Request → Bool
  | .createTransaction user _ _ _ => accounts.log.any fun event => loadsUser user event.call
  | .ipn _ => true

def feedInvestor (world : Accounts.World) : Gateway.Op → Gateway.Choice → Gateway.Choice
  | .findInvestor email, choice =>
      { choice with investor := (world.findInvestor (.email email)).map Doc.val }
  | _, choice => choice

def payments (app : App) :
    Joint Accounts.Op Accounts.Ans Exception Accounts.World Accounts.Choice Accounts.Arrival
      Accounts.Response Gateway.Op Gateway.Ans Exception Gateway.World Gateway.Choice Gateway.Request
      Gateway.Response where
  first := Accounts.accounts app
  second := Gateway.gateway app
  admits := ordersAdmitted
  feed := feedInvestor

abbrev PaymentState : Type :=
  JointState Accounts.Op Accounts.Ans Exception Accounts.World Accounts.Arrival Accounts.Response
    Gateway.Op Gateway.Ans Exception Gateway.World Gateway.Request Gateway.Response

variable {app : App} {state : PaymentState}

theorem exists_of_loadsUser {user : Investor} {call : Call Accounts.Op Accounts.Ans Exception}
    (loads : loadsUser user call = true) :
    ∃ email id, call = ⟨.findInvestor (.email email), .ok (some ⟨id, user⟩)⟩ := by
  unfold loadsUser at loads
  split at loads
  · rename_i email found
    obtain ⟨id, val⟩ := found
    obtain rfl : val = user := by simpa using loads
    exact ⟨email, id, rfl⟩
  · cases loads

/-- The user of an order is a stored investor, with the email it had then. -/
theorem ordering_user (reached : (payments app).Reachable (Joint.idle {} {}) state) {thread : Nat}
    {user : Investor} {amount currency : String} {now : Nat}
    (requested : Gateway.Requested state.second thread (.createTransaction user amount currency now)) :
    ∃ id, Accounts.emailOf state.first.world.investors id = some user.email ∧
      app.toLowerCase user.email = user.email := by
  obtain ⟨program, found⟩ := requested
  obtain ⟨origin, start, admitted, after⟩ := reached.admitted found
  obtain ⟨event, member, loads⟩ := List.any_eq_true.mp admitted
  obtain ⟨email, id, callEq⟩ := exists_of_loadsUser loads
  have store := Accounts.storeInvariant start.ofFirst
  obtain ⟨stored, _⟩ := store.loaded event.thread (.email email) ⟨id, user⟩ (callEq ▸ member)
  exact ⟨id, Accounts.emailOf_kept start.ofFirst after.ofFirst stored,
    store.lowered id user.email stored⟩

/-- An investor that a notification has read was stored at that moment. -/
theorem read_investor (reached : (payments app).Reachable (Joint.idle {} {}) state) {thread : Nat}
    {email : String} {investor : Investor}
    (read : ⟨thread, ⟨.findInvestor email, .ok (some investor)⟩⟩ ∈ state.second.log) :
    ∃ origin id, (payments app).Reachable (Joint.idle {} {}) origin ∧
      (payments app).Reachable origin state ∧ investor.email = email ∧
      origin.first.world.investors.lookup id = some investor := by
  obtain ⟨past, occurs⟩ := occurs_of_mem read
  obtain ⟨origin, choice, start, _, answered, after⟩ := reached.answered occurs
  have found : (origin.first.world.findInvestor (.email email)).map Doc.val = some investor := by
    simp only [payments, Gateway.gateway, Gateway.perform, feedInvestor] at answered
    split at answered
    · cases answered
    · exact (Except.ok.inj answered).symm
  obtain ⟨doc, located, rfl⟩ := Option.map_eq_some_iff.mp found
  obtain ⟨lookup, byEmail⟩ := Accounts.findInvestor_loaded located
  exact ⟨origin, doc.id, start, after, byEmail email rfl, lookup⟩

/-- In every interleaving of account requests, orders and notifications, each
conversion of a payment is for a transaction that a stored investor ordered, in
the currency of the order, and pays out to a wallet that an activation of this
very investor created after a code of it was validated. -/
theorem payout_owner (reached : (payments app).Reachable (Joint.idle {} {}) state)
    {past : Gateway.Log} {thread : Nat} {options : ConversionOptions}
    {answer : Except Exception String}
    (occurs : Occurs state.second.log past ⟨thread, ⟨.convertCoins options, answer⟩⟩) :
    ∃ body ordering user amount currency now inserted txId id wallet,
      Gateway.Requested state.second thread (.ipn body) ∧
      Gateway.Requested state.second ordering (.createTransaction user amount currency now) ∧
      ⟨ordering, ⟨.insertTransaction inserted, .ok txId⟩⟩ ∈ state.second.log ∧
      body.txnId = inserted.buyCoinpaymentsData.txnId ∧ inserted.userEmail = user.email ∧
      Accounts.emailOf state.first.world.investors id = some user.email ∧
      Accounts.CreatedFor app state.first user.email wallet ∧
      options = { amount := body.net, «from» := currency, «to» := app.config.coinPaymentsCurrency1,
                  address := wallet.address } := by
  obtain ⟨txId, tx, body, requested, stored, addressed, _, investor, wallet, read, has, optionsEq⟩ :=
    Gateway.convertedFor reached.ofSecond occurs
  obtain ⟨ordering, user, amount, currency, now, created, inserted, ordered, _, insert, same, order⟩ :=
    ((Gateway.recordInvariant reached.ofSecond).recorded txId tx stored).ordered
  have userEmail : (Gateway.Order.of tx).userEmail = user.email := by rw [order]; rfl
  have inLog : ⟨thread, ⟨.findInvestor (app.toLowerCase user.email), .ok (some investor)⟩⟩ ∈
      state.second.log := by
    rw [← userEmail]
    exact mem_localTrace.mp ((occurs.localTrace_extends thread).subset read)
  obtain ⟨userId, own, lowered⟩ := ordering_user reached ordered
  obtain ⟨origin, id, start, after, email, lookup⟩ := read_investor reached inLog
  rw [lowered] at email
  have introduced := Accounts.stored_wallet start.ofFirst lookup has
  have kept := Accounts.emailOf_kept start.ofFirst after.ofFirst
    (by simp [Accounts.emailOf, lookup, email] : Accounts.emailOf _ id = some user.email)
  refine ⟨body, ordering, user, amount, currency, now, inserted, txId, id, wallet, requested, ordered,
    insert, ?_, ?_, kept, ?_, ?_⟩
  · rw [addressed]
    exact congrArg (fun order => order.buyCoinpaymentsData.txnId) same.symm
  · exact (congrArg Gateway.Order.userEmail same).trans userEmail
  · exact (introduced.extended after.ofFirst.log_extends).createdFor reached.ofFirst kept
  · rw [optionsEq, order]
    rfl

/-- The newcomer signs up and activates, orders, and the notification of the
payment arrives. -/
def newcomerPays : PaymentState :=
  (payments .plain).run (Joint.idle {} {})
    ((Accounts.signUp ++ Accounts.activation 1).map .first ++
      [.second (.start (.createTransaction
          (Investor.createInvestor .plain Accounts.newcomer "secret" "v1") "1" "BTC" 0)),
        .second (.resume 0 { created := { txnId := "t1" } }), .second (.resume 0 { id := 7 }),
        .second (.start (.ipn Gateway.completeIpn)), .second (.resume 1 {}), .second (.resume 1 {}),
        .second (.resume 1 { converted := "c1" }), .second (.resume 1 {})])

set_option maxRecDepth 4096 in
theorem newcomer_payout_owner :
    ∃ body ordering user amount currency now inserted txId id wallet,
      Gateway.Requested newcomerPays.second 1 (.ipn body) ∧
      Gateway.Requested newcomerPays.second ordering (.createTransaction user amount currency now) ∧
      ⟨ordering, ⟨.insertTransaction inserted, .ok txId⟩⟩ ∈ newcomerPays.second.log ∧
      body.txnId = inserted.buyCoinpaymentsData.txnId ∧ inserted.userEmail = user.email ∧
      Accounts.emailOf newcomerPays.first.world.investors id = some user.email ∧
      Accounts.CreatedFor .plain newcomerPays.first user.email wallet ∧
      ({ amount := "1", «from» := "BTC", «to» := "ETH", address := "salt" } : ConversionOptions) =
        { amount := body.net, «from» := currency, «to» := App.plain.config.coinPaymentsCurrency1,
          address := wallet.address } := by
  have occurs : Occurs newcomerPays.second.log (newcomerPays.second.log.take 4)
      ⟨1, ⟨.convertCoins { amount := "1", «from» := "BTC", «to» := "ETH", address := "salt" },
        .ok "c1"⟩⟩ := ⟨newcomerPays.second.log.drop 5, by with_unfolding_all rfl⟩
  exact payout_owner (Joint.reachable_run _ _) occurs

end IcoDashboard.Backend
