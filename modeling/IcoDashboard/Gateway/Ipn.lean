import IcoDashboard.Async.Interleaving
import IcoDashboard.Entities.Investor
import IcoDashboard.Entities.PaymentGateTransaction

namespace IcoDashboard.Gateway

open IcoDashboard.Async IcoDashboard.Async.Program IcoDashboard.Data

/-! # The payment gateway

`PaymentsService`, `IPNService` and the two gateway routes that run them,
against the payment-gate transactions, the investors and the CoinPayments API.
-/

/-- What the CoinPayments API returns for a new transaction. -/
structure CreateTransactionAnswer where
  address : String := ""
  confirmsNeeded : String := ""
  timeout : Nat := 0
  statusUrl : String := ""
  qrcodeUrl : String := ""
  txnId : String := ""

structure CreateTransactionOptions where
  currency1 : String
  currency2 : String
  amount : String
  buyerEmail : String

inductive Op where
  | findTransaction (txnId : String)
  | saveTransaction (tx : Doc ObjectID PaymentGateTransaction)
  | insertTransaction (tx : PaymentGateTransaction)
  | findInvestor (email : String)
  | createTransaction (options : CreateTransactionOptions)
  | convertCoins (options : ConversionOptions)

abbrev Ans : Op → Type
  | .findTransaction _ => Option (Doc ObjectID PaymentGateTransaction)
  | .saveTransaction _ => Unit
  | .insertTransaction _ => ObjectID
  | .findInvestor _ => Option Investor
  | .createTransaction _ => CreateTransactionAnswer
  | .convertCoins _ => String

abbrev Handler (α : Type) : Type := Program Op Ans Exception α

def request (op : Op) : Handler (Ans op) := Program.call op

/-! ## Services -/

namespace CoinpaymentsClient

variable (app : App)

def createTransaction (amount currency buyerEmail : String) :
    Handler CoinpaymentsTransactionResult := do
  let options : CreateTransactionOptions :=
    { currency1 := app.config.coinPaymentsCurrency1, currency2 := currency, amount, buyerEmail }
  let answer ← request (.createTransaction options)
  return {
    address := answer.address
    amount := options.amount
    confirmsNeeded := answer.confirmsNeeded
    currency1 := options.currency1
    currency2 := options.currency2
    email := options.buyerEmail
    qrcodeUrl := answer.qrcodeUrl
    statusUrl := answer.statusUrl
    timeout := answer.timeout
    txnId := answer.txnId }

def convertCoinsTransaction (options : ConversionOptions) : Handler ConversionResult := do
  let id ← request (.convertCoins options)
  return { id, options }

end CoinpaymentsClient

namespace PaymentsService

def initiateBuyEths (app : App) (currentUser : Investor) (amount purchaseInCurrency : String)
    (now : Nat) : Handler (Doc ObjectID PaymentGateTransaction) := do
  let txCoinpaymentsData ←
    CoinpaymentsClient.createTransaction app amount purchaseInCurrency currentUser.email
  let tx : PaymentGateTransaction := {
    buyCoinpaymentsData := txCoinpaymentsData
    buyIpns := []
    convertCoinpaymentsData := .null
    expiredOn := txCoinpaymentsData.timeout + now
    status := .started
    type := .buy
    userEmail := currentUser.email
    timestamp := now }
  let id ← request (.insertTransaction tx)
  return ⟨id, tx⟩

end PaymentsService

namespace IPNService

def pushBuyIpn (data : IPNApiTypeResponse) (tx : PaymentGateTransaction) : PaymentGateTransaction :=
  { tx with buyIpns := tx.buyIpns ++ [IPNResponse.createIPNResponse data] }

/-- Only a transaction still of type buy keeps a fail or pending notification. -/
def pushIfBuy (data : IPNApiTypeResponse) (tx : PaymentGateTransaction) : PaymentGateTransaction :=
  if tx.type = .buy then pushBuyIpn data tx else tx

@[simp] theorem pushBuyIpn_type (data : IPNApiTypeResponse) (tx : PaymentGateTransaction) :
    (pushBuyIpn data tx).type = tx.type := rfl

@[simp] theorem pushIfBuy_type (data : IPNApiTypeResponse) (tx : PaymentGateTransaction) :
    (pushIfBuy data tx).type = tx.type := by
  unfold pushIfBuy
  split <;> rfl

@[simp] theorem pushIfBuy_convertCoinpaymentsData (data : IPNApiTypeResponse)
    (tx : PaymentGateTransaction) :
    (pushIfBuy data tx).convertCoinpaymentsData = tx.convertCoinpaymentsData := by
  unfold pushIfBuy
  split <;> rfl

/-- The common body of `processFail` and `processPending`. -/
def processStatus (accepted : List PaymentGateTransactionStatus)
    (status : PaymentGateTransactionStatus) (data : IPNApiTypeResponse) :
    Handler (Doc ObjectID PaymentGateTransaction) := do
  let tx ← orThrow (← request (.findTransaction data.txnId)) (error "Transaction not found")
  throwIf (tx.val.status ∉ accepted) (error "Invalid status")
  let tx := tx.modify fun tx => { tx with status }
  let tx := tx.modify (pushIfBuy data)
  request (.saveTransaction tx)
  return tx

def processFail (data : IPNApiTypeResponse) : Handler (Doc ObjectID PaymentGateTransaction) :=
  processStatus [.started, .failed, .pending] .failed data

def processPending (data : IPNApiTypeResponse) : Handler (Doc ObjectID PaymentGateTransaction) :=
  processStatus [.started, .pending] .pending data

/-- The conversion inside the `try` block; the investor may be missing or have
no wallet yet. -/
def convert (app : App) (data : IPNApiTypeResponse) (tx : Doc ObjectID PaymentGateTransaction)
    (investor : Option Investor) : Handler (Doc ObjectID PaymentGateTransaction) := do
  let ethWallet ← orThrow (investor.bind Investor.ethWallet) typeError
  let converted ← CoinpaymentsClient.convertCoinsTransaction {
    amount := data.net
    «from» := tx.val.buyCoinpaymentsData.currency2
    «to» := app.config.coinPaymentsCurrency1
    address := ethWallet.address }
  return tx.modify fun tx =>
    { tx with convertCoinpaymentsData := .result converted, type := .convert, status := .started }

def processComplete (app : App) (data : IPNApiTypeResponse) :
    Handler (Doc ObjectID PaymentGateTransaction) := do
  let tx ← orThrow (← request (.findTransaction data.txnId)) (error "Transaction not found")
  throwIf (tx.val.status ∉ [.started, .pending]) (error "Invalid status")
  let tx := tx.modify (pushBuyIpn data)
  let investor ← request (.findInvestor (app.toLowerCase tx.val.userEmail))
  let tx ← tryCatch (convert app data tx investor) fun error =>
    return tx.modify fun tx => { tx with status := .failed, convertCoinpaymentsData := .error error }
  request (.saveTransaction tx)
  return tx

end IPNService

/-! ## Routes -/

def ipnResponseStatusComplete : Int := 100

/-- A status that is not a number compares false both times. -/
def IPNApiTypeResponse.isComplete (body : IPNApiTypeResponse) : Bool :=
  body.status.any (fun status => ipnResponseStatusComplete ≤ status)

def IPNApiTypeResponse.isFail (body : IPNApiTypeResponse) : Bool :=
  body.status.any (fun status => status < 0)

inductive Response where
  | text (text : String)
  | transaction (data : CoinpaymentsTransactionResult)
  | failure (error : Exception)

namespace GatewayController

def createTransaction (app : App) (user : Investor) (amount currency : String) (now : Nat) :
    Handler Response :=
  tryCatch
    (do
      let tx ← PaymentsService.initiateBuyEths app user amount currency now
      return .transaction tx.val.buyCoinpaymentsData)
    fun error => return .failure error

def ipn (app : App) (body : IPNApiTypeResponse) : Handler Response :=
  tryCatch
    (do
      if IPNApiTypeResponse.isComplete body then
        let _ ← IPNService.processComplete app body
      else if IPNApiTypeResponse.isFail body then
        let _ ← IPNService.processFail body
      else
        let _ ← IPNService.processPending body
      return .text "IPN OK")
    fun error => return .text ("IPN Error: " ++ error.message)

end GatewayController

/-! ## The running gateway -/

inductive Request where
  | createTransaction (user : Investor) (amount currency : String) (now : Nat)
  | ipn (body : IPNApiTypeResponse)

def handle (app : App) : Request → Handler Response
  | .createTransaction user amount currency now =>
      GatewayController.createTransaction app user amount currency now
  | .ipn body => GatewayController.ipn app body

structure World where
  transactions : Collection ObjectID PaymentGateTransaction := .empty

/-- What the environment decides at one call: whether it is rejected, and what
an outside service answers. -/
structure Choice where
  rejects : Option Exception := none
  id : ObjectID := 0
  investor : Option Investor := none
  created : CreateTransactionAnswer := {}
  converted : String := ""

def answer (choice : Choice) (world : World) : (op : Op) → Except Exception (Ans op) × World
  | .findTransaction txnId =>
      (.ok (world.transactions.findOne fun tx => tx.buyCoinpaymentsData.txnId = txnId), world)
  | .saveTransaction tx =>
      (.ok (), { world with
        transactions := world.transactions.save PaymentGateTransaction.write tx })
  | .insertTransaction tx =>
      match world.transactions.insert ⟨choice.id, tx⟩ with
      | some transactions => (.ok choice.id, { world with transactions })
      | none => (.error { constructor := .mongo }, world)
  | .findInvestor _ => (.ok choice.investor, world)
  | .createTransaction _ => (.ok choice.created, world)
  | .convertCoins _ => (.ok choice.converted, world)

/-- A rejected call leaves the world as it is. -/
def perform (choice : Choice) (op : Op) (world : World) : Except Exception (Ans op) × World :=
  match choice.rejects with
  | some error => (.error error, world)
  | none => answer choice world op

def gateway (app : App) : System Op Ans Exception World Choice Request Response where
  handler := handle app
  perform := perform

end IcoDashboard.Gateway
