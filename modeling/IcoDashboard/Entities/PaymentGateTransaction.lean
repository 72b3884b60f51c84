import IcoDashboard.Platform

namespace IcoDashboard

/-! # Payment-gate transactions -/

inductive PaymentGateTransactionType where
  | buy | convert
deriving DecidableEq, Repr

inductive PaymentGateTransactionStatus where
  | started | pending | failed | complete | initiateTransferTokens
deriving DecidableEq, Repr

structure CoinpaymentsTransactionResult where
  email : String
  amount : String
  txnId : String
  address : String
  confirmsNeeded : String
  timeout : Nat
  statusUrl : String
  qrcodeUrl : String
  currency1 : String
  currency2 : String
deriving DecidableEq, Repr

structure ConversionOptions where
  amount : String
  «from» : String
  «to» : String
  address : String
deriving DecidableEq, Repr

structure ConversionResult where
  id : String
  options : ConversionOptions
deriving DecidableEq, Repr

/-- The `convertCoinpaymentsData` column: null, the result of a successful
conversion, or the error of a failed one. -/
inductive ConvertCoinpaymentsData where
  | null
  | result (result : ConversionResult)
  | error (error : Exception)
deriving DecidableEq, Repr

/-- The body of an IPN.  The status is `none` when it is not a number. -/
structure IPNApiTypeResponse where
  ipnVersion : String := "1.0"
  ipnType : String := "api"
  ipnMode : String := "hmac"
  ipnId : String := ""
  merchant : String := ""
  status : Option Int
  statusText : String := ""
  txnId : String
  currency1 : String := ""
  currency2 : String := ""
  amount1 : String := ""
  amount2 : String := ""
  fee : String := ""
  net : String := ""
  buyerName : String := ""
  email : String := ""
  itemName : String := ""
  itemNumber : String := ""
  receivedAmount : String := ""
  receivedConfirms : String := ""
  timestamp : Option Nat := none
deriving DecidableEq, Repr

structure IPNResponse where
  ipnVersion : String
  ipnType : String
  ipnMode : String
  ipnId : String
  merchant : String
  status : Option Int
  statusText : String
  txnId : String
  currency1 : String
  currency2 : String
  amount1 : String
  amount2 : String
  fee : String
  buyerName : String
  email : String
  itemName : String
  itemNumber : String
  receivedAmount : String
  receivedConfirms : String
  net : String
  timestamp : Option Nat
deriving DecidableEq, Repr

def IPNResponse.createIPNResponse (data : IPNApiTypeResponse) : IPNResponse where
  amount1 := data.amount1
  amount2 := data.amount2
  buyerName := data.buyerName
  currency1 := data.currency1
  currency2 := data.currency2
  email := data.email
  fee := data.fee
  ipnId := data.ipnId
  ipnMode := data.ipnMode
  ipnType := data.ipnType
  ipnVersion := data.ipnVersion
  itemName := data.itemName
  itemNumber := data.itemNumber
  merchant := data.merchant
  net := data.net
  receivedAmount := data.receivedAmount
  -- the source reads `received_amount` for both columns
  receivedConfirms := data.receivedAmount
  statusText := data.statusText
  status := data.status
  timestamp := data.timestamp
  txnId := data.txnId

structure PaymentGateTransaction where
  type : PaymentGateTransactionType
  status : PaymentGateTransactionStatus
  userEmail : String
  expiredOn : Nat
  buyCoinpaymentsData : CoinpaymentsTransactionResult
  convertCoinpaymentsData : ConvertCoinpaymentsData
  buyIpns : List IPNResponse
  timestamp : Nat
deriving DecidableEq, Repr

/-- A save replaces the stored document. -/
def PaymentGateTransaction.write (_stored loaded : PaymentGateTransaction) :
    PaymentGateTransaction := loaded

end IcoDashboard
