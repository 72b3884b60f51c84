import IcoDashboard.Chain.Services

namespace IcoDashboard.Chain

open IcoDashboard.Async IcoDashboard.Async.Program IcoDashboard.Data

/-! # Transaction service

What the service reads from the data of a transaction, and how it records it.
-/

structure DecodedMethod where
  name : String
  params : List String
deriving DecidableEq, Repr

/-- The functions of web3 and of the ABI decoder, with what they throw. -/
structure Web3 where
  toChecksumAddress : String → Except Exception String
  fromWei : String → Except Exception String
  /-- Nothing for a selector that the token contract does not have. -/
  decodeMethod : String → Except Exception (Option DecodedMethod)

structure FromToTokenAmount where
  «from» : String
  «to» : Option String
  tokenAmount : Option String
deriving DecidableEq, Repr

/-- The value, where reading a property of `undefined` throws. -/
def defined {α : Type} : Option α → Except Exception α
  | some value => .ok value
  | none => .error typeError

namespace TransactionService

variable (app : App) (web3 : Web3)

/-- The calls of the token contract that are read: direct transfers. -/
def decodeTransfer (input : String) : Except Exception (Option (String × String)) := do
  let decodedData ← defined (← web3.decodeMethod input)
  if decodedData.name = "transfer" then
    let recipient ← web3.toChecksumAddress (← defined decodedData.params[0]?)
    let tokenAmount ← web3.fromWei (← defined decodedData.params[1]?)
    return some (recipient, tokenAmount)
  else return none

def getFromToTokenAmountByTxDataAndType (txData : TransactionData) (type : TransactionType) :
    Except Exception FromToTokenAmount := do
  let sender ← web3.toChecksumAddress txData.from
  if type = .tokenTransfer then
    let transfer ← decodeTransfer web3 txData.input
    return { «from» := sender, «to» := transfer.map Prod.fst, tokenAmount := transfer.map Prod.snd }
  else match txData.to with
    | some recipient =>
        if recipient = "" then return { «from» := sender, «to» := none, tokenAmount := none }
        else do
          let recipient ← web3.toChecksumAddress recipient
          return { «from» := sender, «to» := some recipient, tokenAmount := none }
    | none => return { «from» := sender, «to» := none, tokenAmount := none }

def getTxStatusByReceipt (receipt : Receipt) : TransactionStatus :=
  if receipt.status = .flag true then .confirmed else .failed

def getTxTypeByData (transactionData : TransactionData) : TransactionType :=
  match transactionData.to with
  | some recipient =>
      if recipient ≠ "" ∧ app.toLowerCase recipient = app.toLowerCase app.config.tokenAddress then
        .tokenTransfer
      else .ethereumTransfer
  | none => .ethereumTransfer

theorem getTxTypeByData_ne_referral (tx : TransactionData) :
    getTxTypeByData app tx ≠ .referralTransfer := by
  unfold getTxTypeByData
  split
  · split <;> simp
  · simp

/-- The addresses and amount of a transaction, by its own type. -/
def getFromToTokenAmount (txData : TransactionData) : Except Exception FromToTokenAmount :=
  getFromToTokenAmountByTxDataAndType web3 txData (getTxTypeByData app txData)

def recordKey (txData : TransactionData) (addresses : FromToTokenAmount) : TransactionKey where
  transactionHash := txData.hash
  type := getTxTypeByData app txData
  «from» := addresses.from
  «to» := addresses.to

def getTxByTxData (transactionData : TransactionData) : Handler (Option (Doc Nat Transaction)) := do
  let addresses ← ofExcept (getFromToTokenAmount app web3 transactionData)
  request (.findTransaction (recordKey app transactionData addresses))

def investorAddresses (addresses : FromToTokenAmount) : List String :=
  match addresses.to with
  | some recipient =>
      if recipient = "" then [addresses.from] else [addresses.from, recipient]
  | none => [addresses.from]

def getUserCountByTxData (txData : TransactionData) : Handler Nat := do
  let addresses ← ofExcept (getFromToTokenAmount app web3 txData)
  request (.countInvestors (investorAddresses addresses))

def updateTx (tx : Doc Nat Transaction) (status : TransactionStatus) (blockData : BlockData) :
    Handler Unit :=
  request (.saveTransaction (tx.modify fun tx =>
    { tx with status, timestamp := blockData.timestamp, blockNumber := some blockData.number }))

/-- The record that is created; `now` is the time of the clock. -/
def transformedTxData (transactionData : TransactionData) (addresses : FromToTokenAmount)
    (ethAmount : String) (status : TransactionStatus) (blockData : Option BlockData) (now : Nat) :
    Transaction where
  transactionHash := transactionData.hash
  «from» := addresses.from
  type := getTxTypeByData app transactionData
  «to» := addresses.to
  ethAmount := ethAmount
  tokenAmount := addresses.tokenAmount
  status := status
  timestamp := (blockData.map BlockData.timestamp).getD now
  blockNumber := blockData.map BlockData.number

def createAndSaveTransaction (transactionData : TransactionData) (status : TransactionStatus)
    (blockData : Option BlockData) (now : Nat) : Handler Unit := do
  let addresses ← ofExcept (getFromToTokenAmount app web3 transactionData)
  let ethAmount ← ofExcept (web3.fromWei transactionData.value)
  request (.insertTransaction
    (transformedTxData app transactionData addresses ethAmount status blockData now))

end TransactionService
end IcoDashboard.Chain
