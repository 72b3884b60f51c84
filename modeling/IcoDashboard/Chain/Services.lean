import IcoDashboard.Async.Interleaving
import IcoDashboard.Entities.Investor
import IcoDashboard.Entities.Transaction

namespace IcoDashboard.Chain

open IcoDashboard.Async IcoDashboard.Async.Program IcoDashboard.Data

/-! # External services of the transaction handlers

The Ethereum node, the transaction records and the investors, and the block
that Redis remembers.  What the node and the investor collection show may be
different at every call.
-/

structure TransactionData where
  hash : String
  «from» : String
  «to» : Option String
  input : String
  value : String
deriving DecidableEq, Repr

structure BlockData where
  number : Nat
  timestamp : Nat
  transactions : List TransactionData
deriving DecidableEq, Repr

/-- Nodes give a flag or, before they know better, a code. -/
inductive ReceiptStatus where
  | flag (value : Bool)
  | code (value : String)
deriving DecidableEq, Repr

structure Receipt where
  status : ReceiptStatus
deriving DecidableEq, Repr

structure ContractEvent (Values : Type) where
  transactionHash : String
  blockNumber : Nat
  returnValues : Values
deriving DecidableEq, Repr

structure TransferValues where
  «from» : String
  «to» : String
  value : String
deriving DecidableEq, Repr

structure ReferralTransferValues where
  investor : String
  referral : String
  tokenAmount : String
deriving DecidableEq, Repr

abbrev TransferEvent : Type := ContractEvent TransferValues

abbrev ReferralTransferEvent : Type := ContractEvent ReferralTransferValues

inductive BlockId where
  | hash (hash : String)
  | number (number : Int)
deriving DecidableEq, Repr

inductive Op where
  | getBlock (block : BlockId)
  | getTransaction (hash : String)
  | getTransactionReceipt (hash : String)
  | getPastTransfers
  | getPastReferralTransfers
  | getBlockNumber
  | getLastCheckedBlock
  | setLastCheckedBlock (block : Nat)
  | findTransaction (key : TransactionKey)
  | countInvestors (addresses : List String)
  | insertTransaction (tx : Transaction)
  | saveTransaction (tx : Doc Nat Transaction)

abbrev Ans : Op → Type
  | .getBlock _ => Option BlockData
  | .getTransaction _ => Option TransactionData
  | .getTransactionReceipt _ => Option Receipt
  | .getPastTransfers => List TransferEvent
  | .getPastReferralTransfers => List ReferralTransferEvent
  | .getBlockNumber => Nat
  | .getLastCheckedBlock => Option Nat
  | .setLastCheckedBlock _ => Unit
  | .findTransaction _ => Option (Doc Nat Transaction)
  | .countInvestors _ => Nat
  | .insertTransaction _ => Unit
  | .saveTransaction _ => Unit

abbrev Handler (α : Type) : Type := Program Op Ans Exception α

def request (op : Op) : Handler (Ans op) := Program.call op

/-- What the node knows. -/
structure Node where
  getBlock : BlockId → Option BlockData := fun _ => none
  getTransaction : String → Option TransactionData := fun _ => none
  getTransactionReceipt : String → Option Receipt := fun _ => none
  transfers : List TransferEvent := []
  referralTransfers : List ReferralTransferEvent := []
  blockNumber : Nat := 0

/-- What the environment shows at one call, unless it rejects it. -/
structure Choice where
  rejects : Option Exception := none
  node : Node := {}
  investors : List Investor := []

structure World where
  transactions : TransactionStore := .empty
  lastCheckedBlock : Option Nat := none

def duplicateKey : Exception := { constructor := .mongo, message := "duplicate key" }

/-- Whether the wallet of an investor has one of the addresses. -/
def hasWallet (addresses : List String) (investor : Investor) : Bool :=
  investor.ethWallet.any fun wallet => wallet.address ∈ addresses

def answer (choice : Choice) (world : World) : (op : Op) → Except Exception (Ans op) × World
  | .getBlock block => (.ok (choice.node.getBlock block), world)
  | .getTransaction hash => (.ok (choice.node.getTransaction hash), world)
  | .getTransactionReceipt hash => (.ok (choice.node.getTransactionReceipt hash), world)
  | .getPastTransfers => (.ok choice.node.transfers, world)
  | .getPastReferralTransfers => (.ok choice.node.referralTransfers, world)
  | .getBlockNumber => (.ok choice.node.blockNumber, world)
  | .getLastCheckedBlock => (.ok world.lastCheckedBlock, world)
  | .setLastCheckedBlock block => (.ok (), { world with lastCheckedBlock := some block })
  | .findTransaction key => (.ok (world.transactions.find key), world)
  | .countInvestors addresses => (.ok (choice.investors.countP (hasWallet addresses)), world)
  | .insertTransaction tx =>
      match world.transactions.insert tx with
      | some transactions => (.ok (), { world with transactions })
      | none => (.error duplicateKey, world)
  | .saveTransaction tx =>
      match world.transactions.save Transaction.write tx with
      | some transactions => (.ok (), { world with transactions })
      | none => (.error duplicateKey, world)

/-- A rejected call leaves the world as it is. -/
def perform (choice : Choice) (op : Op) (world : World) : Except Exception (Ans op) × World :=
  match choice.rejects with
  | some error => (.error error, world)
  | none => answer choice world op

end IcoDashboard.Chain
