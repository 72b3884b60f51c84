import IcoDashboard.Data.Indexed

namespace IcoDashboard

open IcoDashboard.Data

/-! # Transactions

The records of the chain transactions that involve investors, unique by hash,
type and addresses.
-/

inductive TransactionStatus where
  | pending | confirmed | failed
deriving DecidableEq, Repr

inductive TransactionType where
  | ethereumTransfer | tokenTransfer | referralTransfer
deriving DecidableEq, Repr

/-- The columns of the unique index. -/
structure TransactionKey where
  transactionHash : String
  type : TransactionType
  «from» : String
  «to» : Option String
deriving DecidableEq, Repr

structure Transaction where
  transactionHash : String
  timestamp : Nat
  /-- Undefined while the transaction is pending. -/
  blockNumber : Option Nat
  «from» : String
  «to» : Option String
  ethAmount : String
  tokenAmount : Option String
  status : TransactionStatus
  type : TransactionType
deriving DecidableEq, Repr

namespace Transaction

def key (tx : Transaction) : TransactionKey where
  transactionHash := tx.transactionHash
  type := tx.type
  «from» := tx.from
  «to» := tx.to

/-- A save replaces the stored record. -/
def write (_stored loaded : Transaction) : Transaction := loaded

end Transaction

abbrev TransactionStore : Type := Indexed Transaction.key

end IcoDashboard
