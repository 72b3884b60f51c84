import IcoDashboard.Chain.TransactionService

namespace IcoDashboard.Chain

open IcoDashboard.Async IcoDashboard.Async.Program IcoDashboard.Data

/-! # Web3 handler

The handlers of blocks, pending transactions and contract events, and the job
that goes through all of them again.
-/

structure BlockHeader where
  number : Option Nat
  hash : String
deriving DecidableEq, Repr

namespace Web3Handler

open TransactionService

variable (app : App) (web3 : Web3)

def saveConfirmedTransaction (transactionData : TransactionData) (blockData : BlockData)
    (transactionReceipt : Receipt) : Handler Unit := do
  let tx ← getTxByTxData app web3 transactionData
  let status := getTxStatusByReceipt transactionReceipt
  match tx with
  | some tx =>
      if (tx.val.type = .tokenTransfer ∧ status = .confirmed) ∨ tx.val.status ≠ .pending then
        return ()
      else do
        let userCount ← getUserCountByTxData app web3 transactionData
        if userCount > 0 then updateTx tx status blockData
  | none => do
      let userCount ← getUserCountByTxData app web3 transactionData
      if userCount > 0 then
        createAndSaveTransaction app web3 transactionData status (some blockData) 0

/-- The body of both block loops. -/
def processTransaction (blockData : BlockData) (transaction : TransactionData) : Handler Unit := do
  let transactionReceipt ← request (.getTransactionReceipt transaction.hash)
  match transactionReceipt with
  | some transactionReceipt =>
      saveConfirmedTransaction app web3 transaction blockData transactionReceipt
  | none => return ()

def processBlock (block : BlockId) : Handler Unit := do
  let blockData ← orThrow (← request (.getBlock block)) typeError
  forEach blockData.transactions (processTransaction app web3 blockData)

/-- Pending blocks have no number, or zero. -/
def processNewBlockHeaders (data : BlockHeader) : Handler Unit :=
  match data.number with
  | none => return ()
  | some 0 => return ()
  | some _ => processBlock app web3 (.hash data.hash)

def processPendingTransaction (txHash : String) (now : Nat) : Handler Unit := do
  let data ← request (.getTransaction txHash)
  match data with
  | none => return ()
  | some data => do
      let tx ← getTxByTxData app web3 data
      match tx with
      | some _ => return ()
      | none => do
          let userCount ← getUserCountByTxData app web3 data
          if userCount > 0 then createAndSaveTransaction app web3 data .pending none now

def transferKey (data : TransferEvent) : TransactionKey where
  transactionHash := data.transactionHash
  type := .tokenTransfer
  «from» := data.returnValues.from
  «to» := some data.returnValues.to

def transferRecord (data : TransferEvent) (tokenAmount : String) (status : TransactionStatus)
    (blockData : BlockData) : Transaction where
  transactionHash := data.transactionHash
  «from» := data.returnValues.from
  type := .tokenTransfer
  «to» := some data.returnValues.to
  ethAmount := "0"
  tokenAmount := some tokenAmount
  status := status
  timestamp := blockData.timestamp
  blockNumber := some blockData.number

def processTokenTransfer (data : TransferEvent) : Handler Unit := do
  let tx ← request (.findTransaction (transferKey data))
  let transactionReceipt ← request (.getTransactionReceipt data.transactionHash)
  match transactionReceipt with
  | none => return ()
  | some transactionReceipt => do
      let blockData ← request (.getBlock (.number data.blockNumber))
      let status := getTxStatusByReceipt transactionReceipt
      let tokenAmount ← ofExcept (web3.fromWei data.returnValues.value)
      let blockData ← orThrow blockData typeError
      match tx with
      | none => request (.insertTransaction (transferRecord data tokenAmount status blockData))
      | some tx =>
          if tx.val.status = .pending then
            request (.saveTransaction (tx.modify fun tx => { tx with status }))

def referralKey (data : ReferralTransferEvent) : TransactionKey where
  transactionHash := data.transactionHash
  type := .referralTransfer
  «from» := data.returnValues.investor
  «to» := some data.returnValues.referral

def referralRecord (data : ReferralTransferEvent) (tokenAmount : String) (status : TransactionStatus)
    (blockData : BlockData) : Transaction where
  transactionHash := data.transactionHash
  «from» := data.returnValues.investor
  type := .referralTransfer
  «to» := some data.returnValues.referral
  ethAmount := "0"
  tokenAmount := some tokenAmount
  status := status
  timestamp := blockData.timestamp
  blockNumber := some blockData.number

def processReferralTransfer (data : ReferralTransferEvent) : Handler Unit := do
  let existing ← request (.findTransaction (referralKey data))
  match existing with
  | some _ => return ()
  | none => do
      let transactionReceipt ← request (.getTransactionReceipt data.transactionHash)
      match transactionReceipt with
      | none => return ()
      | some transactionReceipt => do
          let blockData ← request (.getBlock (.number data.blockNumber))
          let status := getTxStatusByReceipt transactionReceipt
          let tokenAmount ← ofExcept (web3.fromWei data.returnValues.tokenAmount)
          let blockData ← orThrow blockData typeError
          request (.insertTransaction (referralRecord data tokenAmount status blockData))

/-- The block numbers from `first` up to, and without, `currentBlock`. -/
def blockRange (first : Int) (currentBlock : Nat) : List Int :=
  (List.range (currentBlock - first).toNat).map fun offset => first + offset

/-- The first block that is looked at again. -/
def firstBlock (lastCheckedBlock : Option Nat) : Int :=
  (lastCheckedBlock.map Int.ofNat).getD app.config.startBlock - app.config.blockOffset

def checkAndRestoreTransactions : Handler Unit := do
  let transferEvents ← request .getPastTransfers
  forEach transferEvents (processTokenTransfer web3)
  let referralEvents ← request .getPastReferralTransfers
  forEach referralEvents (processReferralTransfer web3)
  let currentBlock ← request .getBlockNumber
  let lastCheckedBlock ← request .getLastCheckedBlock
  forEach (blockRange (firstBlock app lastCheckedBlock) currentBlock) fun block =>
    processBlock app web3 (.number block)
  request (.setLastCheckedBlock currentBlock)

end Web3Handler

inductive Request where
  | newBlockHeaders (data : BlockHeader)
  | pendingTransaction (txHash : String) (now : Nat)
  | tokenTransfer (data : TransferEvent)
  | referralTransfer (data : ReferralTransferEvent)
  | checkAndRestoreTransactions
deriving DecidableEq, Repr

open Web3Handler in
def handle (app : App) (web3 : Web3) : Request → Handler Unit
  | .newBlockHeaders data => processNewBlockHeaders app web3 data
  | .pendingTransaction txHash now => processPendingTransaction app web3 txHash now
  | .tokenTransfer data => processTokenTransfer web3 data
  | .referralTransfer data => processReferralTransfer web3 data
  | .checkAndRestoreTransactions => Web3Handler.checkAndRestoreTransactions app web3

def handlers (app : App) (web3 : Web3) :
    System Op Ans Exception World Choice Request Unit where
  handler := handle app web3
  perform := perform

end IcoDashboard.Chain
