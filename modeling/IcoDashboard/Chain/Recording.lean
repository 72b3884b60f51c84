import IcoDashboard.Chain.Restore

namespace IcoDashboard.Chain

open IcoDashboard.Async IcoDashboard.Async.Program IcoDashboard.Data
open TransactionService Web3Handler

/-! # Recording of blocks

The transactions of a block come from anyone.  The handlers get through a block,
and record what involves an investor, exactly when the input of every call of
the token contract can be decoded.
-/

variable {app : App} {web3 : Web3} {choice : Choice} {world : World} {tx : TransactionData}

/-! ## What can be read of a transaction -/

/-- The selector is one of the token contract, and the arguments of a transfer
are an address and an amount. -/
def Decodes (web3 : Web3) (input : String) : Prop :=
  ∃ method, web3.decodeMethod input = .ok (some method) ∧
    (method.name = "transfer" → ∃ recipient value rest, method.params = recipient :: value :: rest ∧
      (∃ address, web3.toChecksumAddress recipient = .ok address) ∧
      ∃ amount, web3.fromWei value = .ok amount)

theorem bind_eq_ok_iff {α β : Type} {first : Except Exception α} {next : α → Except Exception β}
    {value : β} :
    (first >>= next) = .ok value ↔ ∃ result, first = .ok result ∧ next result = .ok value := by
  cases first <;> simp [bind, Except.bind]

theorem defined_eq_ok_iff {α : Type} {option : Option α} {value : α} :
    defined option = .ok value ↔ option = some value := by
  cases option <;> simp [defined]

theorem decodeTransfer_ok_iff {input : String} :
    (∃ transfer, decodeTransfer web3 input = .ok transfer) ↔ Decodes web3 input := by
  unfold decodeTransfer Decodes
  simp only [bind_eq_ok_iff, defined_eq_ok_iff]
  constructor
  · intro read
    obtain ⟨transfer, _, decoded, method, rfl, rest⟩ := read
    refine ⟨method, decoded, fun direct => ?_⟩
    rw [if_pos direct] at rest
    simp only [bind_eq_ok_iff, defined_eq_ok_iff] at rest
    obtain ⟨recipient, first, address, checked, value, second, amount, converted, _⟩ := rest
    obtain ⟨_, params⟩ := method
    match params, first, second with
    | recipient' :: value' :: rest, first, second =>
        cases first
        cases second
        exact ⟨_, _, rest, rfl, ⟨address, checked⟩, amount, converted⟩
  · intro decodes
    obtain ⟨method, decoded, transfers⟩ := decodes
    by_cases direct : method.name = "transfer"
    · obtain ⟨recipient, value, rest, params, ⟨address, checked⟩, amount, converted⟩ :=
        transfers direct
      refine ⟨some (address, amount), _, decoded, method, rfl, ?_⟩
      rw [if_pos direct]
      simp only [bind_eq_ok_iff, defined_eq_ok_iff]
      exact ⟨recipient, by rw [params]; rfl, address, checked, value, by rw [params]; rfl, amount,
        converted, rfl⟩
    · exact ⟨none, _, decoded, method, rfl, by rw [if_neg direct]; rfl⟩

/-- Addresses and values are as a node gives them. -/
structure WellFormed (web3 : Web3) (tx : TransactionData) : Prop where
  sender : ∃ address, web3.toChecksumAddress tx.from = .ok address
  recipient : ∀ recipient, tx.to = some recipient → recipient ≠ "" →
    ∃ address, web3.toChecksumAddress recipient = .ok address
  value : ∃ ethAmount, web3.fromWei tx.value = .ok ethAmount

/-- Of a well-formed transaction only the input may be unreadable. -/
theorem WellFormed.readable_iff (wellFormed : WellFormed web3 tx) :
    (∃ addresses, getFromToTokenAmount app web3 tx = .ok addresses) ↔
      (getTxTypeByData app tx = .tokenTransfer → Decodes web3 tx.input) := by
  obtain ⟨sender, checked⟩ := wellFormed.sender
  unfold getFromToTokenAmount getFromToTokenAmountByTxDataAndType
  by_cases token : getTxTypeByData app tx = .tokenTransfer
  · simp only [token, if_true, bind_eq_ok_iff, checked, ← decodeTransfer_ok_iff]
    constructor
    · intro read _
      obtain ⟨addresses, _, _, transfer, decoded, _⟩ := read
      exact ⟨transfer, decoded⟩
    · intro decodes
      obtain ⟨transfer, decoded⟩ := decodes trivial
      exact ⟨_, sender, rfl, transfer, decoded, rfl⟩
  · simp only [token, if_false, bind_eq_ok_iff, checked]
    refine ⟨fun _ impossible => impossible.elim, fun _ => ?_⟩
    cases recipient : tx.to with
    | none => exact ⟨_, sender, rfl, rfl⟩
    | some recipient' =>
        by_cases empty : recipient' = ""
        · exact ⟨_, sender, rfl, if_pos empty⟩
        · obtain ⟨address, known⟩ := wellFormed.recipient recipient' recipient empty
          refine ⟨{ «from» := sender, «to» := some address, tokenAmount := none }, sender, rfl, ?_⟩
          simp only [empty, if_false, bind_eq_ok_iff]
          exact ⟨address, known, rfl⟩

/-! ## Involved investors -/

/-- The sender of a transaction, and the recipient of its ether or its tokens. -/
inductive Side (app : App) (web3 : Web3) (tx : TransactionData) : String → Prop where
  | sender (address : String) (checked : web3.toChecksumAddress tx.from = .ok address) :
      Side app web3 tx address
  | recipient (recipient address : String) (plain : getTxTypeByData app tx ≠ .tokenTransfer)
      (given : tx.to = some recipient) (real : recipient ≠ "")
      (checked : web3.toChecksumAddress recipient = .ok address) : Side app web3 tx address
  | transfer (address amount : String) (token : getTxTypeByData app tx = .tokenTransfer)
      (decoded : decodeTransfer web3 tx.input = .ok (some (address, amount))) :
      Side app web3 tx address

/-- One of its sides is the wallet of an investor. -/
def Involves (app : App) (web3 : Web3) (choice : Choice) (tx : TransactionData) : Prop :=
  ∃ address, address ≠ "" ∧ Side app web3 tx address ∧
    ∃ investor ∈ choice.investors, hasWallet [address] investor = true

section Read

variable {addresses : FromToTokenAmount} (read : getFromToTokenAmount app web3 tx = .ok addresses)

include read

theorem read_sender : web3.toChecksumAddress tx.from = .ok addresses.from := by
  unfold getFromToTokenAmount getFromToTokenAmountByTxDataAndType at read
  obtain ⟨sender, checked, rest⟩ := bind_eq_ok_iff.mp read
  rw [checked]
  split at rest
  · obtain ⟨transfer, _, same⟩ := bind_eq_ok_iff.mp rest
    cases same
    rfl
  · split at rest
    · split at rest
      · cases rest
        rfl
      · obtain ⟨recipient, _, same⟩ := bind_eq_ok_iff.mp rest
        cases same
        rfl
    · cases rest
      rfl

theorem read_transfer (token : getTxTypeByData app tx = .tokenTransfer) :
    ∃ transfer, decodeTransfer web3 tx.input = .ok transfer ∧
      addresses.to = transfer.map Prod.fst ∧ addresses.tokenAmount = transfer.map Prod.snd := by
  unfold getFromToTokenAmount getFromToTokenAmountByTxDataAndType at read
  obtain ⟨sender, _, rest⟩ := bind_eq_ok_iff.mp read
  rw [if_pos token] at rest
  obtain ⟨transfer, decoded, same⟩ := bind_eq_ok_iff.mp rest
  cases same
  exact ⟨transfer, decoded, rfl, rfl⟩

theorem read_recipient (plain : getTxTypeByData app tx ≠ .tokenTransfer) {recipient : String}
    (given : tx.to = some recipient) (real : recipient ≠ "") :
    ∃ address, web3.toChecksumAddress recipient = .ok address ∧ addresses.to = some address := by
  unfold getFromToTokenAmount getFromToTokenAmountByTxDataAndType at read
  obtain ⟨sender, _, rest⟩ := bind_eq_ok_iff.mp read
  rw [if_neg plain, given] at rest
  simp only [real, if_false] at rest
  obtain ⟨address, checked, same⟩ := bind_eq_ok_iff.mp rest
  cases same
  exact ⟨address, checked, rfl⟩

end Read

theorem Side.address {addresses : FromToTokenAmount} {address : String}
    (side : Side app web3 tx address) (real : address ≠ "")
    (read : getFromToTokenAmount app web3 tx = .ok addresses) :
    address ∈ investorAddresses addresses := by
  have recipient : addresses.to = some address → address ∈ investorAddresses addresses := by
    intro same
    simp [investorAddresses, same, real]
  cases side with
  | sender _ checked =>
      rw [read_sender read] at checked
      cases checked
      unfold investorAddresses
      split
      · split <;> exact List.mem_cons_self
      · exact List.mem_cons_self
  | recipient _ _ plain given present checked =>
      obtain ⟨known, checked', same⟩ := read_recipient read plain given present
      rw [checked] at checked'
      cases checked'
      exact recipient same
  | transfer _ amount token decoded =>
      obtain ⟨transfer, decoded', same, _⟩ := read_transfer read token
      rw [decoded] at decoded'
      cases decoded'
      exact recipient same

theorem involved_of_involves {addresses : FromToTokenAmount} (involves : Involves app web3 choice tx)
    (read : getFromToTokenAmount app web3 tx = .ok addresses) :
    involved choice addresses = true := by
  obtain ⟨address, real, side, investor, member, owns⟩ := involves
  have listed := side.address real read
  have counted : hasWallet (investorAddresses addresses) investor = true := by
    unfold hasWallet at owns ⊢
    cases wallet : investor.ethWallet with
    | none => simp [wallet] at owns
    | some wallet' =>
        have same : wallet'.address = address := by simpa [wallet] using owns
        simpa [same] using listed
  have positive : 0 < choice.investors.countP (hasWallet (investorAddresses addresses)) :=
    List.countP_pos_iff.mpr ⟨investor, member, counted⟩
  simpa [involved] using positive

/-! ## Blocks get through -/

/-- What the node, the store and web3 answer in the run. -/
structure NodeServes (app : App) (web3 : Web3) (choice : Choice) (lastCheckedBlock : Option Nat) :
    Prop where
  reliable : choice.rejects = none
  events : EventsReadable web3 choice
  known : ∀ number ∈ blockRange (firstBlock app lastCheckedBlock) choice.node.blockNumber,
    ∃ blockData, choice.node.getBlock (.number number) = some blockData
  wellFormed : ∀ blockData, Scanned app choice lastCheckedBlock blockData →
    ∀ tx ∈ blockData.transactions, WellFormed web3 tx

/-- Every transaction of the block that is mined and involves an investor has a record. -/
def Recorded (app : App) (web3 : Web3) (choice : Choice) (blockData : BlockData) (after : World) :
    Prop :=
  ∀ tx ∈ blockData.transactions, choice.node.getTransactionReceipt tx.hash ≠ none →
    Involves app web3 choice tx →
    ∃ key, key.transactionHash = tx.hash ∧ (after.records key).isSome = true

/-- Blocks are handled as a whole: the job comes to its end and past them, and
both handlers leave the records. -/
structure BlocksHandled (app : App) (web3 : Web3) (choice : Choice) (world : World) : Prop where
  finishes : ((checkAndRestoreTransactions app web3).evaluate (perform choice) world).1 = .ok ()
  advances : ((checkAndRestoreTransactions app web3).evaluate (perform choice)
    world).2.lastCheckedBlock = some choice.node.blockNumber
  restored : ∀ blockData, Scanned app choice world.lastCheckedBlock blockData →
    Recorded app web3 choice blockData
      ((checkAndRestoreTransactions app web3).evaluate (perform choice) world).2
  received : ∀ blockData, Scanned app choice world.lastCheckedBlock blockData →
    ∀ header number, header.number = some number → number ≠ 0 →
    choice.node.getBlock (.hash header.hash) = some blockData →
    Recorded app web3 choice blockData
      ((processNewBlockHeaders app web3 header).evaluate (perform choice) world).2

/-- What any handlings leave that contain those of the block. -/
theorem recorded_of_handlings {blockData : BlockData} {handlings : List Handling} {records : Records}
    {after : World} (left : after.records = Handling.applyAll handlings records)
    (contains : ∀ tx ∈ blockData.transactions, ∀ handling ∈ minedHandlings app web3 choice blockData tx,
      handling ∈ handlings)
    (readable : ∀ tx ∈ blockData.transactions, choice.node.getTransactionReceipt tx.hash ≠ none →
      ∃ addresses, getFromToTokenAmount app web3 tx = .ok addresses) :
    Recorded app web3 choice blockData after := by
  intro tx member received involves
  obtain ⟨addresses, read⟩ := readable tx member received
  obtain ⟨receipt, received⟩ := Option.ne_none_iff_exists'.mp received
  have counts := involved_of_involves involves read
  have handled : Handling.mined (minedRecord app web3 blockData receipt tx addresses) true ∈
      minedHandlings app web3 choice blockData tx := by
    simp [minedHandlings, received, read, counts]
  refine ⟨recordKey app tx addresses, rfl, ?_⟩
  rw [left]
  exact Handling.applyAll_creates (contains tx member _ handled) rfl

theorem blocksHandled_iff (serves : NodeServes app web3 choice world.lastCheckedBlock) :
    BlocksHandled app web3 choice world ↔
      ∀ blockData, Scanned app choice world.lastCheckedBlock blockData →
        ∀ tx ∈ blockData.transactions, choice.node.getTransactionReceipt tx.hash ≠ none →
          getTxTypeByData app tx = .tokenTransfer → Decodes web3 tx.input := by
  constructor
  · intro handled blockData scanned tx member received
    have reads := checkAndRestoreTransactions_reads serves.reliable
      (Prod.ext handled.finishes rfl) scanned member received
    exact (serves.wellFormed blockData scanned tx member).readable_iff.mp reads
  · intro decodes
    have reads : ∀ blockData, Scanned app choice world.lastCheckedBlock blockData →
        ∀ tx ∈ blockData.transactions, choice.node.getTransactionReceipt tx.hash ≠ none →
        ∃ addresses, getFromToTokenAmount app web3 tx = .ok addresses := by
      intro blockData scanned tx member received
      exact (serves.wellFormed blockData scanned tx member).readable_iff.mpr
        (decodes blockData scanned tx member received)
    have readable : ∀ blockData, Scanned app choice world.lastCheckedBlock blockData →
        ∀ tx ∈ blockData.transactions, choice.node.getTransactionReceipt tx.hash ≠ none →
        Readable app web3 tx := by
      intro blockData scanned tx member received
      exact ⟨reads blockData scanned tx member received,
        (serves.wellFormed blockData scanned tx member).value⟩
    have finishes := checkAndRestoreTransactions_returns serves.reliable serves.events serves.known
      readable
    obtain ⟨advances, left⟩ := checkAndRestoreTransactions_records serves.reliable
      (Prod.ext finishes rfl)
    refine ⟨finishes, advances, ?_, ?_⟩
    · intro blockData scanned
      refine recorded_of_handlings left ?_ (reads blockData scanned)
      intro tx member handling handled
      obtain ⟨number, inRange, known⟩ := scanned
      have inBlock : handling ∈ blockHandlings app web3 choice (.number number) := by
        simp only [blockHandlings, known]
        exact List.mem_flatMap.mpr ⟨tx, member, handled⟩
      refine List.mem_append_right _ (List.mem_append_right _ ?_)
      exact List.mem_flatMap.mpr ⟨number, inRange, inBlock⟩
    · intro blockData scanned header number numbered mined known
      have returns := processBlock_returns serves.reliable known (readable blockData scanned)
      obtain ⟨after, ran⟩ := returns.ran world
      obtain ⟨_, records⟩ := processBlock_performs serves.reliable world after ran
      rw [processNewBlockHeaders_block numbered mined, ran]
      refine recorded_of_handlings records ?_ (reads blockData scanned)
      intro tx member handling handled
      simp only [blockHandlings, known]
      exact List.mem_flatMap.mpr ⟨tx, member, handled⟩

/-! ## A stray call -/

def aliceAddress : String := "0xBd0cb067A75C23EFB290B4e223059Af8E4AF4fd8"

def bobAddress : String := "0x446cd17EE68bD5A567d43b696543615a94b01760"

def tokenAddress : String := "0x1A164bd1a4Bd6F26726DBa43972a91b20e7D93be"

/-- `transfer(bob, 10^18)` -/
def transferInput : String :=
  "0xa9059cbb000000000000000000000000446cd17ee68bd5a567d43b696543615a94b01760" ++
    "0000000000000000000000000000000000000000000000000de0b6b3a7640000"

/-- `approve(bob, 10^18)` -/
def approveInput : String :=
  "0x095ea7b3000000000000000000000000446cd17ee68bd5a567d43b696543615a94b01760" ++
    "0000000000000000000000000000000000000000000000000de0b6b3a7640000"

/-- web3 and the ABI decoder on the addresses, amounts and inputs of the examples. -/
def Web3.sample : Web3 where
  toChecksumAddress text :=
    if text ∈ [aliceAddress, bobAddress, tokenAddress] then .ok text
    else if text = "0x446cd17ee68bd5a567d43b696543615a94b01760" then .ok bobAddress
    else .error (error "Given address is not a valid Ethereum address.")
  fromWei text :=
    if text = "0" then .ok "0"
    else if text = "1000000000000000000" then .ok "1"
    else .error (error "invalid number value")
  decodeMethod input :=
    let params := ["0x446cd17ee68bd5a567d43b696543615a94b01760", "1000000000000000000"]
    if input = transferInput then .ok (some ⟨"transfer", params⟩)
    else if input = approveInput then .ok (some ⟨"approve", params⟩)
    else .ok none

theorem decode_transfer : Web3.sample.decodeMethod transferInput = .ok (some ⟨"transfer",
    ["0x446cd17ee68bd5a567d43b696543615a94b01760", "1000000000000000000"]⟩) := by
  simp [Web3.sample]

/-- Configured to look one block back. -/
def sampleApp : App :=
  { App.plain with config := { tokenAddress := tokenAddress, startBlock := 2, blockOffset := 1 } }

def alice : Investor :=
  { Investor.createInvestor .plain
      { email := "alice@example.com", firstName := "Alice", lastName := "A", country := "CH"
        dob := "1990-01-01", agreeTos := true, password := "pw" } "hash" "v1" with
    ethWallet := some { ticker := "ETH", address := aliceAddress, balance := "0", salt := "salt" } }

/-- Alice pays Bob. -/
def payment : TransactionData where
  hash := "0xe5d5"
  «from» := aliceAddress
  «to» := some bobAddress
  input := "0x"
  value := "1000000000000000000"

/-- A call of the token contract. -/
def tokenCall («from» input : String) : TransactionData where
  hash := "0xcdf4"
  «from» := «from»
  «to» := some tokenAddress
  input := input
  value := "0"

def sampleBlock (transactions : List TransactionData) : BlockData where
  number := 1
  timestamp := 1520846090
  transactions := transactions

/-- The chain has one block, whose transactions all succeeded. -/
def sampleNode (transactions : List TransactionData) : Node where
  getBlock block :=
    if block = .number 1 ∨ block = .hash "0xb10c" then some (sampleBlock transactions) else none
  getTransaction hash := transactions.find? fun tx => tx.hash = hash
  getTransactionReceipt _ := some ⟨.flag true⟩
  blockNumber := 2

def sampleChoice (transactions : List TransactionData) : Choice where
  node := sampleNode transactions
  investors := [alice]

theorem scanned_sample {transactions : List TransactionData} {blockData : BlockData}
    (scanned : Scanned sampleApp (sampleChoice transactions) none blockData) :
    blockData = sampleBlock transactions := by
  obtain ⟨number, inRange, known⟩ := scanned
  have only : number = 1 := by
    have range : blockRange (firstBlock sampleApp none) 2 = [1] := by decide
    exact List.mem_singleton.mp (range ▸ inRange)
  subst only
  cases known
  rfl

theorem blocksHandled_transfer :
    BlocksHandled sampleApp .sample (sampleChoice [tokenCall bobAddress transferInput, payment]) {} := by
  have serves : NodeServes sampleApp .sample
      (sampleChoice [tokenCall bobAddress transferInput, payment]) none := by
    refine ⟨rfl, ⟨by simp [sampleChoice, sampleNode], by simp [sampleChoice, sampleNode]⟩, ?_, ?_⟩
    · intro number inRange
      have range : blockRange (firstBlock sampleApp none) 2 = [1] := by decide
      have only : number = 1 := List.mem_singleton.mp (range ▸ inRange)
      subst only
      exact ⟨_, rfl⟩
    · intro blockData scanned tx member
      rw [scanned_sample scanned] at member
      rcases List.mem_cons.mp member with rfl | member
      · exact ⟨⟨bobAddress, rfl⟩, fun recipient given _ => by cases given; exact ⟨tokenAddress, rfl⟩,
          ⟨"0", rfl⟩⟩
      · obtain rfl := List.mem_singleton.mp member
        exact ⟨⟨aliceAddress, rfl⟩, fun recipient given _ => by cases given; exact ⟨bobAddress, rfl⟩,
          ⟨"1", rfl⟩⟩
  refine (blocksHandled_iff serves).mpr ?_
  intro blockData scanned tx member _ token
  rw [scanned_sample scanned] at member
  rcases List.mem_cons.mp member with rfl | member
  · exact ⟨_, decode_transfer, fun _ => ⟨_, _, [], rfl, ⟨bobAddress, rfl⟩, "1", rfl⟩⟩
  · obtain rfl := List.mem_singleton.mp member
    exact absurd token (by decide)

/-- Bob calls the token contract with no input, ahead of the payment. -/
theorem strayCall_loses_payment :
    ¬ BlocksHandled sampleApp .sample (sampleChoice [tokenCall bobAddress "0x", payment]) {} := by
  intro handled
  have involves : Involves sampleApp .sample (sampleChoice [tokenCall bobAddress "0x", payment])
      payment :=
    ⟨aliceAddress, by decide, .sender _ rfl, alice, List.mem_singleton.mpr rfl, by decide⟩
  obtain ⟨key, _, stored⟩ := handled.received (sampleBlock [tokenCall bobAddress "0x", payment])
    ⟨1, by decide, rfl⟩ ⟨some 1, "0xb10c"⟩ 1 rfl (by decide) rfl payment (by decide) (by decide)
    involves
  cases stored

end IcoDashboard.Chain
