import IcoDashboard.Accounts.Services
import IcoDashboard.Async.Evaluation
import IcoDashboard.Async.Rounds
import Mathlib.Algebra.BigOperators.Group.List.Basic
import Mathlib.Data.Rat.Cast.CharZero
import Mathlib.Tactic.FieldSimp
import Mathlib.Tactic.Ring

namespace IcoDashboard.Accounts

open IcoDashboard.Async IcoDashboard.Async.Program IcoDashboard.Data

/-! # The web3 client

How a transaction of a user is signed and sent, and how the dashboard adds up what
the ICO contracts hold.  The executor of a promise is a program that settles it:
only the first settlement counts, and settling does not end the program.
-/

inductive EtherUnit where
  | ether | gwei

/-- The exact conversions of web3, with what they throw. -/
structure Web3Utils where
  toWei : String → EtherUnit → Except Exception Int
  /-- `new BN(text)` -/
  bn : String → Int

structure TransactionParams where
  value : Int
  «from» : String
  «to» : String
  gas : String
  gasPrice : Int
deriving DecidableEq, Repr

inductive IcoMethod where
  | tokensSold | collected
deriving DecidableEq, Repr

/-- The errors that the client and the node reject with. -/
inductive Rejection where
  | insufficientFunds
  | sending (error : Exception)
deriving DecidableEq, Repr

def Rejection.message : Rejection → String
  | .insufficientFunds => "Insufficient funds to perform this operation and pay tx fee"
  | .sending error => error.message

inductive Settlement where
  | resolved (transactionHash : String)
  | rejected (error : Rejection)
deriving DecidableEq, Repr

/-- What the node tells of a transaction that is being sent. -/
inductive SendEvent where
  | transactionHash (transactionHash : String)
  | error (error : Exception)
  | caught (error : Exception)
deriving DecidableEq, Repr

inductive Web3Op where
  | getBalance (address : String)
  | callIco (contract : String) (method : IcoMethod)
  | signTransaction (params : TransactionParams) (privateKey : String)
  | sendSignedTransaction (rawTransaction : String)
  | settle (settlement : Settlement)
deriving DecidableEq

abbrev Web3Ans : Web3Op → Type
  | .getBalance _ => Nat
  | .callIco _ _ => Nat
  | .signTransaction _ _ => String
  | .sendSignedTransaction _ => List SendEvent
  | .settle _ => Unit

abbrev Web3Program (α : Type) : Type := Program Web3Op Web3Ans Exception α

abbrev Web3Trace : Type := Trace Web3Op Web3Ans Exception

def requestWeb3 (op : Web3Op) : Web3Program (Web3Ans op) := Program.call op

/-- The chain as a call finds it: balances and what each ICO contract holds, in wei. -/
structure Web3State where
  balanceOf : String → Nat
  icoValue : IcoMethod → String → Nat

structure Web3Choice where
  rejects : Option Exception := none
  rawTransaction : String := ""
  events : List SendEvent := []

def answerWeb3 (choice : Web3Choice) (op : Web3Op) (chain : Web3State) :
    Except Exception (Web3Ans op) × Web3State :=
  match op with
  | .getBalance address => (.ok (chain.balanceOf address), chain)
  | .callIco contract method => (.ok (chain.icoValue method contract), chain)
  | .signTransaction _ _ => (.ok choice.rawTransaction, chain)
  | .sendSignedTransaction _ => (.ok choice.events, chain)
  | .settle _ => (.ok (), chain)

def performWeb3 (choice : Web3Choice) (op : Web3Op) (chain : Web3State) :
    Except Exception (Web3Ans op) × Web3State :=
  match choice.rejects with
  | some error => (.error error, chain)
  | none => answerWeb3 choice op chain

namespace Web3Client

section Sending

variable (app : App) (utils : Web3Utils) (input : TransactionInput)

/-- The amount with the fee, as `sufficientBalance` adds them. -/
def totalCost : Except Exception Int := do
  let gasPrice ← utils.toWei input.gasPrice .gwei
  let amount ← utils.toWei input.amount .ether
  return amount + utils.bn input.gas * gasPrice

def sufficientBalance : Web3Program Bool := do
  let balance ← requestWeb3 (.getBalance input.from)
  let total ← ofExcept (totalCost utils input)
  return decide (total ≤ balance)

def settle (settlement : Settlement) : Web3Program Unit :=
  .await (.settle settlement) fun _ => .done ()

def onEvent : SendEvent → Web3Program Unit
  | .transactionHash transactionHash => settle (.resolved transactionHash)
  | .error error => settle (.rejected (.sending error))
  | .caught error => settle (.rejected (.sending error))

def getPrivateKeyByMnemonicAndSalt (mnemonic salt : String) : String :=
  (app.getAccountByMnemonicAndSalt mnemonic salt).1

def signAndSend (params : TransactionParams) (privateKey : String) : Web3Program Unit := do
  let transaction ← requestWeb3 (.signTransaction params privateKey)
  let events ← requestWeb3 (.sendSignedTransaction transaction)
  forEach events onEvent

/-- Settling the promise does not leave its executor. -/
def sendTransactionByMnemonic (mnemonic salt : String) : Web3Program Unit := do
  let privateKey := getPrivateKeyByMnemonicAndSalt app mnemonic salt
  let value ← ofExcept (utils.toWei input.amount .ether)
  let gasPrice ← ofExcept (utils.toWei input.gasPrice .gwei)
  let sufficient ← sufficientBalance utils input
  if sufficient = false then settle (.rejected .insufficientFunds)
  signAndSend { value, «from» := input.from, «to» := input.to, gas := input.gas, gasPrice } privateKey

end Sending
section Totals

variable (app : App)

/-- Wei as ether, exactly. -/
def fromWei (wei : Nat) : ℚ := wei / 10 ^ 18

/-- The calls go to the contract of the configuration, whatever the address. -/
def getSoldIcoTokensFromAddress (_address : String) : Web3Program ℚ := do
  let wei ← requestWeb3 (.callIco app.config.icoAddress .tokensSold)
  return fromWei wei

def getEthCollectedFromAddress (_address : String) : Web3Program ℚ := do
  let wei ← requestWeb3 (.callIco app.config.icoAddress .collected)
  return fromWei wei

/-- `for (const address of addresses) sum += await …` -/
def addUp (fromAddress : String → Web3Program ℚ) : List String → ℚ → Web3Program ℚ
  | [], sum => return sum
  | address :: rest, sum => do
      let value ← fromAddress address
      addUp fromAddress rest (sum + value)

def getSoldIcoTokens (addresses : List String) : Web3Program ℚ :=
  addUp (getSoldIcoTokensFromAddress app) addresses 0

def getEthCollected (addresses : List String) : Web3Program ℚ :=
  addUp (getEthCollectedFromAddress app) addresses 0

end Totals
end Web3Client

namespace DashboardController

def icoContractAddresses (app : App) : List String :=
  app.config.icoAddress :: app.config.icoOldAddresses

end DashboardController

/-! ## Broadcasts and funds -/

namespace Web3Client

section Sending

variable {app : App} {utils : Web3Utils} {input : TransactionInput} {mnemonic salt : String}
  {chain after : Web3State} {trace : Web3Trace} {outcome : Except Exception Unit}

/-- How the promise is settled. -/
def settled (trace : Web3Trace) : Option Settlement :=
  trace.findSome? fun
    | ⟨.settle settlement, _⟩ => some settlement
    | _ => none

/-- A run broadcasts only what the balance covers, and nothing when its promise is
rejected for insufficient funds. -/
structure FundsLaw (utils : Web3Utils) (input : TransactionInput) (chain : Web3State)
    (trace : Web3Trace) : Prop where
  funded : ∀ raw answer, ⟨.sendSignedTransaction raw, answer⟩ ∈ trace →
    ∃ total, totalCost utils input = .ok total ∧ total ≤ chain.balanceOf input.from
  unsent : settled trace = some (.rejected .insufficientFunds) →
    ∀ raw answer, ⟨.sendSignedTransaction raw, answer⟩ ∉ trace

/-- The costs are known at a broadcast, and exceed the answered balance when the
promise is rejected for insufficient funds. -/
def SendGuard (utils : Web3Utils) (input : TransactionInput) (past : Web3Trace) : Web3Op → Prop
  | .settle (.rejected .insufficientFunds) => ∃ (balance : Nat) (total : Int),
      ⟨.getBalance input.from, .ok balance⟩ ∈ past ∧ totalCost utils input = .ok total ∧
        ¬ total ≤ balance
  | .signTransaction params _ => ∃ total, totalCost utils input = .ok total ∧
      params.value + utils.bn params.gas * params.gasPrice = total
  | .sendSignedTransaction _ => ∃ total, totalCost utils input = .ok total
  | _ => True

theorem totalCost_eq {value gasPrice : Int} (amount : utils.toWei input.amount .ether = .ok value)
    (price : utils.toWei input.gasPrice .gwei = .ok gasPrice) :
    totalCost utils input = .ok (value + utils.bn input.gas * gasPrice) := by
  rw [totalCost, amount, price]
  rfl

theorem known_of_totalCost {total : Int} (cost : totalCost utils input = .ok total) :
    ∃ value gasPrice, utils.toWei input.amount .ether = .ok value ∧
      utils.toWei input.gasPrice .gwei = .ok gasPrice := by
  rw [totalCost] at cost
  cases price : utils.toWei input.gasPrice .gwei with
  | error error =>
      rw [price] at cost
      cases cost
  | ok gasPrice =>
      rw [price] at cost
      cases amount : utils.toWei input.amount .ether with
      | error error =>
          rw [amount] at cost
          cases cost
      | ok value => exact ⟨value, gasPrice, rfl, rfl⟩

theorem mem_of_settled {settlement : Settlement} (known : settled trace = some settlement) :
    ∃ answer, ⟨.settle settlement, answer⟩ ∈ trace := by
  obtain ⟨⟨op, answer⟩, member, same⟩ := List.exists_of_findSome?_eq_some known
  cases op with
  | settle other =>
      cases same
      exact ⟨answer, member⟩
  | _ => cases same

theorem signAndSend_meets {params : TransactionParams} (privateKey : String) {total : Int}
    {past : Web3Trace} (cost : totalCost utils input = .ok total)
    (same : params.value + utils.bn params.gas * params.gasPrice = total) :
    (signAndSend params privateKey).Meets (fun past op => SendGuard utils input past op)
      (fun _ _ => True) (fun _ _ => True) past := by
  simp only [signAndSend, requestWeb3, call, meets_bind, meets_await, meets_done, meets_fail,
    implies_true, and_true]
  refine ⟨⟨total, cost, same⟩, fun transaction => ⟨⟨total, cost⟩, fun events => ?_⟩⟩
  refine Meets.forEach fun event _ later => ?_
  cases event <;> exact ⟨trivial, fun _ => trivial⟩

theorem send_meets (app : App) (utils : Web3Utils) (input : TransactionInput)
    (mnemonic salt : String) :
    (sendTransactionByMnemonic app utils input mnemonic salt).Meets (SendGuard utils input)
      (fun _ _ => True) (fun _ _ => True) [] := by
  simp only [sendTransactionByMnemonic, sufficientBalance, requestWeb3, settle, call, meets_bind,
    meets_ofExcept, meets_await, meets_done, meets_fail, meets_pure, meets_ite, implies_true, and_true]
  intro value amount gasPrice price
  have cost := totalCost_eq amount price
  refine ⟨trivial, fun balance total same => ⟨fun insufficient => ?_, fun _ => ?_⟩⟩
  · have exceeds : ¬ total ≤ (balance : Int) := of_decide_eq_false insufficient
    have answered : (⟨.getBalance input.from, .ok balance⟩ : Call Web3Op Web3Ans Exception) ∈
        ([] ++ [⟨.getBalance input.from, .ok balance⟩] : Web3Trace) := List.mem_singleton.mpr rfl
    exact ⟨⟨balance, total, answered, same, exceeds⟩, fun _ => signAndSend_meets _ cost rfl,
      fun _ => signAndSend_meets _ cost rfl⟩
  · exact signAndSend_meets _ cost rfl

/-- The balance is the one on the chain. -/
theorem answered_balance
    (ran : Executes performWeb3 (sendTransactionByMnemonic app utils input mnemonic salt) chain
      trace outcome after) {front later : Web3Trace} {call : Call Web3Op Web3Ans Exception}
    (split : trace = front ++ call :: later) {balance : Nat}
    (answered : ⟨.getBalance input.from, .ok balance⟩ ∈ front) :
    balance = chain.balanceOf input.from := by
  have step : ∀ (past : Web3Trace) op world choice, SendGuard utils input past op →
      (world = chain ∧ ∀ balance, ⟨.getBalance input.from, .ok balance⟩ ∈ past →
        balance = chain.balanceOf input.from) →
      (performWeb3 choice op world).2 = chain ∧
        ∀ balance, ⟨.getBalance input.from, .ok balance⟩ ∈
          past ++ [⟨op, (performWeb3 choice op world).1⟩] → balance = chain.balanceOf input.from := by
    rintro past op world choice _ ⟨rfl, known⟩
    refine ⟨?_, fun balance member => ?_⟩
    · unfold performWeb3
      split
      · rfl
      · cases op <;> rfl
    · rcases List.mem_append.mp member with earlier | now
      · exact known balance earlier
      · obtain ⟨rfl, same⟩ := Sigma.mk.inj (List.mem_singleton.mp now)
        have answered := eq_of_heq same
        unfold performWeb3 at answered
        split at answered
        · cases answered
        · exact Except.ok.inj answered
  obtain ⟨_, _, known, _⟩ := ran.called (send_meets app utils input mnemonic salt) step
    ⟨rfl, fun _ member => nomatch member⟩ split
  exact known.2 balance answered

/-- An uncovered transaction is sent after its promise was rejected. -/
theorem uncovered_sent {value gasPrice : Int}
    (amount : utils.toWei input.amount .ether = .ok value)
    (price : utils.toWei input.gasPrice .gwei = .ok gasPrice)
    (exceeds : ¬ value + utils.bn input.gas * gasPrice ≤ chain.balanceOf input.from) :
    ∃ trace, Executes performWeb3 (sendTransactionByMnemonic app utils input mnemonic salt) chain
        trace (.ok ()) chain ∧
      settled trace = some (.rejected .insufficientFunds) ∧
      ⟨.sendSignedTransaction "", .ok []⟩ ∈ trace := by
  have insufficient : Executes performWeb3 (sufficientBalance utils input) chain
      [⟨.getBalance input.from, .ok (chain.balanceOf input.from)⟩] (.ok false) chain := by
    have ran : execute performWeb3 [{}] (sufficientBalance utils input) chain =
        some ([⟨.getBalance input.from, .ok (chain.balanceOf input.from)⟩], .ok false, chain) := by
      rw [sufficientBalance, totalCost_eq amount price, ← decide_eq_false exceeds]
      rfl
    exact executes_of_execute ran
  have rejects : Executes performWeb3 (settle (.rejected .insufficientFunds)) chain
      [⟨.settle (.rejected .insufficientFunds), .ok ()⟩] (.ok ()) chain := by
    have ran : execute performWeb3 [{}] (settle (.rejected .insufficientFunds)) chain =
        some ([⟨.settle (.rejected .insufficientFunds), .ok ()⟩], .ok (), chain) := rfl
    exact executes_of_execute ran
  have sends : ∀ params privateKey, Executes performWeb3 (signAndSend params privateKey) chain
      [⟨.signTransaction params privateKey, .ok ""⟩, ⟨.sendSignedTransaction "", .ok []⟩]
      (.ok ()) chain := by
    intro params privateKey
    have ran : execute performWeb3 [{}, {}] (signAndSend params privateKey) chain =
        some ([⟨.signTransaction params privateKey, .ok ""⟩, ⟨.sendSignedTransaction "", .ok []⟩],
          .ok (), chain) := rfl
    exact executes_of_execute ran
  rw [sendTransactionByMnemonic, amount, price]
  exact ⟨_, insufficient.bind (rejects.bind (sends _ _)), rfl, by simp⟩

/-- Every run keeps the law exactly when the balance covers the costs. -/
theorem fundsLaw_iff (app : App) (utils : Web3Utils) (input : TransactionInput)
    (mnemonic salt : String) (chain : Web3State) :
    (∀ trace outcome after,
        Executes performWeb3 (sendTransactionByMnemonic app utils input mnemonic salt) chain trace
          outcome after → FundsLaw utils input chain trace) ↔
      ∀ total, totalCost utils input = .ok total → total ≤ chain.balanceOf input.from := by
  constructor
  · intro law total cost
    by_contra exceeds
    obtain ⟨value, gasPrice, amount, price⟩ := known_of_totalCost cost
    rw [totalCost_eq amount price] at cost
    rw [← Except.ok.inj cost] at exceeds
    obtain ⟨trace, ran, _, sent⟩ := @uncovered_sent app _ _ mnemonic salt _ _ _ amount price exceeds
    obtain ⟨total, known, covered⟩ := (law _ _ _ ran).funded _ _ sent
    rw [totalCost_eq amount price] at known
    rw [← Except.ok.inj known] at covered
    exact exceeds covered
  · intro covered trace outcome after ran
    have guards := fun {front later call} (split : trace = front ++ call :: later) =>
      ran.guarded (send_meets app utils input mnemonic salt) split
    refine ⟨fun raw answer member => ?_, fun rejected _ _ _ => ?_⟩
    · obtain ⟨front, later, split⟩ := List.mem_iff_append.mp member
      obtain ⟨total, cost⟩ := guards split
      exact ⟨total, cost, covered total cost⟩
    · obtain ⟨answer, member⟩ := mem_of_settled rejected
      obtain ⟨front, later, split⟩ := List.mem_iff_append.mp member
      obtain ⟨balance, total, answered, cost, exceeds⟩ := guards split
      rw [answered_balance ran split answered] at exceeds
      exact exceeds (covered total cost)

/-- Exact conversions of whole numbers. -/
def wholeUtils : Web3Utils where
  toWei text unit := .ok (Digits.value 10 (text.toList.map fun char => char.toNat - 48) *
    match unit with
    | .ether => 10 ^ 18
    | .gwei => 10 ^ 9)
  bn text := Digits.value 10 (text.toList.map fun char => char.toNat - 48)

def oneEther : TransactionInput :=
  { «from» := "0x1", «to» := "0x2", amount := "1", gas := "130000", gasPrice := "20" }

def emptyWallets : Web3State := { balanceOf _ := 0, icoValue _ _ := 0 }

/-- One ether is sent from an empty wallet, and the promise is rejected. -/
theorem emptyWallet_sends : ∃ trace,
    Executes performWeb3 (sendTransactionByMnemonic .plain wholeUtils oneEther "pig" "salt")
      emptyWallets trace (.ok ()) emptyWallets ∧
    settled trace = some (.rejected .insufficientFunds) ∧
    ¬ FundsLaw wholeUtils oneEther emptyWallets trace := by
  obtain ⟨trace, ran, rejected, sent⟩ :=
    @uncovered_sent .plain wholeUtils oneEther "pig" "salt" emptyWallets _ _ rfl rfl (by decide)
  exact ⟨trace, ran, rejected, fun law => law.unsent rejected _ _ sent⟩

end Sending

/-! ## Totals of the ICO contracts -/

section Totals

variable {app : App} {addresses : List String} {chain : Web3State}

/-- What the listed contracts hold together. -/
def held (chain : Web3State) (method : IcoMethod) (addresses : List String) : ℚ :=
  (addresses.map fun address => fromWei (chain.icoValue method address)).sum

/-- Both totals are what the listed contracts hold. -/
structure IcoTotals (app : App) (addresses : List String) (chain : Web3State) : Prop where
  sold : (evaluate (performWeb3 {}) (getSoldIcoTokens app addresses) chain).1 =
    .ok (held chain .tokensSold addresses)
  collected : (evaluate (performWeb3 {}) (getEthCollected app addresses) chain).1 =
    .ok (held chain .collected addresses)

/-- The other contracts hold as much as so many copies of the configured one. -/
def OthersMatch (app : App) (addresses : List String) (chain : Web3State) (method : IcoMethod) :
    Prop :=
  let others := addresses.filter (· ≠ app.config.icoAddress)
  (others.map (chain.icoValue method)).sum =
    others.length * chain.icoValue method app.config.icoAddress

theorem addUp_constant {query : String → Web3Program ℚ} {value : ℚ}
    (answers : ∀ address, evaluate (performWeb3 {}) (query address) chain = (.ok value, chain))
    (sum : ℚ) :
    evaluate (performWeb3 {}) (addUp query addresses sum) chain =
      (.ok (sum + addresses.length * value), chain) := by
  induction addresses generalizing sum with
  | nil => simp [addUp]
  | cons address rest ih =>
      rw [addUp, evaluate_bind_of (answers address), ih, List.length_cons]
      congr 2
      push_cast
      ring

theorem fromWei_injective {first second : Nat} : fromWei first = fromWei second ↔ first = second := by
  unfold fromWei
  rw [div_left_inj' (by norm_num), Nat.cast_inj]

theorem held_eq (method : IcoMethod) :
    held chain method addresses = fromWei (addresses.map (chain.icoValue method)).sum := by
  induction addresses with
  | nil => simp [held, fromWei]
  | cons address rest ih =>
      have split : held chain method (address :: rest) =
          fromWei (chain.icoValue method address) + held chain method rest := by
        rw [held, List.map_cons, List.sum_cons]
        rfl
      rw [split, ih, List.map_cons, List.sum_cons, fromWei, fromWei, fromWei]
      push_cast
      ring

/-- The configured contract contributes alike to both sides. -/
theorem othersMatch_iff (method : IcoMethod) :
    addresses.length * fromWei (chain.icoValue method app.config.icoAddress) =
      held chain method addresses ↔ OthersMatch app addresses chain method := by
  have scaled : addresses.length * fromWei (chain.icoValue method app.config.icoAddress) =
      fromWei (addresses.length * chain.icoValue method app.config.icoAddress) := by
    unfold fromWei
    push_cast
    ring
  have parts : (addresses.map (chain.icoValue method)).sum +
      (addresses.filter (· ≠ app.config.icoAddress)).length *
        chain.icoValue method app.config.icoAddress =
      ((addresses.filter (· ≠ app.config.icoAddress)).map (chain.icoValue method)).sum +
        addresses.length * chain.icoValue method app.config.icoAddress := by
    clear scaled
    induction addresses with
    | nil => rfl
    | cons address rest ih =>
        by_cases own : address = app.config.icoAddress
        · rw [List.filter_cons_of_neg (by simpa using own), List.map_cons, List.sum_cons,
            List.length_cons, own, Nat.succ_mul]
          omega
        · rw [List.filter_cons_of_pos (by simpa using own), List.map_cons, List.map_cons,
            List.sum_cons, List.sum_cons, List.length_cons, List.length_cons, Nat.succ_mul,
            Nat.succ_mul]
          omega
  rw [scaled, held_eq, fromWei_injective, OthersMatch]
  omega

theorem icoTotals_pointwise (app : App) (addresses : List String) (chain : Web3State) :
    IcoTotals app addresses chain ↔ ∀ method, OthersMatch app addresses chain method := by
  have sold := @addUp_constant addresses chain (getSoldIcoTokensFromAddress app) _ (fun _ => rfl) 0
  have collected :=
    @addUp_constant addresses chain (getEthCollectedFromAddress app) _ (fun _ => rfl) 0
  rw [zero_add] at sold collected
  constructor
  · rintro ⟨soldRight, collectedRight⟩ method
    rw [getSoldIcoTokens, sold] at soldRight
    rw [getEthCollected, collected] at collectedRight
    cases method with
    | tokensSold => exact (othersMatch_iff .tokensSold).mp (Except.ok.inj soldRight)
    | collected => exact (othersMatch_iff .collected).mp (Except.ok.inj collectedRight)
  · intro matching
    refine ⟨?_, ?_⟩
    · rw [getSoldIcoTokens, sold]
      exact congrArg Except.ok ((othersMatch_iff .tokensSold).mpr (matching .tokensSold))
    · rw [getEthCollected, collected]
      exact congrArg Except.ok ((othersMatch_iff .collected).mpr (matching .collected))

/-- The totals are right when the other contracts together hold what so many copies of
the configured one would, so for every chain only when there are no others. -/
theorem icoTotals_iff (app : App) (addresses : List String) :
    (∀ chain, IcoTotals app addresses chain ↔ ∀ method, OthersMatch app addresses chain method) ∧
      ((∀ chain, IcoTotals app addresses chain) ↔
        ∀ address ∈ addresses, address = app.config.icoAddress) := by
  refine ⟨icoTotals_pointwise app addresses, ?_⟩
  constructor
  · intro right address member
    by_contra other
    let chain : Web3State :=
      { balanceOf _ := 0
        icoValue _ contract := if contract = app.config.icoAddress then 0 else 1 }
    have matching := (icoTotals_pointwise app addresses chain).mp (right chain) .tokensSold
    have empty : chain.icoValue .tokensSold app.config.icoAddress = 0 := if_pos rfl
    have full : chain.icoValue .tokensSold address = 1 := if_neg other
    have listed : address ∈ addresses.filter (· ≠ app.config.icoAddress) :=
      List.mem_filter.mpr ⟨member, by simpa using other⟩
    rw [OthersMatch, empty, Nat.mul_zero, List.sum_eq_zero_iff_forall_eq_nat] at matching
    have none := matching _ (List.mem_map_of_mem listed)
    omega
  · intro own chain
    have none : addresses.filter (· ≠ app.config.icoAddress) = [] :=
      List.filter_eq_nil_iff.mpr fun address member => by simpa using own address member
    refine (icoTotals_pointwise app addresses chain).mpr fun method => ?_
    simp only [OthersMatch, none]
    simp

/-- An app with one old contract. -/
def renewedApp : App :=
  { App.plain with config := { icoAddress := "0xb", icoOldAddresses := ["0xa"] } }

/-- The old contract has sold 5 tokens, the current one 2. -/
def renewedChain : Web3State where
  balanceOf _ := 0
  icoValue _ contract := if contract = "0xa" then 5 * 10 ^ 18 else 2 * 10 ^ 18

theorem renewed_miscounts :
    (evaluate (performWeb3 {}) (getSoldIcoTokens renewedApp
        (DashboardController.icoContractAddresses renewedApp)) renewedChain).1 = .ok 4 ∧
      held renewedChain .tokensSold (DashboardController.icoContractAddresses renewedApp) = 7 ∧
      ¬ IcoTotals renewedApp (DashboardController.icoContractAddresses renewedApp) renewedChain := by
  have different : ("0xb" : String) ≠ "0xa" := by decide
  have sold : (evaluate (performWeb3 {}) (getSoldIcoTokens renewedApp
      (DashboardController.icoContractAddresses renewedApp)) renewedChain).1 = .ok 4 := by
    rw [getSoldIcoTokens, addUp_constant (fun _ => rfl)]
    norm_num [fromWei, renewedChain, renewedApp, DashboardController.icoContractAddresses, different]
  have both : held renewedChain .tokensSold (DashboardController.icoContractAddresses renewedApp) = 7 := by
    norm_num [held, fromWei, renewedChain, renewedApp, DashboardController.icoContractAddresses,
      different]
  refine ⟨sold, both, fun totals => ?_⟩
  have right := totals.sold
  rw [sold, both] at right
  exact absurd (Except.ok.inj right) (by norm_num)

end Totals
end Web3Client
end IcoDashboard.Accounts
