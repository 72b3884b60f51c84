import IcoDashboard.Accounts.ReferralTree
import IcoDashboard.Async.Evaluation
import IcoDashboard.Data.LeftJoin
import IcoDashboard.Entities.Transaction

namespace IcoDashboard.Accounts

open IcoDashboard.Async IcoDashboard.Async.Program IcoDashboard.Data IcoDashboard.Data.LeftJoin

/-! # Referral income

The referrals of a user, with what each has brought in.  A sign-up takes the
referral as it is typed and looks it up in lower case; this report looks for the
stored spelling.
-/

/-- The cursors over investors and transactions. -/
inductive ReferralQuery where
  | investors (referral : String)
  | transactions («to» «from» : String)

abbrev ReferralQuery.Ans : ReferralQuery → Type
  | .investors _ => List Investor
  | .transactions _ _ => List Transaction

structure ReferralStore where
  investors : Collection ObjectID Investor
  transactions : TransactionStore

namespace ReferralStore

variable (store : ReferralStore)

def investorsWith (referral : String) : List Investor :=
  (store.investors.docs.map Doc.val).filter fun investor => investor.referral = some referral

def transfers («to» «from» : String) : List Transaction :=
  (store.transactions.collection.docs.map Doc.val).filter fun transaction =>
    transaction.to = some «to» ∧ transaction.from = «from» ∧ transaction.type = .referralTransfer

def answer (query : ReferralQuery) (store : ReferralStore) :
    Except Exception query.Ans × ReferralStore :=
  match query with
  | .investors referral => (.ok (store.investorsWith referral), store)
  | .transactions «to» «from» => (.ok (store.transfers «to» «from»), store)

end ReferralStore

abbrev ReferralHandler (α : Type) : Type := Program ReferralQuery ReferralQuery.Ans Exception α

/-- The number zero, or the amount of a transaction. -/
inductive ReferralTokens where
  | zero
  | amount (tokenAmount : Option String)
deriving DecidableEq, Repr

structure ReferralUser where
  date : Option Nat := none
  tokens : ReferralTokens
  walletAddress : Option String
  name : String
deriving DecidableEq, Repr

structure ReferralResult where
  data : String
  referralCount : Nat
  users : List ReferralUser
deriving DecidableEq, Repr

namespace TransactionService

def noTransferUser (referral : Investor) : ReferralUser where
  tokens := .zero
  walletAddress := referral.ethWallet.map Wallet.address
  name := referral.name

def transferUser (referral : Investor) (transaction : Transaction) : ReferralUser where
  date := some transaction.timestamp
  tokens := .amount transaction.tokenAmount
  walletAddress := some transaction.from
  name := referral.name

def referralUsers (referral : Investor) : List Transaction → List ReferralUser
  | [] => [noTransferUser referral]
  | transactions => transactions.map (transferUser referral)

/-- The loop over the referrals, with the users pushed so far. -/
def collectUsers (user : Investor) :
    List Investor → List ReferralUser → ReferralHandler (List ReferralUser)
  | [], users => return users
  | referral :: rest, users => do
      let own ← orThrow user.ethWallet typeError
      let ethWallet ← orThrow referral.ethWallet typeError
      let transactions ← call (.transactions own.address ethWallet.address)
      collectUsers user rest (users ++ referralUsers referral transactions)

def getReferralIncome (user : Investor) : ReferralHandler ReferralResult := do
  let referrals : List Investor ← call (ReferralQuery.investors user.email)
  let users ← collectUsers user referrals []
  return { data := user.referralCode, referralCount := referrals.length, users }

end TransactionService

/-- What the report answers on a store. -/
def referralIncome (store : ReferralStore) (user : Investor) : Except Exception ReferralResult :=
  (evaluate ReferralStore.answer (TransactionService.getReferralIncome user) store).1

/-! ## What the report is for -/

section Report

variable {app : App} {store : ReferralStore} {user : Investor}

/-- The investors that have signed up with the user as their referral. -/
def referred (app : App) (store : ReferralStore) (user : Investor) : List Investor :=
  (store.investors.docs.map Doc.val).filter fun investor =>
    investor.referral.map app.toLowerCase = some user.email

/-- The referral transfers from the wallet of a referral to the wallet of the user. -/
def transfersOf (store : ReferralStore) (user referral : Investor) : List Transaction :=
  match user.ethWallet, referral.ethWallet with
  | some own, some ethWallet => store.transfers own.address ethWallet.address
  | _, _ => []

/-- The report counts the referred investors.  It has a row for each transfer, and
a row for each of them without one. -/
structure ReportsReferrals (app : App) (store : ReferralStore) (user : Investor) : Prop where
  counts : store.investorsWith user.email = referred app store user
  returns : ∃ users, referralIncome store user = .ok
      { data := user.referralCode, referralCount := (referred app store user).length, users } ∧
    users.Perm
      ((matched (transfersOf store user) (referred app store user)).map
          (fun pair => TransactionService.transferUser pair.1 pair.2) ++
        (unmatched (transfersOf store user) (referred app store user)).map
          TransactionService.noTransferUser)

def pairUser (pair : Investor × Option Transaction) : ReferralUser :=
  match pair.2 with
  | some transaction => TransactionService.transferUser pair.1 transaction
  | none => TransactionService.noTransferUser pair.1

theorem referralUsers_pairs {own ethWallet : Wallet} {referral : Investor}
    (wallet : user.ethWallet = some own) (has : referral.ethWallet = some ethWallet) :
    TransactionService.referralUsers referral (store.transfers own.address ethWallet.address) =
      (pairs (transfersOf store user) referral).map pairUser := by
  have same : transfersOf store user referral = store.transfers own.address ethWallet.address := by
    rw [transfersOf, wallet, has]
  by_cases none : store.transfers own.address ethWallet.address = []
  · rw [pairs_none (same.trans none), none]
    rfl
  · rw [pairs_some (fun empty => none (same.symm.trans empty)), same, List.map_map]
    unfold TransactionService.referralUsers
    split
    · contradiction
    · rfl

/-- While every referral has a wallet, the loop computes the left join. -/
theorem collectUsers_evaluates {own : Wallet} (wallet : user.ethWallet = some own)
    {referrals : List Investor} {users : List ReferralUser}
    (wallets : ∀ referral ∈ referrals, ∃ ethWallet, referral.ethWallet = some ethWallet) :
    evaluate ReferralStore.answer (TransactionService.collectUsers user referrals users) store =
      (.ok (users ++ (leftJoin (transfersOf store user) referrals).map pairUser), store) := by
  induction referrals generalizing users with
  | nil => simp [TransactionService.collectUsers, leftJoin]
  | cons referral rest ih =>
      obtain ⟨ethWallet, has⟩ := wallets referral List.mem_cons_self
      have others := @ih (users ++ (pairs (transfersOf store user) referral).map pairUser)
        fun other member => wallets other (List.mem_cons_of_mem _ member)
      have split : leftJoin (transfersOf store user) (referral :: rest) =
          pairs (transfersOf store user) referral ++ leftJoin (transfersOf store user) rest :=
        List.flatMap_cons
      rw [split, List.map_append, ← List.append_assoc, ← others,
        ← referralUsers_pairs wallet has]
      simp [TransactionService.collectUsers, wallet, has, ReferralStore.answer]

/-- The loop returns only when every referral has a wallet. -/
theorem collectUsers_wallets {referrals : List Investor} {users all : List ReferralUser}
    {after : ReferralStore}
    (returned : evaluate ReferralStore.answer
      (TransactionService.collectUsers user referrals users) store = (.ok all, after)) :
    ∀ referral ∈ referrals, ∃ ethWallet, referral.ethWallet = some ethWallet := by
  induction referrals generalizing users with
  | nil => exact fun _ member => nomatch member
  | cons referral rest ih =>
      intro other member
      simp only [TransactionService.collectUsers, evaluate_bind, evaluate_orThrow, evaluate_call,
        ReferralStore.answer] at returned
      cases own : user.ethWallet with
      | none => simp [own] at returned
      | some wallet =>
          cases has : referral.ethWallet with
          | none => simp [own, has] at returned
          | some ethWallet =>
              simp only [own, has, Option.elim_some] at returned
              rcases List.mem_cons.mp member with same | later
              · exact ⟨ethWallet, same ▸ has⟩
              · exact ih returned other later

theorem referralIncome_returns {own : Wallet} (wallet : user.ethWallet = some own)
    (wallets : ∀ referral ∈ store.investorsWith user.email,
      ∃ ethWallet, referral.ethWallet = some ethWallet) :
    referralIncome store user = .ok
      { data := user.referralCode
        referralCount := (store.investorsWith user.email).length
        users := (leftJoin (transfersOf store user) (store.investorsWith user.email)).map
          pairUser } := by
  have collected := @collectUsers_evaluates store user own wallet _ [] wallets
  rw [List.nil_append] at collected
  simp [referralIncome, TransactionService.getReferralIncome, ReferralStore.answer, collected]

theorem referralIncome_wallets {result : ReferralResult}
    (returned : referralIncome store user = .ok result) :
    ∀ referral ∈ store.investorsWith user.email,
      ∃ ethWallet, referral.ethWallet = some ethWallet := by
  have ran : evaluate ReferralStore.answer (TransactionService.getReferralIncome user) store =
      (.ok result, _) := Prod.ext returned rfl
  obtain ⟨referrals, between, listed, rest⟩ := evaluate_bind_ok ran
  obtain ⟨users, _, collected, _⟩ := evaluate_bind_ok rest
  rw [evaluate_call] at listed
  cases listed
  exact collectUsers_wallets collected

/-- The report is right exactly when every referred investor has stored the email
of the user as it is, and has a wallet. -/
theorem reportsReferrals_iff {state : AccountState}
    (reached : (accounts app).Reachable (.idle {}) state) {id : ObjectID}
    (stored : state.world.investors.lookup id = some user) (activated : user.isVerified = true)
    (transactions : TransactionStore) :
    ReportsReferrals app ⟨state.world.investors, transactions⟩ user ↔
      ∀ investor ∈ referred app ⟨state.world.investors, transactions⟩ user,
        investor.referral = some user.email ∧ ∃ ethWallet, investor.ethWallet = some ethWallet := by
  obtain ⟨own, wallet⟩ := activated_wallet reached stored activated
  have lowered : app.toLowerCase user.email = user.email :=
    (storeInvariant reached).lowered id user.email (by simp [emailOf, stored])
  constructor
  · intro reports investor member
    obtain ⟨users, returned, _⟩ := reports.returns
    rw [← reports.counts] at member
    have spelled := (List.mem_filter.mp member).2
    exact ⟨by simpa using spelled, referralIncome_wallets returned investor member⟩
  · intro plain
    have counts : ReferralStore.investorsWith ⟨state.world.investors, transactions⟩ user.email =
        referred app ⟨state.world.investors, transactions⟩ user := by
      apply List.filter_congr
      intro investor member
      rw [decide_eq_decide]
      constructor
      · intro spelled
        rw [spelled, Option.map_some, lowered]
      · intro refers
        exact (plain investor (List.mem_filter.mpr ⟨member, by simpa using refers⟩)).1
    have returned := @referralIncome_returns ⟨state.world.investors, transactions⟩ user own wallet
    rw [counts] at returned
    refine ⟨counts, _, returned fun referral member => (plain referral member).2, ?_⟩
    have joined := @leftJoin_perm _ _ (transfersOf ⟨state.world.investors, transactions⟩ user)
      (referred app ⟨state.world.investors, transactions⟩ user)
    have rows := joined.map pairUser
    rw [List.map_append, List.map_map, List.map_map] at rows
    exact rows

end Report

/-! ## A referral before and after the activation -/

def bobSignUp : List (Action Choice Arrival) :=
  [.start { request := .create bob }, .resume 2 {}, .resume 2 {}, .resume 2 {},
    .resume 2 { verificationId := "v2", code := "222222" }, .resume 2 { id := 2 }, .resume 2 {}]

def bobActivation : List (Action Choice Arrival) :=
  [.start
      { request := .activate
          { email := "bob@example.com", verificationId := "v2", code := "222222" }
        draws := { mnemonic := "cow", salt := "pepper" } },
    .resume 3 {}, .resume 3 {}, .resume 3 {}, .resume 3 {}, .resume 3 {}, .resume 3 {},
    .resume 3 { accessToken := "t2" }, .resume 3 { id := 2 }, .resume 3 {}]

def bobSignedUp : AccountState := after .plain (signUp ++ activation 1 ++ bobSignUp)

def bobActivated : AccountState := after .plain (signUp ++ activation 1 ++ bobSignUp ++ bobActivation)

/-- Ten tokens from the wallet of Bob to the wallet of Ann. -/
def bobTransfer : Transaction where
  transactionHash := "0x01"
  timestamp := 1509885929
  blockNumber := some 7
  «from» := "pepper"
  «to» := some "salt"
  ethAmount := "0"
  tokenAmount := some "10"
  status := .confirmed
  type := .referralTransfer

def bobTransfers : TransactionStore := (Indexed.insert .empty bobTransfer).getD .empty

theorem bobActivated_reports : ∃ ann, bobActivated.world.investors.lookup 1 = some ann ∧
    ReportsReferrals .plain ⟨bobActivated.world.investors, bobTransfers⟩ ann ∧
    ((referralIncome ⟨bobActivated.world.investors, bobTransfers⟩ ann).map ReferralResult.users) =
      .ok [{ date := some 1509885929, tokens := .amount (some "10")
             walletAddress := some "pepper", name := "Bob Lee" }] := by
  have found : ∃ ann, bobActivated.world.investors.lookup 1 = some ann ∧ ann.isVerified = true :=
    ⟨_, rfl, rfl⟩
  have plain : ∀ ann ∈ bobActivated.world.investors.lookup 1,
      ∀ investor ∈ referred .plain ⟨bobActivated.world.investors, bobTransfers⟩ ann,
        investor.referral = some ann.email ∧ investor.ethWallet.isSome = true := by
    decide +kernel
  have shown : ∀ ann ∈ bobActivated.world.investors.lookup 1,
      (referralIncome ⟨bobActivated.world.investors, bobTransfers⟩ ann).map ReferralResult.users =
        .ok [{ date := some 1509885929, tokens := .amount (some "10")
               walletAddress := some "pepper", name := "Bob Lee" }] := by
    decide +kernel
  obtain ⟨ann, stored, activated⟩ := found
  refine ⟨ann, stored, ?_, shown ann stored⟩
  apply (reportsReferrals_iff (System.reachable_run _ _) stored activated bobTransfers).mpr
  intro investor member
  obtain ⟨spelled, has⟩ := plain ann stored investor member
  exact ⟨spelled, Option.isSome_iff_exists.mp has⟩

/-- Bob has signed up and is not activated yet. -/
theorem bobSignedUp_throws : (accounts .plain).Reachable (.idle {}) bobSignedUp ∧
    ∃ ann, bobSignedUp.world.investors.lookup 1 = some ann ∧ ann.isVerified = true ∧
    referralIncome ⟨bobSignedUp.world.investors, .empty⟩ ann = .error typeError ∧
    ¬ ReportsReferrals .plain ⟨bobSignedUp.world.investors, .empty⟩ ann := by
  have found : ∃ ann, bobSignedUp.world.investors.lookup 1 = some ann ∧ ann.isVerified = true :=
    ⟨_, rfl, rfl⟩
  have throws : ∀ ann ∈ bobSignedUp.world.investors.lookup 1,
      referralIncome ⟨bobSignedUp.world.investors, .empty⟩ ann = .error typeError := by
    decide +kernel
  obtain ⟨ann, stored, activated⟩ := found
  have thrown := throws ann stored
  refine ⟨System.reachable_run _ _, ann, stored, activated, thrown, fun reports => ?_⟩
  obtain ⟨users, returned, _⟩ := reports.returns
  rw [thrown] at returned
  cases returned

end IcoDashboard.Accounts
