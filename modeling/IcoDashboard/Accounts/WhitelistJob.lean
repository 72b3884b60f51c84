import IcoDashboard.Accounts.Store
import IcoDashboard.Accounts.Web3Queue
import IcoDashboard.Async.Sequential
import IcoDashboard.Entities.Invitations

namespace IcoDashboard.Accounts

open IcoDashboard.Async IcoDashboard.Async.Program IcoDashboard.Data

/-! # What the whitelist lacks

A run of the whitelist job in which every call is answered writes what the contract
lacks of the stored investors, each entry once.
-/

/-- The state of the contract during a run. -/
structure Whitelist where
  allowed : String → Bool
  referralOf : String → String

inductive WhitelistWrite where
  | address (address : String)
  | referral (address referral : String)
deriving DecidableEq

def whitelistWrite : Call JobOp JobAns Exception → Option WhitelistWrite
  | ⟨.account (.addAddressToWhiteList address), _⟩ => some (.address address)
  | ⟨.account (.addReferralOf address referral), _⟩ => some (.referral address referral)
  | _ => none

/-- The whitelist writes of a run, in order. -/
def whitelistWrites (trace : JobTrace) : List WhitelistWrite := trace.filterMap whitelistWrite

/-- The call is not rejected, and the contract is asked in this state. -/
def AnsweredFrom (whitelist : Whitelist) (call : Call JobOp JobAns Exception) : Prop :=
  (∃ value, call.2 = .ok value) ∧
  match call with
  | ⟨.account (.isAllowed address), answer⟩ => answer = .ok (whitelist.allowed address)
  | ⟨.account (.getReferralOf address), answer⟩ => answer = .ok (whitelist.referralOf address)
  | _ => True

/-- What the contract has to get for some investors. -/
def Lacks (app : App) (whitelist : Whitelist) (investors : List Investor) : WhitelistWrite → Prop
  | .address address => ∃ investor ∈ investors, investor.kycStatus = .verified ∧
      Web3Queue.walletAddress investor = some address ∧ whitelist.allowed address = false
  | .referral address referralAddress => ∃ investor ∈ investors, ∃ email, ∃ referral ∈ investors,
      Web3Queue.walletAddress investor = some address ∧ investor.referral = some email ∧
      referral.email = app.toLowerCase email ∧
      Web3Queue.walletAddress referral = some referralAddress ∧
      app.toLowerCase (whitelist.referralOf address) ≠ app.toLowerCase referralAddress

theorem whitelistWrites_append (first second : JobTrace) :
    whitelistWrites (first ++ second) = whitelistWrites first ++ whitelistWrites second :=
  List.filterMap_append

/-! ## One pass of each loop -/

namespace Web3Queue

variable {app : App} {whitelist : Whitelist} {world after : World} {trace : JobTrace}

def missingAddress (whitelist : Whitelist) (investor : Investor) : Option WhitelistWrite :=
  (walletAddress investor).bind fun address =>
    if whitelist.allowed address = true then none else some (.address address)

/-- The referral of an investor, as the job finds it. -/
def referralAddressOf (app : App) (world : World) (investor : Investor) : Option String :=
  investor.referral.bind fun email =>
    (world.findInvestor (.email (app.toLowerCase email))).bind fun referral =>
      walletAddress referral.val

def missingReferral (app : App) (whitelist : Whitelist) (world : World) (investor : Investor) :
    Option WhitelistWrite :=
  (walletAddress investor).bind fun address =>
    (referralAddressOf app world investor).bind fun referralAddress =>
      if app.toLowerCase (whitelist.referralOf address) ≠ app.toLowerCase referralAddress then
        some (.referral address referralAddress)
      else none

theorem AnsweredFrom.answered {trace : JobTrace}
    (answered : ∀ call ∈ trace, AnsweredFrom whitelist call) : Answered trace :=
  fun call member => (answered call member).1

/-- The calls of the job. -/
def OfJob : JobOp → Prop
  | .findVerified | .findReferred | .account (.findInvestor _) | .account (.isAllowed _)
  | .account (.addAddressToWhiteList _) | .account (.getReferralOf _)
  | .account (.addReferralOf _ _) => True
  | _ => False

theorem performJob_keeps {op : JobOp} (ofJob : OfJob op) (choice : Choice) (world : World) :
    (performJob choice op world).2 = world := by
  cases op with
  | findVerified => exact findVerified_keeps choice world
  | findReferred => exact findReferred_keeps choice world
  | account op =>
      cases op with
      | findInvestor | isAllowed | addAddressToWhiteList | getReferralOf | addReferralOf =>
          unfold performJob perform
          split <;> rfl
      | _ => exact ofJob.elim

/-- A call of the job that ends a pass. -/
theorem lastCall_pass {op : JobOp} {outcome : Except Exception (JobAns op)}
    (ran : Executes performJob (requestJob op) world trace outcome after)
    (answered : Answered trace) (ofJob : OfJob op) :
    ∃ value, outcome = .ok value ∧ after = world ∧ trace = [⟨op, .ok value⟩] := by
  obtain ⟨choice, one, returned, reached⟩ := ran.of_call
  obtain ⟨value, given⟩ := answered ⟨op, (performJob choice op world).1⟩ (by rw [one]; simp)
  change (performJob choice op world).1 = .ok value at given
  rw [given] at one returned
  exact ⟨value, returned, reached.trans (performJob_keeps ofJob choice world), one⟩

theorem restoreWhitelisted_pass (investor : Doc ObjectID Investor)
    {outcome : Except Exception Unit}
    (ran : Executes performJob (restoreWhitelisted investor) world trace outcome after)
    (answered : ∀ call ∈ trace, AnsweredFrom whitelist call) :
    outcome = .ok () ∧ after = world ∧
      whitelistWrites trace = (missingAddress whitelist investor.val).toList := by
  unfold restoreWhitelisted at ran
  unfold missingAddress
  cases wallet : walletAddress investor.val with
  | none =>
      rw [wallet] at ran
      cases ran
      exact ⟨rfl, rfl, rfl⟩
  | some address =>
      rw [wallet] at ran
      obtain ⟨choice, allowed, rest, _, split, restAnswered, tail⟩ :=
        ran.answered_bind (AnsweredFrom.answered answered)
      rw [performJob_keeps (show OfJob (.account (.isAllowed address)) from trivial)] at tail
      have asked := (answered _ (split ▸ List.mem_cons_self)).2
      have contract : allowed = whitelist.allowed address := Except.ok.inj asked
      subst split
      rw [Option.bind_some, ← contract]
      by_cases isAllowed : allowed = true
      · rw [if_pos isAllowed] at tail ⊢
        cases tail
        exact ⟨rfl, rfl, rfl⟩
      · rw [if_neg isAllowed] at tail ⊢
        obtain ⟨_, returned, same, one⟩ := lastCall_pass tail restAnswered trivial
        rw [one]
        exact ⟨returned, same, rfl⟩

theorem restoreReferral_pass (investor : Doc ObjectID Investor)
    {outcome : Except Exception Unit} {email : String}
    (referred : investor.val.referral = some email)
    (ran : Executes performJob (restoreReferral app investor) world trace outcome after)
    (answered : ∀ call ∈ trace, AnsweredFrom whitelist call) :
    outcome = .ok () ∧ after = world ∧
      whitelistWrites trace = (missingReferral app whitelist world investor.val).toList := by
  unfold restoreReferral at ran
  unfold missingReferral referralAddressOf
  cases wallet : walletAddress investor.val with
  | none =>
      rw [wallet] at ran
      cases ran
      exact ⟨rfl, rfl, rfl⟩
  | some address =>
      rw [wallet, referred] at ran
      obtain ⟨choice, referral, rest, found, split, restAnswered, tail⟩ :=
        Executes.answered_bind ran (AnsweredFrom.answered answered)
      rw [performJob_keeps (show OfJob (.account (.findInvestor
        (.email (app.toLowerCase email)))) from trivial)] at tail
      have stored : world.findInvestor (.email (app.toLowerCase email)) = referral :=
        findInvestor_answered found
      subst split
      rw [referred, Option.bind_some, Option.bind_some, stored]
      cases known : referral.bind fun referral => walletAddress referral.val with
      | none =>
          rw [known] at tail
          cases tail
          exact ⟨rfl, rfl, rfl⟩
      | some referralAddress =>
          rw [known] at tail
          obtain ⟨choice, listed, last, _, split, lastAnswered, ending⟩ :=
            Executes.answered_bind tail restAnswered
          rw [performJob_keeps (show OfJob (.account (.getReferralOf address)) from trivial)] at ending
          subst split
          have asked := (answered ⟨.account (.getReferralOf address), .ok listed⟩ (by simp)).2
          have contract : listed = whitelist.referralOf address := Except.ok.inj asked
          rw [Option.bind_some, ← contract]
          by_cases differs : app.toLowerCase listed ≠ app.toLowerCase referralAddress
          · rw [if_pos differs] at ending ⊢
            obtain ⟨_, returned, same, one⟩ := lastCall_pass ending lastAnswered trivial
            rw [one]
            exact ⟨returned, same, rfl⟩
          · rw [if_neg differs] at ending ⊢
            cases ending
            exact ⟨rfl, rfl, rfl⟩

/-! ## The run -/

def missingAddresses (whitelist : Whitelist) (world : World) : List WhitelistWrite :=
  (world.investors.docs.filter fun investor => investor.val.kycStatus = .verified).filterMap
    fun investor => missingAddress whitelist investor.val

def missingReferrals (app : App) (whitelist : Whitelist) (world : World) : List WhitelistWrite :=
  (world.investors.docs.filter fun investor => investor.val.referral.isSome).filterMap
    fun investor => missingReferral app whitelist world investor.val

/-- The job writes what is missing, in the order of the investors. -/
theorem checkWhiteList_writes {outcome : Except Exception Bool}
    (ran : Executes performJob (checkWhiteList app) world trace outcome after)
    (answered : ∀ call ∈ trace, AnsweredFrom whitelist call) :
    outcome = .ok true ∧ whitelistWrites trace =
      missingAddresses whitelist world ++ missingReferrals app whitelist world := by
  obtain ⟨_, verified, rest, found, split, restAnswered, ran⟩ :=
    Executes.answered_bind ran (AnsweredFrom.answered answered)
  rw [findVerified_keeps] at ran
  rw [split] at answered
  have answered := (List.forall_mem_cons.mp answered).2
  have addresses : Executes.Passes performJob whitelistWrites (AnsweredFrom whitelist) world
      restoreWhitelisted (fun investor => (missingAddress whitelist investor.val).toList) verified :=
    fun investor _ _ _ _ pass good => restoreWhitelisted_pass investor pass good
  obtain ⟨front, later, parts, first, ran⟩ :=
    Executes.forEach_bind rfl whitelistWrites_append addresses ran answered
  rw [parts] at answered restAnswered
  have answered := (List.forall_mem_append.mp answered).2
  obtain ⟨_, referred, last, foundReferred, splitLater, _, ran⟩ :=
    Executes.answered_bind ran (AnsweredFrom.answered answered)
  rw [performJob_keeps (show OfJob .findReferred from trivial)] at ran
  rw [splitLater] at answered
  have answered := (List.forall_mem_cons.mp answered).2
  have referrals : Executes.Passes performJob whitelistWrites (AnsweredFrom whitelist) world
      (restoreReferral app)
      (fun investor => (missingReferral app whitelist world investor.val).toList) referred := by
    intro investor member _ _ _ pass good
    rw [findReferred_answered foundReferred] at member
    obtain ⟨email, known⟩ := Option.isSome_iff_exists.mp (List.mem_filter.mp member).2
    exact restoreReferral_pass investor known pass good
  obtain ⟨second, ending, partsLast, secondWrites, ran⟩ :=
    Executes.forEach_bind rfl whitelistWrites_append referrals ran answered
  cases ran
  refine ⟨rfl, ?_⟩
  rw [split, parts, splitLater, partsLast, List.append_nil]
  change whitelistWrites (front ++ ⟨.findReferred, .ok referred⟩ :: second) = _
  rw [whitelistWrites_append, first]
  change _ ++ whitelistWrites second = _
  rw [secondWrites, findVerified_answered found, findReferred_answered foundReferred,
    missingAddresses, missingReferrals, List.filterMap_eq_flatMap_toList,
    List.filterMap_eq_flatMap_toList]

/-! ## Each lacking entry once -/

/-- Results that tell the keys of their sources apart come from different sources. -/
theorem filterMap_nodup {α β γ : Type} {values : List α} {key : α → Option γ} {made : α → Option β}
    {keyOf : β → γ} (own : ∀ value result, made value = some result → key value = some (keyOf result))
    (distinct : (values.filterMap key).Nodup) : (values.filterMap made).Nodup := by
  induction values with
  | nil => exact List.nodup_nil
  | cons value rest ih =>
      have distinctRest : (rest.filterMap key).Nodup := by
        refine distinct.sublist ?_
        exact (List.sublist_cons_self value rest).filterMap key
      cases result : made value with
      | none =>
          rw [List.filterMap_cons_none result]
          exact ih distinctRest
      | some first =>
          rw [List.filterMap_cons_some (own value first result)] at distinct
          rw [List.filterMap_cons_some result, List.nodup_cons]
          refine ⟨fun again => ?_, ih distinctRest⟩
          obtain ⟨other, member, same⟩ := List.mem_filterMap.mp again
          exact (List.nodup_cons.mp distinct).1 (List.mem_filterMap.mpr ⟨other, member, own _ _ same⟩)

def WhitelistWrite.wallet : WhitelistWrite → String
  | .address address => address
  | .referral address _ => address

theorem missingAddress_iff {investor : Investor} {write : WhitelistWrite} :
    missingAddress whitelist investor = some write ↔ ∃ address, write = .address address ∧
      walletAddress investor = some address ∧ whitelist.allowed address = false := by
  rw [missingAddress, Option.bind_eq_some_iff]
  refine exists_congr fun address => ?_
  by_cases allowed : whitelist.allowed address = true
  · simp [allowed]
  · simp [allowed, and_comm, eq_comm]

theorem missingReferral_iff {investor : Investor} {write : WhitelistWrite} :
    missingReferral app whitelist world investor = some write ↔ ∃ address referralAddress,
      write = .referral address referralAddress ∧ walletAddress investor = some address ∧
      referralAddressOf app world investor = some referralAddress ∧
      app.toLowerCase (whitelist.referralOf address) ≠ app.toLowerCase referralAddress := by
  simp only [missingReferral, Option.bind_eq_some_iff, Option.ite_none_right_eq_some,
    Option.some.injEq]
  constructor
  · rintro ⟨address, wallet, referralAddress, referral, differs, same⟩
    exact ⟨address, referralAddress, same.symm, wallet, referral, differs⟩
  · rintro ⟨address, referralAddress, same, wallet, referral, differs⟩
    exact ⟨address, wallet, referralAddress, referral, differs, same.symm⟩

/-- With distinct emails the query finds the investor that has the email. -/
theorem findInvestor_email_iff
    (emails : (world.investors.docs.map fun investor => investor.val.email).Nodup)
    {email : String} {investor : Doc ObjectID Investor} :
    world.findInvestor (.email email) = some investor ↔
      investor ∈ world.investors.docs ∧ investor.val.email = email := by
  constructor
  · intro found
    exact ⟨List.mem_of_find?_eq_some found, by simpa using List.find?_some found⟩
  · rintro ⟨member, own⟩
    cases found : world.findInvestor (.email email) with
    | none =>
        have absent := List.find?_eq_none.mp found investor member
        simp [own] at absent
    | some other =>
        have stored : other ∈ world.investors.docs := List.mem_of_find?_eq_some found
        have same : other.val.email = email := by simpa using List.find?_some found
        rw [List.inj_on_of_nodup_map emails stored member (same.trans own.symm)]

theorem mem_missingAddresses {write : WhitelistWrite} :
    write ∈ missingAddresses whitelist world ↔ ∃ address, write = .address address ∧
      Lacks app whitelist (world.investors.docs.map Doc.val) (.address address) := by
  rw [missingAddresses, List.mem_filterMap]
  constructor
  · rintro ⟨investor, member, missing⟩
    obtain ⟨stored, verified⟩ := List.mem_filter.mp member
    obtain ⟨address, same, wallet, refused⟩ := missingAddress_iff.mp missing
    exact ⟨address, same, investor.val, List.mem_map_of_mem stored, of_decide_eq_true verified,
      wallet, refused⟩
  · rintro ⟨address, same, _, listed, verified, wallet, refused⟩
    obtain ⟨investor, stored, own⟩ := List.mem_map.mp listed
    subst own
    exact ⟨investor, List.mem_filter.mpr ⟨stored, decide_eq_true verified⟩,
      missingAddress_iff.mpr ⟨address, same, wallet, refused⟩⟩

theorem mem_missingReferrals
    (emails : (world.investors.docs.map fun investor => investor.val.email).Nodup)
    {write : WhitelistWrite} :
    write ∈ missingReferrals app whitelist world ↔ ∃ address referralAddress,
      write = .referral address referralAddress ∧
      Lacks app whitelist (world.investors.docs.map Doc.val)
        (.referral address referralAddress) := by
  rw [missingReferrals, List.mem_filterMap]
  constructor
  · rintro ⟨investor, member, missing⟩
    have stored := (List.mem_filter.mp member).1
    obtain ⟨address, referralAddress, same, wallet, referral, differs⟩ :=
      missingReferral_iff.mp missing
    obtain ⟨email, referred, known⟩ := Option.bind_eq_some_iff.mp referral
    obtain ⟨found, query, referralWallet⟩ := Option.bind_eq_some_iff.mp known
    obtain ⟨foundStored, own⟩ := (findInvestor_email_iff emails).mp query
    exact ⟨address, referralAddress, same, investor.val, List.mem_map_of_mem stored, email,
      found.val, List.mem_map_of_mem foundStored, wallet, referred, own, referralWallet, differs⟩
  · rintro ⟨address, referralAddress, same, _, listed, email, _, others, wallet, referred, own,
      referralWallet, differs⟩
    obtain ⟨investor, stored, sameInvestor⟩ := List.mem_map.mp listed
    obtain ⟨found, foundStored, sameFound⟩ := List.mem_map.mp others
    subst sameInvestor sameFound
    have query := (findInvestor_email_iff emails).mpr ⟨foundStored, own⟩
    have referral : referralAddressOf app world investor.val = some referralAddress := by
      rw [referralAddressOf, referred, Option.bind_some, query, Option.bind_some, referralWallet]
    refine ⟨investor, List.mem_filter.mpr ⟨stored, by rw [referred]; rfl⟩, ?_⟩
    exact missingReferral_iff.mpr ⟨address, referralAddress, same, wallet, referral, differs⟩

theorem mem_missing_iff
    (emails : (world.investors.docs.map fun investor => investor.val.email).Nodup)
    {write : WhitelistWrite} :
    write ∈ missingAddresses whitelist world ++ missingReferrals app whitelist world ↔
      Lacks app whitelist (world.investors.docs.map Doc.val) write := by
  rw [List.mem_append, @mem_missingAddresses app, mem_missingReferrals emails]
  constructor
  · rintro (⟨_, rfl, lacks⟩ | ⟨_, _, rfl, lacks⟩)
    · exact lacks
    · exact lacks
  · intro lacks
    cases write with
    | address address => exact .inl ⟨address, rfl, lacks⟩
    | referral address referralAddress => exact .inr ⟨address, referralAddress, rfl, lacks⟩

theorem missing_nodup
    (emails : (world.investors.docs.map fun investor => investor.val.email).Nodup)
    (wallets : (world.investors.docs.filterMap fun investor => walletAddress investor.val).Nodup) :
    (missingAddresses whitelist world ++ missingReferrals app whitelist world).Nodup := by
  have selected : ∀ matching : Doc ObjectID Investor → Bool,
      ((world.investors.docs.filter matching).filterMap
        fun investor => walletAddress investor.val).Nodup :=
    fun matching => wallets.sublist (List.filter_sublist.filterMap _)
  rw [List.nodup_append]
  refine ⟨@filterMap_nodup _ _ _ _ _ _ WhitelistWrite.wallet ?_ (selected _),
    @filterMap_nodup _ _ _ _ _ _ WhitelistWrite.wallet ?_ (selected _), ?_⟩
  · intro investor write missing
    obtain ⟨address, same, wallet, _⟩ := missingAddress_iff.mp missing
    rw [same]
    exact wallet
  · intro investor write missing
    obtain ⟨address, _, same, wallet, _⟩ := missingReferral_iff.mp missing
    rw [same]
    exact wallet
  · intro write first other second same
    obtain ⟨_, own, _⟩ := (@mem_missingAddresses app _ _ _).mp first
    obtain ⟨_, _, others, _⟩ := (mem_missingReferrals emails).mp second
    rw [own, others] at same
    cases same

/-- An answered run returns, and writes each entry that the contract lacks once and
nothing else. -/
theorem checkWhiteList_restores {outcome : Except Exception Bool}
    (emails : (world.investors.docs.map fun investor => investor.val.email).Nodup)
    (wallets : (world.investors.docs.filterMap fun investor => walletAddress investor.val).Nodup)
    (ran : Executes performJob (checkWhiteList app) world trace outcome after)
    (answered : ∀ call ∈ trace, AnsweredFrom whitelist call) :
    outcome = .ok true ∧ ∀ write,
      (Lacks app whitelist (world.investors.docs.map Doc.val) write →
        (whitelistWrites trace).count write = 1) ∧
      (¬ Lacks app whitelist (world.investors.docs.map Doc.val) write →
        (whitelistWrites trace).count write = 0) := by
  obtain ⟨returned, writes⟩ := checkWhiteList_writes ran answered
  refine ⟨returned, fun write => ⟨fun lacks => ?_, fun complete => ?_⟩⟩
  · rw [writes]
    exact List.count_eq_one_of_mem (missing_nodup emails wallets) ((mem_missing_iff emails).mpr lacks)
  · rw [writes]
    exact List.count_eq_zero.mpr fun listed => complete ((mem_missing_iff emails).mp listed)

/-! ## An investor the contract does not know -/

def walletAt (address : String) : Option Wallet :=
  some { ticker := "ETH", address, balance := "0", salt := "salt" }

def referringBob : Investor :=
  { Investor.inviter with email := "bob@example.com", ethWallet := walletAt "0xb0" }

def referredAnn : Investor :=
  { Investor.inviter with
    kycStatus := .verified, referral := some "bob@example.com", ethWallet := walletAt "0xa1" }

def referredWorld : World :=
  { investors := ⟨[⟨1, referredAnn⟩, ⟨2, referringBob⟩], by decide⟩ }

def emptyWhitelist : Whitelist where
  allowed _ := false
  referralOf _ := "0x0"

def referredTrace : JobTrace :=
  [⟨.findVerified, .ok [⟨1, referredAnn⟩]⟩,
    ⟨.account (.isAllowed "0xa1"), .ok false⟩,
    ⟨.account (.addAddressToWhiteList "0xa1"), .ok ()⟩,
    ⟨.findReferred, .ok [⟨1, referredAnn⟩]⟩,
    ⟨.account (.findInvestor (.email "bob@example.com")), .ok (some ⟨2, referringBob⟩)⟩,
    ⟨.account (.getReferralOf "0xa1"), .ok "0x0"⟩,
    ⟨.account (.addReferralOf "0xa1" "0xb0"), .ok ()⟩]

theorem referredTrace_ran :
    Executes performJob (checkWhiteList .plain) referredWorld referredTrace (.ok true)
      referredWorld := by
  refine .await ({} : Choice) ?_
  refine .await ({ allowed := false } : Choice) ?_
  refine .await ({} : Choice) ?_
  refine .await ({} : Choice) ?_
  refine .await ({} : Choice) ?_
  refine .await ({ text := "0x0" } : Choice) ?_
  refine .await ({} : Choice) ?_
  exact .done true _

theorem referredTrace_answered : ∀ call ∈ referredTrace, AnsweredFrom emptyWhitelist call := by
  simp only [referredTrace, List.forall_mem_cons]
  exact ⟨⟨⟨_, rfl⟩, trivial⟩, ⟨⟨_, rfl⟩, rfl⟩, ⟨⟨_, rfl⟩, trivial⟩, ⟨⟨_, rfl⟩, trivial⟩,
    ⟨⟨_, rfl⟩, trivial⟩, ⟨⟨_, rfl⟩, rfl⟩, ⟨⟨_, rfl⟩, trivial⟩, List.forall_mem_nil _⟩

theorem referredAnn_restored : (whitelistWrites referredTrace).count (.address "0xa1") = 1 := by
  have listed : referredAnn ∈ referredWorld.investors.docs.map Doc.val := List.mem_cons_self
  exact ((checkWhiteList_restores (by decide) (by decide) referredTrace_ran
    referredTrace_answered).2 (.address "0xa1")).1 ⟨referredAnn, listed, rfl, rfl, rfl⟩

end Web3Queue
end IcoDashboard.Accounts
