import Mathlib.Data.List.Induction
import IcoDashboard.Accounts.KycStatuses

namespace IcoDashboard.Accounts

open IcoDashboard.Async IcoDashboard.Async.Program IcoDashboard.Data

/-! # Runs of the backend

Requests of either provider and runs of the whitelist job, one after another.
Each of their calls keeps the law of the statuses, and the addresses they put on
the whitelist are those of verified investors.
-/

variable {app : App}

/-! ## The job -/

/-- The job saves nothing, and whitelists the wallets it was given as verified. -/
def JobGuard (past : JobTrace) : JobOp → Prop
  | .account (.addAddressToWhiteList address) => ∃ investors investor,
      ⟨.findVerified, .ok investors⟩ ∈ past ∧ investor ∈ investors ∧
        Web3Queue.walletAddress investor.val = some address
  | .account (.saveInvestor _) | .account (.insertInvestor _) => False
  | _ => True

theorem restoreWhitelisted_meets {investor : Doc ObjectID Investor}
    {investors : List (Doc ObjectID Investor)} {past : JobTrace} (member : investor ∈ investors)
    (given : ⟨.findVerified, .ok investors⟩ ∈ past) :
    (Web3Queue.restoreWhitelisted investor).Meets JobGuard (fun _ _ => True) (fun _ _ => True)
      past := by
  unfold Web3Queue.restoreWhitelisted
  cases wallet : Web3Queue.walletAddress investor.val with
  | none => trivial
  | some address =>
      simp only [requestJob, call, meets_bind, meets_await, meets_done, meets_fail, meets_ite,
        meets_pure, implies_true, and_true, true_and]
      refine ⟨trivial, fun allowed _ => ?_⟩
      exact ⟨investors, investor, List.mem_append_left _ given, member, wallet⟩

theorem restoreReferral_meets (investor : Doc ObjectID Investor) (past : JobTrace) :
    (Web3Queue.restoreReferral app investor).Meets JobGuard (fun _ _ => True) (fun _ _ => True)
      past := by
  unfold Web3Queue.restoreReferral
  split
  · trivial
  · simp only [requestJob, call, meets_bind, meets_await, meets_done, meets_fail, meets_orThrow,
      JobGuard, implies_true, and_true, true_and]
    intro email referred referral
    split <;> simp [JobGuard]

theorem checkWhiteList_meets (app : App) :
    (Web3Queue.checkWhiteList app).Meets JobGuard (fun _ _ => True) (fun _ _ => True) [] := by
  simp only [Web3Queue.checkWhiteList, requestJob, call, meets_bind, meets_await, meets_done,
    meets_fail, meets_pure, JobGuard, implies_true, and_true, true_and]
  intro investors
  have restored : (forEach investors Web3Queue.restoreWhitelisted).Meets JobGuard
      (fun _ _ => True) (fun _ _ => True) ([] ++ [⟨.findVerified, .ok investors⟩]) := by
    refine (@Meets.forEachDone _ _ _ _ _ _ _ _ (fun _ _ => True) (fun _ _ _ _ _ => trivial)
      fun investor member later extended => ?_).mono (fun _ _ guarded => guarded)
      (fun _ _ _ => trivial) (fun _ _ failed => failed)
    exact restoreWhitelisted_meets member (extended.subset (List.mem_append_right _ List.mem_cons_self))
  refine restored.after fun later _ _ referred => ?_
  exact Meets.forEach fun investor _ past => restoreReferral_meets investor past

structure JobInvariant (before : World) (past : JobTrace) (world : World) : Prop where
  investors : world.investors = before.investors
  noWrite : investorWrites (accountTrace past) = []
  given : ∀ investors, ⟨.findVerified, .ok investors⟩ ∈ past → ∀ investor ∈ investors,
    before.investors.lookup investor.id = some investor.val ∧ investor.val.kycStatus = .verified

/-- The query of the job finds stored investors that are verified. -/
theorem findVerified_stored {choice : Choice} {world : World}
    {investors : List (Doc ObjectID Investor)}
    (answered : (performJob choice .findVerified world).1 = .ok investors)
    {investor : Doc ObjectID Investor} (member : investor ∈ investors) :
    world.investors.lookup investor.id = some investor.val ∧
      investor.val.kycStatus = .verified := by
  rw [findVerified_answered answered] at member
  obtain ⟨stored, verified⟩ := List.mem_filter.mp member
  exact ⟨Collection.lookup_eq_some_iff.mpr stored, of_decide_eq_true verified⟩

/-- A call of the job that changes nothing. -/
theorem JobInvariant.quiet {before world after : World} {past : JobTrace} {op : JobOp}
    {answer : Except Exception (JobAns op)} (holds : JobInvariant before past world)
    (investors : after.investors = world.investors)
    (noWrite : investorWrites (accountTrace [⟨op, answer⟩]) = [])
    (other : op ≠ .findVerified) : JobInvariant before (past ++ [⟨op, answer⟩]) after := by
  refine ⟨investors.trans holds.investors, ?_, ?_⟩
  · rw [accountTrace_append, investorWrites_append, holds.noWrite, noWrite]
    rfl
  · intro found member
    rcases List.mem_append.mp member with old | new
    · exact holds.given found old
    · exact absurd (congrArg Sigma.fst (List.mem_singleton.mp new)).symm other

theorem JobInvariant.step {before world : World} {past : JobTrace} {op : JobOp} {choice : Choice}
    (guard : JobGuard past op) (holds : JobInvariant before past world) :
    JobInvariant before (past ++ [⟨op, (performJob choice op world).1⟩])
      (performJob choice op world).2 := by
  cases op with
  | account op =>
      have noWrite : investorWrite ⟨op, (perform choice op world).1⟩ = none := by
        cases op with
        | saveInvestor investor => exact guard.elim
        | insertInvestor investor => exact guard.elim
        | _ => rfl
      have unchanged := (perform_investors choice op world).eq
      rw [noWrite] at unchanged
      refine holds.quiet unchanged ?_ (by simp)
      exact List.filterMap_eq_nil_iff.mpr fun call member => by
        rw [List.mem_singleton.mp member]
        exact noWrite
  | findReferred =>
      rw [findReferred_keeps]
      exact holds.quiet rfl rfl (by simp)
  | findVerified =>
      rw [findVerified_keeps]
      refine ⟨holds.investors, ?_, ?_⟩
      · rw [accountTrace_append, investorWrites_append, holds.noWrite]
        rfl
      · intro found member
        rcases List.mem_append.mp member with old | new
        · exact holds.given found old
        · have answered : (performJob choice .findVerified world).1 = .ok found := by
            simpa using (List.mem_singleton.mp new).symm
          intro investor listed
          rw [← holds.investors]
          exact findVerified_stored answered listed

/-! ## The law of every call -/

/-- The stored investors after some of the calls of a visit. -/
def storedIn (round : BackendRound) (past : JobTrace) : Collection ObjectID Investor :=
  storedAfter round.before (accountTrace past)

/-- The address belongs to a stored investor that is verified, or that the
callback making the call has just set to verified: if the call succeeds, the
investor is saved next. -/
def Entitled (visit : Visit) (stored : Collection ObjectID Investor) (address : String)
    (answer : Except Exception Unit) (later : JobTrace) : Prop :=
  ∃ id investor wallet, stored.lookup id = some investor ∧ investor.ethWallet = some wallet ∧
    wallet.address = address ∧
    (visit = .checkWhiteList ∧ investor.kycStatus = .verified ∨
      ∃ body, visit.CallsBack body ∧ body.Succeeded ∧
        (answer = .ok () → ∃ saved result rest,
          later = ⟨.account (.saveInvestor saved), result⟩ :: rest ∧ saved.id = id ∧
          saved.val.kycStatus = .verified))

structure KycLaw (app : App) (round : BackendRound) (past : JobTrace)
    (call : Call JobOp JobAns Exception) (later : JobTrace) : Prop where
  statuses : StatusLaw app round.request (accountTrace past) (storedIn round past)
    (storedIn round (past ++ [call]))
  whitelisted : ∀ address answer, call = ⟨.account (.addAddressToWhiteList address), answer⟩ →
    Entitled round.request (storedIn round past) address answer later

/-- Every call of a visit keeps the law, and the calls lead to what is stored at
its end. -/
structure Lawful (app : App) (round : BackendRound) : Prop where
  stored : round.after.investors = storedIn round round.trace
  calls : ∀ past call later, round.trace = past ++ call :: later → KycLaw app round past call later

theorem storedIn_accountCalls (round : BackendRound) (past : AccountTrace) :
    storedIn round (past.map accountCall) = storedAfter round.before past := by
  rw [storedIn, accountTrace_map]

theorem KycInvariant.start (arrival : Arrival) (before : World) :
    KycInvariant arrival before [] before where
  investors := rfl
  unsaved _ _ acts := nomatch acts
  status _ _ acts := nomatch acts

theorem request_lawful {round : BackendRound} {arrival : Arrival}
    (enabled : app.config.kycEnabled = true) (addressed : arrival.request.Addressed app)
    (asked : round.request = .request arrival) (ran : (backend app).Ran round) :
    Lawful app round := by
  rw [System.Ran, asked] at ran
  obtain ⟨calls, trace, executes⟩ := executes_asJob ran
  have met : (do return .inl (← handle app arrival.draws arrival.request) :
        Handler (Response ⊕ Bool)).Meets (KycGuard app arrival.request)
      (fun trace _ => ∀ body, arrival.request = .kycCallback body → SavesNext trace)
      (fun trace _ => ∀ body, arrival.request = .kycCallback body → SavesNext trace) [] := by
    simp only [meets_bind, meets_pure]
    exact handle_kyc enabled addressed
  have step : ∀ past op world choice, KycGuard app arrival.request past op →
      KycInvariant arrival round.before past world →
      KycInvariant arrival round.before (past ++ [⟨op, (perform choice op world).1⟩])
        (perform choice op world).2 :=
    fun _ _ _ _ guard holds => holds.step guard
  have start := KycInvariant.start arrival round.before
  have saves : ∀ body, arrival.request = .kycCallback body → SavesNext calls := by
    intro body own
    obtain ⟨returned, thrown⟩ := executes.meets met
    cases outcome : round.outcome with
    | ok value => exact returned value outcome body own
    | error error => exact thrown error outcome body own
  refine ⟨?_, ?_⟩
  · rw [trace, storedIn_accountCalls]
    exact (executes.invariant met step start).investors
  · intro past call later split
    rw [trace] at split
    obtain ⟨front, rest, parts, fronts, rests⟩ := List.map_eq_append_iff.mp split
    obtain ⟨⟨op, result⟩, others, made, calleds, tails⟩ := List.map_eq_cons_iff.mp rests
    subst fronts calleds tails
    rw [made] at parts
    obtain ⟨choice, world, holds, guard, answered⟩ := executes.called met step start parts
    simp only [List.nil_append] at holds guard answered
    refine ⟨?_, ?_⟩
    · have law := statusLaw_called choice guard holds
      rw [← answered] at law
      rw [asked, accountTrace_map, storedIn_accountCalls, ← List.map_singleton, ← List.map_append,
        storedIn_accountCalls]
      exact law
    · intro address answer same
      obtain rfl : op = .addAddressToWhiteList address :=
        JobOp.account.inj (congrArg Sigma.fst same)
      obtain rfl : result = answer := by simpa [accountCall] using same
      obtain ⟨body, query, user, wallet, own, succeeded, noWrite, acts, owned, addressEq⟩ := guard
      have stored := holds.unsaved query user acts noWrite
      rw [asked, storedIn_accountCalls, ← holds.investors]
      refine ⟨user.id, user.val, wallet, stored, owned, addressEq, .inr ⟨body, own, succeeded, ?_⟩⟩
      intro returned
      subst returned
      obtain ⟨query', user', saved, result, more, acts', next, sameId, verified⟩ :=
        saves body own front others address parts
      rw [acts] at acts'
      cases acts'
      exact ⟨saved, result, more.map accountCall, by rw [next]; rfl, sameId, verified⟩

theorem job_lawful {round : BackendRound} (asked : round.request = .checkWhiteList)
    (ran : (backend app).Ran round) : Lawful app round := by
  rw [System.Ran, asked] at ran
  have met : (do return .inr (← Web3Queue.checkWhiteList app) : Job (Response ⊕ Bool)).Meets
      JobGuard (fun _ _ => True) (fun _ _ => True) [] := by
    simp only [meets_bind, meets_pure]
    exact checkWhiteList_meets app
  have step : ∀ past op world choice, JobGuard past op → JobInvariant round.before past world →
      JobInvariant round.before (past ++ [⟨op, (performJob choice op world).1⟩])
        (performJob choice op world).2 :=
    fun _ _ _ _ guard holds => holds.step guard
  have start : JobInvariant round.before [] round.before :=
    ⟨rfl, rfl, fun _ member => absurd member List.not_mem_nil⟩
  have unwritten : ∀ past, investorWrites (accountTrace past) = [] →
      storedIn round past = round.before.investors := by
    intro past noWrite
    rw [storedIn, storedAfter, noWrite]
    rfl
  have ended := ran.invariant met step start
  refine ⟨?_, ?_⟩
  · rw [unwritten round.trace ended.noWrite]
    exact ended.investors
  · intro past call later split
    obtain ⟨op, result⟩ := call
    obtain ⟨choice, world, holds, guard, answered⟩ := ran.called met step start split
    obtain rfl : result = (performJob choice op world).1 := answered
    simp only [List.nil_append] at holds guard
    have kept : storedIn round (past ++ [⟨op, (performJob choice op world).1⟩]) =
        storedIn round past := by
      rw [unwritten past holds.noWrite]
      exact unwritten _ (step past op world choice guard holds).noWrite
    refine ⟨?_, ?_⟩
    · rw [kept]
      exact statusLaw_refl _ _ _
    · intro address answer same
      obtain rfl : op = .account (.addAddressToWhiteList address) := congrArg Sigma.fst same
      obtain ⟨investors, investor, given, member, owned⟩ := guard
      obtain ⟨stored, verified⟩ := holds.given investors given investor member
      obtain ⟨wallet, has, address'⟩ := Option.bind_eq_some_iff.mp owned
      split at address'
      · cases address'
      · rw [unwritten past holds.noWrite]
        exact ⟨investor.id, investor.val, wallet, stored, has, Option.some.inj address',
          .inl ⟨asked, verified⟩⟩

/-- A status that no call leaves is kept by the whole visit. -/
theorem Lawful.kept {round : BackendRound} (lawful : Lawful app round) {id : ObjectID}
    {status : KycStatus}
    (step : ∀ past call later, KycLaw app round past call later →
      statusOf (storedIn round past) id = some status →
      statusOf (storedIn round (past ++ [call])) id = some status)
    (start : statusOf round.before.investors id = some status) :
    statusOf round.after.investors id = some status := by
  have reached : ∀ past later, round.trace = past ++ later →
      statusOf (storedIn round past) id = some status := by
    intro past
    induction past using List.reverseRecOn with
    | nil => exact fun _ _ => start
    | append_singleton past call ih =>
        intro later split
        rw [List.append_assoc] at split
        exact step past call later (lawful.calls past call later split) (ih _ split)
  rw [lawful.stored]
  exact reached round.trace [] (List.append_nil _).symm

/-- In every run of requests and jobs, each to its end, every call keeps the law
of the statuses, and only verified investors are put on the whitelist.  So an
investor stays verified, and with Jumio failed, to the end of the run. -/
theorem kycStatuses_lawful (enabled : app.config.kycEnabled = true) {first last : World}
    {rounds : List BackendRound} (run : (backend app).InTurn first rounds last)
    (addressed : ∀ round ∈ rounds, ∀ arrival, round.request = .request arrival →
      arrival.request.Addressed app) :
    (∀ round ∈ rounds, Lawful app round) ∧
    ∀ id, (statusOf first.investors id = some .verified →
        statusOf last.investors id = some .verified) ∧
      (app.config.kycProvider = .jumio → statusOf first.investors id = some .failed →
        statusOf last.investors id = some .failed) := by
  have lawful : ∀ round ∈ rounds, Lawful app round := by
    intro round member
    have ran := run.ran member
    cases asked : round.request with
    | request arrival =>
        exact request_lawful enabled (addressed round member arrival asked) asked ran
    | checkWhiteList => exact job_lawful asked ran
  refine ⟨lawful, fun id => ⟨fun verified => ?_, fun jumio failed => ?_⟩⟩
  · have kept := @System.InTurn.invariant _ _ _ _ _ _ _ _ _ _ _
      (fun world => statusOf world.investors id = some .verified) run verified
      fun round member _ before => (lawful round member).kept
        (fun _ _ _ law => law.statuses.verified_kept id) before
    exact kept.1
  · have kept := @System.InTurn.invariant _ _ _ _ _ _ _ _ _ _ _
      (fun world => statusOf world.investors id = some .failed) run failed
      fun round member _ before => (lawful round member).kept
        (fun _ _ _ law => law.statuses.failed_kept jumio id) before
    exact kept.1

/-! ## An investor is verified and restored -/

def kycApp : App := { App.plain with config := { kycEnabled := true } }

/-- Ann signs up, activates her account and passes the scan; then the job does
not find her on the whitelist. -/
def annVisits : List (Visit × List Choice) :=
  [(.request { request := .create newcomer },
      List.replicate 5 { verificationId := "v1", code := "123456", id := 1 }),
    (.request { request := .activate { email := "ann@example.com", verificationId := "v1"
                                       code := "123456" }
                draws := { mnemonic := "pig", salt := "salt" } },
      List.replicate 9 { accessToken := "t1", id := 1 }),
    (.request { request := .kycCallback (.jumio
                  ⟨"000000000000000000000001", "SUCCESS", some (some true)⟩) },
      List.replicate 4 {}),
    (.checkWhiteList, List.replicate 4 { allowed := false })]

def annRounds : List BackendRound := ((backend kycApp).rounds {} annVisits).getD []

def annWorld : World := System.lastWorld {} annRounds

theorem annRounds_run : (backend kycApp).InTurn {} annRounds annWorld := by
  have ran : (backend kycApp).rounds {} annVisits = some annRounds := rfl
  exact System.inTurn_of_rounds ran

theorem annRounds_lawful : (∀ round ∈ annRounds, Lawful kycApp round) ∧
    statusOf annWorld.investors 1 = some .verified := by
  refine ⟨(kycStatuses_lawful rfl annRounds_run ?_).1, rfl⟩
  intro round member arrival asked body own
  have requests : annRounds.map Round.request = annVisits.map Prod.fst := rfl
  have listed : round.request ∈ annRounds.map Round.request := List.mem_map_of_mem member
  rw [requests, asked] at listed
  simp only [annVisits, List.map_cons, List.map_nil, List.mem_cons, Visit.request.injEq, reduceCtorEq,
    List.not_mem_nil, or_false] at listed
  rcases listed with rfl | rfl | rfl
  · cases own
  · cases own
  · cases own
    rfl

end IcoDashboard.Accounts
