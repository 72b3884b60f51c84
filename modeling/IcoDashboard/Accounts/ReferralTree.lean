import IcoDashboard.Accounts.Referrals
import IcoDashboard.Accounts.AuthRecords

namespace IcoDashboard.Accounts

open IcoDashboard.Async IcoDashboard.Async.Program IcoDashboard.Data

/-! # The tree of referrals

What the requests in turn keep: each referral names one investor, created
earlier, activated and with a wallet.
-/

variable {app : App}

def Established (investor : Investor) : Prop :=
  investor.isVerified = true ∧ ∃ wallet, investor.ethWallet = some wallet

/-- The investor has signed up with the other as its referral. -/
def Refers (app : App) (investors : Collection ObjectID Investor) (id referral : ObjectID) : Prop :=
  ∃ investor email stored, investors.lookup id = some investor ∧ investor.referral = some email ∧
    email ≠ "" ∧ investors.lookup referral = some stored ∧ stored.email = app.toLowerCase email

def ReferralsHeld (app : App) (investors : Collection ObjectID Investor) : Prop :=
  ∀ id investor email, investors.lookup id = some investor → investor.referral = some email →
    email ≠ "" → ∃ referral stored, investors.lookup referral = some stored ∧
      stored.email = app.toLowerCase email ∧ Established stored ∧
      investors.CreatedBefore referral id

/-! ## One request -/

def ownAndReferral (investor : Investor) : String × Option String :=
  (investor.email, investor.referral)

theorem Changes.ownAndReferral {draws : Draws} {loaded saved : Investor} {request : Request}
    (changes : Changes app draws loaded saved request) :
    Accounts.ownAndReferral saved = Accounts.ownAndReferral loaded := by
  unfold Changes at changes
  split at changes <;> grind [Accounts.ownAndReferral]

theorem Changes.established {draws : Draws} {loaded saved : Investor} {request : Request}
    (changes : Changes app draws loaded saved request) (established : Established loaded) :
    Established saved := by
  obtain ⟨verified, wallet, has⟩ := established
  rcases changes.wallet with ⟨sameVerified, sameWallet⟩ | ⟨unverified, _⟩
  · exact ⟨sameVerified.trans verified, wallet, sameWallet.trans has⟩
  · rw [verified] at unverified
    cases unverified

/-- While a request runs, the activated investors stay activated, and new investors
come after the others. -/
structure EstablishedKept (before : Collection ObjectID Investor) (past : AccountTrace)
    (world : World) : Prop where
  kept : ∀ id investor, before.lookup id = some investor → Established investor →
    ∃ now, world.investors.lookup id = some now ∧ Established now
  acts : ∀ query user, acting past = some (query, user) → ∀ investor,
    before.lookup user.id = some investor → Established investor → Established user.val
  grown : before.ids <+: world.investors.ids

theorem EstablishedKept.step {arrival : Arrival} {before : Collection ObjectID Investor}
    {past : AccountTrace} {world : World} (op : Op) (choice : Choice)
    (guard : Guard app arrival past op) (holds : EstablishedKept before past world) :
    EstablishedKept before (past ++ [⟨op, (perform choice op world).1⟩])
      (perform choice op world).2 := by
  have kept : (∀ id investor, before.lookup id = some investor → Established investor →
        ∃ now, (perform choice op world).2.investors.lookup id = some now ∧ Established now) ∧
      before.ids <+: (perform choice op world).2.investors.ids := by
    have effect := perform_investors choice op world
    generalize (perform choice op world).1 = result at effect
    generalize (perform choice op world).2.investors = after at effect ⊢
    cases effect with
    | kept => exact ⟨holds.kept, holds.grown⟩
    | saved saved =>
        obtain ⟨query, user, acts, sameId, changes⟩ := guard
        refine ⟨fun id investor found established => ?_, ?_⟩
        · obtain ⟨now, current, still⟩ := holds.kept id investor found established
          rw [Collection.lookup_save]
          by_cases own : id = saved.id
          · rw [if_pos own, current]
            have loaded := holds.acts query user acts investor (by rw [← sameId, ← own]; exact found)
              established
            exact ⟨_, rfl, changes.established loaded⟩
          · rw [if_neg own]
            exact ⟨now, current, still⟩
        · rw [Collection.ids_save]
          exact holds.grown
    | inserted investor new after unused inserted =>
        refine ⟨fun id former found established => ?_, ?_⟩
        · obtain ⟨now, current, still⟩ := holds.kept id former found established
          rw [Collection.lookup_insert inserted]
          have different : id ≠ new := by
            intro own
            have free := (Collection.insert_eq_some_iff.mp inserted).1
            rw [own, free] at current
            cases current
          rw [if_neg different]
          exact ⟨now, current, still⟩
        · rw [Collection.ids_insert inserted]
          exact holds.grown.trans (List.prefix_append _ _)
  refine ⟨kept.1, fun query user acts investor found established => ?_, kept.2⟩
  rcases acting_snoc acts with old | loaded
  · exact holds.acts query user old investor found established
  · obtain ⟨now, current, still⟩ := kept.1 user.id investor found established
    rw [loaded_stored loaded] at current
    cases current
    exact still

theorem establishedKept {round : AccountRound} (ran : (accounts app).Ran round) :
    EstablishedKept round.before.investors round.trace round.after := by
  have start : EstablishedKept round.before.investors [] round.before :=
    ⟨fun _ investor found established => ⟨investor, found, established⟩,
      fun _ _ acts => (nomatch acts), List.prefix_refl _⟩
  have kept := Executes.invariant ran (handle_meets app round.request)
    (fun past op world choice guard holds => EstablishedKept.step op choice guard holds) start
  rw [List.nil_append] at kept
  exact kept

/-! ## A sign-up -/

/-- While a sign-up runs, a new investor has the referral that was found. -/
structure SignUpInvariant (app : App) (before : World) (past : AccountTrace) (world : World) :
    Prop where
  unwritten : investorWrites past = [] → world.investors = before.investors
  loaded : investorWrites past = [] → ∀ email found,
    ⟨.findInvestor (.email email), .ok (some found)⟩ ∈ past →
      before.investors.lookup found.id = some found.val ∧ found.val.email = email
  new : ∀ id investor email, world.investors.lookup id = some investor →
    before.investors.lookup id = none → investor.referral = some email → email ≠ "" →
    ∃ referral stored, before.investors.lookup referral = some stored ∧
      stored.email = app.toLowerCase email ∧ stored.isVerified = true

theorem SignUpInvariant.start (before : World) : SignUpInvariant app before [] before where
  unwritten _ := rfl
  loaded _ _ _ member := nomatch member
  new id investor _ found absent := by
    rw [absent] at found
    cases found

theorem SignUpInvariant.step {before : World} {past : AccountTrace} {world : World} (op : Op)
    (choice : Choice) (guard : CreateGuard app past op)
    (holds : SignUpInvariant app before past world) :
    SignUpInvariant app before (past ++ [⟨op, (perform choice op world).1⟩])
      (perform choice op world).2 := by
  have effect := perform_investors choice op world
  have earlier : investorWrites (past ++ [⟨op, (perform choice op world).1⟩]) = [] →
      investorWrites past = [] ∧ investorWrite ⟨op, (perform choice op world).1⟩ = none := by
    intro noWrite
    rw [investorWrites_append, List.append_eq_nil_iff] at noWrite
    exact ⟨noWrite.1, by simpa using noWrite.2⟩
  have same : investorWrite ⟨op, (perform choice op world).1⟩ = none →
      (perform choice op world).2.investors = world.investors := by
    intro noWrite
    rw [effect.eq, noWrite]
    rfl
  apply SignUpInvariant.mk
  · intro noWrite
    obtain ⟨before, now⟩ := earlier noWrite
    exact (same now).trans (holds.unwritten before)
  · intro noWrite email found member
    obtain ⟨unsaved, now⟩ := earlier noWrite
    rcases List.mem_append.mp member with old | new
    · exact holds.loaded unsaved email found old
    · have called := (List.mem_singleton.mp new).symm
      have stored := loaded_stored called
      rw [same now, holds.unwritten unsaved] at stored
      obtain rfl : op = .findInvestor (.email email) := congrArg Sigma.fst called
      have answered : (perform choice (.findInvestor (.email email)) world).1 = .ok (some found) := by
        simpa using called
      exact ⟨stored, (findInvestor_loaded (findInvestor_answered answered)).2 email rfl⟩
  · generalize (perform choice op world).1 = result at effect
    generalize (perform choice op world).2.investors = after at effect
    cases effect with
    | kept => exact holds.new
    | saved => exact guard.elim
    | inserted investor new after unused inserted =>
        intro id stored email found absent refers given
        rw [Collection.lookup_insert inserted] at found
        split at found
        · cases found
          obtain ⟨referral, member, activated⟩ := guard.found email refers given
          obtain ⟨former, named⟩ := holds.loaded guard.noWrite _ referral member
          exact ⟨referral.id, referral.val, former, named, activated⟩
        · exact holds.new id stored email found absent refers given

/-- The referral of an investor that a request has created was stored activated. -/
theorem new_referral {round : AccountRound} (ran : (accounts app).Ran round) {id : ObjectID}
    {investor : Investor} {email : String} (found : round.after.investors.lookup id = some investor)
    (absent : round.before.investors.lookup id = none) (refers : investor.referral = some email)
    (given : email ≠ "") :
    ∃ referral stored, round.before.investors.lookup referral = some stored ∧
      stored.email = app.toLowerCase email ∧ stored.isVerified = true := by
  have view := viewKept ran fun _ _ _ changes => changes.ownAndReferral
  obtain ⟨_, ⟨userData, _, _, asked, _⟩, _⟩ := view.created id (ownAndReferral investor)
    (by rw [viewOf, absent]; rfl) (by rw [viewOf, found]; rfl)
  have checks : (handle app round.request.draws round.request.request).Meets (CreateGuard app)
      (fun _ _ => True) (fun _ _ => True) [] := by
    rw [asked]
    simp only [handle, meets_bind, meets_pure]
    exact create_checks userData round.request.draws
  have ended := Executes.invariant ran checks
    (fun past op world choice guard holds => SignUpInvariant.step op choice guard holds)
    (SignUpInvariant.start round.before)
  exact ended.new id investor email found absent refers given

/-! ## Runs -/

def ReachedWorld (app : App) (world : World) : Prop :=
  ∃ state, (accounts app).Reachable (.idle {}) state ∧ state.world = world

/-- An activated investor is still there after a request, and still activated. -/
theorem established_after {round : AccountRound} (ran : (accounts app).Ran round) {id : ObjectID}
    {stored : Investor} (found : round.before.investors.lookup id = some stored)
    (established : Established stored) :
    ∃ now, round.after.investors.lookup id = some now ∧ now.email = stored.email ∧
      Established now := by
  obtain ⟨now, current, still⟩ := (establishedKept ran).kept id stored found established
  have view := viewKept ran fun _ _ _ changes => changes.ownAndReferral
  have same := view.kept id (ownAndReferral stored) (by rw [viewOf, found]; rfl)
  rw [viewOf, current] at same
  exact ⟨now, current, congrArg Prod.fst (Option.some.inj same), still⟩

theorem held_round {round : AccountRound} (ran : (accounts app).Ran round)
    (reached : ReachedWorld app round.before) (held : ReferralsHeld app round.before.investors) :
    ReferralsHeld app round.after.investors := by
  intro id investor email found refers given
  have grown := (establishedKept ran).grown
  cases former : round.before.investors.lookup id with
  | some before =>
      have view := viewKept ran fun _ _ _ changes => changes.ownAndReferral
      have same := view.kept id (ownAndReferral before) (by rw [viewOf, former]; rfl)
      rw [viewOf, found] at same
      have referred : before.referral = some email :=
        (congrArg Prod.snd (Option.some.inj same)).symm.trans refers
      obtain ⟨referral, stored, lookup, named, established, earlier⟩ :=
        held id before email former referred given
      obtain ⟨now, current, sameEmail, still⟩ := established_after ran lookup established
      exact ⟨referral, now, current, sameEmail.trans named, still,
        (Collection.createdBefore_grown grown (Collection.mem_ids lookup)).1
          (Collection.mem_ids former) earlier⟩
  | none =>
      obtain ⟨referral, stored, lookup, named, activated⟩ := new_referral ran found former refers given
      obtain ⟨state, reachable, here⟩ := reached
      rw [← here] at lookup
      have established : Established stored :=
        ⟨activated, activated_wallet reachable lookup activated⟩
      rw [here] at lookup
      obtain ⟨now, current, sameEmail, still⟩ := established_after ran lookup established
      have new : id ∉ round.before.investors.ids := by
        intro listed
        obtain ⟨val, stored⟩ := Collection.lookup_of_mem_ids listed
        rw [former] at stored
        cases stored
      exact ⟨referral, now, current, sameEmail.trans named, still,
        (Collection.createdBefore_grown grown (Collection.mem_ids lookup)).2 new⟩

/-- Every referral names one investor, which was there before, is activated and has
a wallet. -/
structure ReferralTree (app : App) (investors : Collection ObjectID Investor) : Prop where
  one : ∀ id investor email, investors.lookup id = some investor → investor.referral = some email →
    email ≠ "" → ∃ referral stored, (∀ other, Refers app investors id other ↔ other = referral) ∧
      investors.lookup referral = some stored ∧ stored.email = app.toLowerCase email ∧
      investors.CreatedBefore referral id ∧ Established stored
  noSelf : ∀ id, ¬ Refers app investors id id
  acyclic : ∀ id, ¬ Relation.TransGen (Refers app investors) id id

theorem ReferralsHeld.tree {world : World} (held : ReferralsHeld app world.investors)
    (reached : ReachedWorld app world) : ReferralTree app world.investors := by
  obtain ⟨state, reachable, here⟩ := reached
  have unique := (storeInvariant reachable).unique
  rw [here] at unique
  have sole : ∀ first second left right, world.investors.lookup first = some left →
      world.investors.lookup second = some right → left.email = right.email → first = second := by
    intro first second left right foundFirst foundSecond same
    exact unique first second right.email (by rw [emailOf, foundFirst, Option.map_some, same])
      (by rw [emailOf, foundSecond]; rfl)
  have earlier : ∀ id other, Refers app world.investors id other →
      world.investors.CreatedBefore other id := by
    intro id other refers
    obtain ⟨investor, email, named, found, referral, given, stored, own⟩ := refers
    obtain ⟨target, held, lookup, same, _, before⟩ := held id investor email found referral given
    rw [sole other target named held stored lookup (own.trans same.symm)]
    exact before
  have acyclic := Collection.acyclic_of_createdBefore earlier
  refine ⟨?_, fun id refers => acyclic id (.single refers), acyclic⟩
  intro id investor email found referral given
  obtain ⟨target, stored, lookup, same, established, before⟩ :=
    held id investor email found referral given
  refine ⟨target, stored, fun other => ⟨fun refers => ?_, fun own => ?_⟩, lookup, same, before,
    established⟩
  · obtain ⟨investor', email', named, found', referral', _, there, own⟩ := refers
    rw [found] at found'
    cases found'
    rw [referral] at referral'
    cases referral'
    exact sole other target named stored there lookup (own.trans same.symm)
  · subst own
    exact ⟨investor, email, stored, found, referral, given, lookup, same⟩

/-- The wallet of the referral is there whenever the request reads it. -/
def ReadsWallet (round : AccountRound) : Prop :=
  round.request.request.dereferences = true → ∀ front later own user query found,
    round.trace = front ++ ⟨.findInvestor query, .ok found⟩ :: later →
    acting front = some (own, user) →
    ∃ wallet, found.bind (fun referral => referral.val.ethWallet) = some wallet

theorem readsWallet {round : AccountRound} (ran : (accounts app).Ran round)
    (reached : ReachedWorld app round.before) (held : ReferralsHeld app round.before.investors) :
    ReadsWallet round := by
  intro dereferences front later own user query found split acts
  have step : ∀ past op world choice, LookupGuard app past op →
      AloneInvariant round.before past world →
      AloneInvariant round.before (past ++ [⟨op, (perform choice op world).1⟩])
        (perform choice op world).2 := fun _ op _ choice _ alone => alone.step op choice
  obtain ⟨choice, world, alone, guard, answered⟩ := Executes.called ran
    (dereferences_looksUp app round.request dereferences) step (AloneInvariant.start round.before)
    split
  rw [List.nil_append] at alone guard
  obtain ⟨noWrite, email, refers, given, asked⟩ := guard own user acts
  have loaded := alone.unsaved own user acts noWrite
  have unchanged : world.investors = round.before.investors := by
    rw [alone.investors, storedAfter, noWrite]
    rfl
  rw [unchanged] at loaded
  obtain ⟨referral, stored, lookup, named, ⟨_, wallet, has⟩, _⟩ :=
    held user.id user.val email loaded refers given
  obtain ⟨state, reachable, here⟩ := reached
  rw [← here] at lookup unchanged
  have finds := (storeInvariant reachable).findInvestor lookup
  have same : world.findInvestor query = state.world.findInvestor query := by
    unfold World.findInvestor
    rw [unchanged]
  have answers := findInvestor_answered answered.symm
  rw [same, asked, ← named, finds] at answers
  exact ⟨wallet, by rw [← answers]; exact has⟩

/-- In every run of requests from an empty store, each run to its end, the referrals
form a tree of activated investors, and no request misses the wallet of one. -/
theorem referrals_tree {rounds : List AccountRound} {last : World}
    (run : (accounts app).InTurn {} rounds last) :
    ReferralTree app last.investors ∧ ∀ round ∈ rounds, ReadsWallet round := by
  have preserved : ∀ round ∈ rounds, (accounts app).Ran round →
      ReachedWorld app round.before ∧ ReferralsHeld app round.before.investors →
      ReachedWorld app round.after ∧ ReferralsHeld app round.after.investors := by
    intro round _ ran holds
    obtain ⟨state, reachable, here⟩ := holds.1
    obtain ⟨later, onward, ended⟩ := ran.reachable here
    exact ⟨⟨later, reachable.trans onward, ended⟩, held_round ran holds.1 holds.2⟩
  have start : ReachedWorld app {} ∧ ReferralsHeld app ({} : World).investors := by
    refine ⟨⟨_, .initial, rfl⟩, fun id investor email found => ?_⟩
    cases found
  have kept := @System.InTurn.invariant _ _ _ _ _ _ _ (accounts app) {} last rounds
    (fun world => ReachedWorld app world ∧ ReferralsHeld app world.investors) run start preserved
  refine ⟨kept.1.2.tree kept.1.1, fun round member => ?_⟩
  obtain ⟨ran, before, _⟩ := kept.2 round member
  exact readsWallet ran before.1 before.2

/-! ## A sign-up with a referral -/

def bob : UserData :=
  { newcomer with
    email := "bob@example.com", firstName := "Bob", referral := some "ann@example.com" }

/-- Ann signs up and is activated, and then Bob with her as his referral. -/
def bobRequests : List (Arrival × List Choice) :=
  annRequests.take 2 ++
  [({ request := .create bob },
      List.replicate 6 { verificationId := "v2", code := "222222", id := 2 }),
    ({ request := .activate
        { email := "bob@example.com", verificationId := "v2", code := "222222" }
       draws := { mnemonic := "cow", salt := "pepper" } },
      List.replicate 10 { accessToken := "t2", id := 2 })]

theorem bobRequests_tree : ∃ rounds last activation, (accounts .plain).InTurn {} rounds last ∧
    rounds.getLast? = some activation ∧ ReferralTree .plain last.investors ∧
    Refers .plain last.investors 2 1 ∧ ReadsWallet activation := by
  have run := @served_inTurn bobRequests rfl
  obtain ⟨tree, reads⟩ := referrals_tree run
  have refers : Refers .plain (System.lastWorld {} (servedRounds bobRequests)).investors 2 1 :=
    ⟨_, "ann@example.com", _, rfl, rfl, by decide, rfl, rfl⟩
  have ends : ∃ activation, (servedRounds bobRequests).getLast? = some activation := ⟨_, rfl⟩
  obtain ⟨activation, ends⟩ := ends
  exact ⟨_, _, activation, run, ends, tree, refers, reads activation (List.mem_of_getLast? ends)⟩

end IcoDashboard.Accounts
