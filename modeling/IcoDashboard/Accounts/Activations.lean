import Mathlib.Data.Fintype.EquivFin
import IcoDashboard.Accounts.Identity
import IcoDashboard.Accounts.Referrals
import IcoDashboard.Accounts.Wallets
import IcoDashboard.Async.Possibility

namespace IcoDashboard.Accounts

open IcoDashboard.Async IcoDashboard.Async.Program IcoDashboard.Data

/-! # Activations that are left

Whatever was interleaved or failed before, an investor that is not activated can
still be: it asks for another verification, and activates with the code.  The
only thing of another investor that this needs is the wallet of its referral,
which is there as long as no stale copy is saved over an activated investor.
-/

variable {app : App} {state : AccountState}

/-! ## Referrals -/

/-- What a sign-up inserts has its referral checked. -/
theorem inserted_checked (reached : (accounts app).Reachable (.idle {}) state)
    {past : List AccountEvent} {thread : Nat} {created : Investor} {answer : Except Exception ObjectID}
    (occurs : Occurs state.log past ⟨thread, ⟨.insertInvestor created, answer⟩⟩) :
    Checked app created.referral (localTrace thread past) := by
  obtain ⟨origin, choice, arrival, resume, before, rfl, awaiting, _, _⟩ :=
    reached.event_origin occurs
  obtain ⟨userData, _, _, own, _⟩ := guarded before awaiting
  have contract : ∀ arrival : Arrival, (handle app arrival.draws arrival.request).Meets
      (fun past op => (∃ userData, arrival.request = .create userData) → CreateGuard app past op)
      (fun _ _ => True) (fun _ _ => True) [] := by
    intro arrival
    by_cases signsUp : ∃ userData, arrival.request = .create userData
    · obtain ⟨userData, own⟩ := signsUp
      rw [own]
      simp only [handle, meets_bind, meets_pure]
      exact (create_checks userData arrival.draws).mono (fun _ _ checks _ => checks)
        (fun _ _ _ => trivial) fun _ _ _ => trivial
    · exact Meets.under fun _ _ _ own => absurd own signsUp
  exact (before.guarded contract awaiting).1 ⟨userData, own⟩

variable {actions : List (Action Choice Arrival)}

/-- While no stale copy is saved over an activated investor, the referral of a
sign-up stays stored, activated and with its wallet. -/
theorem referral_kept (fresh : (accounts app).Along SavesFresh (.idle {}) actions) {id : ObjectID}
    {identity : Identity}
    (introduced : Introduced Identity.of (after app actions).log id identity) {email : String}
    (refers : identity.referral = some email) (given : email ≠ "") :
    ∃ referral wallet,
      (after app actions).world.findInvestor (.email (app.toLowerCase email)) = some referral ∧
      referral.val.isVerified = true ∧ referral.val.ethWallet = some wallet := by
  have reached : (accounts app).Reachable (.idle {}) (after app actions) :=
    System.reachable_run _ actions
  obtain ⟨past, thread, created, occurs, same⟩ := introduced.signedUp reached
  have sameReferral : created.referral = some email := (congrArg Identity.referral same).trans refers
  obtain ⟨found, loaded, verified⟩ := (inserted_checked reached occurs).found email sameReferral given
  obtain ⟨early, loads⟩ := occurs_of_mem (mem_localTrace.mp loaded)
  have member := (occurs.trans loads).mem
  have settled : Settled (after app actions) := (run_settled .initial settled_idle fresh).1
  obtain ⟨now, lookup, verifiedNow, _⟩ := settled.loaded thread _ found member verified
  obtain ⟨wallet, has⟩ := activated_wallet reached lookup verifiedNow
  obtain ⟨stored, named⟩ := (storeInvariant reached).loaded thread _ found member
  have sameEmail : now.email = app.toLowerCase email := by
    rw [emailOf, lookup] at stored
    exact (Option.some.inj stored).trans (named _ rfl)
  rw [← sameEmail]
  exact ⟨⟨found.id, now⟩, wallet, (storeInvariant reached).findInvestor lookup, verifiedNow, has⟩

/-- While no stale copy is saved over an activated investor, a request that goes by
the referral of its user finds each investor that it looks up, activated and with
a wallet. -/
theorem referral_read (fresh : (accounts app).Along SavesFresh (.idle {}) actions) {thread : Nat}
    {arrival : Arrival} {query : InvestorQuery}
    {resume : Except Exception (Option (Doc ObjectID Investor)) → Handler Response}
    (awaiting : (after app actions).threads[thread]? =
      some ⟨arrival, .await (.findInvestor query) resume⟩)
    (dereferences : arrival.request.dereferences = true) {own : InvestorQuery}
    {user : Doc ObjectID Investor}
    (acts : acting (localTrace thread (after app actions).log) = some (own, user)) :
    ∃ referral wallet, (after app actions).world.findInvestor query = some referral ∧
      referral.val.isVerified = true ∧ referral.val.ethWallet = some wallet := by
  have reached : (accounts app).Reachable (.idle {}) (after app actions) :=
    System.reachable_run _ actions
  have contract : ∀ arrival : Arrival, (handle app arrival.draws arrival.request).Meets
      (fun past op => arrival.request.dereferences = true → LookupGuard app past op)
      (fun _ _ => True) (fun _ _ => True) [] := by
    intro arrival
    by_cases dereferences : arrival.request.dereferences = true
    · exact (dereferences_looksUp app arrival dereferences).mono (fun _ _ guarded _ => guarded)
        (fun _ _ _ => trivial) fun _ _ _ => trivial
    · exact Meets.under fun _ _ _ own => absurd own dereferences
  obtain ⟨_, email, refers, given, rfl⟩ :=
    (reached.guarded contract awaiting).1 dereferences own user acts
  have introduced :=
    (columnInvariant Identity.of reached).loaded thread own user (acting_loaded acts)
  exact referral_kept fresh introduced refers given

/-- Bob has signed up with the newcomer as his referral, and his activation is
about to look her up. -/
def bobLooksUp : List (Action Choice Arrival) :=
  signUp ++ activation 1 ++
    .start
      { request := .create
          { newcomer with email := "bob@example.com", referral := some "ann@example.com" } } ::
    List.replicate 6 (.resume 2 { verificationId := "v2", code := "222222", id := 2 }) ++
    .start
      { request := .activate { email := "bob@example.com", verificationId := "v2", code := "222222" }
        draws := { mnemonic := "cow", salt := "pepper" } } ::
    List.replicate 3 (.resume 3 {})

theorem bob_referral_read : ∃ referral wallet,
    (after .plain bobLooksUp).world.findInvestor (.email "ann@example.com") = some referral ∧
      referral.val.isVerified = true ∧ referral.val.ethWallet = some wallet := by
  have fresh : (accounts .plain).Along SavesFresh (.idle {}) bobLooksUp := by decide
  have awaiting : ∃ arrival resume, (after .plain bobLooksUp).threads[3]? =
      some ⟨arrival, .await (.findInvestor (.email "ann@example.com")) resume⟩ ∧
        arrival.request.dereferences = true :=
    ⟨_, _, by with_unfolding_all rfl, rfl⟩
  have acts : ∃ own user, acting (localTrace 3 (after .plain bobLooksUp).log) = some (own, user) :=
    ⟨_, _, by with_unfolding_all rfl⟩
  obtain ⟨arrival, resume, awaiting, dereferences⟩ := awaiting
  obtain ⟨own, user, acts⟩ := acts
  exact referral_read fresh awaiting dereferences acts

/-! ## Calls that may be answered -/

variable {world : World} {onFail : Exception → World → Prop}

theorem request_may (op : Op) {value : Ans op} {after : World} {onDone : Ans op → World → Prop}
    (choice : Choice) (answers : perform choice op world = (.ok value, after))
    (rest : onDone value after) : (request op).May perform onDone onFail world :=
  may_call choice answers rest

theorem getRenderedTemplate_may (name : String) (data : List (String × String))
    {onDone : String → World → Prop} (rest : onDone "" world) :
    (EmailTemplateService.getRenderedTemplate app name data).May perform onDone onFail world := by
  simp only [EmailTemplateService.getRenderedTemplate, may_tryCatch]
  exact request_may (.renderTemplate name data) {} rfl rest

theorem findInvestor_may {query : InvestorQuery} {found : Doc ObjectID Investor} {missing : Exception}
    (finds : world.findInvestor query = some found) {onDone : Doc ObjectID Investor → World → Prop}
    (rest : onDone found world) : (findInvestor query missing).May perform onDone onFail world := by
  simp only [findInvestor, may_bind]
  exact request_may (.findInvestor query) {} rfl (may_orThrow finds rest)

/-- A verification is validated with its code. -/
theorem check_may {verification : VerificationData} {verifier : Verifier}
    (found : world.findVerifier verification.method verification.verificationId = some verifier)
    (code : verification.code = verifier.code) (removeSecret : Option Bool)
    {onDone : ValidationResult → World → Prop}
    (rest : ∀ result, onDone result
      (world.removeVerifier verification.method verification.verificationId)) :
    (VerificationClient.checkVerificationPayloadAndCode app verification verifier.consumer
      verifier.payload removeSecret).May perform onDone onFail world := by
  simp only [VerificationClient.checkVerificationPayloadAndCode, VerificationClient.getVerification,
    VerificationClient.validateVerification, may_bind, may_tryCatch]
  have gets : perform {} (.getVerifier verification.method verification.verificationId) world =
      (.ok (World.Verifier.result {} verifier), world) := by
    simp [perform, answer, World.getVerifier, found]
  have validates : perform {} (.validate verification.method verification.verificationId
      { code := verification.code, removeSecret }) world =
        (.ok (World.Verifier.result {} verifier),
          world.removeVerifier verification.method verification.verificationId) := by
    simp [perform, answer, World.validate, found, code]
  refine request_may (.getVerifier _ _) {} gets (may_throwIf (by simp [World.Verifier.result]) ?_)
  exact request_may (.validate _ _ _) {} validates (rest _)

/-! ## Ids that are left -/

theorem exists_unused (used : List String) : ∃ text, text ∉ used := by
  obtain ⟨text, unused⟩ := Infinite.exists_notMem_finset used.toFinset
  exact ⟨text, by simpa using unused⟩

/-- There are document ids left. -/
structure Roomy (world : World) : Prop where
  token : ∃ id, world.tokens.lookup id = none
  results : ∃ first second, first ≠ second ∧ world.kycResults.lookup first = none ∧
    world.kycResults.lookup second = none

theorem insertKycResult_may {id : ObjectID} (unused : world.kycResults.lookup id = none)
    (result : ShuftiproKycResult) {onDone : ObjectID → World → Prop}
    (rest : ∀ kycResults, (∀ other, other ≠ id →
        kycResults.lookup other = world.kycResults.lookup other) →
      onDone id { world with kycResults }) :
    (request (.insertKycResult result)).May perform onDone onFail world := by
  obtain ⟨kycResults, inserted⟩ := Collection.exists_insert ⟨id, result⟩ unused
  have answers : perform { id } (.insertKycResult result) world = (.ok id, { world with kycResults }) := by
    simp [perform, answer, inserted]
  refine request_may (.insertKycResult result) { id } answers (rest kycResults fun other different => ?_)
  rw [Collection.lookup_insert inserted, if_neg different]

/-- The KYC provider takes the investor. -/
theorem kycInit_may (roomy : Roomy world) (user : Doc ObjectID Investor) (draws : Draws)
    {onDone : KycInitResult → World → Prop}
    (rest : ∀ result kycResults, onDone result { world with kycResults }) :
    (KycProvider.init app user draws).May perform onDone onFail world := by
  unfold KycProvider.init
  split
  · simp only [ShuftiproProvider.init]
    split
    · obtain ⟨first, second, different, unused, unused'⟩ := roomy.results
      simp only [ShuftiproProvider.localInitKycProcess, ShuftiproProvider.saveKycInitResult, may_bind,
        may_pure]
      refine insertKycResult_may unused _ fun kycResults others => ?_
      have signed : ∃ response : ShuftiproInitResult, response.error ≠ true ∧
          some (ShuftiproProvider.signature app (ShuftiproProvider.signedText response.statusCode
            response.message response.reference)) = response.signature :=
        ⟨{ signature := some (ShuftiproProvider.signature app
          (ShuftiproProvider.signedText none none none)) }, by simp, rfl⟩
      obtain ⟨response, accepted, signature⟩ := signed
      refine request_may (.shuftiproInit _) { shuftipro := response } rfl ?_
      refine may_throwIf (by simpa using accepted) (may_throwIf (by simpa using signature) ?_)
      refine insertKycResult_may (by rw [others second different.symm]; exact unused') _
        fun kycResults' _ => ?_
      exact rest _ kycResults'
    · exact rest _ world.kycResults
  · simp only [JumioProvider.init, may_bind]
    split
    · exact request_may (.jumioInit _) {} rfl (rest _ world.kycResults)
    · exact rest _ world.kycResults

theorem loginUser_may (token : String) (unused : ∀ entry ∈ world.issued, entry.1 ≠ token)
    (data : UserLoginData)
    {onDone : AccessTokenResponse → World → Prop}
    (rest : onDone ⟨token⟩ { world with issued := world.issued ++ [(token, data.login)] }) :
    (request (.loginUser data)).May perform onDone onFail world := by
  have free : world.issued.any (fun entry => entry.1 = token) = false := by
    simpa only [List.any_eq_false, decide_eq_true_eq] using unused
  have answers : perform { accessToken := token } (.loginUser data) world =
      (.ok ⟨token⟩, { world with issued := world.issued ++ [(token, data.login)] }) := by
    simp [perform, answer, World.loginUser, free]
  exact request_may (.loginUser data) { accessToken := token } answers rest

theorem insertToken_may (id : ObjectID) (unused : world.tokens.lookup id = none) (token : VerifiedToken)
    {onDone : ObjectID → World → Prop}
    (rest : ∀ tokens, tokens.lookup id = some token → onDone id { world with tokens }) :
    (request (.insertToken token)).May perform onDone onFail world := by
  obtain ⟨tokens, inserted⟩ := Collection.exists_insert ⟨id, token⟩ unused
  have answers : perform { id } (.insertToken token) world = (.ok id, { world with tokens }) := by
    simp [perform, answer, inserted]
  refine request_may (.insertToken token) { id } answers (rest tokens ?_)
  rw [Collection.lookup_insert inserted, if_pos rfl]

/-- The wallet of the referral is all that is needed of it. -/
theorem addReferral_may (address : String) {referral : Option String}
    (readable : ∀ email, referral = some email → email ≠ "" → ∃ found wallet,
      world.findInvestor (.email (app.toLowerCase email)) = some found ∧
        found.val.ethWallet = some wallet)
    {onDone : Unit → World → Prop} (rest : onDone () world) :
    (UserService.addReferral app address referral).May perform onDone onFail world := by
  cases referral with
  | none => exact rest
  | some email =>
      simp only [UserService.addReferral]
      split
      · exact rest
      · rename_i given
        obtain ⟨found, wallet, finds, has⟩ := readable email rfl given
        simp only [may_bind]
        have reads : ((world.findInvestor (.email (app.toLowerCase email))).bind
            fun referral => referral.val.ethWallet) = some wallet := by
          rw [finds, Option.bind_some, has]
        refine request_may (.findInvestor _) {} rfl (may_orThrow reads ?_)
        exact request_may (.addReferralOf _ _) {} rfl rest

theorem notifyActivation_may (user : Investor) (address : String) {onDone : Unit → World → Prop}
    (rest : onDone () world) :
    (UserService.notifyActivation app user address).May perform onDone onFail world := by
  simp only [UserService.notifyActivation, notify, may_bind]
  refine getRenderedTemplate_may _ _ ?_
  simp only [if_true, may_pure, UserService.sendTestFunds]
  split
  · split
    · exact ⟨{}, rest⟩
    · exact rest
  · exact rest

/-- The investor is stored as activated, with the wallet. -/
def Activated (world : World) (id : ObjectID) (wallet : Wallet) : Prop :=
  ∃ investor, world.investors.lookup id = some investor ∧ investor.isVerified = true ∧
    investor.ethWallet = some wallet

/-- Somebody holds a verified token for the login. -/
def LoggedIn (world : World) (token login : String) : Prop :=
  (token, login) ∈ world.issued ∧
    ∃ id, world.tokens.lookup id = some (VerifiedToken.createVerifiedToken token)

theorem storeActivation_may (id : ObjectID) (free : world.tokens.lookup id = none)
    {user : Doc ObjectID Investor} (wallet : Wallet)
    (there : ∃ stored, world.investors.lookup user.id = some stored)
    (verified : user.val.isVerified = true) (has : user.val.ethWallet = some wallet)
    {onDone : AccessTokenResponse → World → Prop}
    (rest : ∀ token after, Activated after user.id wallet → LoggedIn after token user.val.email →
      onDone ⟨token⟩ after) :
    (UserService.storeActivation user).May perform onDone onFail world := by
  simp only [UserService.storeActivation, may_bind, may_pure]
  obtain ⟨stored, lookup⟩ := there
  obtain ⟨token, unused⟩ := exists_unused (world.issued.map Prod.fst)
  have fresh : ∀ entry ∈ world.issued, entry.1 ≠ token := by
    rintro entry issued rfl
    exact unused (List.mem_map_of_mem issued)
  refine request_may (.saveInvestor user) {} rfl ?_
  refine loginUser_may token ?_ _ ?_
  · exact fresh
  refine insertToken_may id ?_ _ fun tokens found => ?_
  · exact free
  refine rest token _ ?_ ⟨by simp, id, found⟩
  · refine ⟨user.val, ?_, verified, has⟩
    change (world.investors.save Investor.write user).lookup user.id = _
    rw [Collection.lookup_save, if_pos rfl, lookup, Option.map_some]
    rfl

/-- An activation with an open code, of an investor whose referral can be read. -/
theorem activate_may (roomy : Roomy world) {id : ObjectID} {investor : Investor} {verifier : Verifier}
    (finds : world.findInvestor (.email (app.toLowerCase verifier.consumer)) = some ⟨id, investor⟩)
    (unverified : investor.isVerified = false)
    (found : world.findVerifier emailVerification verifier.id = some verifier)
    (payload : verifier.payload = UserService.scopePayload UserService.activateUserScope)
    (readable : ∀ email, investor.referral = some email → email ≠ "" → ∃ found wallet,
      world.findInvestor (.email (app.toLowerCase email)) = some found ∧
        found.val.ethWallet = some wallet) (draws : Draws) :
    (UserService.activate app
      { email := verifier.consumer, verificationId := verifier.id, code := verifier.code } draws).May
      perform (fun result after => Activated after id (activatedWallet app draws) ∧
        LoggedIn after result.accessToken investor.email) onFail world := by
  have lookup : world.investors.lookup id = some investor := (findInvestor_loaded finds).1
  simp only [UserService.activate, UserService.findUser, may_bind, may_pure]
  refine findInvestor_may finds (may_throwIf (by simp [unverified]) ?_)
  rw [← payload]
  obtain ⟨tokenId, free⟩ := roomy.token
  refine check_may found rfl none fun _ => addReferral_may _ ?_ ?_
  · exact readable
  refine kycInit_may ?_ _ draws fun result kycResults => ?_
  · exact ⟨roomy.token, roomy.results⟩
  refine storeActivation_may tokenId ?_ (activatedWallet app draws) ?_ ?_ ?_
    fun token after activated loggedIn => ?_
  · exact free
  · exact ⟨investor, lookup⟩
  · rfl
  · rfl
  exact notifyActivation_may _ _ ⟨activated, loggedIn⟩

/-- The verification that a resend opens. -/
def reopened (consumer id code : String) : Verifier where
  method := emailVerification
  id := id
  consumer := consumer
  payload := UserService.scopePayload UserService.activateUserScope
  code := code

/-- What a resend leaves. -/
structure Resent (before : World) (id : ObjectID) (investor : Investor) (opened : Verifier)
    (after : World) : Prop where
  verifiers : after.verifiers = before.verifiers ++ [opened]
  investors : ∃ verification, after.investors =
    before.investors.save Investor.write ⟨id, { investor with verification }⟩
  tokens : after.tokens = before.tokens
  kycResults : after.kycResults = before.kycResults

theorem resendVerification_may {id : ObjectID} {investor : Investor} {email verificationId : String}
    (finds : world.findInvestor (.email (app.toLowerCase email)) = some ⟨id, investor⟩)
    (unverified : investor.isVerified = false)
    (unused : ∀ verifier ∈ world.verifiers, verifier.id ≠ verificationId) (code : String) :
    (UserService.resendVerification app email).May perform (fun _ after =>
      Resent world id investor (reopened (app.toLowerCase email) verificationId code) after) onFail
      world := by
  have lookup : world.investors.lookup id = some investor := (findInvestor_loaded finds).1
  simp only [UserService.resendVerification, UserService.findUser,
    VerificationClient.resendVerification, may_bind, may_pure]
  refine findInvestor_may finds (may_throwIf (by simp [unverified]) ?_)
  refine getRenderedTemplate_may _ _ ?_
  have free : world.verifiers.any (fun verifier => verifier.id = verificationId) = false := by
    simpa only [List.any_eq_false, decide_eq_true_eq] using unused
  have opens : ∀ data, perform { verificationId, code } (.resend emailVerification data) world =
      (.ok { verificationId, method := emailVerification, attempts := 0, expiredOn := 0, code := some code },
        { world with verifiers := world.verifiers ++
            [{ method := emailVerification, id := verificationId, consumer := data.consumer
               payload := data.payload, code }] }) := by
    simp [perform, answer, World.initiate, free]
  refine request_may (.resend _ _) { verificationId, code } (opens _) ?_
  exact request_may (.saveInvestor _) {} rfl ⟨rfl, ⟨_, rfl⟩, rfl, rfl⟩

/-! ## No dead end -/

/-- The referral can be gone by: it is activated and has a wallet. -/
def Readable (app : App) (world : World) (referral : Option String) : Prop :=
  ∀ email, referral = some email → email ≠ "" → ∃ found wallet,
    world.findInvestor (.email (app.toLowerCase email)) = some found ∧
      found.val.isVerified = true ∧ found.val.ethWallet = some wallet

/-- A change of an investor that is not activated leaves the referral readable. -/
theorem Readable.kept (reached : (accounts app).Reachable (.idle {}) state) {before : World}
    {id : ObjectID} {investor : Investor} {referral : Option String}
    (readable : Readable app before referral) (stored : before.investors.lookup id = some investor)
    (unverified : investor.isVerified = false)
    (others : ∀ other, other ≠ id →
      state.world.investors.lookup other = before.investors.lookup other) :
    Readable app state.world referral := by
  intro email refers given
  obtain ⟨found, wallet, finds, verified, has⟩ := readable email refers given
  obtain ⟨lookup, named⟩ := findInvestor_loaded finds
  have different : found.id ≠ id := by
    intro same
    rw [same, stored] at lookup
    rw [Option.some.inj lookup, verified] at unverified
    cases unverified
  have still := (others found.id different).trans lookup
  refine ⟨found, wallet, ?_, verified, has⟩
  rw [← named _ rfl]
  exact (storeInvariant reached).findInvestor still

/-- The investor asks for another verification. -/
theorem resend_reaches (reached : (accounts app).Reachable (.idle {}) state) {id : ObjectID}
    {investor : Investor} (stored : state.world.investors.lookup id = some investor)
    (unverified : investor.isVerified = false) :
    ∃ later verificationId now, (accounts app).Reachable state later ∧
      later.world.findVerifier emailVerification verificationId =
        some (reopened investor.email verificationId "") ∧
      later.world.investors.lookup id = some now ∧ now.isVerified = false ∧
      now.email = investor.email ∧ now.referral = investor.referral ∧
      (∀ other, other ≠ id →
        later.world.investors.lookup other = state.world.investors.lookup other) ∧
      later.world.tokens = state.world.tokens ∧ later.world.kycResults = state.world.kycResults := by
  have lowered : app.toLowerCase investor.email = investor.email :=
    (storeInvariant reached).lowered id _ (by simp [emailOf, stored])
  have finds := (storeInvariant reached).findInvestor stored
  obtain ⟨verificationId, unused⟩ := exists_unused (state.world.verifiers.map Verifier.id)
  have fresh : ∀ verifier ∈ state.world.verifiers, verifier.id ≠ verificationId := by
    rintro verifier known rfl
    exact unused (List.mem_map_of_mem known)
  have may := @resendVerification_may app state.world (fun _ _ => False) id investor investor.email
    verificationId (by rw [lowered]; exact finds) unverified fresh ""
  rw [lowered] at may
  have handled : (handle app {} (.resendVerification investor.email)).May perform (fun _ after =>
      Resent state.world id investor (reopened investor.email verificationId "") after)
      (fun _ _ => False) state.world := by
    simp only [handle, may_bind, may_pure]
    exact may
  obtain ⟨later, _, onward, resent⟩ :=
    System.may_reach (accounts app) { request := .resendVerification investor.email } handled
  obtain ⟨verification, saved⟩ := resent.investors
  have stored' : later.world.investors.lookup id = some { investor with verification } := by
    rw [saved, Collection.lookup_save, if_pos rfl, stored]
    rfl
  have others : state.world.verifiers.find? (fun verifier =>
      verifier.method = emailVerification && verifier.id = verificationId && verifier.live) = none := by
    simp only [List.find?_eq_none]
    intro verifier known
    simp [fresh verifier known]
  refine ⟨later, verificationId, _, onward, ?_, stored', unverified, rfl, rfl,
    fun other different => ?_, resent.tokens, resent.kycResults⟩
  · rw [World.findVerifier, resent.verifiers, List.find?_append, others]
    simp [reopened]
  · rw [saved, Collection.lookup_save, if_neg different]

/-- It activates with the code of an open verification. -/
theorem activation_reaches (reached : (accounts app).Reachable (.idle {}) state)
    (roomy : Roomy state.world) {id : ObjectID} {investor : Investor}
    (stored : state.world.investors.lookup id = some investor)
    (unverified : investor.isVerified = false)
    (readable : Readable app state.world investor.referral) {verificationId code : String}
    (found : state.world.findVerifier emailVerification verificationId =
      some (reopened investor.email verificationId code)) (draws : Draws) :
    ∃ later token, (accounts app).Reachable state later ∧
      Activated later.world id (activatedWallet app draws) ∧
      LoggedIn later.world token investor.email := by
  have lowered : app.toLowerCase investor.email = investor.email :=
    (storeInvariant reached).lowered id _ (by simp [emailOf, stored])
  have finds : state.world.findInvestor (.email (app.toLowerCase investor.email)) =
      some ⟨id, investor⟩ := by
    rw [lowered]
    exact (storeInvariant reached).findInvestor stored
  have wallets : ∀ email, investor.referral = some email → email ≠ "" → ∃ found wallet,
      state.world.findInvestor (.email (app.toLowerCase email)) = some found ∧
        found.val.ethWallet = some wallet := by
    intro email refers given
    obtain ⟨found, wallet, finds, _, has⟩ := readable email refers given
    exact ⟨found, wallet, finds, has⟩
  have may := @activate_may app state.world (fun _ _ => False) roomy id investor
    (reopened investor.email verificationId code) finds unverified found rfl wallets draws
  have handled : (handle app draws (.activate { email := investor.email, verificationId, code })).May
      perform (fun _ after => ∃ token, Activated after id (activatedWallet app draws) ∧
        LoggedIn after token investor.email) (fun _ _ => False) state.world := by
    simp only [handle, may_bind, may_pure]
    exact may.mono fun result after ends => ⟨result.accessToken, ends⟩
  obtain ⟨later, _, onward, token, ends⟩ := System.may_reach (accounts app)
    { request := .activate { email := investor.email, verificationId, code }, draws } handled
  exact ⟨later, token, onward, ends⟩

/-- As long as no stale copy was saved over an activated investor, and whatever else
was interleaved or failed, an investor that is not activated can still be, with any
wallet: it asks for another verification, whose code activates it and logs it in. -/
theorem activation_left (fresh : (accounts app).Along SavesFresh (.idle {}) actions)
    (roomy : Roomy (after app actions).world) {id : ObjectID} {investor : Investor}
    (stored : (after app actions).world.investors.lookup id = some investor)
    (unverified : investor.isVerified = false) (draws : Draws) :
    ∃ later token, (accounts app).Reachable (after app actions) later ∧
      Activated later.world id (activatedWallet app draws) ∧
      LoggedIn later.world token investor.email := by
  have reached : (accounts app).Reachable (.idle {}) (after app actions) :=
    System.reachable_run _ actions
  have readable : Readable app (after app actions).world investor.referral :=
    fun email refers given =>
      referral_kept fresh ((columnInvariant Identity.of reached).stored id investor stored) refers given
  obtain ⟨middle, verificationId, now, onward, found, stored', unverified', sameEmail, sameReferral,
    others, tokens, results⟩ := resend_reaches reached stored unverified
  have roomy' : Roomy middle.world := ⟨tokens ▸ roomy.token, results ▸ roomy.results⟩
  have readable' := readable.kept (reached.trans onward) stored unverified others
  rw [← sameReferral] at readable'
  rw [← sameEmail] at found ⊢
  obtain ⟨later, token, further, ends⟩ :=
    activation_reaches (reached.trans onward) roomy' stored' unverified' readable' found draws
  exact ⟨later, token, onward.trans further, ends⟩

theorem newcomer_activation_left : ∃ later token,
    (accounts .plain).Reachable (after .plain signUp) later ∧
      Activated later.world 1 (activatedWallet .plain {}) ∧
      LoggedIn later.world token "ann@example.com" := by
  have fresh : (accounts .plain).Along SavesFresh (.idle {}) signUp := by decide
  have stored : (after .plain signUp).world.investors.lookup 1 =
      some (Investor.createInvestor .plain newcomer "secret" "v1") := rfl
  have roomy : Roomy (after .plain signUp).world := ⟨⟨0, rfl⟩, 0, 1, by decide, rfl, rfl⟩
  exact activation_left fresh roomy stored rfl {}

end IcoDashboard.Accounts
