import IcoDashboard.Accounts.Verifications

namespace IcoDashboard.Accounts

open IcoDashboard.Async IcoDashboard.Async.Program IcoDashboard.Data

/-! # Access tokens

Where a token comes from that lets a request through the middleware.
-/

variable {app : App} {state : AccountState}

/-! ## What a call does to the tokens -/

inductive TokenEffect (before : Collection ObjectID VerifiedToken) :
    Call Op Ans Exception → Collection ObjectID VerifiedToken → Prop where
  | kept (call : Call Op Ans Exception) : TokenEffect before call before
  | saved (token : Doc ObjectID VerifiedToken) :
      TokenEffect before ⟨.saveToken token, .ok ()⟩ (before.save VerifiedToken.write token)
  | inserted (token : VerifiedToken) (id : ObjectID) (after : Collection ObjectID VerifiedToken)
      (stored : before.insert ⟨id, token⟩ = some after) :
      TokenEffect before ⟨.insertToken token, .ok id⟩ after

theorem perform_tokens (choice : Choice) (op : Op) (world : World) :
    TokenEffect world.tokens ⟨op, (perform choice op world).1⟩ (perform choice op world).2.tokens := by
  by_cases own : op.part = some .tokens
  · unfold perform
    cases choice.rejects with
    | some error => exact .kept _
    | none =>
        cases op with
        | saveToken token => exact .saved token
        | insertToken token =>
            simp only [answer]
            split
            · rename_i after stored
              exact .inserted token _ after stored
            · exact .kept _
        | _ => cases own
  · rw [(perform_frame choice op world).tokens own]
    exact .kept _

inductive IssueEffect (before : List (String × String)) :
    Call Op Ans Exception → List (String × String) → Prop where
  | kept (call : Call Op Ans Exception)
      (noLogin : ∀ data result, call ≠ ⟨.loginUser data, .ok result⟩) : IssueEffect before call before
  | issued (data : UserLoginData) (token : String) (fresh : token ∉ before.map Prod.fst) :
      IssueEffect before ⟨.loginUser data, .ok ⟨token⟩⟩ (before ++ [(token, data.login)])

theorem perform_issued (choice : Choice) (op : Op) (world : World) :
    IssueEffect world.issued ⟨op, (perform choice op world).1⟩ (perform choice op world).2.issued := by
  by_cases own : op.part = some .issued
  · unfold perform
    cases choice.rejects with
    | some error => exact .kept _ fun _ _ => rejected_ne_answered
    | none =>
        cases op with
        | loginUser data =>
            simp only [answer, World.loginUser]
            split
            · exact .kept _ (by simp)
            · rename_i unused
              exact .issued data _ (by simpa using unused)
        | _ => cases own
  · rw [(perform_frame choice op world).issued own]
    refine .kept _ fun data result same => own ?_
    cases congrArg Sigma.fst same
    rfl

/-! ## The issued tokens -/

structure IssueInvariant (world : World) (log : List AccountEvent) : Prop where
  distinct : (world.issued.map Prod.fst).Nodup
  listed : ∀ thread data token, ⟨thread, ⟨.loginUser data, .ok ⟨token⟩⟩⟩ ∈ log →
    (token, data.login) ∈ world.issued
  shown : ∀ thread token login, ⟨thread, ⟨.verifyUserToken token, .ok login⟩⟩ ∈ log →
    (token, login) ∈ world.issued

theorem verifyUserToken_answered {choice : Choice} {world : World} {token login : String}
    (answered : (perform choice (.verifyUserToken token) world).1 = .ok login) :
    (token, login) ∈ (perform choice (.verifyUserToken token) world).2.issued := by
  have answers := perform_eq_ok answered
  rw [answers] at answered ⊢
  simp only [answer, World.verifyUserToken] at answered
  split at answered
  · rename_i entry found
    cases answered
    have own : entry.1 = token := by simpa using List.find?_some found
    rw [← own]
    exact List.mem_of_find?_eq_some found
  · cases answered

theorem IssueEffect.grows {before after : List (String × String)} {call : Call Op Ans Exception}
    (effect : IssueEffect before call after) {entry : String × String} (listed : entry ∈ before) :
    entry ∈ after := by
  cases effect with
  | kept => exact listed
  | issued => exact List.mem_append_left _ listed

theorem IssueInvariant.step {world : World} {log : List AccountEvent} {thread : Nat} {op : Op}
    {choice : Choice} (invariant : IssueInvariant world log) :
    IssueInvariant (perform choice op world).2
      (log ++ [⟨thread, ⟨op, (perform choice op world).1⟩⟩]) := by
  have effect := perform_issued choice op world
  refine ⟨?_, ?_, ?_⟩
  · have distinct := invariant.distinct
    generalize (perform choice op world).1 = result at effect
    generalize (perform choice op world).2.issued = after at effect ⊢
    cases effect with
    | kept => exact distinct
    | issued data token fresh =>
        rw [List.map_append, List.map_singleton, ← List.concat_eq_append]
        exact distinct.concat fresh
  · intro other data token member
    rcases mem_performed.mp member with old | ⟨_, rfl, answered⟩
    · exact effect.grows (invariant.listed other data token old)
    · rw [answered] at effect
      generalize (perform choice (.loginUser data) world).2.issued = after at effect ⊢
      cases effect with
      | kept _ noLogin => exact absurd rfl (noLogin data ⟨token⟩)
      | issued => exact List.mem_append_right _ List.mem_cons_self
  · intro other token login member
    rcases mem_performed.mp member with old | ⟨_, rfl, answered⟩
    · exact effect.grows (invariant.shown other token login old)
    · exact verifyUserToken_answered answered

theorem issueInvariant (reached : (accounts app).Reachable (.idle {}) state) :
    IssueInvariant state.world state.log := by
  have start : IssueInvariant {} [] := ⟨List.nodup_nil, by simp, by simp⟩
  exact account_calls start (fun _ _ _ _ _ _ _ _ invariant => invariant.step) reached

/-- A token shows the login it was issued for. -/
theorem IssueInvariant.login {world : World} {log : List AccountEvent}
    (invariant : IssueInvariant world log) {thread other : Nat} {data : UserLoginData}
    {token login : String} (issued : ⟨thread, ⟨.loginUser data, .ok ⟨token⟩⟩⟩ ∈ log)
    (shown : ⟨other, ⟨.verifyUserToken token, .ok login⟩⟩ ∈ log) : login = data.login := by
  have same := List.inj_on_of_nodup_map invariant.distinct
    (invariant.listed thread data token issued) (invariant.shown other token login shown) rfl
  exact (congrArg Prod.snd same).symm

/-! ## The stored tokens -/

/-- The token was verified after it was stored. -/
def VerifiedLater (log : List AccountEvent) (thread : Nat) (inserted : VerifiedToken)
    (id : ObjectID) : Prop :=
  ∃ past verifier saved, Occurs log past ⟨verifier, ⟨.saveToken saved, .ok ()⟩⟩ ∧
    ⟨thread, ⟨.insertToken inserted, .ok id⟩⟩ ∈ past ∧ saved.val.token = inserted.token ∧
    saved.val.verification = inserted.verification

/-- The document was inserted as it is, and may have been verified since. -/
def TokenHistory (log : List AccountEvent) (doc : Doc ObjectID VerifiedToken) : Prop :=
  ∃ past thread inserted, Occurs log past ⟨thread, ⟨.insertToken inserted, .ok doc.id⟩⟩ ∧
    inserted.token = doc.val.token ∧ inserted.verification = doc.val.verification ∧
    (doc.val.verified = true → inserted.verified = true ∨ VerifiedLater log thread inserted doc.id)

theorem TokenHistory.append {log : List AccountEvent} {doc : Doc ObjectID VerifiedToken}
    (history : TokenHistory log doc) (event : AccountEvent) : TokenHistory (log ++ [event]) doc := by
  obtain ⟨past, thread, inserted, occurs, token, verification, verified⟩ := history
  refine ⟨past, thread, inserted, occurs_append.mpr (.inl occurs), token, verification, ?_⟩
  intro isVerified
  rcases verified isVerified with already | ⟨later, verifier, saved, saves, rest⟩
  · exact .inl already
  · exact .inr ⟨later, verifier, saved, occurs_append.mpr (.inl saves), rest⟩

structure TokenInvariant (world : World) (log : List AccountEvent) : Prop where
  stored : ∀ doc ∈ world.tokens.docs, TokenHistory log doc
  loaded : ∀ thread query doc, ⟨thread, ⟨.findToken query, .ok (some doc)⟩⟩ ∈ log →
    TokenHistory log doc ∧ query = some doc.val.token

theorem findToken_answered {choice : Choice} {world : World} {query : Option String}
    {doc : Doc ObjectID VerifiedToken}
    (answered : (perform choice (.findToken query) world).1 = .ok (some doc)) :
    doc ∈ world.tokens.docs ∧ query = some doc.val.token := by
  rw [perform_eq_ok answered] at answered
  have found : world.tokens.findOne (fun stored => some stored.token = query) = some doc :=
    Except.ok.inj answered
  have matching := Collection.matching_of_findOne found
  exact ⟨List.mem_of_find?_eq_some found, (of_decide_eq_true matching).symm⟩

/-- A token that is saved is one that was loaded, now verified. -/
theorem TokenInvariant.saved {world : World} {log : List AccountEvent} {thread : Nat}
    {arrival : Arrival} (invariant : TokenInvariant world log) {token : Doc ObjectID VerifiedToken}
    (guard : GuardSaveToken arrival.request (localTrace thread log) token) :
    TokenHistory (log ++ [⟨thread, ⟨.saveToken token, .ok ()⟩⟩]) token := by
  obtain ⟨inputData, input, loaded, _, _, member, same, _, _, _⟩ := guard
  subst same
  obtain ⟨past, inserter, inserted, occurs, sameToken, sameVerification, _⟩ :=
    (invariant.loaded _ _ _ (mem_localTrace.mp member)).1
  refine ⟨past, inserter, inserted, occurs_append.mpr (.inl occurs), sameToken, sameVerification,
    fun _ => .inr ?_⟩
  exact ⟨log, thread, _, occurs_append.mpr (.inr ⟨rfl, rfl⟩), occurs.mem, sameToken.symm,
    sameVerification.symm⟩

theorem TokenInvariant.step {world : World} {log : List AccountEvent} {thread : Nat}
    {arrival : Arrival} {op : Op} {choice : Choice} (invariant : TokenInvariant world log)
    (guard : Guard app arrival (localTrace thread log) op) :
    TokenInvariant (perform choice op world).2
      (log ++ [⟨thread, ⟨op, (perform choice op world).1⟩⟩]) := by
  refine ⟨?_, ?_⟩
  · have effect := perform_tokens choice op world
    generalize (perform choice op world).1 = result at effect ⊢
    generalize (perform choice op world).2.tokens = after at effect ⊢
    intro doc member
    cases effect with
    | kept => exact (invariant.stored doc member).append _
    | saved token =>
        obtain ⟨stored, was, rfl⟩ := List.mem_map.mp member
        split
        · rename_i own
          rw [own]
          exact invariant.saved guard
        · exact (invariant.stored stored was).append _
    | inserted token id after inserted =>
        obtain ⟨_, docs⟩ := Collection.insert_eq_some_iff.mp inserted
        rw [docs] at member
        rcases List.mem_append.mp member with old | new
        · exact (invariant.stored doc old).append _
        · rw [List.mem_singleton.mp new]
          exact ⟨log, thread, token, occurs_append.mpr (.inr ⟨rfl, rfl⟩), rfl, rfl, .inl⟩
  · intro other query doc member
    rcases mem_performed.mp member with old | ⟨_, rfl, answered⟩
    · obtain ⟨history, own⟩ := invariant.loaded other query doc old
      exact ⟨history.append _, own⟩
    · obtain ⟨stored, own⟩ := findToken_answered answered
      exact ⟨(invariant.stored doc stored).append _, own⟩

theorem tokenInvariant (reached : (accounts app).Reachable (.idle {}) state) :
    TokenInvariant state.world state.log := by
  have start : TokenInvariant {} [] := ⟨by simp [Collection.empty], by simp⟩
  exact account_calls start (fun _ _ _ _ _ _ _ guard invariant => invariant.step guard) reached

/-! ## Where tokens come from -/

/-- The calls after which the middleware lets the user through. -/
def Authenticated (trace : AccountTrace) (query : Option String) (user : Doc ObjectID Investor) :
    Prop :=
  ∃ (token : Doc ObjectID VerifiedToken) (login : String),
    ⟨.findToken query, .ok (some token)⟩ ∈ trace ∧ token.val.verified = true ∧
    ⟨.verifyUserToken token.val.token, .ok login⟩ ∈ trace ∧
    ⟨.findInvestor (.email login), .ok (some user)⟩ ∈ trace

theorem authenticateToken_next (query : Option String) :
    (authenticateToken query).Meets (fun _ _ => True)
      (fun trace result => ∀ user, result = .next user → Authenticated trace query user)
      (fun _ _ => True) [] := by
  simp only [authenticateToken, request, call, meets_bind, meets_await, meets_done, meets_fail,
    implies_true, and_true, true_and]
  intro found
  split
  · rename_i token
    simp only [meets_ite, meets_pure, loadUser, request, call, meets_bind, meets_await, meets_done,
      meets_fail, meets_tryCatch, reduceCtorEq, IsEmpty.forall_iff, implies_true, and_true, true_and]
    intro verified login answer
    split
    · intro user same
      cases same
      exact ⟨token, login, by simp, verified, by simp, by simp⟩
    · intro user same
      cases same
  · intro user same
    cases same

theorem authenticate_next {authorization : Option String} {trace : AccountTrace}
    {user : Doc ObjectID Investor}
    (followed : (authenticate authorization).Follows trace (.done (.next user))) :
    ∃ query, bearerToken authorization = some query ∧ Authenticated trace query user := by
  unfold authenticate at followed
  split at followed
  · cases followed
  · rename_i query given
    have next := (authenticateToken_next query).follow followed
    exact ⟨query, given, next user rfl⟩

/-- The thread validated a code that a request of the user had initiated for the
purpose. -/
def CodeValidated (app : App) (state : AccountState) (past : List AccountEvent) (thread : Nat)
    (purpose : Purpose) (email method id : String) : Prop :=
  past <+: state.log ∧
  ∃ before input result, Occurs past before ⟨thread, ⟨.validate method id input, .ok result⟩⟩ ∧
    ActsTo app state before thread Request.completes purpose email ∧
    Initiated app state before purpose email method id

/-- The thread logged its user in and was given the token. -/
structure Login (state : AccountState) (past : List AccountEvent) (thread : Nat)
    (arrival : Arrival) (owner : Doc ObjectID Investor) (token email : String) : Prop where
  issued : ∃ data, data.login = email ∧
    Occurs state.log past ⟨thread, ⟨.loginUser data, .ok ⟨token⟩⟩⟩
  serving : Serving state thread arrival
  acts : ∃ query, acting (localTrace thread past) = some (query, owner)
  own : owner.val.email = email

/-- A login stored the token with a verification, and a later `verifyLogin` for
the token validated this verification. -/
def LoginVerified (app : App) (state : AccountState) (thread : Nat) (token email : String) : Prop :=
  ∃ method data result inserted id past verifier arrival inputData,
    ⟨thread, ⟨.initiate method data, .ok result⟩⟩ ∈ state.log ∧
    ⟨thread, ⟨.insertToken inserted, .ok id⟩⟩ ∈ past ∧ inserted.token = token ∧
    inserted.verification.map Verification.id = some result.verificationId ∧
    Serving state verifier arrival ∧ arrival.request = .verifyLogin inputData ∧
    inputData.accessToken = token ∧
    CodeValidated app state past verifier .login email method result.verificationId

/-- The three ways to a token of the user. -/
inductive IssuedTo (app : App) (state : AccountState) (token email : String) : Prop where
  | activation {past : List AccountEvent} {thread : Nat} {arrival : Arrival}
      {owner : Doc ObjectID Investor} {activationData : ActivationUserData}
      (login : Login state past thread arrival owner token email)
      (request : arrival.request = .activate activationData)
      (code : CodeValidated app state past thread .activate email emailVerification
        activationData.verificationId)
  | passwordChange {past : List AccountEvent} {thread : Nat} {arrival : Arrival}
      {owner : Doc ObjectID Investor} {authorization : Option String}
      {params : ChangePasswordInput} {verification : VerificationData}
      (login : Login state past thread arrival owner token email)
      (request : arrival.request = .user authorization (.verifyChangePassword params))
      (password : app.compareSync params.oldPassword owner.val.passwordHash = some true)
      (given : params.verification = some verification)
      (code : CodeValidated app state past thread .changePassword email verification.method
        verification.verificationId)
  | login {past : List AccountEvent} {thread : Nat} {arrival : Arrival}
      {owner : Doc ObjectID Investor} {address password ip : String}
      (login : Login state past thread arrival owner token email)
      (request : arrival.request = .initiateLogin address password ip)
      (activated : owner.val.isVerified = true)
      (password : app.compareSync password owner.val.passwordHash = some true)
      (verified : LoginVerified app state thread token email)

theorem acting_unique {log first second : List AccountEvent} {event event' : AccountEvent}
    {thread : Nat} {left right : InvestorQuery × Doc ObjectID Investor}
    (occurs : Occurs log first event) (occurs' : Occurs log second event')
    (acts : acting (localTrace thread first) = some left)
    (acts' : acting (localTrace thread second) = some right) : left = right := by
  have last := acting_extended (occurs.localTrace_extends thread) acts
  have last' := acting_extended (occurs'.localTrace_extends thread) acts'
  exact Option.some.inj (last.symm.trans last')

/-- What a request has validated, its user had a code for. -/
theorem validated_code (reached : (accounts app).Reachable (.idle {}) state)
    {past : List AccountEvent} {event : AccountEvent} (occurs : Occurs state.log past event)
    {thread : Nat} {arrival : Arrival} (serving : Serving state thread arrival) {purpose : Purpose}
    (completes : arrival.request.completes = some purpose) {method id : String}
    (validated : Validated (localTrace thread past) method id) :
    ∃ email, CodeValidated app state past thread purpose email method id := by
  obtain ⟨input, result, member⟩ := validated
  obtain ⟨before, earlier⟩ := occurs_of_mem (mem_localTrace.mp member)
  obtain ⟨found, email, completing, initiated⟩ := validated_initiated reached (occurs.trans earlier)
  have completed := completing
  obtain ⟨arrival', serving', completes', _⟩ := completing
  obtain rfl := serving.unique serving'
  obtain rfl : found = purpose := Option.some.inj (completes'.symm.trans completes)
  exact ⟨email, occurs.early, before, input, result, earlier, completed, initiated⟩

theorem codeValidated (reached : (accounts app).Reachable (.idle {}) state)
    {past : List AccountEvent} {event : AccountEvent} (occurs : Occurs state.log past event)
    {thread : Nat} {arrival : Arrival} (serving : Serving state thread arrival) {purpose : Purpose}
    (completes : arrival.request.completes = some purpose) {query : InvestorQuery}
    {owner : Doc ObjectID Investor}
    (acts : acting (localTrace thread past) = some (query, owner)) {method id : String}
    (validated : Validated (localTrace thread past) method id) :
    CodeValidated app state past thread purpose owner.val.email method id := by
  obtain ⟨email, code⟩ := validated_code reached occurs serving completes validated
  have found := code
  obtain ⟨_, before, input, result, earlier, ⟨arrival', serving', _, actsAs⟩, _⟩ := code
  obtain rfl := serving.unique serving'
  have sameEmail : email = owner.val.email := by
    cases request : arrival.request with
    | create userData => rw [request] at completes; cases completes
    | _ =>
        rw [request] at actsAs
        obtain ⟨query', owner', acts', same⟩ := actsAs
        cases acting_unique occurs (occurs.trans earlier) acts acts'
        exact same
  rw [← sameEmail]
  exact found

/-- The consumer of an initiated verification is the user of the thread. -/
theorem initiated_consumer (reached : (accounts app).Reachable (.idle {}) state)
    {past : List AccountEvent} {event : AccountEvent} (occurs : Occurs state.log past event)
    {thread : Nat} {arrival : Arrival} (serving : Serving state thread arrival)
    {address password ip : String} (request : arrival.request = .initiateLogin address password ip)
    {query : InvestorQuery} {owner : Doc ObjectID Investor}
    (acts : acting (localTrace thread past) = some (query, owner)) {method : String}
    {data : InitiateData} {answer : Except Exception InitiateResult}
    (initiated : ⟨.initiate method data, answer⟩ ∈ localTrace thread past) :
    app.toLowerCase data.consumer = owner.val.email := by
  obtain ⟨before, earlier⟩ := occurs_of_mem (mem_localTrace.mp initiated)
  obtain ⟨origin, arrival', _, reachedOrigin, _, rfl, serving', guard, _⟩ :=
    event_guarded reached (occurs.trans earlier)
  obtain rfl := serving.unique serving'
  obtain ⟨purpose, _, _, actsFor⟩ := guard
  rw [request] at actsFor
  obtain ⟨query', owner', acts', own⟩ := actsFor
  cases acting_unique occurs (occurs.trans earlier) acts acts'
  exact (storeInvariant reachedOrigin).consumer acts' own

/-- A token that `initiateLogin` stored becomes verified with its own code only. -/
theorem login_verified (reached : (accounts app).Reachable (.idle {}) state)
    {past : List AccountEvent} {thread : Nat} {inserted : VerifiedToken} {id : ObjectID}
    (occurs : Occurs state.log past ⟨thread, ⟨.insertToken inserted, .ok id⟩⟩)
    {arrival : Arrival} (serving : Serving state thread arrival) {address password ip : String}
    (request : arrival.request = .initiateLogin address password ip) {query : InvestorQuery}
    {owner : Doc ObjectID Investor}
    (acts : acting (localTrace thread past) = some (query, owner))
    (guard : GuardInsertToken arrival.request (localTrace thread past) inserted)
    (later : VerifiedLater state.log thread inserted id) :
    LoginVerified app state thread inserted.token owner.val.email := by
  rw [request] at guard
  obtain ⟨_, _, method, data, result, initiated, verificationId⟩ := guard
  obtain ⟨past', verifier, saved, saves, insertedBefore, sameToken, sameVerification⟩ := later
  obtain ⟨origin, verifying, _, before, _, rfl, servingVerifier, guardSave, _⟩ :=
    event_guarded reached saves
  obtain ⟨inputData, input, loaded, request', given, found, same, _, inputId, validated⟩ := guardSave
  have completes : verifying.request.completes = some .login := by rw [request']; rfl
  obtain ⟨email, code⟩ := validated_code reached saves servingVerifier completes validated
  have tokenLoaded := ((tokenInvariant before).loaded _ _ _ (mem_localTrace.mp found)).2
  have initiatedFor := initiated_consumer reached occurs serving request acts initiated
  subst same
  have sameId : input.id = result.verificationId := by
    have ids := congrArg (Option.map Verification.id) sameVerification
    rw [verificationId] at ids
    exact Option.some.inj (inputId.symm.trans ids)
  have ownCode := code
  obtain ⟨_, _, _, _, validation, _, _, _, call, opened, opening, opens, matching, _, consumer, _⟩ := code
  have opensOwn : Opens ⟨.initiate method data, .ok result⟩
      { method, id := result.verificationId, consumer := data.consumer, payload := data.payload
        code := "" } := ⟨data, result, .inl rfl, rfl, rfl, rfl⟩
  -- ids are fresh, so the validated verification is the one the login initiated
  have same := opens_unique reached ((saves.trans validation).trans opening).mem opens
    (occurs.localTrace_extends thread |>.subset initiated |> mem_localTrace.mp) opensOwn
    (matching.2.trans sameId)
  have sameMethod : input.method = method := matching.1.symm.trans same.1.1
  have sameEmail : email = owner.val.email := by
    rw [← consumer, same.2.1]
    exact initiatedFor
  rw [sameMethod, sameId, sameEmail] at ownCode
  exact ⟨method, data, result, inserted, id, origin.log, verifier, verifying, inputData,
    (occurs.localTrace_extends thread |>.subset initiated |> mem_localTrace.mp), insertedBefore, rfl,
    verificationId, servingVerifier, request', (Option.some.inj tokenLoaded).trans sameToken, ownCode⟩

/-- A verified token was issued in one of the three ways to the user it was
issued for. -/
theorem TokenHistory.issued (reached : (accounts app).Reachable (.idle {}) state)
    {token : Doc ObjectID VerifiedToken} (history : TokenHistory state.log token)
    (verified : token.val.verified = true) :
    ∃ thread data, ⟨thread, ⟨.loginUser data, .ok ⟨token.val.token⟩⟩⟩ ∈ state.log ∧
      IssuedTo app state token.val.token data.login := by
  obtain ⟨past, thread, inserted, occurs, sameToken, _, sinceVerified⟩ := history
  obtain ⟨origin, arrival, _, _, _, rfl, serving, guard, _⟩ := event_guarded reached occurs
  have inserts : GuardInsertToken arrival.request (localTrace thread origin.log) inserted := guard
  obtain ⟨data, loggedIn⟩ := inserts.1
  obtain ⟨_, earlier⟩ := occurs_of_mem (mem_localTrace.mp loggedIn)
  have issues := occurs.trans earlier
  obtain ⟨originLogin, arrival', _, before, _, rfl, serving', guardLogin, _⟩ :=
    event_guarded reached issues
  obtain rfl := serving.unique serving'
  obtain ⟨query, owner, acts, how⟩ := guardLogin
  have store := storeInvariant before
  have lowered := store.lowered _ _ (store.loaded _ _ _ (acting_loaded acts)).1
  have login : data.login = owner.val.email → Login state originLogin.log thread arrival owner
      inserted.token data.login :=
    fun same => ⟨⟨data, rfl, issues⟩, serving, ⟨query, acts⟩, same.symm⟩
  rw [← sameToken]
  refine ⟨thread, data, issues.mem, ?_⟩
  cases kind : arrival.request with
  | activate activationData =>
      rw [kind] at how
      obtain ⟨same, validated⟩ := how
      have code := codeValidated reached issues serving (by rw [kind]; rfl) acts validated
      rw [← same] at code
      exact .activation (login same) kind code
  | user authorization userRequest =>
      rw [kind] at how
      cases userRequest with
      | verifyChangePassword params =>
          obtain ⟨same, password, verification, given, validated⟩ := how
          rw [lowered] at same
          have code := codeValidated reached issues serving (by rw [kind]; rfl) acts validated
          rw [← same] at code
          exact .passwordChange (login same) kind password given code
      | _ => exact how.elim
  | initiateLogin address password ip =>
      rw [kind] at how
      obtain ⟨same, activated, matched⟩ := how
      rw [lowered] at same
      have actsLater := acting_extended (earlier.localTrace_extends thread) acts
      rcases sinceVerified verified with already | later
      · rw [kind] at inserts
        rw [inserts.2.1] at already
        cases already
      · have verifiedLogin := login_verified reached occurs serving kind actsLater inserts later
        rw [← same] at verifiedLogin
        exact .login (login same) kind activated matched verifiedLogin
  | _ => rw [kind] at how; exact how.elim

/-- The middleware has called `next()` with the user for the request of the
thread. -/
def LetThrough (state : AccountState) (thread : Nat) (authorization : Option String)
    (user : Doc ObjectID Investor) : Prop :=
  ∃ arrival userRequest trace, Serving state thread arrival ∧
    arrival.request = .user authorization userRequest ∧ trace <+: localTrace thread state.log ∧
    (authenticate authorization).Follows trace (.done (.next user))

/-- The middleware lets a user through only with a token of the user. -/
theorem authenticated_issued (reached : (accounts app).Reachable (.idle {}) state) {thread : Nat}
    {authorization : Option String} {user : Doc ObjectID Investor}
    (letThrough : LetThrough state thread authorization user) :
    ∃ token, bearerToken authorization = some (some token) ∧
      IssuedTo app state token user.val.email := by
  obtain ⟨arrival, userRequest, trace, _, _, made, next⟩ := letThrough
  obtain ⟨query, given, token, login, found, verified, shown, loaded⟩ := authenticate_next next
  have logged : ∀ {call : Call Op Ans Exception}, call ∈ trace → ⟨thread, call⟩ ∈ state.log :=
    fun member => mem_localTrace.mp (made.subset member)
  obtain ⟨history, own⟩ := (tokenInvariant reached).loaded _ _ _ (logged found)
  obtain ⟨issuer, data, issued, issuedTo⟩ := history.issued reached verified
  have email := ((storeInvariant reached).loaded _ _ _ (logged loaded)).2 _ rfl
  have sameLogin := (issueInvariant reached).login issued (logged shown)
  refine ⟨token.val.token, by rw [given, own], ?_⟩
  rw [email, sameLogin]
  exact issuedTo

/-! ## A request with a token -/

def readsOwnData : List (Action Choice Arrival) :=
  [.start { request := .user (some "Bearer t1") .getMe }, .resume 2 {}, .resume 2 {}, .resume 2 {}]

def ownData : AccountState := after .plain (signUp ++ activation 1 ++ readsOwnData)

def newcomerDoc : Doc ObjectID Investor :=
  ⟨1, { Investor.createInvestor .plain newcomer "secret" "v1" with
    isVerified := true
    ethWallet := some { ticker := "ETH", address := "salt", balance := "0", salt := "salt" }
    kycInitResult := some (.jumio ⟨"1520846090", "token", "id", "http://localhost"⟩) }⟩

theorem ownData_issued :
    ∃ token, bearerToken (some "Bearer t1") = some (some token) ∧
      IssuedTo .plain ownData token "ann@example.com" := by
  have letThrough : LetThrough ownData 2 (some "Bearer t1") newcomerDoc :=
    ⟨{ request := .user (some "Bearer t1") .getMe }, .getMe, localTrace 2 ownData.log, ⟨_, rfl⟩, rfl,
      List.prefix_refl _, .next (.next (.next (.here _)))⟩
  exact authenticated_issued (System.reachable_run _ _) letThrough

end IcoDashboard.Accounts
