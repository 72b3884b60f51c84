import IcoDashboard.Accounts.Credentials

namespace IcoDashboard.Accounts

open IcoDashboard.Async IcoDashboard.Async.Program IcoDashboard.Data

/-! # Records of the auth service

The auth service keeps, for each login, the last record it has accepted, and logs
in whoever gives the password of the record.  The investors are kept apart from
it, so the two agree only as far as every write of an investor is followed by its
record.
-/

variable {app : App}

/-- The records accepted in some requests, oldest first. -/
def createdIn (rounds : List AccountRound) : List AuthUserData :=
  rounds.flatMap fun round => created round.trace

/-- What the auth service has under a login. -/
def recordsAfter (rounds : List AccountRound) (login : String) : Option AuthUserData :=
  ((createdIn rounds).filter fun data => data.login = login).getLast?

/-- Every stored investor has a record with its password. -/
def Agrees (records : String → Option AuthUserData) (investors : Collection ObjectID Investor) :
    Prop :=
  ∀ id investor, investors.lookup id = some investor →
    ∃ record, records investor.email = some record ∧ record.password = investor.passwordHash

theorem createdIn_append (done : List AccountRound) (round : AccountRound) :
    createdIn (done ++ [round]) = createdIn done ++ created round.trace := by
  simp [createdIn]

theorem recordsAfter_uncreated {done : List AccountRound} {round : AccountRound}
    (uncreated : created round.trace = []) :
    recordsAfter (done ++ [round]) = recordsAfter done := by
  funext login
  rw [recordsAfter, createdIn_append, uncreated, List.append_nil]
  rfl

theorem recordsAfter_created {done : List AccountRound} {round : AccountRound}
    {data : AuthUserData} (accepted : created round.trace = [data]) (login : String) :
    recordsAfter (done ++ [round]) login =
      if data.login = login then some data else recordsAfter done login := by
  rw [recordsAfter, createdIn_append, accepted, List.filter_append]
  by_cases own : data.login = login
  · simp [own]
  · simp [own, recordsAfter]

/-! ## What is in a record -/

section AuthRecord

variable {asked : Request} {investor : Investor}

theorem authRecord_login (lowered : app.toLowerCase investor.email = investor.email) :
    (authRecord app asked investor).login = investor.email := by
  unfold authRecord
  split
  · exact lowered
  · exact lowered
  · rfl

theorem authRecord_password : (authRecord app asked investor).password = investor.passwordHash := by
  unfold authRecord
  split <;> rfl

end AuthRecord

/-! ## Emails of the stored investors -/

structure EmailsKept (app : App) (investors : Collection ObjectID Investor) : Prop where
  lowered : ∀ id stored, credentialOf investors id = some stored →
    app.toLowerCase stored.email = stored.email
  unique : ∀ first second left right, credentialOf investors first = some left →
    credentialOf investors second = some right → left.email = right.email → first = second

theorem emailsKept_empty : EmailsKept app .empty where
  lowered _ _ found := nomatch found
  unique _ _ _ _ found := nomatch found

theorem EmailsKept.of_same {before after : Collection ObjectID Investor}
    (emails : EmailsKept app before) (same : credentialOf after = credentialOf before) :
    EmailsKept app after where
  lowered := by rw [same]; exact emails.lowered
  unique := by rw [same]; exact emails.unique

section Writes

variable {before after : Collection ObjectID Investor} {id : ObjectID} {new : Credential}

theorem Writes.own (writes : Writes app before after id new) : credentialOf after id = some new := by
  rw [writes.stored, if_pos rfl]

/-- A new email is lowered, and no other investor has it. -/
theorem Writes.email (writes : Writes app before after id new) (emails : EmailsKept app before) :
    app.toLowerCase new.email = new.email ∧
      ∀ other stored, other ≠ id → credentialOf before other = some stored →
        stored.email ≠ new.email := by
  rcases writes.former with ⟨old, found, sameEmail, _⟩ | ⟨_, lowered, unused⟩
  · rw [← sameEmail]
    refine ⟨emails.lowered id old found, fun other stored different foundOther same => ?_⟩
    exact different (emails.unique other id stored old foundOther found same)
  · exact ⟨lowered, fun other stored _ found => unused other stored found⟩

theorem Writes.others (writes : Writes app before after id new) {other : ObjectID}
    (different : other ≠ id) : credentialOf after other = credentialOf before other := by
  rw [writes.stored, if_neg different]

theorem Writes.emails (writes : Writes app before after id new) (emails : EmailsKept app before) :
    EmailsKept app after := by
  obtain ⟨lowered, unused⟩ := writes.email emails
  apply EmailsKept.mk
  · intro other stored found
    by_cases same : other = id
    · rw [same, writes.own] at found
      cases found
      exact lowered
    · rw [writes.others same] at found
      exact emails.lowered other stored found
  · intro first second left right foundLeft foundRight sameEmail
    by_cases ownFirst : first = id
    · by_cases ownSecond : second = id
      · exact ownFirst.trans ownSecond.symm
      · rw [ownFirst, writes.own] at foundLeft
        rw [writes.others ownSecond] at foundRight
        cases foundLeft
        exact absurd sameEmail.symm (unused second right ownSecond foundRight)
    · rw [writes.others ownFirst] at foundLeft
      by_cases ownSecond : second = id
      · rw [ownSecond, writes.own] at foundRight
        cases foundRight
        exact absurd sameEmail (unused first left ownFirst foundLeft)
      · rw [writes.others ownSecond] at foundRight
        exact emails.unique first second left right foundLeft foundRight sameEmail

end Writes

/-! ## Agreement -/

theorem agrees_iff {records : String → Option AuthUserData}
    {investors : Collection ObjectID Investor} :
    Agrees records investors ↔ ∀ id stored, credentialOf investors id = some stored →
      ∃ record, records stored.email = some record ∧ record.password = stored.passwordHash := by
  constructor
  · intro agrees id stored found
    obtain ⟨investor, lookup, same⟩ := Option.map_eq_some_iff.mp found
    rw [← same]
    exact agrees id investor lookup
  · intro agrees id investor lookup
    exact agrees id (credential investor) (congrArg (Option.map credential) lookup)

/-- A request that loses no record keeps the stores in agreement. -/
theorem Agrees.step {done : List AccountRound} {round : AccountRound}
    (emails : EmailsKept app round.before.investors)
    (agrees : Agrees (recordsAfter done) round.before.investors)
    (changed : CredentialStep app round) (keeps : ∀ call ∈ round.trace, losesRecord app call = false) :
    EmailsKept app round.after.investors ∧
      Agrees (recordsAfter (done ++ [round])) round.after.investors := by
  rw [agrees_iff] at agrees ⊢
  cases changed with
  | kept same uncreated =>
      rw [recordsAfter_uncreated uncreated, same]
      exact ⟨emails.of_same same, agrees⟩
  | wrote id investor writes recreates records =>
      obtain ⟨lowered, unused⟩ := writes.email emails
      refine ⟨writes.emails emails, fun other stored found => ?_⟩
      rcases records with accepted | ⟨_, call, member, loses⟩
      · have login : (authRecord app round.request.request investor).login = investor.email :=
          authRecord_login lowered
        rw [recordsAfter_created accepted, login]
        by_cases own : other = id
        · rw [own, writes.own] at found
          cases found
          exact ⟨_, if_pos rfl, authRecord_password⟩
        · rw [writes.others own] at found
          rw [if_neg fun same => unused other stored own found same.symm]
          exact agrees other stored found
      · rw [keeps call member] at loses
        cases loses

/-! ## Logins -/

/-- A login is made with the password hash of the investor it has loaded. -/
def LogsInLoaded (app : App) (past : AccountTrace) : Op → Prop
  | .loginUser data => ∃ query user, acting past = some (query, user) ∧
      data.login = app.toLowerCase user.val.email ∧ data.password = user.val.passwordHash
  | _ => True

theorem initiateLogin_logsIn (email password ip : String) (draws : Draws) :
    (UserService.initiateLogin app email password ip draws).Meets (LogsInLoaded app)
      (fun _ _ => True) (fun _ _ => True) [] := by
  simp only [UserService.initiateLogin, UserService.findUser, findInvestor,
    EmailTemplateService.getRenderedTemplate, VerificationClient.initiateVerification, request, call,
    meets_bind, meets_tryCatch, meets_ite, meets_await, meets_done, meets_fail, meets_pure,
    meets_throw, meets_throwIf, meets_orThrow, LogsInLoaded, implies_true, and_true, true_and]
  intro found user same _ _ _ _
  subst same
  exact ⟨_, user, rfl, rfl, rfl⟩

theorem login_stored {round : AccountRound} (ran : (accounts app).Ran round)
    {email password ip : String} (asked : round.request.request = .initiateLogin email password ip)
    {data : UserLoginData} {answer : Except Exception AccessTokenResponse}
    (member : ⟨.loginUser data, answer⟩ ∈ round.trace) :
    ∃ id stored, credentialOf round.before.investors id = some stored ∧
      data.login = app.toLowerCase stored.email ∧ data.password = stored.passwordHash := by
  have other : round.request.request.recreates = false := by rw [asked]; rfl
  have logsIn : (handle app round.request.draws round.request.request).Meets (LogsInLoaded app)
      (fun _ _ => True) (fun _ _ => True) [] := by
    rw [asked]
    simp only [handle, meets_bind, meets_pure]
    exact initiateLogin_logsIn email password ip round.request.draws
  obtain ⟨front, later, split⟩ := List.mem_iff_append.mp member
  obtain ⟨query, user, acts, login, hash⟩ := ran.guarded logsIn split
  obtain ⟨_, kept⟩ := (credentialsKept ran other).2 front _ later split
  exact ⟨user.id, credential user.val, kept.acts query user acts, login, hash⟩

/-- In every run of requests from an empty store that loses no record, the two
stores agree after each request, and every login is made with the password that
the auth service has. -/
theorem auth_agrees {rounds : List AccountRound} {last : World}
    (run : (accounts app).InTurn {} rounds last)
    (keeps : ∀ round ∈ rounds, ∀ call ∈ round.trace, losesRecord app call = false)
    {earlier later : List AccountRound} {round : AccountRound}
    (split : rounds = earlier ++ round :: later) :
    Agrees (recordsAfter (earlier ++ [round])) round.after.investors ∧
    ∀ email password ip, round.request.request = .initiateLogin email password ip →
      ∀ data answer, ⟨.loginUser data, answer⟩ ∈ round.trace →
        ∃ record, recordsAfter earlier data.login = some record ∧
          record.password = data.password := by
  have preserved : ∀ earlier round, round ∈ rounds → (accounts app).Ran round →
      EmailsKept app round.before.investors ∧ Agrees (recordsAfter earlier) round.before.investors →
      EmailsKept app round.after.investors ∧
        Agrees (recordsAfter (earlier ++ [round])) round.after.investors :=
    fun _ round member ran holds =>
      holds.2.step holds.1 (credential_step ran) (keeps round member)
  have start : EmailsKept app ({} : World).investors ∧
      Agrees (recordsAfter []) ({} : World).investors :=
    ⟨emailsKept_empty, fun _ _ found => nomatch found⟩
  have history := @System.InTurn.history _ _ _ _ _ _ _ (accounts app) {} last rounds
    (fun done world => EmailsKept app world.investors ∧ Agrees (recordsAfter done) world.investors)
    [] run start preserved
  obtain ⟨ran, ⟨emails, before⟩, _, after⟩ := history.2 earlier round later split
  refine ⟨after, fun email password ip asked data answer member => ?_⟩
  obtain ⟨id, stored, found, login, hash⟩ := login_stored ran asked member
  obtain ⟨record, recorded, same⟩ := agrees_iff.mp before id stored found
  rw [emails.lowered id stored found] at login
  rw [login, hash]
  exact ⟨record, recorded, same⟩

/-! ## A sign-in, and a sign-up that is cut off -/

def annRequests : List (Arrival × List Choice) :=
  [({ request := .create newcomer },
      List.replicate 5 { verificationId := "v1", code := "123456", id := 1 }),
    ({ request := .activate { email := "ann@example.com", verificationId := "v1", code := "123456" }
       draws := { mnemonic := "pig", salt := "salt" } },
      List.replicate 8 { accessToken := "t1", id := 1 }),
    ({ request := .initiateLogin "ann@example.com" "secret" "127.0.0.1" },
      List.replicate 5 { accessToken := "t2", verificationId := "v2", id := 2 })]

/-- The auth service rejects the record of the new investor. -/
def cutOffRequests : List (Arrival × List Choice) :=
  [({ request := .create newcomer },
      List.replicate 4 { verificationId := "v1", code := "123456", id := 1 } ++
        [{ rejects := some (requestError 500) }])]

def servedRounds (requests : List (Arrival × List Choice)) : List AccountRound :=
  ((accounts .plain).rounds {} requests).getD []

theorem served_inTurn {requests : List (Arrival × List Choice)}
    (served : ((accounts .plain).rounds {} requests).isSome = true) :
    (accounts .plain).InTurn {} (servedRounds requests)
      (System.lastWorld {} (servedRounds requests)) := by
  obtain ⟨rounds, ran⟩ := Option.isSome_iff_exists.mp served
  have same : servedRounds requests = rounds := by
    rw [servedRounds, ran]
    rfl
  rw [same]
  exact System.inTurn_of_rounds ran

theorem annRequests_agree :
    ∃ signUp activation login, servedRounds annRequests = [signUp, activation, login] ∧
      Agrees (recordsAfter [signUp, activation, login]) login.after.investors ∧
      ∃ data answer record, ⟨.loginUser data, answer⟩ ∈ login.trace ∧
        recordsAfter [signUp, activation] data.login = some record ∧
        record.password = data.password := by
  have run := @served_inTurn annRequests rfl
  have keeps : ∀ round ∈ servedRounds annRequests, ∀ call ∈ round.trace,
      losesRecord .plain call = false := by
    decide +kernel
  have three : ∃ signUp activation login, servedRounds annRequests = [signUp, activation, login] :=
    ⟨_, _, _, rfl⟩
  have asked : (servedRounds annRequests).getLast?.map (fun round => round.request.request) =
      some (.initiateLogin "ann@example.com" "secret" "127.0.0.1") := rfl
  have logged : (servedRounds annRequests).getLast?.bind (fun round => round.trace[1]?) =
      some ⟨.loginUser { login := "ann@example.com", password := "secret" }, .ok ⟨"t2"⟩⟩ := rfl
  obtain ⟨signUp, activation, login, served⟩ := three
  rw [served] at run keeps asked logged
  obtain ⟨agree, logins⟩ := @auth_agrees _ _ _ run keeps [signUp, activation] [] login rfl
  have member := List.mem_of_getElem? logged
  obtain ⟨record, recorded, same⟩ := logins _ _ _ (Option.some.inj asked) _ _ member
  exact ⟨signUp, activation, login, served, agree, _, _, record, member, recorded, same⟩

/-- The investor is stored, and the auth service does not know it. -/
theorem cutOff_disagrees : ∃ rounds last, (accounts .plain).InTurn {} rounds last ∧
    ¬ Agrees (recordsAfter rounds) last.investors := by
  refine ⟨_, _, @served_inTurn cutOffRequests rfl, fun agrees => ?_⟩
  obtain ⟨record, recorded, _⟩ := agrees 1 _ rfl
  cases recorded

end IcoDashboard.Accounts
