import IcoDashboard.Accounts.AuthRecords

namespace IcoDashboard.Accounts

open IcoDashboard.Async IcoDashboard.Async.Program IcoDashboard.Data

/-! # Scopes of the auth service

Only the change of a password hands the scope of the investor on; a sign-up and a
reset write records without one.  So whether a record has the scope of its
investor depends on the request that wrote it last.
-/

variable {app : App}

/-- The scope that a request gives the auth service. -/
def Request.carries (scope : Option String) : Request → Option String
  | .user _ (.verifyChangePassword _) => if truthy scope then scope else none
  | _ => none

def Request.changesPassword : Request → Bool
  | .user _ (.verifyChangePassword _) => true
  | _ => false

theorem carries_eq_iff {asked : Request} {scope : Option String} :
    asked.carries scope = scope ↔
      scope = none ∨ asked.changesPassword = true ∧ scope ≠ some "" := by
  unfold Request.carries
  split
  · cases scope with
    | none => simp
    | some text => by_cases empty : text = "" <;> simp [truthy, Request.changesPassword, empty]
  · rename_i other
    have unchanged : asked.changesPassword = false := by
      unfold Request.changesPassword
      split
      · rename_i authorization params
        exact absurd rfl (other authorization params)
      · rfl
    rw [unchanged]
    simp [eq_comm]

theorem authRecord_scope {asked : Request} {investor : Investor} :
    (authRecord app asked investor).scope = asked.carries investor.scope := by
  cases asked with
  | user authorization userRequest => cases userRequest <;> rfl
  | _ => rfl

/-! ## The last writer of a record -/

/-- The request has written the record of the login, and no later one has. -/
def LastWrote (login : String) (rounds : List AccountRound) (writer : AccountRound) : Prop :=
  ∃ earlier later, rounds = earlier ++ writer :: later ∧
    (∃ data ∈ created writer.trace, data.login = login) ∧
    ∀ round ∈ later, ∀ data ∈ created round.trace, data.login ≠ login

theorem LastWrote.append {login : String} {done : List AccountRound} {writer round : AccountRound}
    (wrote : LastWrote login done writer)
    (others : ∀ data ∈ created round.trace, data.login ≠ login) :
    LastWrote login (done ++ [round]) writer := by
  obtain ⟨earlier, later, split, own, after⟩ := wrote
  refine ⟨earlier, later ++ [round], by rw [split]; simp, own, fun next member => ?_⟩
  rcases List.mem_append.mp member with old | new
  · exact after next old
  · rw [List.mem_singleton.mp new]
    exact others

theorem lastWrote_now {login : String} {done : List AccountRound} {round : AccountRound}
    {data : AuthUserData} (accepted : created round.trace = [data]) (own : data.login = login) :
    LastWrote login (done ++ [round]) round :=
  ⟨done, [], rfl, ⟨data, by rw [accepted]; exact List.mem_cons_self, own⟩, fun _ member => nomatch member⟩

/-- Every record belongs to a stored investor, and has the scope that its last
writer carries. -/
structure ScopesCarried (app : App) (done : List AccountRound) (investors : Collection ObjectID Investor) :
    Prop where
  emails : EmailsKept app investors
  owned : ∀ login record, recordsAfter done login = some record →
    ∃ id stored, credentialOf investors id = some stored ∧ stored.email = login
  carried : ∀ id stored record, credentialOf investors id = some stored →
    recordsAfter done stored.email = some record →
    ∃ writer, LastWrote stored.email done writer ∧
      record.scope = writer.request.request.carries stored.scope

/-- A stored investor keeps its email and scope. -/
theorem Writes.kept {before after : Collection ObjectID Investor} {id other : ObjectID}
    {new stored : Credential} (writes : Writes app before after id new)
    (found : credentialOf before other = some stored) :
    ∃ now, credentialOf after other = some now ∧ now.email = stored.email ∧
      now.scope = stored.scope := by
  by_cases own : other = id
  · rcases writes.former with ⟨old, foundOld, email, scope⟩ | ⟨absent, _⟩
    · rw [own, foundOld] at found
      cases found
      exact ⟨new, own ▸ writes.own, email.symm, scope.symm⟩
    · rw [own, absent] at found
      cases found
  · exact ⟨stored, (writes.others own).trans found, rfl, rfl⟩

section ScopesCarried

variable {done : List AccountRound} {round : AccountRound}

theorem ScopesCarried.kept (holds : ScopesCarried app done round.before.investors)
    (same : credentialOf round.after.investors = credentialOf round.before.investors)
    (uncreated : created round.trace = []) :
    ScopesCarried app (done ++ [round]) round.after.investors := by
  apply ScopesCarried.mk (holds.emails.of_same same)
  · rw [recordsAfter_uncreated uncreated, same]
    exact holds.owned
  · rw [recordsAfter_uncreated uncreated, same]
    intro id stored record found recorded
    obtain ⟨writer, wrote, scope⟩ := holds.carried id stored record found recorded
    refine ⟨writer, wrote.append fun data member => ?_, scope⟩
    rw [uncreated] at member
    cases member

variable {id : ObjectID} {investor : Investor}

/-- The request has created the record of the investor it has written. -/
theorem ScopesCarried.recreated (holds : ScopesCarried app done round.before.investors)
    (writes : Writes app round.before.investors round.after.investors id (credential investor))
    (accepted : created round.trace = [authRecord app round.request.request investor]) :
    ScopesCarried app (done ++ [round]) round.after.investors := by
  obtain ⟨lowered, unused⟩ := writes.email holds.emails
  have login : (authRecord app round.request.request investor).login = investor.email :=
    authRecord_login lowered
  apply ScopesCarried.mk (writes.emails holds.emails)
  · intro other record recorded
    rw [recordsAfter_created accepted, login] at recorded
    by_cases own : investor.email = other
    · exact ⟨id, credential investor, writes.own, own⟩
    · rw [if_neg own] at recorded
      obtain ⟨holder, stored, found, email⟩ := holds.owned other record recorded
      obtain ⟨now, foundNow, sameEmail, _⟩ := writes.kept found
      exact ⟨holder, now, foundNow, sameEmail.trans email⟩
  · intro other stored record found recorded
    rw [recordsAfter_created accepted, login] at recorded
    by_cases own : other = id
    · rw [own, writes.own] at found
      cases found
      have same : investor.email = (credential investor).email := rfl
      rw [if_pos same] at recorded
      cases recorded
      exact ⟨round, lastWrote_now accepted login, authRecord_scope⟩
    · rw [writes.others own] at found
      have different : stored.email ≠ investor.email := unused other stored own found
      rw [if_neg (Ne.symm different)] at recorded
      obtain ⟨writer, wrote, scope⟩ := holds.carried other stored record found recorded
      refine ⟨writer, wrote.append fun data member => ?_, scope⟩
      rw [accepted, List.mem_singleton] at member
      rw [member, login]
      exact Ne.symm different

/-- The request has written the investor and not its record. -/
theorem ScopesCarried.cutOff (holds : ScopesCarried app done round.before.investors)
    (writes : Writes app round.before.investors round.after.investors id (credential investor))
    (uncreated : created round.trace = []) :
    ScopesCarried app (done ++ [round]) round.after.investors := by
  have unwritten : ∀ data ∈ created round.trace, ∀ login, data.login ≠ login := by
    intro data member
    rw [uncreated] at member
    cases member
  apply ScopesCarried.mk (writes.emails holds.emails)
  · rw [recordsAfter_uncreated uncreated]
    intro login record recorded
    obtain ⟨holder, stored, found, email⟩ := holds.owned login record recorded
    obtain ⟨now, foundNow, sameEmail, _⟩ := writes.kept found
    exact ⟨holder, now, foundNow, sameEmail.trans email⟩
  · rw [recordsAfter_uncreated uncreated]
    intro other stored record found recorded
    -- the record is of the email that the investor had before
    obtain ⟨holder, old, foundOld, email⟩ := holds.owned stored.email record recorded
    obtain ⟨now, foundNow, sameEmail, sameScope⟩ := writes.kept foundOld
    have own : holder = other := (writes.emails holds.emails).unique holder other now stored foundNow
      found (sameEmail.trans email)
    rw [own, found] at foundNow
    cases foundNow
    rw [← email] at recorded
    obtain ⟨writer, wrote, scope⟩ := holds.carried holder old record foundOld recorded
    rw [← sameEmail] at wrote
    rw [← sameScope] at scope
    exact ⟨writer, wrote.append fun data member => unwritten data member _, scope⟩

theorem ScopesCarried.step (holds : ScopesCarried app done round.before.investors)
    (changed : CredentialStep app round) :
    ScopesCarried app (done ++ [round]) round.after.investors := by
  cases changed with
  | kept same uncreated => exact holds.kept same uncreated
  | wrote id investor writes _ records =>
      rcases records with accepted | ⟨uncreated, _⟩
      · exact holds.recreated writes accepted
      · exact holds.cutOff writes uncreated

end ScopesCarried

/-- In every run of requests from an empty store, the record of an investor has
its scope exactly when the investor has none, or a change of the password wrote
the record last and the scope is not empty. -/
theorem recordScope_iff {rounds : List AccountRound} {last : World}
    (run : (accounts app).InTurn {} rounds last) {id : ObjectID} {investor : Investor}
    (stored : last.investors.lookup id = some investor) {record : AuthUserData}
    (recorded : recordsAfter rounds investor.email = some record) :
    ∃ writer, LastWrote investor.email rounds writer ∧
      (record.scope = investor.scope ↔ investor.scope = none ∨
        writer.request.request.changesPassword = true ∧ investor.scope ≠ some "") := by
  have preserved : ∀ earlier round, round ∈ rounds → (accounts app).Ran round →
      ScopesCarried app earlier round.before.investors →
      ScopesCarried app (earlier ++ [round]) round.after.investors :=
    fun _ _ _ ran holds => holds.step (credential_step ran)
  have start : ScopesCarried app [] ({} : World).investors :=
    ⟨emailsKept_empty, (fun _ _ recorded => nomatch recorded), fun _ _ _ found => nomatch found⟩
  have holds := (@System.InTurn.history _ _ _ _ _ _ _ (accounts app) {} last rounds
    (fun done world => ScopesCarried app done world.investors) [] run start preserved).1
  obtain ⟨writer, wrote, scope⟩ := holds.carried id (credential investor) record
    (congrArg (Option.map credential) stored) recorded
  refine ⟨writer, wrote, ?_⟩
  rw [scope]
  exact carries_eq_iff

/-! ## An investor with a scope -/

def scopedRequests : List (Arrival × List Choice) :=
  [({ request := .create { newcomer with scope := some "admin" } },
      List.replicate 5 { verificationId := "v1", code := "123456", id := 1 })]

/-- The investor signs up, activates the account and changes the password. -/
def changeRequests : List (Arrival × List Choice) :=
  scopedRequests ++
    [({ request := .activate { email := "ann@example.com", verificationId := "v1", code := "123456" }
        draws := { mnemonic := "pig", salt := "salt" } },
        List.replicate 8 { accessToken := "t1", id := 1 }),
      ({ request := .user (some "Bearer t1") (.initiateChangePassword "secret") },
        List.replicate 5 { verificationId := "v2", code := "123456" }),
      ({ request := .user (some "Bearer t1") (.verifyChangePassword
          { oldPassword := "secret", newPassword := "Secret12"
            verification := some ⟨"v2", "123456", "email"⟩ }) },
        List.replicate 10 { accessToken := "t2", id := 2 })]

theorem changeRequests_scope :
    ∃ last investor record writer, (accounts .plain).InTurn {} (servedRounds changeRequests) last ∧
      last.investors.lookup 1 = some investor ∧
      recordsAfter (servedRounds changeRequests) investor.email = some record ∧
      LastWrote investor.email (servedRounds changeRequests) writer ∧
      (record.scope = investor.scope ↔ investor.scope = none ∨
        writer.request.request.changesPassword = true ∧ investor.scope ≠ some "") := by
  have run := @served_inTurn changeRequests rfl
  have stored : ∃ investor,
      (System.lastWorld {} (servedRounds changeRequests)).investors.lookup 1 = some investor ∧
        investor.email = "ann@example.com" := ⟨_, rfl, rfl⟩
  have recorded : ∃ record,
      recordsAfter (servedRounds changeRequests) "ann@example.com" = some record := ⟨_, rfl⟩
  obtain ⟨investor, found, email⟩ := stored
  obtain ⟨record, accepted⟩ := recorded
  rw [← email] at accepted
  obtain ⟨writer, wrote, exactly⟩ := recordScope_iff run found accepted
  exact ⟨_, investor, record, writer, run, found, accepted, wrote, exactly⟩

/-- A sign-up with a scope succeeds, and its record has none. -/
theorem scopedRequests_lose : ∃ rounds last investor record,
    (accounts .plain).InTurn {} rounds last ∧
    (∀ round ∈ rounds, ∃ response, round.outcome = .ok response) ∧
    last.investors.lookup 1 = some investor ∧
    recordsAfter rounds investor.email = some record ∧ record.scope ≠ investor.scope := by
  have succeeds : ∀ round ∈ servedRounds scopedRequests, ∃ response, round.outcome = .ok response := by
    intro round member
    obtain rfl := List.mem_singleton.mp member
    exact ⟨_, rfl⟩
  refine ⟨_, _, _, _, @served_inTurn scopedRequests rfl, succeeds, rfl, rfl, ?_⟩
  decide

end IcoDashboard.Accounts
