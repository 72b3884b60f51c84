import IcoDashboard.Accounts.Columns

namespace IcoDashboard.Accounts

open IcoDashboard.Async IcoDashboard.Async.Program IcoDashboard.Data

/-! # Owners of passwords

Whose request has set the password that is stored for an investor, and how a
second factor was turned on or off.
-/

variable {app : App} {arrival : Arrival} {state : AccountState} {past : AccountTrace}

/-! ## Sign-ups -/

/-- What a sign-up inserts is of its own request. -/
def InsertsHashed (app : App) (arrival : Arrival) (op : Op) : Prop :=
  ∀ investor, op = .insertInvestor investor → ∃ userData, arrival.request = .create userData ∧
    investor.email = app.toLowerCase userData.email ∧
    investor.passwordHash = app.hashSync arrival.draws.hashSalt userData.password ∧
    investor.defaultVerificationMethod = emailVerification

theorem create_hashes {userData : UserData} (own : arrival.request = .create userData) :
    (UserService.create app userData arrival.draws).Meets (fun _ op => InsertsHashed app arrival op)
      (fun _ _ => True) (fun _ _ => True) [] := by
  cases given : userData.referral <;>
    simp [UserService.create, UserService.checkReferral, given, findInvestor,
      EmailTemplateService.getRenderedTemplate, VerificationClient.initiateVerification, request, call,
      InsertsHashed, own, Investor.createInvestor]

theorem handle_hashes (app : App) (arrival : Arrival) :
    (handle app arrival.draws arrival.request).Meets (fun _ op => InsertsHashed app arrival op)
      (fun _ _ => True) (fun _ _ => True) [] := by
  by_cases signsUp : ∃ userData, arrival.request = .create userData
  · obtain ⟨userData, own⟩ := signsUp
    have hashes := @create_hashes app arrival userData own
    rw [own]
    simpa [handle] using hashes
  · refine (handle_meets app arrival).mono (fun past op guard investor same => ?_) (fun _ _ _ => trivial)
      fun _ _ _ => trivial
    subst same
    obtain ⟨userData, _, _, own, _⟩ := guard
    exact absurd ⟨userData, own⟩ signsUp

/-! ## Passwords -/

/-- The columns under which a request is made for an investor. -/
def credentials (investor : Investor) : String × String := (investor.email, investor.passwordHash)

def secondFactor (investor : Investor) : String × String :=
  (investor.email, investor.defaultVerificationMethod)

/-- The password that the request sets. -/
def Request.password : Request → Option String
  | .create userData => some userData.password
  | .verifyResetPassword params => some params.password
  | .user _ (.verifyChangePassword params) => some params.newPassword
  | _ => none

def SetsPassword (app : App) (arrival : Arrival) (passwordHash : String) : Prop :=
  ∃ password, arrival.request.password = some password ∧
    passwordHash = app.hashSync arrival.draws.hashSalt password

/-- A request that changes a password, and none that signs up. -/
theorem Changed.password {past : List AccountEvent} {thread : Nat} {id : ObjectID}
    {user : Doc ObjectID Investor} {investor : Investor}
    (changed : Changed credentials app state past thread id (credentials investor) arrival user) :
    user.val.email = investor.email ∧ SetsPassword app arrival investor.passwordHash ∧
      ((∃ params, arrival.request = .verifyResetPassword params) ∨
        ∃ authorization params, arrival.request = .user authorization (.verifyChangePassword params)) := by
  obtain ⟨saved, has, new, changes⟩ := changed.changes
  have sameEmail : user.val.email = investor.email := changes.email.symm.trans (congrArg Prod.fst has)
  have sets : saved.passwordHash = investor.passwordHash := congrArg Prod.snd has
  have newHash : saved.passwordHash ≠ user.val.passwordHash := by
    intro same
    exact new (Prod.ext sameEmail (same.symm.trans sets))
  refine ⟨sameEmail, ?_⟩
  rw [← sets]
  unfold Changes at changes
  split at changes <;> grind [SetsPassword, Request.password]

theorem SignedUpWith.password (reached : (accounts app).Reachable (.idle {}) state)
    {past : List AccountEvent} {thread : Nat} {id : ObjectID} {investor : Investor}
    (signedUp : SignedUpWith credentials state.log past thread id (credentials investor)) :
    ∃ arrival userData, Serving state thread arrival ∧ arrival.request = .create userData ∧
      investor.email = app.toLowerCase userData.email ∧
      SetsPassword app arrival investor.passwordHash := by
  obtain ⟨inserted, occurs, same⟩ := signedUp
  obtain ⟨origin, choice, arrival, resume, before, rfl, awaiting, _, onward⟩ :=
    reached.event_origin occurs
  obtain ⟨userData, own, email, passwordHash, _⟩ :=
    (before.guarded (handle_hashes app) awaiting).1 inserted rfl
  refine ⟨arrival, userData, ?_, own, (congrArg Prod.fst same).symm.trans email, userData.password,
    by rw [own]; rfl, (congrArg Prod.snd same).symm.trans passwordHash⟩
  exact Serving.of_reachable ⟨_, awaiting⟩ ((System.Reachable.initial.step _).trans onward)

/-- The password that is stored was set by a request that has inserted or saved. -/
theorem stored_password (reached : (accounts app).Reachable (.idle {}) state) {id : ObjectID}
    {investor : Investor} (stored : state.world.investors.lookup id = some investor) :
    ∃ past thread op answer arrival, Occurs state.log past ⟨thread, ⟨op, answer⟩⟩ ∧
      op.authenticates = false ∧ Serving state thread arrival ∧
      SetsPassword app arrival investor.passwordHash := by
  obtain ⟨past, thread, signedUp | brings⟩ :=
    (columnInvariant credentials reached).stored id investor stored
  · obtain ⟨arrival, _, serving, _, _, sets⟩ := signedUp.password reached
    obtain ⟨inserted, occurs, _⟩ := signedUp
    exact ⟨past, thread, _, _, arrival, occurs, rfl, serving, sets⟩
  · obtain ⟨arrival, user, changed⟩ := brings.changed reached
    obtain ⟨saved, occurs, _⟩ := brings
    exact ⟨past, thread, _, _, arrival, occurs, rfl, changed.serving, changed.password.2.1⟩

/-- A code to turn the authenticator on is one of the authenticator. -/
def InitiatesByAuthenticator (asked : Request) (op : Op) : Prop :=
  asked.initiates = some .enable2fa → ∀ method data,
    op = .initiate method data ∨ op = .resend method data → method = authenticatorVerification

theorem handle_initiatesByAuthenticator (app : App) (arrival : Arrival) :
    (handle app arrival.draws arrival.request).Meets
      (fun _ op => InitiatesByAuthenticator arrival.request op) (fun _ _ => True) (fun _ _ => True)
      [] := by
  by_cases enables : arrival.request.initiates = some .enable2fa
  · have asks : ∃ authorization, arrival.request = .user authorization .enable2faInitiate := by
      unfold Request.initiates at enables
      split at enables <;> grind
    obtain ⟨authorization, own⟩ := asks
    have quiet : ∀ (past : AccountTrace) op, op.authenticates = true →
        InitiatesByAuthenticator (.user authorization .enable2faInitiate) op := by
      rintro past op asks _ method data (rfl | rfl) <;> cases asks
    rw [own]
    simp only [handle, meets_bind]
    refine (authenticate_acts quiet authorization).mono (fun _ _ guarded => guarded)
      (fun later result _ => ?_) fun _ _ _ => trivial
    cases result with
    | next user =>
        simp [handleUser, UserService.initiateEnable2fa, UserService.initiate2faVerification,
          VerificationClient.initiateVerification, request, call, InitiatesByAuthenticator]
    | notAuthorized | notFound => trivial
  · exact Meets.under fun _ _ _ own => absurd own enables

theorem initiated_authenticator (reached : (accounts app).Reachable (.idle {}) state)
    {past : List AccountEvent} {thread : Nat} {email method id : String}
    (validated : CodeValidated app state past thread .enable2fa email method id) :
    method = authenticatorVerification := by
  obtain ⟨⟨added, extended⟩, before, input, result, ⟨rest, split⟩, _, earlier, initiator, call, verifier,
    opened, opens, ⟨own, _⟩, _, _, arrival, serving, initiates, _⟩ := validated
  have validates : Occurs state.log before ⟨thread, ⟨.validate method id input, .ok result⟩⟩ :=
    ⟨rest ++ added, by rw [← extended, split]; simp⟩
  obtain ⟨origin, choice, arrival', resume, start, _, awaiting, _, onward⟩ :=
    reached.event_origin (validates.trans opened)
  have serving' : Serving state initiator arrival' :=
    Serving.of_reachable ⟨_, awaiting⟩ ((System.Reachable.initial.step _).trans onward)
  obtain rfl := serving.unique serving'
  obtain ⟨data, _, same, _⟩ := opens
  have guard := (start.guarded (handle_initiatesByAuthenticator app) awaiting).1 initiates
  rw [← own]
  rcases same with rfl | rfl
  · exact guard verifier.method data (.inl rfl)
  · exact guard verifier.method data (.inr rfl)

/-- In every interleaving, an investor whose codes come from an authenticator has
had a code of it validated to turn it on. -/
theorem second_factor_owner (reached : (accounts app).Reachable (.idle {}) state) {id : ObjectID}
    {investor : Investor} (stored : state.world.investors.lookup id = some investor)
    (authenticates : investor.defaultVerificationMethod = authenticatorVerification) :
    ∃ past thread arrival authorization verification, Serving state thread arrival ∧
      arrival.request = .user authorization (.enable2faVerify verification) ∧
      verification.method = authenticatorVerification ∧
      CodeValidated app state past thread .enable2fa investor.email authenticatorVerification
        verification.verificationId := by
  obtain ⟨past, thread, signedUp | brings⟩ :=
    (columnInvariant secondFactor reached).stored id investor stored
  · obtain ⟨inserted, occurs, same⟩ := signedUp
    obtain ⟨_, arrival, _, _, _, _, _, guard, _⟩ := event_guarded reached occurs
    obtain ⟨_, _, _, _, rfl⟩ := guard
    have byMail := (congrArg Prod.snd same).trans authenticates
    exact absurd byMail (by decide : emailVerification ≠ authenticatorVerification)
  · obtain ⟨arrival, user, changed⟩ := brings.changed reached
    obtain ⟨saved, has, new, changes⟩ := changed.changes
    have sameEmail : user.val.email = investor.email :=
      changes.email.symm.trans (congrArg Prod.fst has)
    have turnsOn : saved.defaultVerificationMethod = authenticatorVerification :=
      (congrArg Prod.snd has).trans authenticates
    have turned : saved.defaultVerificationMethod ≠ user.val.defaultVerificationMethod := by
      intro same
      exact new (Prod.ext sameEmail (same.symm.trans (congrArg Prod.snd has)))
    have asks : ∃ authorization verification,
        arrival.request = .user authorization (.enable2faVerify verification) := by
      have different : emailVerification ≠ authenticatorVerification := by decide
      unfold Changes at changes
      split at changes <;> grind
    obtain ⟨authorization, verification, own⟩ := asks
    obtain ⟨code, asked, validated⟩ := changed.coded .enable2fa (by rw [own]; rfl)
    rw [own] at asked
    cases asked
    have byAuthenticator := initiated_authenticator reached validated
    rw [sameEmail, byAuthenticator] at validated
    exact ⟨past, thread, arrival, authorization, verification, changed.serving, own, byAuthenticator,
      validated⟩

/-- The newcomer is activated and turns the authenticator on. -/
def authenticatorOn : AccountState :=
  after .plain (signUp ++ activation 1 ++
    .start { request := .user (some "Bearer t1") .enable2faInitiate } ::
    List.replicate 4 (.resume 2 { verificationId := "v2", code := "222222" }) ++
    .start
      { request := .user (some "Bearer t1") (.enable2faVerify
          { verificationId := "v2", code := "222222", method := "google_auth" }) } ::
    List.replicate 6 (.resume 3 {}))

theorem newcomer_second_factor : ∃ past thread arrival authorization verification,
    Serving authenticatorOn thread arrival ∧
    arrival.request = .user authorization (.enable2faVerify verification) ∧
    verification.method = authenticatorVerification ∧
    CodeValidated .plain authenticatorOn past thread .enable2fa "ann@example.com"
      authenticatorVerification verification.verificationId := by
  have stored : authenticatorOn.world.investors.lookup 1 =
      some { newcomerDoc.val with defaultVerificationMethod := "google_auth" } := by
    with_unfolding_all rfl
  exact second_factor_owner (System.reachable_run _ _) stored rfl

end IcoDashboard.Accounts
