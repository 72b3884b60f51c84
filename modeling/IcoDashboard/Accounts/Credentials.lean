import IcoDashboard.Accounts.Alone

namespace IcoDashboard.Accounts

open IcoDashboard.Async IcoDashboard.Async.Program IcoDashboard.Data

/-! # Credentials

The email, password hash and scope of an investor, and the record of it that the
auth service is given.  Three requests change them: each writes the investor
first and creates the record after that.
-/

structure Credential where
  email : String
  passwordHash : String
  scope : Option String
deriving DecidableEq

def credential (investor : Investor) : Credential where
  email := investor.email
  passwordHash := investor.passwordHash
  scope := investor.scope

def credentialOf (investors : Collection ObjectID Investor) (id : ObjectID) : Option Credential :=
  (investors.lookup id).map credential

variable {app : App} {asked : Request} {trace : AccountTrace}

/-! ## The calls of a request that writes a record -/

/-- The records that the auth service has accepted. -/
def created (trace : AccountTrace) : List AuthUserData :=
  trace.filterMap fun
    | ⟨.createUser data, .ok _⟩ => some data
    | _ => none

/-- The record that a request makes of the investor it has written. -/
def authRecord (app : App) (request : Request) (investor : Investor) : AuthUserData :=
  match request with
  | .user _ (.verifyChangePassword params) =>
      { email := app.toLowerCase investor.email
        login := app.toLowerCase investor.email
        password := investor.passwordHash
        sub := (params.verification.map VerificationData.verificationId).getD ""
        scope := if truthy investor.scope then investor.scope else none }
  | .verifyResetPassword params =>
      { email := app.toLowerCase investor.email
        login := app.toLowerCase investor.email
        password := investor.passwordHash
        sub := params.verification.verificationId }
  | _ => Transformers.transformInvestorForAuth investor

def InvestorWrite.investor : InvestorWrite → Doc ObjectID Investor
  | .save investor => investor
  | .insert investor => investor

/-- A rejection that keeps the record of a written investor from the auth
service. -/
def losesRecord (app : App) : Call Op Ans Exception → Bool
  | ⟨.createUser _, .error _⟩ => true
  | ⟨.renderTemplate name _, .error _⟩ =>
      name == "success-password-change" && EmailTemplateService.isRequired app name
  | _ => false

/-- The writes and records of a trace. -/
structure HasDone (writes : List InvestorWrite) (records : List AuthUserData)
    (trace : AccountTrace) : Prop where
  writes : investorWrites trace = writes
  records : created trace = records

/-- How a request that writes a record ends: it has written nothing, or an
investor and its record, or a rejection has come between the two. -/
inductive Ends (app : App) (request : Request) (trace : AccountTrace) : Prop where
  | untouched (done : HasDone [] [] trace)
  | recreated (write : InvestorWrite)
      (done : HasDone [write] [authRecord app request write.investor.val] trace)
  | cutOff (write : InvestorWrite) (done : HasDone [write] [] trace)
      (loses : ∃ call ∈ trace, losesRecord app call = true)

theorem HasDone.append {writes moreWrites : List InvestorWrite}
    {records moreRecords : List AuthUserData} {added : AccountTrace}
    (done : HasDone writes records trace) (more : HasDone moreWrites moreRecords added) :
    HasDone (writes ++ moreWrites) (records ++ moreRecords) (trace ++ added) where
  writes := by rw [investorWrites_append, done.writes, more.writes]
  records := by rw [created, List.filterMap_append, ← created, ← created, done.records, more.records]

/-- The calls that neither write an investor nor a record. -/
def Aside : Op → Prop
  | .saveInvestor _ | .insertInvestor _ | .createUser _ => False
  | _ => True

theorem Aside.done {call : Call Op Ans Exception} (aside : Aside call.1) : HasDone [] [] [call] := by
  obtain ⟨op, answer⟩ := call
  cases op <;> first | exact ⟨rfl, rfl⟩ | exact aside.elim

theorem hasDone_aside {added : AccountTrace} (aside : ∀ call ∈ added, Aside call.1) :
    HasDone [] [] added := by
  induction added with
  | nil => exact ⟨rfl, rfl⟩
  | cons first rest ih =>
      have own : HasDone [] [] [first] := (aside first List.mem_cons_self).done
      have others : HasDone [] [] rest := ih fun call member => aside call (List.mem_cons_of_mem _ member)
      exact own.append others

section HasDone

variable {writes : List InvestorWrite} {records : List AuthUserData}

theorem HasDone.aside (done : HasDone writes records trace) {added : AccountTrace}
    (aside : ∀ call ∈ added, Aside call.1) : HasDone writes records (trace ++ added) := by
  have appended := done.append (hasDone_aside aside)
  rw [List.append_nil, List.append_nil] at appended
  exact appended

theorem HasDone.call (done : HasDone writes records trace) {op : Op}
    {answer : Except Exception (Ans op)} (aside : Aside op) :
    HasDone writes records (trace ++ [⟨op, answer⟩]) :=
  done.aside fun call member => by rw [List.mem_singleton.mp member]; exact aside

/-- Calls on the side change nothing of what was done. -/
theorem HasDone.through {program : Handler α} {onDone : AccountTrace → α → Prop}
    {onFail : AccountTrace → Exception → Prop} (done : HasDone writes records trace)
    (aside : program.Meets (fun _ op => Aside op) (fun _ _ => True) (fun _ _ => True) trace)
    (rest : ∀ later value, HasDone writes records later → onDone later value)
    (thrown : ∀ later error, HasDone writes records later → onFail later error) :
    program.Meets (fun _ _ => True) onDone onFail trace := by
  apply aside.through (fun _ _ _ => trivial)
  · exact fun added value all => rest _ value (done.aside all)
  · exact fun added error all => thrown _ error (done.aside all)

end HasDone

theorem request_aside {op : Op} (aside : Aside op) :
    (request op).Meets (fun _ op => Aside op) (fun _ _ => True) (fun _ _ => True) trace := by
  simp only [request, call, meets_await, meets_done, meets_fail, implies_true, and_true]
  exact aside

theorem check_aside (input : VerificationData) (consumer : String) (payload : Json.Object)
    (removeSecret : Option Bool) :
    (VerificationClient.checkVerificationPayloadAndCode app input consumer payload
      removeSecret).Meets (fun _ op => Aside op) (fun _ _ => True) (fun _ _ => True) trace :=
  check_calls input consumer payload removeSecret (fun _ _ => trivial) (fun _ _ _ => trivial)
    fun _ _ => trivial

theorem checkReferral_aside (referral : Option String) :
    (UserService.checkReferral app referral).Meets (fun _ op => Aside op) (fun _ _ => True)
      (fun _ _ => True) trace := by
  cases referral <;>
    simp [UserService.checkReferral, findInvestor, request, call, Aside]

theorem getRenderedTemplate_aside (name : String) (data : List (String × String)) :
    (EmailTemplateService.getRenderedTemplate app name data).Meets (fun _ op => Aside op)
      (fun _ _ => True) (fun _ _ => True) trace :=
  getRenderedTemplate_calls name data fun _ _ => trivial

theorem notify_aside (name : String) (data : List (String × String)) (mail : String → Mail) :
    (notify app name data mail).Meets (fun _ op => Aside op) (fun _ _ => True) (fun _ _ => True)
      trace :=
  notify_calls name data mail (fun _ _ => trivial) fun _ => trivial

theorem initiateVerification_aside (method : String) (data : InitiateData) :
    (VerificationClient.initiateVerification app method data).Meets (fun _ op => Aside op)
      (fun _ _ => True) (fun _ _ => True) trace :=
  initiateVerification_calls method data fun _ _ => trivial

theorem authenticate_aside (authorization : Option String) :
    (authenticate authorization).Meets (fun _ op => Aside op) (fun _ _ => True) (fun _ _ => True)
      trace := by
  unfold authenticate
  split
  · trivial
  · simp only [authenticateToken, request, call, meets_bind, meets_await, meets_done, meets_fail,
      Aside, implies_true, and_true, true_and]
    intro found
    cases found with
    | none => trivial
    | some token =>
        simp only [loadUser, request, call, meets_ite, meets_tryCatch, meets_bind, meets_await,
          meets_done, meets_fail, meets_pure, implies_true, and_true, true_and]
        intro verified login user
        cases user <;> trivial

/-- Once the investor is written, its record is created or the call is rejected. -/
theorem createUser_ends {write : InvestorWrite} {data : AuthUserData}
    {onDone : AccountTrace → Unit → Prop} (done : HasDone [write] [] trace)
    (own : data = authRecord app asked write.investor.val)
    (rest : ∀ later value, HasDone [write] [authRecord app asked write.investor.val] later →
      onDone later value) :
    (request (.createUser data)).Meets (fun _ _ => True) onDone
      (fun later _ => Ends app asked later) trace := by
  have accepted : HasDone [] [authRecord app asked write.investor.val]
      [⟨.createUser data, .ok ()⟩] := by
    rw [← own]
    exact ⟨rfl, rfl⟩
  have rejected : ∀ error, HasDone [] [] [⟨.createUser data, .error error⟩] :=
    fun _ => ⟨rfl, rfl⟩
  simp only [request, call, meets_await, meets_done, meets_fail, true_and]
  refine ⟨fun _ => rest _ _ (done.append accepted), fun error => ?_⟩
  exact .cutOff write (done.append (rejected error))
    ⟨_, List.mem_append_right _ List.mem_cons_self, rfl⟩

theorem insertInvestor_ends {investor : Investor} {onDone : AccountTrace → ObjectID → Prop}
    (done : HasDone [] [] trace)
    (rest : ∀ later id, HasDone [.insert ⟨id, investor⟩] [] later → onDone later id) :
    (request (.insertInvestor investor)).Meets (fun _ _ => True) onDone
      (fun later _ => Ends app asked later) trace := by
  have accepted : ∀ id, HasDone [.insert ⟨id, investor⟩] []
      [⟨.insertInvestor investor, .ok id⟩] := fun _ => ⟨rfl, rfl⟩
  have rejected : ∀ error, HasDone [] [] [⟨.insertInvestor investor, .error error⟩] :=
    fun _ => ⟨rfl, rfl⟩
  simp only [request, call, meets_await, meets_done, meets_fail, true_and]
  exact ⟨fun id => rest _ _ (done.append (accepted id)),
    fun error => .untouched (done.append (rejected error))⟩

theorem saveInvestor_ends {investor : Doc ObjectID Investor} {onDone : AccountTrace → Unit → Prop}
    (done : HasDone [] [] trace)
    (rest : ∀ later value, HasDone [.save investor] [] later → onDone later value) :
    (request (.saveInvestor investor)).Meets (fun _ _ => True) onDone
      (fun later _ => Ends app asked later) trace := by
  have accepted : HasDone [.save investor] [] [⟨.saveInvestor investor, .ok ()⟩] := ⟨rfl, rfl⟩
  have rejected : ∀ error, HasDone [] [] [⟨.saveInvestor investor, .error error⟩] :=
    fun _ => ⟨rfl, rfl⟩
  simp only [request, call, meets_await, meets_done, meets_fail, true_and]
  exact ⟨fun _ => rest _ _ (done.append accepted),
    fun error => .untouched (done.append (rejected error))⟩

theorem create_ends (userData : UserData) (draws : Draws) :
    (UserService.create app userData draws).Meets (fun _ _ => True)
      (fun later _ => Ends app (.create userData) later)
      (fun later _ => Ends app (.create userData) later) [] := by
  have untouched : HasDone [] [] ([] : AccountTrace) := ⟨rfl, rfl⟩
  have throws : ∀ later (error : Exception), HasDone [] [] later →
      Ends app (.create userData) later := fun _ _ done => .untouched done
  simp only [UserService.create, meets_bind]
  refine untouched.through (request_aside trivial) (fun later existing done => ?_) throws
  rw [meets_throwIf]
  refine ⟨fun _ => .untouched done, fun _ => ?_⟩
  refine done.through (checkReferral_aside _) (fun later _ done => ?_) throws
  refine done.through (getRenderedTemplate_aside _ _) (fun later body done => ?_) throws
  refine done.through (initiateVerification_aside _ _) (fun later verification done => ?_) throws
  refine insertInvestor_ends done fun later id done => ?_
  refine createUser_ends done rfl fun later _ done => ?_
  exact .recreated _ done

theorem verifyResetPassword_ends (params : ResetPasswordInput) (draws : Draws) :
    (UserService.verifyResetPassword app params draws).Meets (fun _ _ => True)
      (fun later _ => Ends app (.verifyResetPassword params) later)
      (fun later _ => Ends app (.verifyResetPassword params) later) [] := by
  have untouched : HasDone [] [] ([] : AccountTrace) := ⟨rfl, rfl⟩
  have throws : ∀ later (error : Exception), HasDone [] [] later →
      Ends app (.verifyResetPassword params) later := fun _ _ done => .untouched done
  simp only [UserService.verifyResetPassword, meets_bind]
  have found : (UserService.findUser (app.toLowerCase params.email)).Meets
      (fun _ op => Aside op) (fun _ _ => True) (fun _ _ => True) ([] : AccountTrace) := by
    simp [UserService.findUser, findInvestor, request, call, Aside]
  refine untouched.through found (fun later user done => ?_) throws
  refine done.through (check_aside _ _ _ _) (fun later result done => ?_) throws
  refine saveInvestor_ends done fun later _ done => ?_
  refine createUser_ends done rfl fun later _ done => ?_
  refine done.through (notify_aside _ _ _) (fun later _ done => ?_) fun later _ done => ?_
  · exact .recreated _ done
  · exact .recreated _ done

/-- The mail about a changed password is rendered before the record is created. -/
theorem notifyChange_ends {write : InvestorWrite} {onDone : AccountTrace → Unit → Prop}
    {authorization : Option String} {params : ChangePasswordInput} (data : List (String × String))
    (mail : String → Mail) (done : HasDone [write] [] trace)
    (rest : ∀ later value, HasDone [write] [] later → onDone later value) :
    (notify app "success-password-change" data mail).Meets (fun _ _ => True) onDone
      (fun later _ => Ends app (.user authorization (.verifyChangePassword params)) later) trace := by
  simp only [notify, EmailTemplateService.getRenderedTemplate, request, fire, call, meets_bind,
    meets_tryCatch, meets_ite, meets_await, meets_done, meets_fail, meets_pure, meets_throw, true_and]
  have rendered : ∀ answer, HasDone [write] []
      (trace ++ [⟨.renderTemplate "success-password-change" data, answer⟩]) :=
    fun _ => done.call trivial
  refine ⟨fun text => ⟨fun _ => ?_, fun _ => ⟨fun _ => ?_, fun _ => ?_⟩⟩,
    fun error => ⟨fun required => ?_, fun _ => ⟨fun _ => ?_, fun absurdity => ?_⟩⟩⟩
  · exact rest _ _ (rendered _)
  · exact rest _ _ ((rendered _).call trivial)
  · exact rest _ _ ((rendered _).call trivial)
  · exact .cutOff write (rendered _) ⟨_, List.mem_append_right _ List.mem_cons_self, required⟩
  · exact rest _ _ (rendered _)
  · exact absurd trivial absurdity

theorem verifyChangePassword_ends (authorization : Option String) (user : Doc ObjectID Investor)
    (params : ChangePasswordInput) (draws : Draws) (untouched : HasDone [] [] trace) :
    (UserService.verifyChangePassword app user params draws).Meets (fun _ _ => True)
      (fun later _ => Ends app (.user authorization (.verifyChangePassword params)) later)
      (fun later _ => Ends app (.user authorization (.verifyChangePassword params)) later)
      trace := by
  simp only [UserService.verifyChangePassword, meets_bind, meets_throwIf, meets_orThrow]
  refine ⟨fun passwordMatch _ => ⟨fun _ => .untouched untouched, fun _ =>
    ⟨fun verification given => ?_, fun _ => .untouched untouched⟩⟩, fun _ => .untouched untouched⟩
  refine untouched.through (check_aside _ _ _ _) (fun later result done => ?_)
    fun _ _ done => .untouched done
  refine saveInvestor_ends done fun later _ done => ?_
  refine notifyChange_ends _ _ done fun later _ done => ?_
  have own : ∀ investor : Investor, authRecord app (.user authorization (.verifyChangePassword params))
      investor =
        { email := app.toLowerCase investor.email
          login := app.toLowerCase investor.email
          password := investor.passwordHash
          sub := verification.verificationId
          scope := if truthy investor.scope then investor.scope else none } := by
    intro investor
    rw [authRecord, given]
    rfl
  refine createUser_ends done (own _).symm fun later _ done => ?_
  refine done.through (request_aside trivial) (fun later loginResult done => ?_)
    fun _ _ done => .recreated _ done
  refine done.through (request_aside trivial) (fun later id done => ?_)
    fun _ _ done => .recreated _ done
  exact .recreated _ done

/-- A request that writes a record does so after it has written the investor. -/
theorem handle_ends (app : App) (arrival : Arrival) (recreates : arrival.request.recreates = true) :
    (handle app arrival.draws arrival.request).Meets (fun _ _ => True)
      (fun later _ => Ends app arrival.request later)
      (fun later _ => Ends app arrival.request later) [] := by
  have untouched : HasDone [] [] ([] : AccountTrace) := ⟨rfl, rfl⟩
  cases asked : arrival.request with
  | create userData =>
      simp only [handle, meets_bind, meets_pure]
      exact create_ends userData arrival.draws
  | verifyResetPassword params =>
      simp only [handle, meets_bind, meets_pure]
      exact verifyResetPassword_ends params arrival.draws
  | user authorization userRequest =>
      cases userRequest with
      | verifyChangePassword params =>
          simp only [handle, meets_bind]
          refine untouched.through (authenticate_aside authorization) (fun later result done => ?_)
            fun _ _ done => .untouched done
          cases result with
          | next user =>
              simp only [handleUser, meets_bind, meets_pure]
              exact verifyChangePassword_ends authorization user params arrival.draws done
          | notAuthorized => exact .untouched done
          | notFound => exact .untouched done
      | _ =>
          rw [asked] at recreates
          cases recreates
  | _ =>
      rw [asked] at recreates
      cases recreates

/-! ## What becomes of the stored credentials -/

theorem credentialOf_save {investors : Collection ObjectID Investor} {saved : Doc ObjectID Investor}
    {stored : Investor} (found : investors.lookup saved.id = some stored) (id : ObjectID) :
    credentialOf (investors.save Investor.write saved) id =
      if id = saved.id then some (credential saved.val) else credentialOf investors id := by
  unfold credentialOf
  rw [Collection.lookup_save]
  by_cases own : id = saved.id
  · rw [if_pos own, if_pos own, own, found, Option.map_some, Option.map_some]
    rfl
  · rw [if_neg own, if_neg own]

theorem Changes.scope {draws : Draws} {loaded saved : Investor}
    (changes : Changes app draws loaded saved asked) : saved.scope = loaded.scope := by
  unfold Changes at changes
  split at changes <;> grind

theorem Changes.credential {draws : Draws} {loaded saved : Investor}
    (changes : Changes app draws loaded saved asked) (other : asked.recreates = false) :
    credential saved = credential loaded := by
  unfold Changes at changes
  split at changes <;> grind [Accounts.credential, Request.recreates]

/-- While a request that writes no record runs, the credentials stay. -/
structure CredentialsKept (before : Collection ObjectID Investor) (past : AccountTrace)
    (world : World) : Prop where
  same : credentialOf world.investors = credentialOf before
  acts : ∀ query user, acting past = some (query, user) →
    credentialOf before user.id = some (credential user.val)

theorem CredentialsKept.step {arrival : Arrival} {before : Collection ObjectID Investor}
    {world : World} {past : AccountTrace} {op : Op} {choice : Choice}
    (other : arrival.request.recreates = false) (guard : Guard app arrival past op)
    (kept : CredentialsKept before past world) :
    CredentialsKept before (past ++ [⟨op, (perform choice op world).1⟩])
      (perform choice op world).2 := by
  have preserves : arrival.request.Preserves app credential :=
    fun _ _ _ changes => changes.credential other
  have acted : ∀ query user, acting past = some (query, user) →
      viewOf credential world.investors user.id = some (credential user.val) := by
    intro query user acts
    exact (congrFun kept.same user.id).trans (kept.acts query user acts)
  have same : credentialOf (perform choice op world).2.investors = credentialOf before := by
    rcases viewOf_call preserves choice guard acted with
      unchanged | ⟨_, _, ⟨_, _, _, created, _⟩, _⟩
    · exact unchanged.trans kept.same
    · rw [created] at other
      cases other
  refine ⟨same, fun query user acts => ?_⟩
  rcases acting_snoc acts with old | loaded
  · exact kept.acts query user old
  · rw [← same, credentialOf, loaded_stored loaded]
    rfl

theorem CredentialsKept.start (before : World) :
    CredentialsKept before.investors ([] : AccountTrace) before where
  same := rfl
  acts _ _ acts := nomatch acts

/-- One investor has new credentials: a new password, or it is a new one. -/
structure Writes (app : App) (before after : Collection ObjectID Investor) (id : ObjectID)
    (new : Credential) : Prop where
  stored : ∀ other, credentialOf after other =
    if other = id then some new else credentialOf before other
  former : (∃ old, credentialOf before id = some old ∧ old.email = new.email ∧
      old.scope = new.scope) ∨
    (credentialOf before id = none ∧ app.toLowerCase new.email = new.email ∧
      ∀ other old, credentialOf before other = some old → old.email ≠ new.email)

/-- What holds of the credentials at each call of a request that writes no
record, and at its end. -/
theorem credentialsKept {round : AccountRound} (ran : (accounts app).Ran round)
    (other : round.request.request.recreates = false) :
    CredentialsKept round.before.investors round.trace round.after ∧
      ∀ front call later, round.trace = front ++ call :: later →
        ∃ world, CredentialsKept round.before.investors front world := by
  have step : ∀ past op world choice, Guard app round.request past op →
      CredentialsKept round.before.investors past world →
      CredentialsKept round.before.investors (past ++ [⟨op, (perform choice op world).1⟩])
        (perform choice op world).2 :=
    fun _ _ _ _ guard kept => kept.step other guard
  have start := CredentialsKept.start round.before
  refine ⟨ran.invariant (handle_meets app round.request) step start, ?_⟩
  intro front call later split
  obtain ⟨_, world, kept, _, _⟩ := ran.called (handle_meets app round.request) step start split
  exact ⟨world, kept⟩

/-- What a request has done to the credentials, and to the auth service. -/
inductive CredentialStep (app : App) (round : AccountRound) : Prop where
  | kept (same : credentialOf round.after.investors = credentialOf round.before.investors)
      (uncreated : created round.trace = [])
  | wrote (id : ObjectID) (investor : Investor)
      (writes : Writes app round.before.investors round.after.investors id (credential investor))
      (recreates : round.request.request.recreates = true)
      (records : created round.trace = [authRecord app round.request.request investor] ∨
        created round.trace = [] ∧ ∃ call ∈ round.trace, losesRecord app call = true)

theorem storedAfter_unwritten {before : World} {past : AccountTrace}
    (noWrite : investorWrites past = []) : storedAfter before past = before.investors := by
  rw [storedAfter, noWrite]
  rfl

/-- The only write of a request, as the store takes it. -/
theorem written_credentials {round : AccountRound} (ran : (accounts app).Ran round)
    {write : InvestorWrite} (writes : investorWrites round.trace = [write]) :
    Writes app round.before.investors round.after.investors write.investor.id
      (credential write.investor.val) := by
  have step : ∀ past op world choice, Guard app round.request past op →
      AloneInvariant round.before past world →
      AloneInvariant round.before (past ++ [⟨op, (perform choice op world).1⟩])
        (perform choice op world).2 :=
    fun _ op _ choice _ holds => holds.step op choice
  obtain ⟨front, ⟨op, answer⟩, later, split, unwritten, own, _⟩ :=
    List.filterMap_eq_cons_iff.mp writes
  have ended : round.after.investors = write.apply round.before.investors := by
    rw [investors_after ran, writes]
    rfl
  obtain ⟨choice, world, holds, guard, answered⟩ :=
    ran.called (handle_meets app round.request) step (.start round.before) split
  simp only [List.nil_append] at holds guard
  have noWrite : investorWrites front = [] := List.filterMap_eq_nil_iff.mpr unwritten
  have current : world.investors = round.before.investors :=
    holds.investors.trans (storedAfter_unwritten noWrite)
  have answered : answer = (perform choice op world).1 := answered
  have effect := perform_investors choice op world
  rw [← answered, current] at effect
  generalize (perform choice op world).2.investors = after at effect
  cases effect with
  | kept _ none =>
      rw [none] at own
      cases own
  | saved investor =>
      obtain rfl : InvestorWrite.save investor = write := Option.some.inj own
      obtain ⟨query, user, acts, sameId, changes⟩ := guard
      have stored := holds.unsaved query user acts noWrite
      rw [← sameId, current] at stored
      refine ⟨fun other => ?_, .inl ⟨credential user.val, ?_, ?_, changes.scope.symm⟩⟩
      · rw [ended]
        exact credentialOf_save stored other
      · exact congrArg (Option.map credential) stored
      · exact (changes.email app).symm
  | inserted investor id _ unused inserted =>
      obtain rfl : InvestorWrite.insert ⟨id, investor⟩ = write := Option.some.inj own
      obtain ⟨userData, passwordHash, verificationId, _, created⟩ := guard
      have applied : round.after.investors = after := by
        rw [ended, InvestorWrite.apply, inserted]
        rfl
      refine ⟨fun other => ?_, .inr ⟨?_, ?_, ?_⟩⟩
      · rw [applied]
        exact viewOf_insert inserted other
      · exact congrArg (Option.map credential) (Collection.insert_eq_some_iff.mp inserted).1
      · change app.toLowerCase investor.email = investor.email
        rw [created]
        exact app.toLowerCase_idem _
      · intro other old found
        obtain ⟨stored, lookup, same⟩ := Option.map_eq_some_iff.mp found
        have different := unused ⟨other, stored⟩ (Collection.lookup_eq_some_iff.mp lookup)
        rw [← same]
        exact different

theorem credential_step {round : AccountRound} (ran : (accounts app).Ran round) :
    CredentialStep app round := by
  by_cases recreates : round.request.request.recreates = true
  · obtain ⟨returned, thrown⟩ := ran.meets (handle_ends app round.request recreates)
    have ends : Ends app round.request.request round.trace := by
      cases outcome : round.outcome with
      | ok response => exact returned response outcome
      | error error => exact thrown error outcome
    cases ends with
    | untouched done =>
        refine .kept ?_ done.records
        rw [investors_after ran, done.writes]
        rfl
    | recreated write done =>
        exact .wrote _ _ (written_credentials ran done.writes) recreates (.inl done.records)
    | cutOff write done loses =>
        exact .wrote _ _ (written_credentials ran done.writes) recreates (.inr ⟨done.records, loses⟩)
  · have other : round.request.request.recreates = false := by simpa using recreates
    refine .kept (credentialsKept ran other).1.same (List.filterMap_eq_nil_iff.mpr fun call member => ?_)
    obtain ⟨op, answer⟩ := call
    cases op with
    | createUser data =>
        obtain ⟨front, later, split⟩ := List.mem_iff_append.mp member
        exact absurd (ran.guarded (handle_meets app round.request) split) recreates
    | _ => rfl

end IcoDashboard.Accounts
