import IcoDashboard.Accounts.Referrals
import IcoDashboard.Accounts.Sessions

namespace IcoDashboard.Accounts

open IcoDashboard.Async IcoDashboard.Async.Program IcoDashboard.Data

/-! # References of KYC sessions

A callback is brought to its investor by the reference of the session, through the
records.  Anyone can send a callback, and it is recorded before its signature is
checked; but it is recorded for the investor that the reference already has.
-/

variable {app : App} {arrival : Arrival} {past : AccountTrace}

/-- The requests that may open a session. -/
def Request.opensSession : Request → Bool
  | .activate _ | .user _ .kycInit | .user _ .kycReinit => true
  | _ => false

/-- The references that `uuid.v4` draws for a request. -/
def Draws.reference (draws : Draws) (again : Bool) : String :=
  if again then draws.uuidAgain else draws.uuid

/-- What `localInitKycProcess` records. -/
def localRecord (reference timestamp : String) (user : ObjectID) : ShuftiproKycResult where
  message := some "Local init"
  reference := some reference
  timestamp := some timestamp
  user := some user

/-! ## The calls -/

/-- The reference, if any, is that of an answer of the provider to a session that
was recorded for the user under a drawn reference. -/
def Sourced (draws : Draws) (past : AccountTrace) (user : ObjectID) (reference : Option String) :
    Prop :=
  reference = none ∨ ∃ again data response timestamp id, data.reference = draws.reference again ∧
    ⟨.insertKycResult (localRecord data.reference timestamp user), .ok id⟩ ∈ past ∧
    ⟨.shuftiproInit data, .ok response⟩ ∈ past ∧ response.error = false ∧
    reference = response.reference

/-- The investor was found by the reference of a callback. -/
def FoundBy (past : AccountTrace) (reference : Option String) (investor : Doc ObjectID Investor) :
    Prop :=
  ∃ stored, ⟨.findKycResult reference, .ok stored⟩ ∈ past ∧
    ⟨.findInvestor (ShuftiproProvider.callbackQuery stored reference), .ok (some investor)⟩ ∈ past

/-- What a request records. -/
def RecordGuard (arrival : Arrival) (past : AccountTrace) (record : ShuftiproKycResult) : Prop :=
  match arrival.request with
  | .kycCallback (.shuftipro result) => record.reference = result.reference ∧
      ∃ investor, FoundBy past result.reference investor ∧ record.user = some investor.id
  | request => request.opensSession = true ∧
      ∃ query user, acting past = some (query, user) ∧ record.user = some user.id ∧
        ((∃ again timestamp, record =
            localRecord (arrival.draws.reference again) timestamp user.id) ∨
          Sourced arrival.draws past user.id record.reference)

/-- The last result that a request stores with an investor. -/
def ResultGuard (arrival : Arrival) (past : AccountTrace) (user : Doc ObjectID Investor)
    (kycInitResult : Option KycInitResult) : Prop :=
  match arrival.request with
  | .kycCallback (.shuftipro result) => FoundBy past result.reference user ∧
      (kycInitResult = user.val.kycInitResult ∨
        kycInitResult.bind KycInitResult.reference = result.reference)
  | .kycCallback (.jumio _) => kycInitResult = user.val.kycInitResult
  | request => request.opensSession = true ∧
      Sourced arrival.draws past user.id (kycInitResult.bind KycInitResult.reference)

def ReferenceGuard (arrival : Arrival) (past : AccountTrace) : Op → Prop
  | .insertKycResult record => RecordGuard arrival past record
  | .saveInvestor saved => ∃ query user, acting past = some (query, user) ∧ saved.id = user.id ∧
      ResultGuard arrival past user saved.val.kycInitResult
  | .insertInvestor _ => False
  | _ => True

theorem Sourced.extended {draws : Draws} {later : AccountTrace} {user : ObjectID}
    {reference : Option String} (sourced : Sourced draws past user reference)
    (extended : past <+: later) : Sourced draws later user reference := by
  rcases sourced with none | ⟨again, data, response, timestamp, id, drawn, recorded, answered, fine,
    same⟩
  · exact .inl none
  · exact .inr ⟨again, data, response, timestamp, id, drawn, extended.subset recorded,
      extended.subset answered, fine, same⟩

section Opening

variable {query : InvestorQuery} {user : Doc ObjectID Investor}

theorem recordGuard_opens (opens : arrival.request.opensSession = true)
    {record : ShuftiproKycResult} (acts : acting past = some (query, user))
    (own : record.user = some user.id)
    (known : (∃ again timestamp, record =
        localRecord (arrival.draws.reference again) timestamp user.id) ∨
      Sourced arrival.draws past user.id record.reference) : RecordGuard arrival past record := by
  unfold RecordGuard
  split
  · rename_i asked
    rw [asked] at opens
    cases opens
  · exact ⟨opens, query, user, acts, own, known⟩

theorem resultGuard_opens (opens : arrival.request.opensSession = true)
    {kycInitResult : Option KycInitResult}
    (sourced : Sourced arrival.draws past user.id (kycInitResult.bind KycInitResult.reference)) :
    ResultGuard arrival past user kycInitResult := by
  unfold ResultGuard
  split
  · rename_i asked
    rw [asked] at opens
    cases opens
  · rename_i asked
    rw [asked] at opens
    cases opens
  · exact ⟨opens, sourced⟩

/-- `init` records the session for the user before it is posted, and the answer
after it. -/
theorem init_references (opens : arrival.request.opensSession = true)
    (acts : acting past = some (query, user)) {investor : Doc ObjectID Investor}
    (own : investor.id = user.id) {draws : Draws} {again : Bool}
    (drawn : draws.uuid = arrival.draws.reference again) :
    (ShuftiproProvider.init app investor draws).Meets (ReferenceGuard arrival)
      (fun later result => Sourced arrival.draws later user.id result.reference) (fun _ _ => True)
      past := by
  unfold ShuftiproProvider.init
  split
  · simp only [ShuftiproProvider.localInitKycProcess, ShuftiproProvider.saveKycInitResult, request,
      call, meets_bind, meets_await, meets_done, meets_fail, meets_pure, meets_throwIf, implies_true,
      true_and, and_true]
    have opened : ReferenceGuard arrival past (.insertKycResult
        (localRecord draws.uuid (draws.clock 0) user.id)) :=
      recordGuard_opens opens acts rfl (.inl ⟨again, draws.clock 0, by rw [drawn]⟩)
    rw [own]
    refine ⟨opened, fun id => ⟨trivial, fun response fine _ => ?_⟩⟩
    have sourced : Sourced arrival.draws
        (past ++ [⟨.insertKycResult (localRecord draws.uuid (draws.clock 0) user.id), .ok id⟩] ++
          [⟨.shuftiproInit (ShuftiproProvider.preparePostData app investor.val draws.uuid),
            .ok response⟩]) user.id response.reference :=
      .inr ⟨again, ShuftiproProvider.preparePostData app investor.val draws.uuid, response,
        draws.clock 0, id, drawn, by simp [ShuftiproProvider.preparePostData], by simp,
        by simpa using fine, rfl⟩
    refine ⟨?_, fun answered => sourced.extended (List.prefix_append _ _)⟩
    exact recordGuard_opens opens (acting_append (acting_append acts _) _) rfl (.inr sourced)
  · exact .inl rfl

/-- A new session is saved with the user it was opened for. -/
theorem createNewKycProcess_references (opens : arrival.request.opensSession = true)
    (acts : acting past = some (query, user)) {draws : Draws} {again : Bool}
    (drawn : draws.uuid = arrival.draws.reference again) :
    (ShuftiproProvider.createNewKycProcess app user draws).Meets (ReferenceGuard arrival)
      (fun _ _ => True) (fun _ _ => True) past := by
  simp only [ShuftiproProvider.createNewKycProcess, meets_bind]
  refine (@init_references app _ _ _ _ opens acts user rfl _ _ drawn).extending.mono
    (fun _ _ guarded => guarded) (fun later result ended => ?_) fun _ _ _ => trivial
  simp only [request, call, meets_await, meets_done, meets_fail, meets_pure, implies_true, and_true]
  exact ⟨query, user, acting_extended ended.1 acts, rfl, resultGuard_opens opens ended.2⟩

theorem updateKycInit_references (opens : arrival.request.opensSession = true)
    (acts : acting past = some (query, user)) :
    (ShuftiproProvider.updateKycInit app user arrival.draws).Meets (ReferenceGuard arrival)
      (fun _ _ => True) (fun _ _ => True) past := by
  have asks : (ShuftiproProvider.getKycStatus app user.val (arrival.draws.clock 3)).Meets
      (ReferenceGuard arrival) (fun _ _ => True) (fun _ _ => True) past := by
    simp only [ShuftiproProvider.getKycStatus, request, call, meets_bind, meets_await, meets_done,
      meets_fail, meets_orThrow, ReferenceGuard, implies_true, and_true, true_and]
    intro kycInitResult found response
    split <;> simp
  have renews : ∀ (draws : Draws) again later, past <+: later →
      draws.uuid = arrival.draws.reference again →
      (ShuftiproProvider.createNewKycProcess app user draws).Meets (ReferenceGuard arrival)
        (fun _ _ => True) (fun _ _ => True) later := fun _ _ _ extended drawn =>
    createNewKycProcess_references opens (acting_extended extended acts) drawn
  simp only [ShuftiproProvider.updateKycInit, meets_tryCatch, meets_bind]
  refine asks.afterEither (fun later status extended => ?_) (fun later error extended => ?_)
  · simp only [meets_ite, meets_bind, meets_pure, implies_true, and_true]
    intro _
    refine (renews arrival.draws false later extended rfl).afterEither (fun _ _ _ => trivial)
      fun later' error extended' => ?_
    simp only [meets_throw, implies_true, and_true]
    exact fun _ => renews arrival.draws.again true later' (extended.trans extended') rfl
  · simp only [meets_ite, meets_bind, meets_pure, meets_throw, implies_true, and_true]
    exact fun _ => renews arrival.draws.again true later extended rfl

/-- The calls that neither record nor write. -/
def Recordless : Op → Prop
  | .insertKycResult _ | .saveInvestor _ | .insertInvestor _ => False
  | _ => True

theorem references_of_recordless {program : Handler α}
    (recordless : program.Meets (fun _ op => Recordless op) (fun _ _ => True) (fun _ _ => True) past) :
    program.Meets (ReferenceGuard arrival) (fun _ _ => True) (fun _ _ => True) past :=
  recordless.mono (fun _ op _ => by cases op <;> trivial) (fun _ _ _ => trivial) fun _ _ _ => trivial

theorem kycInit_references (opens : arrival.request.opensSession = true)
    (acts : acting past = some (query, user)) {investor : Doc ObjectID Investor}
    (own : investor.id = user.id) :
    (KycProvider.init app investor arrival.draws).Meets (ReferenceGuard arrival)
      (fun later result => Sourced arrival.draws later user.id result.reference) (fun _ _ => True)
      past := by
  unfold KycProvider.init
  split
  · simp only [meets_bind, meets_pure]
    exact (init_references opens acts own (rfl : _ = arrival.draws.reference false)).mono
      (fun _ _ guarded => guarded) (fun _ _ sourced => sourced) fun _ _ _ => trivial
  · simp only [JumioProvider.init, meets_bind, meets_pure]
    split
    · simp only [request, call, meets_await, meets_done, meets_fail, implies_true, and_true]
      exact ⟨trivial, fun _ => .inl rfl⟩
    · exact .inl rfl

/-- A session is asked for only when the last one is no longer of use. -/
theorem kycStatus_references (opens : arrival.request.opensSession = true)
    (acts : acting past = some (query, user)) :
    (KycProvider.getInitStatus app user arrival.draws).Meets (ReferenceGuard arrival)
      (fun _ _ => True) (fun _ _ => True) past := by
  unfold KycProvider.getInitStatus
  split
  · simp only [ShuftiproProvider.processKycStatus, meets_bind, meets_throwIf, meets_orThrow,
      meets_ite, meets_pure, implies_true, true_and, and_true]
    intro _ _ _ _ _ _
    exact updateKycInit_references opens acts
  · simp [JumioProvider.getInitStatus]

theorem kycReinit_references (opens : arrival.request.opensSession = true)
    (acts : acting past = some (query, user)) :
    (KycProvider.reinit app user arrival.draws).Meets (ReferenceGuard arrival)
      (fun _ _ => True) (fun _ _ => True) past := by
  unfold KycProvider.reinit
  split
  · exact updateKycInit_references opens acts
  · trivial

theorem activate_references {activationData : ActivationUserData}
    (asked : arrival.request = .activate activationData) :
    (UserService.activate app activationData arrival.draws).Meets (ReferenceGuard arrival)
      (fun _ _ => True) (fun _ _ => True) [] := by
  have opens : arrival.request.opensSession = true := by rw [asked]; rfl
  simp only [UserService.activate, UserService.findUser, findInvestor, request, call, meets_bind,
    meets_await, meets_done, meets_fail, meets_orThrow, meets_throwIf, meets_pure, implies_true,
    and_true, true_and]
  refine ⟨trivial, fun found user same _ => ?_⟩
  subst same
  have acts : acting [⟨.findInvestor (.email (app.toLowerCase activationData.email)), .ok (some user)⟩] =
      some (.email (app.toLowerCase activationData.email), user) := rfl
  refine (references_of_recordless (check_calls _ _ _ _ (fun _ _ => trivial)
    (fun _ _ _ => trivial) fun _ _ => trivial)).after fun checked _ extended => ?_
  refine (references_of_recordless (addReferral_calls _ _ (fun _ => trivial)
    fun _ _ => trivial)).after fun referred _ extended' => ?_
  have acts' := acting_extended (extended.trans extended') acts
  refine (kycInit_references opens acts' rfl).extending.mono (fun _ _ guarded => guarded)
    (fun later kycInitResult ended => ?_) fun _ _ _ => trivial
  have saves : ReferenceGuard arrival later (.saveInvestor
      ⟨user.id, activatedUser app arrival.draws user.val kycInitResult⟩) :=
    ⟨_, user, acting_extended ended.1 acts', rfl, resultGuard_opens opens ended.2⟩
  simp only [UserService.storeActivation, request, call, meets_bind, meets_await, meets_done,
    meets_fail, meets_pure, implies_true, and_true]
  exact ⟨saves, fun _ => ⟨trivial, fun _ => ⟨trivial, fun _ =>
    references_of_recordless (notifyActivation_calls _ _ (fun _ _ => trivial) (fun _ => trivial)
      fun _ _ _ _ _ => trivial)⟩⟩⟩

end Opening

/-! ## The callbacks -/

/-- A verdict changes the status, and keeps the result or stores that of the callback. -/
theorem applyKycResult_result (investor : Doc ObjectID Investor) (kycResult : ShuftiproKycResult) :
    (ShuftiproProvider.applyKycResult investor kycResult).Meets (ReferenceGuard arrival)
      (fun later saved => past <+: later ∧ saved.id = investor.id ∧
        (saved.val.kycInitResult = investor.val.kycInitResult ∨
          saved.val.kycInitResult = some (.shuftiproKyc kycResult))) (fun _ _ => True) past := by
  simp [ShuftiproProvider.applyKycResult, request, call, ReferenceGuard]

theorem processCallback_references {result : ShuftiproInitResult} (timestamp : String)
    (asked : arrival.request = .kycCallback (.shuftipro result)) :
    (ShuftiproProvider.processCallback app result timestamp).Meets (ReferenceGuard arrival)
      (fun _ _ => True) (fun _ _ => True) [] := by
  simp only [ShuftiproProvider.processCallback, findInvestor, request, call, meets_bind, meets_await,
    meets_done, meets_fail, meets_pure, meets_ite, meets_throwIf, meets_orThrow, implies_true,
    and_true, true_and]
  refine ⟨trivial, fun stored => ⟨trivial, fun found investor same => ?_⟩⟩
  subst same
  have foundBy : ∀ later, [⟨.findKycResult result.reference, .ok stored⟩,
      ⟨.findInvestor (ShuftiproProvider.callbackQuery stored result.reference),
        .ok (some investor)⟩] <+: later → FoundBy later result.reference investor :=
    fun later extended => ⟨stored, extended.subset (by simp), extended.subset (by simp)⟩
  refine ⟨?_, fun id _ _ => ?_⟩
  · rw [ReferenceGuard, RecordGuard, asked]
    exact ⟨rfl, investor, foundBy _ (List.prefix_refl _), rfl⟩
  · refine (applyKycResult_result investor _).mono (fun _ _ guarded => guarded)
      (fun later saved applied => ?_) fun _ _ _ => trivial
    obtain ⟨extended, sameId, kept⟩ := applied
    refine ⟨_, investor, acting_extended extended rfl, sameId, ?_⟩
    rw [ResultGuard, asked]
    refine ⟨foundBy later ((List.prefix_append _ _).trans extended), ?_⟩
    rcases kept with same | replaced
    · exact .inl same
    · exact .inr (by rw [replaced]; rfl)

theorem jumioCallback_recordless (result : JumioResult) :
    (JumioProvider.callback result).Meets
      (fun _ op => ∀ record, op ≠ .insertKycResult record) (fun _ _ => True) (fun _ _ => True)
      past := by
  simp only [JumioProvider.callback, request, call, meets_bind, meets_await, meets_done, meets_fail,
    meets_orThrow, implies_true, and_true]
  refine ⟨by simp, fun _ id _ => ⟨by simp, fun found => ?_⟩⟩
  split <;> simp [JumioProvider.applyVerificationResult, request, call]

theorem jumioCallback_references (app : App) {result : JumioResult}
    (asked : arrival.request = .kycCallback (.jumio result)) :
    (JumioProvider.callback result).Meets (ReferenceGuard arrival) (fun _ _ => True)
      (fun _ _ => True) [] := by
  refine ((@jumioCallback_meets app _ result asked).both (jumioCallback_recordless result)).mono
    (fun past op guards => ?_) (fun _ _ _ => trivial) fun _ _ _ => trivial
  obtain ⟨guard, recordless⟩ := guards
  cases op with
  | insertKycResult record => exact absurd rfl (recordless record)
  | saveInvestor saved =>
      obtain ⟨query, user, acts, sameId, changes⟩ := guard
      rw [asked] at changes
      obtain ⟨_, kycStatus, changed⟩ := changes
      refine ⟨query, user, acts, sameId, ?_⟩
      rw [ResultGuard, asked, changed]
  | insertInvestor investor =>
      obtain ⟨_, _, _, created, _⟩ := guard
      rw [asked] at created
      cases created
  | _ => trivial

/-! ## Every request of the sessions -/

/-- The requests of the KYC sessions. -/
def Request.usesSessions (request : Request) : Bool := request.opensSession || request.asksKyc

theorem handle_references (app : App) (arrival : Arrival) :
    (handle app arrival.draws arrival.request).Meets
      (fun past op => arrival.request.usesSessions = true → ReferenceGuard arrival past op)
      (fun _ _ => True) (fun _ _ => True) [] := by
  by_cases uses : arrival.request.usesSessions = true
  · have guarded : (handle app arrival.draws arrival.request).Meets (ReferenceGuard arrival)
        (fun _ _ => True) (fun _ _ => True) [] := by
      cases asked : arrival.request with
      | activate activationData =>
          simp only [handle, meets_bind, meets_pure]
          exact activate_references asked
      | kycCallback body =>
          simp only [handle, KycProvider.callback, meets_bind, meets_pure]
          cases body with
          | shuftipro result => exact processCallback_references _ asked
          | jumio result => exact jumioCallback_references app asked
      | user authorization userRequest =>
          refine userRoute_meets (fun _ op _ reads => by cases op <;> trivial)
            (fun query token login user _ => ?_) (fun _ _ => ⟨trivial, trivial⟩) fun _ _ _ => trivial
          have acts := acting_authTrace query token login user
          cases userRequest with
          | kycInit =>
              have opens : arrival.request.opensSession = true := by rw [asked]; rfl
              simp only [handleUser, meets_bind, meets_pure]
              exact kycStatus_references opens acts
          | kycReinit =>
              have opens : arrival.request.opensSession = true := by rw [asked]; rfl
              simp only [handleUser, meets_bind, meets_pure]
              exact kycReinit_references opens acts
          | _ => rw [asked] at uses; cases uses
      | _ => rw [asked] at uses; cases uses
    exact guarded.mono (fun _ _ guard _ => guard) (fun _ _ _ => trivial) fun _ _ _ => trivial
  · exact Meets.under fun _ _ _ used => absurd used uses

end IcoDashboard.Accounts
