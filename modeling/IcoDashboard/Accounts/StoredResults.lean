import IcoDashboard.Accounts.CallbackErrors
import IcoDashboard.Async.Rounds

namespace IcoDashboard.Accounts.ShuftiproProvider

open IcoDashboard.Async IcoDashboard.Async.Program IcoDashboard.Data

/-! # Stored KYC results

Three operations store a result with an investor, `processKycStatus` reads it.  The
answers of the provider name their status `status_code`, and a `ShuftiproKycResult`,
which is what is read, `statusCode`.
-/

/-- The status of a result, under the name that its shape has for it. -/
def statusOfResult : KycInitResult → Option String
  | .jumio _ => none
  | .shuftiproInit result => result.statusCode
  | .shuftiproKyc result => result.statusCode

inductive Writer where
  | init
  | createNewKycProcess
  | processCallback
deriving DecidableEq

/-- A result that an operation stores in a run.  A callback may also write back a
result that it has loaded. -/
inductive WrittenBy (app : App) : Writer → KycInitResult → Prop where
  | init {user : Doc ObjectID Investor} {draws : Draws} {world after : World} {trace : AccountTrace}
      {result : KycInitResult} (configured : app.config.kycProvider = .shuftipro)
      (ran : Executes perform (KycProvider.init app user draws) world trace (.ok result) after) :
      WrittenBy app .init result
  | createNewKycProcess {user saved : Doc ObjectID Investor} {draws : Draws} {world after : World}
      {trace : AccountTrace} {outcome : Except Exception ShuftiproInitResult} {result : KycInitResult}
      (ran : Executes perform (ShuftiproProvider.createNewKycProcess app user draws) world trace
        outcome after)
      (saves : ⟨.saveInvestor saved, .ok ()⟩ ∈ trace)
      (stored : saved.val.kycInitResult = some result) : WrittenBy app .createNewKycProcess result
  | processCallback {body : ShuftiproInitResult} {timestamp : String} {saved : Doc ObjectID Investor}
      {world after : World} {trace : AccountTrace} {outcome : Except Exception Unit}
      {result : KycInitResult}
      (ran : Executes perform (ShuftiproProvider.processCallback app body timestamp) world trace
        outcome after)
      (saves : ⟨.saveInvestor saved, .ok ()⟩ ∈ trace)
      (stored : saved.val.kycInitResult = some result)
      (new : ∀ query loaded, ⟨.findInvestor query, .ok (some loaded)⟩ ∈ trace →
        loaded.val.kycInitResult ≠ some result) : WrittenBy app .processCallback result

def ContactsProvider : Op → Prop
  | .shuftiproInit _ | .shuftiproStatus _ => True
  | _ => False

/-- For an investor that is not verified the stored result is returned, and the
provider is not asked. -/
def ReturnsStored (app : App) (result : KycInitResult) : Prop :=
  ∀ user draws world trace outcome after, user.val.kycStatus = .notVerified →
    user.val.kycInitResult = some result →
    Executes perform (processKycStatus app user draws) world trace outcome after →
      outcome = .ok (some result) ∧ ∀ call ∈ trace, ¬ ContactsProvider call.1

variable {app : App} {writer : Writer} {result : KycInitResult}

/-! ## The reader -/

theorem processKycStatus_unverified {user : Doc ObjectID Investor}
    (unverified : user.val.kycStatus = .notVerified) (stored : user.val.kycInitResult = some result)
    (draws : Draws) :
    processKycStatus app user draws =
      if result.statusCode = some "SP1" then .done (some result) else updateKycInit app user draws := by
  unfold processKycStatus
  rw [unverified, stored]
  rfl

theorem returnsStored_of_read (read : result.statusCode = some "SP1") : ReturnsStored app result := by
  intro user draws world trace outcome after unverified stored ran
  rw [processKycStatus_unverified unverified stored, if_pos read] at ran
  cases ran
  exact ⟨rfl, fun _ member => nomatch member⟩

/-- An investor with a result whose status is not read. -/
theorem not_returnsStored (unread : result.statusCode ≠ some "SP1") : ¬ ReturnsStored app result := by
  intro returns
  have asks : Executes perform (processKycStatus app
      ⟨1, { pendingInvestor with kycStatus := .notVerified, kycInitResult := some result }⟩ {}) {}
      [⟨.shuftiproStatus
        { clientId := app.config.shuftiproClientId
          reference := result.reference
          signature := signature app (app.config.shuftiproClientId ++ jsText result.reference) },
        .error (requestError 500)⟩] (.error (requestError 500)) {} := by
    rw [processKycStatus_unverified rfl rfl, if_neg unread]
    exact .await ({ rejects := some (requestError 500) } : Choice) (.fail _ _)
  exact (returns _ _ _ _ _ _ rfl rfl asks).2 _ List.mem_cons_self trivial

/-! ## The writers -/

theorem init_writes {user : Doc ObjectID Investor} {draws : Draws} {past : AccountTrace}
    (configured : app.config.kycProvider = .shuftipro) :
    (KycProvider.init app user draws).Meets (fun _ _ => True)
      (fun _ result => ∃ answer, result = .shuftiproInit answer) (fun _ _ => True) past := by
  unfold KycProvider.init
  rw [configured]
  rw [meets_bind]
  refine (Meets.under fun _ _ _ => trivial).after fun _ answer _ => ?_
  exact ⟨answer, rfl⟩

/-- Only the answer of the provider is saved. -/
theorem createNewKycProcess_writes (user : Doc ObjectID Investor) (draws : Draws) :
    (createNewKycProcess app user draws).Meets
      (fun _ op => ∀ saved, op = .saveInvestor saved →
        ∃ answer, saved.val.kycInitResult = some (.shuftiproInit answer))
      (fun _ _ => True) (fun _ _ => True) [] := by
  simp [createNewKycProcess, init, localInitKycProcess, saveKycInitResult, request, call]

/-- A callback saves the result that it has loaded, or its own. -/
def SavesResult (past : AccountTrace) : Op → Prop
  | .saveInvestor saved => ∃ query loaded, ⟨.findInvestor query, .ok (some loaded)⟩ ∈ past ∧
      (saved.val.kycInitResult = loaded.val.kycInitResult ∨
        ∃ kycResult, saved.val.kycInitResult = some (.shuftiproKyc kycResult))
  | _ => True

theorem applyKycResult_writes (investor : Doc ObjectID Investor) (kycResult : ShuftiproKycResult)
    (past : AccountTrace) :
    (applyKycResult investor kycResult).Meets SavesResult
      (fun later saved => past <+: later ∧
        (saved.val.kycInitResult = investor.val.kycInitResult ∨
          saved.val.kycInitResult = some (.shuftiproKyc kycResult)))
      (fun _ _ => True) past := by
  simp [applyKycResult, request, call, SavesResult]

theorem processCallback_writes (body : ShuftiproInitResult) (timestamp : String) :
    (processCallback app body timestamp).Meets SavesResult (fun _ _ => True) (fun _ _ => True)
      [] := by
  simp only [processCallback, findInvestor, request, call, meets_bind, meets_await, meets_done,
    meets_fail, meets_pure, meets_ite, meets_throwIf, meets_orThrow, SavesResult, implies_true,
    and_true, true_and]
  intro stored found investor same id _ _
  refine (applyKycResult_writes investor _ _).mono (fun _ _ guarded => guarded) ?_
    fun _ _ _ => trivial
  rintro later saved ⟨extended, kept⟩
  refine ⟨callbackQuery stored body.reference, investor, ?_, ?_⟩
  · exact extended.subset (by simp [same])
  · exact kept.imp_right fun replaced => ⟨_, replaced⟩

/-- What a stored result looks like depends on its writer. -/
theorem writtenBy_shape (written : WrittenBy app writer result) :
    if writer = .processCallback then ∃ kycResult, result = .shuftiproKyc kycResult
    else ∃ answer, result = .shuftiproInit answer := by
  cases written with
  | init configured ran => exact (ran.meets (@init_writes _ _ _ [] configured)).1 _ rfl
  | createNewKycProcess ran saves stored =>
      obtain ⟨front, later, split⟩ := List.append_of_mem saves
      obtain ⟨answer, same⟩ := ran.guarded (createNewKycProcess_writes _ _) split _ rfl
      exact ⟨answer, Option.some.inj (stored.symm.trans same)⟩
  | processCallback ran saves stored new =>
      obtain ⟨front, later, split⟩ := List.append_of_mem saves
      obtain ⟨query, loaded, found, kept⟩ := ran.guarded (processCallback_writes _ _) split
      rcases kept with same | ⟨kycResult, same⟩
      · refine absurd (same.symm.trans stored) (new query loaded ?_)
        rw [split]
        exact List.mem_append_left _ found
      · exact ⟨kycResult, Option.some.inj (stored.symm.trans same)⟩

/-! ## The reader and the writers -/

/-- An accepted result is returned as stored exactly when a callback stored it. -/
theorem returnsStored_iff (written : WrittenBy app writer result) :
    (statusOfResult result = some "SP1" → ReturnsStored app result) ↔
      (statusOfResult result = some "SP1" → writer = .processCallback) := by
  have shape := writtenBy_shape written
  by_cases byCallback : writer = .processCallback
  · rw [if_pos byCallback] at shape
    obtain ⟨kycResult, same⟩ := shape
    subst same
    exact ⟨fun _ _ => byCallback, fun _ accepted => returnsStored_of_read accepted⟩
  · rw [if_neg byCallback] at shape
    obtain ⟨answer, same⟩ := shape
    subst same
    have ignored : ¬ ReturnsStored app (.shuftiproInit answer) := not_returnsStored nofun
    exact ⟨fun returns accepted => absurd (returns accepted) ignored,
      fun written accepted => absurd (written accepted) byCallback⟩

/-! ## The result of a callback, and that of a disabled check -/

def sessionResult : ShuftiproKycResult :=
  ShuftiproKycResult.createShuftiproKycResult
    { sessionCallback "SP1verified1234" with timestamp := some "" }

/-- The investor of the session after its callback. -/
def sessionAccepted : Doc ObjectID Investor :=
  ⟨1, { sessionInvestor with
    kycStatus := .verified, kycInitResult := some (.shuftiproKyc sessionResult) }⟩

def sessionTrace : AccountTrace :=
  [⟨.findKycResult (some "1234"), .ok none⟩,
    ⟨.findInvestor (.kycReference (some "1234")), .ok (some ⟨1, sessionInvestor⟩)⟩,
    ⟨.insertKycResult { sessionResult with user := some 1 }, .ok 2⟩,
    ⟨.addAddressToWhiteList "0x1", .ok ()⟩,
    ⟨.saveInvestor sessionAccepted, .ok ()⟩]

theorem sessionTrace_ran : ∃ after,
    Executes perform (ShuftiproProvider.processCallback .plain (sessionCallback "SP1verified1234") "")
      sessionWorld sessionTrace (.ok ()) after :=
  ⟨_, .await ({} : Choice) (.await ({} : Choice) (.await ({ id := 2 } : Choice)
    (.await ({} : Choice) (.await ({} : Choice) (.done () _)))))⟩

theorem sessionResult_written : WrittenBy .plain .processCallback (.shuftiproKyc sessionResult) := by
  obtain ⟨after, ran⟩ := sessionTrace_ran
  have saves : ⟨.saveInvestor sessionAccepted, .ok ()⟩ ∈ sessionTrace := by simp [sessionTrace]
  refine .processCallback ran saves rfl ?_
  intro query loaded found
  have same : query = .kycReference (some "1234") ∧ loaded = ⟨1, sessionInvestor⟩ := by
    simpa [sessionTrace] using found
  rw [same.2]
  exact nofun

theorem sessionResult_returned : ReturnsStored .plain (.shuftiproKyc sessionResult) :=
  (returnsStored_iff sessionResult_written).mpr (fun _ => rfl) rfl

/-- With KYC disabled. -/
def shuftiproApp : App := { App.plain with config := { kycProvider := .shuftipro } }

def disabledResult : KycInitResult :=
  .shuftiproInit { message := some "KYC disabled", statusCode := some "SP1" }

/-- The accepted result of a disabled check is stored, and the provider is asked. -/
theorem disabledResult_ignored : WrittenBy shuftiproApp .init disabledResult ∧
    statusOfResult disabledResult = some "SP1" ∧ ¬ ReturnsStored shuftiproApp disabledResult := by
  have ran : Executes perform (KycProvider.init shuftiproApp ⟨1, pendingInvestor⟩ {}) {} []
      (.ok disabledResult) {} := .done disabledResult ({} : World)
  exact ⟨.init rfl ran, rfl, not_returnsStored nofun⟩

end IcoDashboard.Accounts.ShuftiproProvider
