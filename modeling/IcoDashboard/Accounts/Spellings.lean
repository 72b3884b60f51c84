import IcoDashboard.Accounts.Verifications
import IcoDashboard.Async.Evaluation

namespace IcoDashboard.Accounts

open IcoDashboard.Async IcoDashboard.Async.Program IcoDashboard.Data

/-! # Spellings of an email

Two spellings of one email, in two runs that differ in nothing else.
-/

variable {app : App} {world : World} {first second : String}

/-! ## Outcomes -/

/-- What a run answers, and what it leaves in the store. -/
structure Outcome where
  answer : Except Exception Response
  investors : Collection ObjectID Investor
  tokens : Collection ObjectID VerifiedToken

/-- The run in which the environment chooses from the stream. -/
def outcome (program : Handler Response) (world : World) (choices : Nat → Choice) : Outcome :=
  let (answer, after, _) := program.evaluate (Program.streamed perform) (world, choices)
  ⟨answer, after.investors, after.tokens⟩

/-- Served alone, a request comes to its outcome. -/
theorem outcome_reached (app : App) (state : AccountState) (arrival : Arrival)
    (choices : Nat → Choice) :
    ∃ (taken : List Choice) (last : AccountState), (accounts app).run state
        (.start arrival :: taken.map (.resume state.threads.length ·)) = last ∧
      last.threads[state.threads.length]? = some ⟨arrival, System.finished
        (outcome (handle app arrival.draws arrival.request) state.world choices).answer⟩ ∧
      last.world.investors =
        (outcome (handle app arrival.draws arrival.request) state.world choices).investors ∧
      last.world.tokens =
        (outcome (handle app arrival.draws arrival.request) state.world choices).tokens := by
  have start : state.world = Prod.fst (state.world, choices) := rfl
  obtain ⟨taken, world, threads⟩ := System.started_evaluates
    (System.answeredBy_streamed (accounts app)) state start arrival
  exact ⟨taken, _, rfl, threads, congrArg World.investors world, congrArg World.tokens world⟩

def SameOutcome (world : World) (left right : Handler Response) : Prop :=
  ∀ choices, outcome left world choices = outcome right world choices

/-! ## Operations on an email -/

/-- The input of an operation apart from the email. -/
inductive EmailOperation where
  | create (userData : UserData)
  | resendVerification
  | initiateLogin (password ip : String)
  | activate (verificationId code : String)
  | initiateResetPassword
  | verifyResetPassword (password : String) (verification : VerificationData)

def EmailOperation.request (email : String) : EmailOperation → Request
  | .create userData => .create { userData with email }
  | .resendVerification => .resendVerification email
  | .initiateLogin password ip => .initiateLogin email password ip
  | .activate verificationId code => .activate { email, verificationId, code }
  | .initiateResetPassword => .initiateResetPassword email
  | .verifyResetPassword password verification =>
      .verifyResetPassword { email, password, verification }

/-- The operations that lower the email everywhere are the same programs. -/
theorem handle_congr (same : app.toLowerCase first = app.toLowerCase second) (draws : Draws)
    {operation : EmailOperation} (notActivate : ∀ verificationId code,
      operation ≠ .activate verificationId code) :
    handle app draws (operation.request first) = handle app draws (operation.request second) := by
  cases operation with
  | create userData =>
      have created : Investor.createInvestor app { userData with email := first } =
          Investor.createInvestor app { userData with email := second } := by
        funext passwordHash verificationId
        simp only [Investor.createInvestor, same]
      simp only [EmailOperation.request, handle, UserService.create]
      rw [created, same]
  | resendVerification =>
      simp only [EmailOperation.request, handle, UserService.resendVerification, same]
  | initiateLogin password ip =>
      simp only [EmailOperation.request, handle, UserService.initiateLogin, same]
  | activate verificationId code => exact absurd rfl (notActivate verificationId code)
  | initiateResetPassword =>
      simp only [EmailOperation.request, handle, UserService.initiateResetPassword, same]
  | verifyResetPassword password verification =>
      simp only [EmailOperation.request, handle, UserService.verifyResetPassword, same]

/-! ## The activation -/

open UserService VerificationClient

variable {verificationId code : String} {draws : Draws} {choices : Nat → Choice}

def checkEmail (app : App) (email verificationId code : String) : Handler ValidationResult :=
  checkVerificationPayloadAndCode app { verificationId, code, method := emailVerification } email
    (scopePayload activateUserScope) none

theorem evaluate_activate_congr (same : app.toLowerCase first = app.toLowerCase second)
    {state : World × (Nat → Choice)}
    (checked : ∀ user after,
      (findUser (app.toLowerCase first)).evaluate (streamed perform) state = (.ok user, after) →
      user.val.isVerified = false →
      (checkEmail app first verificationId code).evaluate (streamed perform) after =
        (checkEmail app second verificationId code).evaluate (streamed perform) after) :
    (handle app draws (.activate ⟨first, verificationId, code⟩)).evaluate (streamed perform) state =
      (handle app draws (.activate ⟨second, verificationId, code⟩)).evaluate
        (streamed perform) state := by
  simp only [handle, activate, evaluate_bind, ← same]
  generalize loaded : (findUser (app.toLowerCase first)).evaluate (streamed perform) state = result
  obtain ⟨user | user, after⟩ := result
  · rfl
  · simp only [evaluate_throwIf]
    by_cases verified : user.val.isVerified = true
    · simp only [verified]
      rfl
    · have checks := checked user after loaded (Bool.eq_false_iff.mpr verified)
      simp only [checkEmail] at checks
      simp only [verified, Bool.false_eq_true, if_false, checks]

theorem evaluate_findUser {email : String} {world : World} {after : World × (Nat → Choice)}
    {user : Doc ObjectID Investor}
    (found : (findUser email).evaluate (streamed perform) (world, choices) = (.ok user, after)) :
    after.1 = world ∧ world.findInvestor (.email email) = some user := by
  obtain ⟨loaded, between, called, returned⟩ := evaluate_bind_ok found
  rw [evaluate_orThrow] at returned
  obtain ⟨thrown, unmoved⟩ := Prod.ext_iff.mp returned
  cases loaded with
  | none => cases thrown
  | some value =>
      cases thrown
      cases unmoved
      rw [request, evaluate_call] at called
      obtain ⟨answered, left⟩ := Prod.ext_iff.mp called
      refine ⟨?_, findInvestor_answered answered⟩
      rw [← show _ = after from left]
      exact findInvestor_keeps _ _ _

/-- A verification that is shown to the service is the stored one. -/
theorem evaluate_getVerification {method : String} {state after : World × (Nat → Choice)}
    {result : ValidationResult}
    (shown : (getVerification method verificationId).evaluate (streamed perform) state =
      (.ok result, after)) :
    ∃ verifier, state.1.findVerifier method verificationId = some verifier ∧
      result.data.consumer = verifier.consumer ∧ result.data.payload = verifier.payload := by
  rw [getVerification, evaluate_tryCatch, request, evaluate_call] at shown
  simp only [streamed, perform] at shown
  cases rejected : (state.2 0).rejects with
  | some e =>
      simp only [rejected] at shown
      split at shown <;> cases shown
  | none =>
      simp only [rejected, answer, World.getVerifier] at shown
      cases found : state.1.findVerifier method verificationId with
      | none => simp [found, requestError] at shown
      | some verifier =>
          rw [found] at shown
          cases shown
          exact ⟨verifier, rfl, rfl, rfl⟩

/-- The sign-up has a live verification for one of the spellings. -/
def OpenedUnder (world : World) (verificationId first second : String) : Prop :=
  ∃ verifier, world.findVerifier emailVerification verificationId = some verifier ∧
    verifier.payload = scopePayload activateUserScope ∧
    (verifier.consumer = first ∨ verifier.consumer = second)

theorem evaluate_checkEmail_congr {state : World × (Nat → Choice)}
    (unopened : ¬ OpenedUnder state.1 verificationId first second) :
    (checkEmail app first verificationId code).evaluate (streamed perform) state =
      (checkEmail app second verificationId code).evaluate (streamed perform) state := by
  simp only [checkEmail, checkVerificationPayloadAndCode, evaluate_bind, evaluate_throwIf]
  generalize shown : (getVerification emailVerification verificationId).evaluate
    (streamed perform) state = result
  obtain ⟨e | result, after⟩ := result
  · rfl
  · obtain ⟨verifier, found, consumer, payload⟩ := evaluate_getVerification shown
    have refused : ∀ email, email = first ∨ email = second →
        (result.data.consumer ≠ email ∨
          Json.stringify result.data.payload ≠
            Json.stringify (scopePayload activateUserScope)) := by
      intro email spelled
      by_contra accepted
      rw [not_or, not_not, not_not, consumer, payload] at accepted
      have own : verifier.consumer = first ∨ verifier.consumer = second :=
        accepted.1 ▸ spelled
      exact unopened ⟨verifier, found, Json.stringify_injective accepted.2, own⟩
    simp only [if_pos (refused first (.inl rfl)), if_pos (refused second (.inr rfl))]

/-- The operation tells the spellings apart: it is an activation of an account
that waits for it, and its verification names one of the spellings. -/
def TellsApart (app : App) (world : World) (first second : String) : EmailOperation → Prop
  | .activate verificationId _ =>
      first ≠ second ∧
      (∃ user, world.findInvestor (.email (app.toLowerCase first)) = some user ∧
        user.val.isVerified = false) ∧
      OpenedUnder world verificationId first second
  | _ => False

theorem sameOutcome_of_evaluate {left right : Handler Response}
    (same : ∀ choices, left.evaluate (streamed perform) (world, choices) =
      right.evaluate (streamed perform) (world, choices)) : SameOutcome world left right := by
  intro choices
  simp only [outcome, same]

/-- An environment that loses the validation of the code. -/
def lostCode : Nat → Choice
  | 2 => { rejects := some (requestError 404) }
  | _ => {}

/-- The code is only sent to the verify service for the spelling of the
verification. -/
theorem activate_lostCode (app : App) (draws : Draws) {email : String}
    {user : Doc ObjectID Investor} {verifier : Verifier}
    (loaded : world.findInvestor (.email (app.toLowerCase email)) = some user)
    (waiting : user.val.isVerified = false)
    (found : world.findVerifier emailVerification verificationId = some verifier)
    (payload : verifier.payload = scopePayload activateUserScope) :
    (outcome (handle app draws (.activate ⟨email, verificationId, code⟩)) world lostCode).answer =
      .error (if verifier.consumer = email then verificationIsNotFound
        else error "Invalid verification payload") := by
  have asked : (findUser (app.toLowerCase email)).evaluate (streamed perform) (world, lostCode) =
      (.ok user, world, fun call => lostCode (call + 1)) := by
    simp [findUser, findInvestor, request, streamed, perform, lostCode, answer, loaded]
  have shown : (getVerification emailVerification verificationId).evaluate (streamed perform)
      (world, fun call => lostCode (call + 1)) =
        (.ok (World.Verifier.result {} verifier), world, fun call => lostCode (call + 2)) := by
    simp [getVerification, request, streamed, perform, lostCode, answer, World.getVerifier, found]
  have lost : (validateVerification app emailVerification verificationId { code }).evaluate
      (streamed perform) (world, fun call => lostCode (call + 2)) =
        (.error verificationIsNotFound, world, fun call => lostCode (call + 3)) := by
    simp [validateVerification, request, streamed, perform, lostCode, requestError]
  simp only [outcome, handle, activate, checkVerificationPayloadAndCode, evaluate_bind,
    evaluate_throwIf, asked, waiting, Bool.false_eq_true, if_false, shown, World.Verifier.result,
    payload, ne_eq, not_true_eq_false, or_false]
  by_cases named : verifier.consumer = email
  · simp only [named, not_true_eq_false, if_false, if_true, lost]
  · simp only [named, not_false_eq_true, if_true, if_false]

theorem verificationIsNotFound_ne_invalid :
    verificationIsNotFound ≠ error "Invalid verification payload" := by decide

/-- Up to lower case, only an activation tells two spellings apart, and only
where the verification it names was opened under one of them. -/
theorem sameOutcome_iff (same : app.toLowerCase first = app.toLowerCase second)
    (operation : EmailOperation) :
    (∀ draws, SameOutcome world (handle app draws (operation.request first))
      (handle app draws (operation.request second))) ↔
    ¬ TellsApart app world first second operation := by
  cases operation with
  | activate verificationId code =>
      constructor
      · rintro equal ⟨different, ⟨user, loaded, waiting⟩, verifier, found, payload, named⟩
        have answers := congrArg Outcome.answer (equal {} lostCode)
        simp only [EmailOperation.request] at answers
        rw [activate_lostCode app {} loaded waiting found payload,
          activate_lostCode app {} (same ▸ loaded) waiting found payload] at answers
        rcases named with own | own
        · rw [if_pos own, if_neg fun other => different (own.symm.trans other)] at answers
          exact verificationIsNotFound_ne_invalid (Except.error.inj answers)
        · rw [if_pos own, if_neg fun other => different (other.symm.trans own)] at answers
          exact verificationIsNotFound_ne_invalid (Except.error.inj answers).symm
      · intro alike draws
        refine sameOutcome_of_evaluate fun choices => evaluate_activate_congr same ?_
        intro user after found waiting
        obtain ⟨unmoved, loaded⟩ := evaluate_findUser found
        by_cases equal : first = second
        · rw [equal]
        · apply evaluate_checkEmail_congr
          rw [unmoved]
          exact fun opened => alike ⟨equal, ⟨user, loaded, waiting⟩, opened⟩
  | create | resendVerification | initiateLogin | initiateResetPassword | verifyResetPassword =>
      refine iff_of_true (fun draws choices => ?_) id
      rw [handle_congr same draws (by intro _ _ eq; cases eq)]

theorem toLower_idem (char : Char) : char.toLower.toLower = char.toLower := by
  unfold Char.toLower
  grind

/-- An app that lowers the ASCII letters. -/
def caseApp : App :=
  { App.plain with
    toLowerCase := fun text => String.ofList (text.toList.map Char.toLower)
    toLowerCase_idem := by
      intro text
      simp only [String.toList_ofList, List.map_map]
      congr 2
      funext char
      exact toLower_idem char }

/-- Ann has signed up under a spelling of her own. -/
def annSignedUp : World :=
  (after caseApp (.start { request := .create { newcomer with email := "Ann@example.com" } } ::
    signUp.tail)).world

/-- The activation of a verification that was never opened. -/
theorem unopened_alike :
    SameOutcome annSignedUp
      (handle caseApp {} ((EmailOperation.activate "v2" "123456").request "Ann@example.com"))
      (handle caseApp {} ((EmailOperation.activate "v2" "123456").request "ann@example.com")) := by
  refine (sameOutcome_iff (by decide) (.activate "v2" "123456")).mpr ?_ {}
  rintro ⟨_, _, verifier, found, _⟩
  cases found

/-- The code in Ann's mail activates her account, but not under the spelling she
signed up with. -/
theorem annSpelling_refused :
    caseApp.toLowerCase "Ann@example.com" = caseApp.toLowerCase "ann@example.com" ∧
    ¬ SameOutcome annSignedUp
      (handle caseApp {} ((EmailOperation.activate "v1" "123456").request "Ann@example.com"))
      (handle caseApp {} ((EmailOperation.activate "v1" "123456").request "ann@example.com")) := by
  refine ⟨by decide, fun same => ?_⟩
  have answers := congrArg Outcome.answer (same fun _ => { accessToken := "t1", id := 1 })
  have refused : (outcome
      (handle caseApp {} ((EmailOperation.activate "v1" "123456").request "Ann@example.com"))
      annSignedUp fun _ => { accessToken := "t1", id := 1 }).answer =
        .error (error "Invalid verification payload") := rfl
  obtain ⟨result, activated⟩ : ∃ result, (outcome
      (handle caseApp {} ((EmailOperation.activate "v1" "123456").request "ann@example.com"))
      annSignedUp fun _ => { accessToken := "t1", id := 1 }).answer = .ok (.activated result) := ⟨_, rfl⟩
  rw [refused, activated] at answers
  cases answers

end IcoDashboard.Accounts
