import IcoDashboard.Accounts.KycRoutes
import IcoDashboard.Accounts.Sessions

namespace IcoDashboard.Accounts

open IcoDashboard.Async IcoDashboard.Async.Program IcoDashboard.Data

/-! # Callbacks among other requests

The whole site: requests of users and of the KYC routes, interleaved at their
calls.
-/

inductive SiteRequest where
  | account (arrival : Arrival)
  | kyc (http : HttpRequest) (route : KycRoute) (draws : Draws)

def site (app : App) (server : ServerConfig) :
    System Op Ans Exception World Choice SiteRequest HttpAnswer where
  handler
    | .account arrival => handle app arrival.draws arrival.request >>= fun response =>
        pure (respond response)
    | .kyc http route draws => serveKyc app server http route draws
  perform := perform

abbrev SiteState : Type := State Op Ans Exception World SiteRequest HttpAnswer

/-- The thread serves a callback of Jumio that comes from elsewhere. -/
def FromElsewhere (server : ServerConfig) (state : SiteState) (thread : Nat) (result : JumioResult) :
    Prop :=
  ∃ http draws program, clientAddress server http ∉ jumioIps ∧
    state.threads[thread]? = some ⟨.kyc http (.callback (.jumio result)) draws, program⟩

/-- A callback from elsewhere takes its steps where its body decides about nobody. -/
def StepsUndecided (server : ServerConfig) (state : SiteState) : Action Choice SiteRequest → Prop
  | .start _ => True
  | .resume thread _ =>
      ∀ result, FromElsewhere server state thread result → ¬ DecidesStored state.world result

variable {app : App} {server : ServerConfig} {initial : World} {state : SiteState} {thread : Nat}
  {result : JumioResult}

def SiteGuard (request : SiteRequest) (past : AccountTrace) (op : Op) : Prop :=
  match request with
  | .kyc _ (.callback (.jumio result)) _ => VerdictGuard result past op
  | _ => True

theorem site_guarded (app : App) (server : ServerConfig) (request : SiteRequest) :
    ((site app server).handler request).Meets (SiteGuard request) (fun _ _ => True)
      (fun _ _ => True) [] := by
  rcases request with arrival | ⟨http, route, draws⟩
  · exact Meets.under fun _ _ _ => trivial
  · rcases route with ⟨id, base64hash⟩ | body
    · exact Meets.under fun _ _ _ => trivial
    · cases body with
      | shuftipro result => exact Meets.under fun _ _ _ => trivial
      | jumio result => exact serveKyc_verdict draws

/-- The callbacks from elsewhere have loaded no investor that they decide about. -/
def LoadsUndecided (server : ServerConfig) (state : SiteState) : Prop :=
  ∀ thread result, FromElsewhere server state thread result → ∀ id user,
    ⟨thread, ⟨.findInvestor (.id (some id)), .ok (some user)⟩⟩ ∈ state.log →
      ObjectID.ofText result.customerId = some id → ¬ TakesVerdict result user.val

theorem unaffected_of_loads (reached : (site app server).Reachable (.idle initial) state)
    (loads : LoadsUndecided server state) (elsewhere : FromElsewhere server state thread result)
    {request : SiteRequest} {op : Op} {resume : Except Exception (Ans op) → Handler HttpAnswer}
    (awaiting : state.threads[thread]? = some ⟨request, .await op resume⟩) : ¬ Affects op := by
  intro affects
  have guard := (reached.guarded (site_guarded app server) awaiting).1
  have own := elsewhere
  obtain ⟨http, draws, program, _, found⟩ := own
  rw [awaiting] at found
  cases found
  obtain ⟨id, user, acts, spelled, takes⟩ := guard affects
  exact loads thread result elsewhere id user (mem_localTrace.mp (mem_of_acting acts)) spelled takes

theorem FromElsewhere.earlier {later : SiteState} (reached : (site app server).Reachable state later)
    (started : thread < state.threads.length) (elsewhere : FromElsewhere server later thread result) :
    FromElsewhere server state thread result := by
  obtain ⟨http, draws, program, outside, found⟩ := elsewhere
  obtain ⟨before, earlier⟩ := reached.request_earlier found started
  exact ⟨http, draws, before, outside, earlier⟩

theorem loadsUndecided_step (reached : (site app server).Reachable (.idle initial) state)
    (loads : LoadsUndecided server state) {action : Action Choice SiteRequest}
    (steps : StepsUndecided server state action) :
    LoadsUndecided server ((site app server).step state action) := by
  intro other result elsewhere id user logged spelled takes
  have stepped : (site app server).Reachable state ((site app server).step state action) :=
    System.Reachable.initial.step action
  have bounded := reached.log_bounded
  have before : ⟨other, ⟨.findInvestor (.id (some id)), .ok (some user)⟩⟩ ∈ state.log → False :=
    fun old => loads other result (elsewhere.earlier stepped (bounded _ old)) id user old spelled takes
  rcases (site app server).step_cases state action with same | ⟨request, _, started⟩ |
    ⟨thread, choice, request, op, resume, resuming, awaiting, resumed⟩
  · rw [same] at logged
    exact before logged
  · rw [started] at logged
    exact before logged
  · rw [resumed] at logged
    rcases mem_performed.mp logged with old | ⟨rfl, rfl, answered⟩
    · exact before old
    · subst resuming
      obtain ⟨started, _⟩ := List.getElem?_eq_some_iff.mp awaiting
      obtain ⟨own, stored⟩ := Collection.lookup_of_findOneById (findInvestor_answered answered)
      exact steps result (elsewhere.earlier stepped started)
        ⟨id, user.val, ObjectID.ofText_eq_some_iff.mp spelled, stored, takes⟩

/-- The step leaves the investors as they are and puts no address on the whitelist. -/
def StepHarmless (thread : Nat) (before after : SiteState) : Prop :=
  after.world.investors = before.world.investors ∧
  ∀ address answer, after.log ≠ before.log ++ [⟨thread, ⟨.addAddressToWhiteList address, answer⟩⟩]

theorem stepHarmless_of_loads (reached : (site app server).Reachable (.idle initial) state)
    (loads : LoadsUndecided server state) (elsewhere : FromElsewhere server state thread result)
    (choice : Choice) :
    StepHarmless thread state ((site app server).step state (.resume thread choice)) := by
  have unlisted : ∀ event : Event Op Ans Exception, ¬ Affects event.call.1 →
      ∀ address answer, state.log ++ [event] ≠
        state.log ++ [⟨thread, ⟨.addAddressToWhiteList address, answer⟩⟩] := by
    intro event unaffected address answer same
    have listed := List.singleton_inj.mp (List.append_cancel_left same)
    subst listed
    exact unaffected trivial
  rcases (site app server).step_cases state (.resume thread choice) with same | ⟨_, started, _⟩ |
    ⟨other, choice', request, op, resume, resuming, awaiting, resumed⟩
  · rw [same]
    refine ⟨rfl, fun address answer longer => ?_⟩
    have lengths := congrArg List.length longer
    simp at lengths
  · cases started
  · cases resuming
    have unaffected := unaffected_of_loads reached loads elsewhere awaiting
    rw [resumed]
    exact ⟨investors_kept unaffected, unlisted ⟨thread, ⟨op, _⟩⟩ unaffected⟩

/-- An outsider's callback is harmless just when it is turned away by the server or
decides about nobody; so it is in every run, whatever is served beside it. -/
theorem outsiders_kept_out (app : App) (server : ServerConfig) :
    (∀ world http result, KeepsOut app server world http result ↔
      (clientAddress server http ∈ jumioIps ∨ firstAnswer (serverFilters server) http ≠ none ∨
        ¬ DecidesStored world result)) ∧
    ∀ initial actions, (site app server).Along (StepsUndecided server) (.idle initial) actions →
      ∀ front thread choice later result, actions = front ++ .resume thread choice :: later →
        FromElsewhere server ((site app server).run (.idle initial) front) thread result →
        StepHarmless thread ((site app server).run (.idle initial) front)
          ((site app server).run (.idle initial) (front ++ [.resume thread choice])) := by
  refine ⟨keepsOut_iff app server, ?_⟩
  intro initial actions steps front thread choice later result split elsewhere
  rw [split] at steps
  have start : LoadsUndecided server (.idle initial) := by
    intro thread result elsewhere
    obtain ⟨_, _, _, _, found⟩ := elsewhere
    cases found
  have loads : LoadsUndecided server ((site app server).run (.idle initial) front) :=
    System.run_induction (fun _ _ reached loads steps => loadsUndecided_step reached loads steps)
      .initial start ((site app server).along_append.mp steps).1
  rw [System.run_append]
  exact stepHarmless_of_loads (System.reachable_run _ _) loads elsewhere choice

/-! ## A stranger -/

/-- A JSON body posted to the callback from an address that is not Jumio's. -/
def strangersPost : HttpRequest where
  method := "POST"
  path := "/kyc/callback"
  header name := if name = "Content-Type" then some "application/json" else none
  ip := "203.0.113.9"

def strangersVerdict : JumioResult where
  customerId := "000000000000000000000001"
  idScanStatus := "SUCCESS"
  identityVerification := some (some true)

theorem stepsUndecided_account {arrival : Arrival} {program : Handler HttpAnswer}
    (found : state.threads[thread]? = some ⟨.account arrival, program⟩) (choice : Choice) :
    StepsUndecided server state (.resume thread choice) := by
  intro result elsewhere
  obtain ⟨http, draws, other, _, found'⟩ := elsewhere
  rw [found] at found'
  cases found'

theorem along_account {arrival : Arrival} {program : Handler HttpAnswer}
    (found : state.threads[thread]? = some ⟨.account arrival, program⟩) (choices : List Choice) :
    (site app server).Along (StepsUndecided server) state (choices.map (.resume thread ·)) := by
  induction choices generalizing state program with
  | nil => trivial
  | cons choice rest ih =>
      have stepped : (site app server).Reachable state
          ((site app server).step state (.resume thread choice)) := System.Reachable.initial.step _
      obtain ⟨later, found'⟩ := stepped.request_stable found
      exact ⟨stepsUndecided_account found choice, ih found'⟩

def annJoins : List (Action Choice SiteRequest) :=
  .start (.account { request := .create newcomer }) ::
    (List.replicate 5 { verificationId := "v1", code := "123456", id := 1 }).map (.resume 0 ·)

/-- Ann has signed up, and has no wallet yet. -/
def annWalletless : SiteState := (site .plain {}).run (.idle {}) annJoins

theorem walletless_undecided {state : SiteState}
    (same : state.world.investors = annWalletless.world.investors) :
    ¬ DecidesStored state.world strangersVerdict := by
  rintro ⟨id, investor, _, stored, _, _, verdict⟩
  have member : ⟨id, investor⟩ ∈ annWalletless.world.investors.docs := by
    rw [← same]
    exact Collection.lookup_eq_some_iff.mp stored
  have walletless : ∀ doc ∈ annWalletless.world.investors.docs, doc.val.ethWallet = none := by
    decide +kernel
  rcases verdict with error | ⟨_, validity, given, owned⟩
  · revert error
    decide
  · cases given
    exact owned rfl (walletless _ member)

/-- The stranger's callback has stored its scan, and is about to load Ann. -/
def strangersScan : List (Action Choice SiteRequest) :=
  annJoins ++ [.start (.kyc strangersPost (.callback (.jumio strangersVerdict)) {}), .resume 1 {}]

theorem strangersScan_undecided :
    (site .plain {}).Along (StepsUndecided {}) (.idle {}) (strangersScan ++ [.resume 1 {}]) := by
  have steps : ∀ state : SiteState, state.world.investors = annWalletless.world.investors →
      (∃ program, state.threads[1]? =
        some ⟨.kyc strangersPost (.callback (.jumio strangersVerdict)) {}, program⟩) →
      StepsUndecided {} state (.resume 1 {}) := by
    rintro state same ⟨program, found⟩ result ⟨_, _, _, _, found'⟩
    rw [found] at found'
    cases found'
    exact walletless_undecided same
  rw [strangersScan, List.append_assoc, System.along_append]
  refine ⟨⟨trivial, along_account rfl _⟩, trivial, steps _ rfl ⟨_, rfl⟩, steps _ rfl ⟨_, rfl⟩, trivial⟩

/-- Ann is loaded, and not verified. -/
theorem strangersPost_harmless :
    (∃ ann, ⟨1, ⟨.findInvestor (.id (some 1)), .ok (some ann)⟩⟩ ∈
      ((site .plain {}).run (.idle {}) (strangersScan ++ [.resume 1 {}])).log) ∧
    StepHarmless 1 ((site .plain {}).run (.idle {}) strangersScan)
      ((site .plain {}).run (.idle {}) (strangersScan ++ [.resume 1 {}])) := by
  have loaded : ∃ ann, ((site .plain {}).run (.idle {}) (strangersScan ++ [.resume 1 {}])).log.getLast? =
      some ⟨1, ⟨.findInvestor (.id (some 1)), .ok (some ann)⟩⟩ := ⟨_, rfl⟩
  obtain ⟨ann, last⟩ := loaded
  refine ⟨⟨ann, List.mem_of_getLast? last⟩, ?_⟩
  exact (outsiders_kept_out .plain {}).2 {} (strangersScan ++ [.resume 1 {}]) strangersScan_undecided
    strangersScan 1 {} [] strangersVerdict rfl ⟨strangersPost, {}, _, by decide +kernel, rfl⟩

/-- Ann has signed up and is activated. -/
def annActivated : SiteState :=
  (site .plain {}).run (.idle {})
    (annJoins ++
      .start (.account
        { request := .activate { email := "ann@example.com", verificationId := "v1", code := "123456" }
          draws := { mnemonic := "pig", salt := "salt" } }) ::
      (sessionChoices 21 "t1").map (.resume 1 ·))

/-- The stranger verifies Ann. -/
theorem strangersPost_decides : ¬ ∀ state, (site .plain {}).Reachable (.idle {}) state →
    ∀ http result, KeepsOut .plain {} state.world http result := by
  intro keeps
  have kept := keeps annActivated (System.reachable_run _ _) strangersPost strangersVerdict
  have stored : ∃ ann, annActivated.world.investors.lookup 1 = some ann ∧
      TakesVerdict strangersVerdict ann :=
    ⟨_, rfl, nofun, nofun, .inr ⟨rfl, _, rfl, fun _ => nofun⟩⟩
  obtain ⟨ann, held, takes⟩ := stored
  rcases (keepsOut_iff _ _ _ _ _).mp kept with fromJumio | turned | undecided
  · revert fromJumio
    decide +kernel
  · revert turned
    decide +kernel
  · exact undecided ⟨1, ann, by decide +kernel, held, takes⟩

end IcoDashboard.Accounts
