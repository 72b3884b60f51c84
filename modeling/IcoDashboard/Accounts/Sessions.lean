import IcoDashboard.Accounts.Authentication
import IcoDashboard.Accounts.Alone

namespace IcoDashboard.Accounts

open IcoDashboard.Async IcoDashboard.Async.Program IcoDashboard.Data

/-! # KYC sessions

A session of ShuftiPro is opened by `createNewKycProcess`, which two routes reach.
One of them looks at the status of the investor first.
-/

variable {app : App}

/-- The calls of `createNewKycProcess`. -/
def OpensSession : Op → Prop
  | .shuftiproInit _ | .insertKycResult _ | .saveInvestor _ => True
  | _ => False

/-- A call by which a request creates a session.  A callback saves investors and
results of its own. -/
def Request.Creates : Request → Op → Prop
  | .user _ .kycInit, op | .user _ .kycReinit, op => OpensSession op
  | _, .shuftiproInit _ => True
  | _, _ => False

/-- A new session is created for the investor. -/
def CreatesSession (round : AccountRound) (id : ObjectID) : Prop :=
  ∃ query user call, acting round.trace = some (query, user) ∧ user.id = id ∧ call ∈ round.trace ∧
    round.request.request.Creates call.1

def Request.asksKyc : Request → Bool
  | .kycCallback _ | .user _ .kycInit | .user _ .kycReinit => true
  | _ => false

/-! ## The gate of the calls -/

/-- `init` creates a session only for an investor of open status, `reinit` only for
one that has had a session, a callback for none. -/
def SessionGuard (request : Request) (past : AccountTrace) (op : Op) : Prop :=
  request.Creates op → ∃ query user, acting past = some (query, user) ∧
    match request with
    | .user _ .kycInit => user.val.kycStatus = .notVerified
    | .user _ .kycReinit => user.val.kycInitResult ≠ none
    | _ => False

section Gate

variable {user : Doc ObjectID Investor} {past : AccountTrace} {query : InvestorQuery}
  {authorization : Option String}

theorem getInitStatus_gated (recreate : app.config.shuftiproAllowRecreateSession = false)
    (acts : acting past = some (query, user)) (draws : Draws) :
    (KycProvider.getInitStatus app user draws).Meets (SessionGuard (.user authorization .kycInit))
      (fun _ _ => True) (fun _ _ => True) past := by
  unfold KycProvider.getInitStatus
  split
  · simp only [ShuftiproProvider.processKycStatus, meets_bind, meets_throwIf, meets_orThrow,
      meets_ite, meets_pure, implies_true, true_and, and_true]
    intro unverified unfailed undecided kycInitResult _ _
    have notVerified : user.val.kycStatus = .notVerified := by
      cases status : user.val.kycStatus with
      | notVerified => rfl
      | verified => exact absurd status unverified
      | failed => exact absurd ⟨status, recreate⟩ unfailed
      | pending => exact absurd status undecided
    exact Meets.under fun later op extended _ =>
      ⟨query, user, acting_extended extended acts, notVerified⟩
  · simp [JumioProvider.getInitStatus]

theorem reinit_gated (acts : acting past = some (query, user)) (draws : Draws) :
    (KycProvider.reinit app user draws).Meets (SessionGuard (.user authorization .kycReinit))
      (fun _ _ => True) (fun _ _ => True) past := by
  unfold KycProvider.reinit
  split
  · cases had : user.val.kycInitResult with
    | none =>
        -- reading the reference throws, and the handler throws it on
        simp [ShuftiproProvider.updateKycInit, ShuftiproProvider.getKycStatus, had, typeError]
    | some kycInitResult =>
        exact Meets.under fun later op extended _ =>
          ⟨query, user, acting_extended extended acts, by rw [had]; exact Option.some_ne_none _⟩
  · trivial

/-- The calls that do not reach `init`. -/
def Unposted : Op → Prop
  | .shuftiproInit _ => False
  | _ => True

theorem processCallback_unposted (result : ShuftiproInitResult) (timestamp : String) :
    (ShuftiproProvider.processCallback app result timestamp).Meets (fun _ op => Unposted op)
      (fun _ _ => True) (fun _ _ => True) past := by
  simp [ShuftiproProvider.processCallback, ShuftiproProvider.applyKycResult, findInvestor, request,
    call, Unposted]

theorem jumioCallback_unposted (result : JumioResult) :
    (JumioProvider.callback result).Meets (fun _ op => Unposted op) (fun _ _ => True)
      (fun _ _ => True) past := by
  simp only [JumioProvider.callback, request, call, meets_bind, meets_await, meets_done, meets_fail,
    meets_orThrow, Unposted, implies_true, and_true, true_and]
  intro _ id _ found
  split <;> simp [JumioProvider.applyVerificationResult, request, call]

/-- No callback calls the provider. -/
theorem callback_gated (body : KycCallback) (timestamp : String) :
    (KycProvider.callback app body timestamp).Meets (SessionGuard (.kycCallback body))
      (fun _ _ => True) (fun _ _ => True) past := by
  have unposted : (KycProvider.callback app body timestamp).Meets (fun _ op => Unposted op)
      (fun _ _ => True) (fun _ _ => True) past := by
    cases body with
    | shuftipro result => exact processCallback_unposted result timestamp
    | jumio result => exact jumioCallback_unposted result
  refine unposted.mono (fun _ op unposted creates => ?_) (fun _ _ _ => trivial) fun _ _ _ => trivial
  cases op <;> first | exact unposted.elim | exact creates.elim

theorem handle_gated (recreate : app.config.shuftiproAllowRecreateSession = false)
    (arrival : Arrival) (asks : arrival.request.asksKyc = true) :
    (handle app arrival.draws arrival.request).Meets (SessionGuard arrival.request) (fun _ _ => True)
      (fun _ _ => True) [] := by
  have reads : ∀ authorization userRequest past op, acting past = none → Reads op →
      SessionGuard (.user authorization userRequest) past op := by
    intro authorization userRequest past op _ reads creates
    cases op with
    | findToken | verifyUserToken | findInvestor =>
        cases userRequest <;> exact creates.elim
    | _ => exact reads.elim
  cases asked : arrival.request with
  | kycCallback body =>
      simp only [handle, meets_bind, meets_pure]
      exact callback_gated body _
  | user authorization userRequest =>
      refine userRoute_meets (reads authorization userRequest) (fun query token login user _ => ?_)
        (fun _ _ => ⟨trivial, trivial⟩) fun _ _ _ => trivial
      have acts := acting_authTrace query token login user
      cases userRequest with
      | kycInit =>
          simp only [handleUser, meets_bind, meets_pure]
          exact getInitStatus_gated recreate acts arrival.draws
      | kycReinit =>
          simp only [handleUser, meets_bind, meets_pure]
          exact reinit_gated acts arrival.draws
      | _ => rw [asked] at asks; cases asks
  | _ => rw [asked] at asks; cases asks

end Gate

/-! ## Runs -/

/-- A session is renewed only where the other route would open one. -/
def RenewsOpen (round : AccountRound) : Prop :=
  ∀ authorization query user, round.request.request = .user authorization .kycReinit →
    acting round.trace = some (query, user) →
    user.val.kycStatus = .notVerified ∨ user.val.kycInitResult = none

/-- In every run whose renewals are for open investors, no KYC request creates a
session for a failed, pending or verified investor. -/
theorem sessions_gated (recreate : app.config.shuftiproAllowRecreateSession = false)
    {first last : World} {rounds : List AccountRound} (run : (accounts app).InTurn first rounds last)
    (renews : ∀ round ∈ rounds, RenewsOpen round) :
    ∀ round ∈ rounds, round.request.request.asksKyc = true →
      ∀ id investor, round.before.investors.lookup id = some investor →
        investor.kycStatus ≠ .notVerified → ¬ CreatesSession round id := by
  intro round member asks id investor stored closed creates
  have ran := run.ran member
  obtain ⟨query, user, called, acts, own, made, opens⟩ := creates
  have registers : ∀ userData, round.request.request ≠ .create userData := by
    intro userData asked
    rw [asked] at asks
    cases asks
  have loaded := acting_stored ran registers acts
  rw [own, stored] at loaded
  cases loaded
  obtain ⟨front, later, split⟩ := List.mem_iff_append.mp made
  obtain ⟨query', user', acting', gate⟩ :=
    ran.guarded (handle_gated recreate round.request asks) split opens
  have same : acting round.trace = some (query', user') := by
    rw [split]
    exact acting_append acting' _
  rw [acts] at same
  cases same
  split at gate
  · exact closed gate
  · rename_i asked
    rcases renews round member _ _ _ asked acts with open' | unasked
    · exact closed open'
    · exact gate unasked
  · exact gate

/-! ## A failed investor asks again -/

def sessionApp : App :=
  { App.plain with config := { kycEnabled := true, kycProvider := .shuftipro } }

/-- The provider's answer to an initiation. -/
def openedSession : ShuftiproInitResult where
  statusCode := some "SP2"
  message := some "initiated"
  reference := some "r1"
  signature := some "SP2initiatedr1"

def sessionChoices (first : Nat) (accessToken : String) : List Choice :=
  (List.range 14).map fun place =>
    { accessToken, id := Fin.ofNat _ (first + place), shuftipro := openedSession }

/-- Ann signs up and is activated, her documents are refused, and she asks for a
session at one of the two routes. -/
def refusedAnn (asks : UserRequest) : List (Arrival × List Choice) :=
  [({ request := .create newcomer },
      List.replicate 5 { verificationId := "v1", code := "123456", id := 1 }),
    ({ request := .activate { email := "ann@example.com", verificationId := "v1", code := "123456" }
       draws := { mnemonic := "pig", salt := "salt", uuid := "r1" } }, sessionChoices 21 "t1"),
    ({ request := .kycCallback (.shuftipro
        { statusCode := some "SP0", message := some "refused", reference := some "r1"
          signature := some "SP0refusedr1" }) }, sessionChoices 41 ""),
    ({ request := .user (some "Bearer t1") asks, draws := { uuid := "r2" } }, sessionChoices 61 "")]

def refusedRounds (asks : UserRequest) : List AccountRound :=
  (accounts sessionApp).serve {} (refusedAnn asks)

theorem refusedAnn_gated : ∃ signUp activation callback asking,
    refusedRounds .kycInit = [signUp, activation, callback, asking] ∧
    (asking.before.investors.lookup 1).map Investor.kycStatus = some .failed ∧
    ¬ CreatesSession asking 1 := by
  have run := @System.inTurn_serve _ _ _ _ _ _ _ (accounts sessionApp) {} (refusedAnn .kycInit) rfl
  have asked : (refusedRounds .kycInit).map (fun round => round.request.request) =
      (refusedAnn .kycInit).map fun request => request.1.request := rfl
  have renews : ∀ round ∈ refusedRounds .kycInit, RenewsOpen round := by
    intro round member authorization query user renewed _
    have listed := List.mem_map_of_mem (f := fun round : AccountRound => round.request.request) member
    rw [asked, renewed] at listed
    simp [refusedAnn] at listed
  have four : ∃ signUp activation callback asking,
      refusedRounds .kycInit = [signUp, activation, callback, asking] := ⟨_, _, _, _, rfl⟩
  have gated := sessions_gated rfl run renews
  have last : (refusedRounds .kycInit).getLast?.map (fun round =>
      (round.request.request.asksKyc, (round.before.investors.lookup 1).map Investor.kycStatus)) =
      some (true, some .failed) := by decide +kernel
  obtain ⟨signUp, activation, callback, asking, served⟩ := four
  change ∀ round ∈ refusedRounds .kycInit, _ at gated
  rw [served] at gated last
  have both : (asking.request.request.asksKyc,
      (asking.before.investors.lookup 1).map Investor.kycStatus) = (true, some .failed) :=
    Option.some.inj last
  have failed := congrArg Prod.snd both
  obtain ⟨ann, stored, status⟩ := Option.map_eq_some_iff.mp failed
  refine ⟨signUp, activation, callback, asking, served, failed, ?_⟩
  exact gated asking (by simp) (congrArg Prod.fst both) 1 ann stored (by rw [status]; decide)

/-- The status endpoint answers nothing, and the provider opens a session for the
failed investor. -/
theorem refusedAnn_renewed : ∃ rounds last asking investor,
    (accounts sessionApp).InTurn {} rounds last ∧ asking ∈ rounds ∧
    asking.request.request.asksKyc = true ∧ asking.before.investors.lookup 1 = some investor ∧
    investor.kycStatus = .failed ∧ CreatesSession asking 1 := by
  have run := @System.inTurn_serve _ _ _ _ _ _ _ (accounts sessionApp) {} (refusedAnn .kycReinit) rfl
  have renewed : ∃ asking, (refusedRounds .kycReinit)[3]? = some asking ∧
      asking.request.request.asksKyc = true ∧
      (∃ investor, asking.before.investors.lookup 1 = some investor ∧
        investor.kycStatus = .failed) ∧ CreatesSession asking 1 :=
    ⟨_, rfl, rfl, ⟨_, rfl, rfl⟩, _, _, _, rfl, rfl, List.mem_of_getElem? (i := 5) rfl, trivial⟩
  obtain ⟨asking, listed, asks, ⟨investor, stored, failed⟩, creates⟩ := renewed
  exact ⟨_, _, asking, investor, run, List.mem_of_getElem? listed, asks, stored, failed, creates⟩

end IcoDashboard.Accounts
