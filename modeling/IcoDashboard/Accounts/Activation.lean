import IcoDashboard.Accounts.Verifications
import IcoDashboard.Async.Sequential

namespace IcoDashboard.Accounts

open IcoDashboard.Async IcoDashboard.Async.Program IcoDashboard.Data

/-! # Failing activations

`activate` saves the investor and makes further calls after that.  A rejection
before the save leaves the store as it was; a rejection after it throws away the
only copy of the mnemonic.
-/

variable {app : App}

/-! ## Writes to the investors -/

def investorWrites (trace : AccountTrace) : List InvestorWrite := trace.filterMap investorWrite

variable {trace : AccountTrace}

@[simp] theorem investorWrites_append (trace added : AccountTrace) :
    investorWrites (trace ++ added) = investorWrites trace ++ investorWrites added :=
  List.filterMap_append

@[simp] theorem investorWrites_single (call : Call Op Ans Exception) :
    investorWrites [call] = (investorWrite call).toList := by
  cases write : investorWrite call <;> simp [investorWrites, write]

theorem investorWrites_unwritten {added : AccountTrace}
    (noWrite : ∀ call ∈ added, investorWrite call = none) :
    investorWrites (trace ++ added) = investorWrites trace := by
  have none : investorWrites added = [] := List.filterMap_eq_nil_iff.mpr noWrite
  rw [investorWrites_append, none, List.append_nil]

theorem investorWrites_quiet {op : Op} {answer : Except Exception (Ans op)}
    (noWrite : investorWrite ⟨op, answer⟩ = none) :
    investorWrites (trace ++ [⟨op, answer⟩]) = investorWrites trace :=
  investorWrites_unwritten fun call member => by rw [List.mem_singleton.mp member]; exact noWrite

/-- Replaying the writes of an execution gives the investors it leaves. -/
theorem investors_after {program : Handler α} {before after : World} {trace : AccountTrace}
    {outcome : Except Exception α} (executes : Executes perform program before trace outcome after) :
    after.investors = (investorWrites trace).foldl InvestorWrite.apply before.investors := by
  have replayed := executes.replay World.investors
    (fun investors call => ((investorWrite call).map (InvestorWrite.apply investors)).getD investors)
    (fun choice op world => (perform_investors choice op world).eq)
  rw [replayed, investorWrites, List.foldl_filterMap]
  congr 1
  funext investors call
  cases investorWrite call <;> rfl

/-! ## The calls of an activation -/

/-- A rejection that makes `activate` throw after its save. -/
def FailsLate (app : App) : Call Op Ans Exception → Prop
  | ⟨.loginUser _, .error _⟩ => True
  | ⟨.insertToken _, .error _⟩ => True
  | ⟨.renderTemplate name _, .error _⟩ => EmailTemplateService.isRequired app name = true
  | _ => False

def Undisturbed (app : App) (trace : AccountTrace) : Prop := ∀ call ∈ trace, ¬ FailsLate app call

/-- The calls that an activation makes before its save. -/
def Quiet : Op → Prop
  | .saveInvestor _ | .insertInvestor _ | .loginUser _ | .insertToken _ | .renderTemplate _ _ => False
  | _ => True

theorem Quiet.noWrite {call : Call Op Ans Exception} (quiet : Quiet call.1) :
    investorWrite call = none := by
  obtain ⟨op, answer⟩ := call
  cases op <;> first | rfl | exact quiet.elim

theorem Quiet.notLate {call : Call Op Ans Exception} (quiet : Quiet call.1) :
    ¬ FailsLate app call := by
  obtain ⟨op, answer⟩ := call
  cases op <;> first | exact quiet.elim | exact id

/-- The user was loaded by the first call, and nothing has happened since. -/
structure Preparing (app : App) (email : String) (user : Doc ObjectID Investor)
    (trace : AccountTrace) : Prop where
  first : trace.head? = some ⟨.findInvestor (.email (app.toLowerCase email)), .ok (some user)⟩
  noWrite : investorWrites trace = []
  undisturbed : Undisturbed app trace

variable {email : String} {user : Doc ObjectID Investor}

theorem Preparing.append {added : AccountTrace} (preparing : Preparing app email user trace)
    (quiet : ∀ call ∈ added, Quiet call.1) : Preparing app email user (trace ++ added) := by
  refine ⟨?_, ?_, ?_⟩
  · rw [List.head?_append, preparing.first]
    rfl
  · rw [investorWrites_unwritten fun call member => (quiet call member).noWrite]
    exact preparing.noWrite
  · intro call member
    rcases List.mem_append.mp member with old | new
    · exact preparing.undisturbed call old
    · exact (quiet call new).notLate

theorem Preparing.through {program : Handler α} {onDone : AccountTrace → α → Prop}
    {onFail : AccountTrace → Exception → Prop} (preparing : Preparing app email user trace)
    (quiet : program.Meets (fun _ op => Quiet op) (fun _ _ => True) (fun _ _ => True) trace)
    (rest : ∀ later value, Preparing app email user later → onDone later value)
    (thrown : ∀ later error, Preparing app email user later → onFail later error) :
    program.Meets (fun _ _ => True) onDone onFail trace := by
  apply quiet.through (fun _ _ _ => trivial)
  · exact fun added value all => rest _ value (preparing.append all)
  · exact fun added error all => thrown _ error (preparing.append all)

section Calls

variable {allowed : Op → Prop}

/-- A check asks only the verify service. -/
theorem check_calls (input : VerificationData) (consumer : String)
    (payload : Json.Object) (removeSecret : Option Bool)
    (gets : ∀ method id, allowed (.getVerifier method id))
    (validates : ∀ method id input, allowed (.validate method id input))
    (invalidates : ∀ method id, allowed (.invalidate method id)) :
    (VerificationClient.checkVerificationPayloadAndCode app input consumer payload
      removeSecret).Meets (fun _ op => allowed op) (fun _ _ => True) (fun _ _ => True) trace := by
  simp [VerificationClient.checkVerificationPayloadAndCode, VerificationClient.getVerification,
    VerificationClient.validateVerification, VerificationClient.invalidateVerification, request, call,
    gets, validates, invalidates]

theorem initiateVerification_calls (method : String) (data : InitiateData)
    (initiates : ∀ method data, allowed (.initiate method data)) :
    (VerificationClient.initiateVerification app method data).Meets (fun _ op => allowed op)
      (fun _ _ => True) (fun _ _ => True) trace := by
  simp [VerificationClient.initiateVerification, request, call, initiates]

theorem getRenderedTemplate_calls (name : String) (data : List (String × String))
    (renders : ∀ name data, allowed (.renderTemplate name data)) :
    (EmailTemplateService.getRenderedTemplate app name data).Meets (fun _ op => allowed op)
      (fun _ _ => True) (fun _ _ => True) trace := by
  simp [EmailTemplateService.getRenderedTemplate, request, call, renders]

theorem notify_calls (name : String) (data : List (String × String)) (mail : String → Mail)
    (renders : ∀ name data, allowed (.renderTemplate name data))
    (mails : ∀ mail, allowed (.addJob mail)) :
    (notify app name data mail).Meets (fun _ op => allowed op) (fun _ _ => True) (fun _ _ => True)
      trace := by
  simp only [notify, meets_bind]
  refine (getRenderedTemplate_calls name data renders).after fun later text _ => ?_
  simp [fire, mails]

theorem addReferral_calls (address : String) (referral : Option String)
    (finds : ∀ query, allowed (.findInvestor query))
    (adds : ∀ user referral, allowed (.addReferralOf user referral)) :
    (UserService.addReferral app address referral).Meets (fun _ op => allowed op) (fun _ _ => True)
      (fun _ _ => True) trace := by
  cases referral <;> simp [UserService.addReferral, request, call, finds, adds]

/-- A session is opened at the provider that the configuration names. -/
theorem kycInit_calls (user : Doc ObjectID Investor) (draws : Draws)
    (posts : ∀ data, allowed (.shuftiproInit data))
    (inserts : ∀ result, allowed (.insertKycResult result))
    (scans : ∀ options, allowed (.jumioInit options)) :
    (KycProvider.init app user draws).Meets (fun _ op => allowed op) (fun _ _ => True)
      (fun _ _ => True) trace := by
  unfold KycProvider.init
  split
  · simp [ShuftiproProvider.init, ShuftiproProvider.localInitKycProcess,
      ShuftiproProvider.saveKycInitResult, request, call, posts, inserts]
  · simp [JumioProvider.init, request, call, scans]

theorem notifyActivation_calls (user : Investor) (address : String)
    (renders : ∀ name data, allowed (.renderTemplate name data))
    (mails : ∀ mail, allowed (.addJob mail))
    (sends : ∀ amount recipient gas gasPrice privateKey,
      allowed (.sendTransactionByPrivateKey amount recipient gas gasPrice privateKey)) :
    (UserService.notifyActivation app user address).Meets (fun _ op => allowed op) (fun _ _ => True)
      (fun _ _ => True) trace := by
  simp only [UserService.notifyActivation, UserService.sendTestFunds, meets_bind]
  refine (notify_calls _ _ _ renders mails).after fun later _ _ => ?_
  cases app.config.testFundPrivateKey <;> simp [fire, sends]

end Calls

theorem check_quiet (input : VerificationData) (consumer : String) (payload : Json.Object)
    (removeSecret : Option Bool) :
    (VerificationClient.checkVerificationPayloadAndCode app input consumer payload
      removeSecret).Meets (fun _ op => Quiet op) (fun _ _ => True) (fun _ _ => True) trace :=
  check_calls input consumer payload removeSecret (fun _ _ => trivial) (fun _ _ _ => trivial)
    fun _ _ => trivial

theorem addReferral_quiet (address : String) (referral : Option String) :
    (UserService.addReferral app address referral).Meets (fun _ op => Quiet op) (fun _ _ => True)
      (fun _ _ => True) trace :=
  addReferral_calls address referral (fun _ => trivial) fun _ _ => trivial

theorem kycInit_quiet (user : Doc ObjectID Investor) (draws : Draws) :
    (KycProvider.init app user draws).Meets (fun _ op => Quiet op) (fun _ _ => True)
      (fun _ _ => True) trace :=
  kycInit_calls user draws (fun _ => trivial) (fun _ => trivial) fun _ => trivial

/-- What `activate` makes of the user it has loaded. -/
def activatedUser (app : App) (draws : Draws) (user : Investor) (kycInitResult : KycInitResult) :
    Investor :=
  { user with
    ethWallet := some (activatedWallet app draws)
    kycInitResult := some kycInitResult
    isVerified := true }

/-- The activated user was saved, and nothing else. -/
def SavesActivation (app : App) (email : String) (draws : Draws) (trace : AccountTrace) : Prop :=
  ∃ user kycInitResult,
    trace.head? = some ⟨.findInvestor (.email (app.toLowerCase email)), .ok (some user)⟩ ∧
    user.val.isVerified = false ∧
    investorWrites trace = [.save ⟨user.id, activatedUser app draws user.val kycInitResult⟩]

variable {draws : Draws}

theorem SavesActivation.append {added : AccountTrace} (saves : SavesActivation app email draws trace)
    (noWrite : investorWrites added = []) : SavesActivation app email draws (trace ++ added) := by
  obtain ⟨user, kycInitResult, first, unverified, writes⟩ := saves
  refine ⟨user, kycInitResult, ?_, unverified, ?_⟩
  · rw [List.head?_append, first]
    rfl
  · rw [investorWrites_append, writes, noWrite]
    rfl

theorem Undisturbed.append {call : Call Op Ans Exception} (undisturbed : Undisturbed app trace)
    (fine : ¬ FailsLate app call) : Undisturbed app (trace ++ [call]) := by
  intro other member
  rcases List.mem_append.mp member with old | new
  · exact undisturbed other old
  · rw [List.mem_singleton.mp new]
    exact fine

theorem undisturbed_first {call : Call Op Ans Exception} (fine : ¬ FailsLate app call) :
    Undisturbed app [call] := by
  intro other member
  rw [List.mem_singleton.mp member]
  exact fine

theorem answered_notLate {op : Op} {value : Ans op} : ¬ FailsLate app ⟨op, .ok value⟩ := by
  cases op <;> exact id

theorem disturbed {call : Call Op Ans Exception} (late : FailsLate app call) :
    ¬ Undisturbed app (trace ++ [call]) :=
  fun undisturbed => undisturbed call (List.mem_append_right _ List.mem_cons_self) late

/-- Either nothing was saved, or the activation was and a later call failed. -/
def ThrowsAfter (app : App) (email : String) (draws : Draws) (trace : AccountTrace)
    (_ : Exception) : Prop :=
  (investorWrites trace = [] ∧ Undisturbed app trace) ∨
    (SavesActivation app email draws trace ∧ ¬ Undisturbed app trace)

theorem storeActivation_saves (preparing : Preparing app email user trace)
    (unverified : user.val.isVerified = false) (kycInitResult : KycInitResult) :
    (UserService.storeActivation
        ⟨user.id, activatedUser app draws user.val kycInitResult⟩).Meets (fun _ _ => True)
      (fun later _ => SavesActivation app email draws later ∧ Undisturbed app later)
      (ThrowsAfter app email draws) trace := by
  have saves : SavesActivation app email draws (trace ++
      [⟨.saveInvestor ⟨user.id, activatedUser app draws user.val kycInitResult⟩, .ok ()⟩]) := by
    refine ⟨user, kycInitResult, ?_, unverified, ?_⟩
    · rw [List.head?_append, preparing.first]
      rfl
    · rw [investorWrites_append, preparing.noWrite]
      rfl
  have undisturbed : Undisturbed app (trace ++
      [⟨.saveInvestor ⟨user.id, activatedUser app draws user.val kycInitResult⟩, .ok ()⟩]) :=
    preparing.undisturbed.append id
  simp only [UserService.storeActivation, request, call, meets_bind, meets_await, meets_done,
    meets_fail, meets_pure, true_and]
  refine ⟨fun _ => ⟨fun loginResult => ⟨fun id => ⟨?_, ?_⟩, fun error => ?_⟩, fun error => ?_⟩,
    fun error => ?_⟩
  · exact (saves.append rfl).append rfl
  · exact (undisturbed.append answered_notLate).append answered_notLate
  · exact .inr ⟨(saves.append rfl).append rfl, disturbed trivial⟩
  · exact .inr ⟨saves.append rfl, disturbed trivial⟩
  · refine .inl ⟨?_, preparing.undisturbed.append id⟩
    rw [investorWrites_append, preparing.noWrite]
    rfl

theorem sendTestFunds_saves (saves : SavesActivation app email draws trace)
    (undisturbed : Undisturbed app trace) (address : String) :
    (UserService.sendTestFunds app address).Meets (fun _ _ => True)
      (fun later _ => SavesActivation app email draws later ∧ Undisturbed app later)
      (ThrowsAfter app email draws) trace := by
  unfold UserService.sendTestFunds
  split
  · rename_i privateKey _
    simp only [meets_ite, meets_pure, fire, meets_await, meets_done, true_and]
    refine ⟨fun _ => ⟨fun _ => ?_, fun _ => ?_⟩, fun _ => ⟨saves, undisturbed⟩⟩
    · exact ⟨saves.append rfl, undisturbed.append id⟩
    · exact ⟨saves.append rfl, undisturbed.append id⟩
  · exact ⟨saves, undisturbed⟩

theorem notifyActivation_saves (saves : SavesActivation app email draws trace)
    (undisturbed : Undisturbed app trace) (saved : Investor) (address : String) :
    (UserService.notifyActivation app saved address).Meets (fun _ _ => True)
      (fun later _ => SavesActivation app email draws later ∧ Undisturbed app later)
      (ThrowsAfter app email draws) trace := by
  simp only [UserService.notifyActivation, notify, EmailTemplateService.getRenderedTemplate, request,
    call, fire, meets_bind, meets_tryCatch, meets_ite, meets_await, meets_done, meets_fail,
    meets_pure, meets_throw, true_and]
  refine ⟨fun text => ⟨fun _ => ?_, fun _ => ⟨fun _ => ?_, fun _ => ?_⟩⟩,
    fun error => ⟨fun required => ?_, fun optional => ⟨fun _ => ?_, fun absurdity => ?_⟩⟩⟩
  · exact sendTestFunds_saves (saves.append rfl) (undisturbed.append id) _
  · exact sendTestFunds_saves ((saves.append rfl).append rfl)
      ((undisturbed.append id).append id) _
  · exact sendTestFunds_saves ((saves.append rfl).append rfl)
      ((undisturbed.append id).append id) _
  · exact .inr ⟨saves.append rfl, disturbed required⟩
  · refine sendTestFunds_saves (saves.append rfl) (undisturbed.append ?_) _
    exact optional
  · exact absurd trivial absurdity

/-- An activation saves the activated user or nothing, and throws after the save
exactly when a later call fails. -/
theorem activate_saves (activationData : ActivationUserData) (draws : Draws) :
    (UserService.activate app activationData draws).Meets (fun _ _ => True)
      (fun trace result => (SavesActivation app activationData.email draws trace ∧
          Undisturbed app trace) ∧ result.wallets = [returnedWallet app draws])
      (ThrowsAfter app activationData.email draws) [] := by
  simp only [UserService.activate, UserService.findUser, findInvestor, request, call, meets_bind,
    meets_await, meets_done, meets_fail, meets_orThrow, meets_throwIf, meets_pure, true_and]
  refine ⟨fun found => ⟨?_, fun _ => .inl ⟨rfl, undisturbed_first id⟩⟩,
    fun error => .inl ⟨rfl, undisturbed_first id⟩⟩
  intro user same
  subst same
  have preparing : Preparing app activationData.email user
      [⟨.findInvestor (.email (app.toLowerCase activationData.email)), .ok (some user)⟩] :=
    ⟨rfl, rfl, undisturbed_first id⟩
  have unsaved : ∀ later error, Preparing app activationData.email user later →
      ThrowsAfter app activationData.email draws later error :=
    fun _ _ preparing => .inl ⟨preparing.noWrite, preparing.undisturbed⟩
  refine ⟨fun _ => unsaved _ _ preparing, fun unverified => ?_⟩
  refine preparing.through (check_quiet _ _ _ _) (fun later _ preparing => ?_) unsaved
  refine preparing.through (addReferral_quiet _ _) (fun later _ preparing => ?_) unsaved
  refine preparing.through (kycInit_quiet _ _) (fun later kycInitResult preparing => ?_) unsaved
  refine (storeActivation_saves preparing (by simpa using unverified) kycInitResult).mono
    (fun _ _ _ => trivial) (fun later loginResult saved => ?_) (fun _ _ thrown => thrown)
  exact (notifyActivation_saves saved.1 saved.2 _ _).mono (fun _ _ _ => trivial)
    (fun _ _ notified => ⟨notified, rfl⟩) (fun _ _ thrown => thrown)

/-! ## All or nothing -/

/-- A thrown activation leaves the investors as they were; and an investor that
the call has verified has the wallet whose mnemonic and key it returned. -/
structure AllOrNothing (app : App) (before after : World)
    (outcome : Except Exception ActivationResult) : Prop where
  nothing : ∀ error, outcome = .error error → after.investors = before.investors
  all : ∀ id investor, after.investors.lookup id = some investor → investor.isVerified = true →
    (∀ former, before.investors.lookup id = some former → former.isVerified = false) →
    ∃ result wallet newWallet, outcome = .ok result ∧ investor.ethWallet = some wallet ∧
      newWallet ∈ result.wallets ∧ newWallet.address = wallet.address ∧
      app.getAccountByMnemonicAndSalt newWallet.mnemonic wallet.salt =
        (newWallet.privateKey, wallet.address)

section AllOrNothing

variable {before after : World} {outcome : Except Exception ActivationResult}
  {activationData : ActivationUserData}

/-- A saved activation is stored over the investor it was loaded from. -/
theorem SavesActivation.stored
    (executes : Executes perform (UserService.activate app activationData draws) before trace outcome
      after)
    (saves : SavesActivation app activationData.email draws trace) :
    ∃ (user : Doc ObjectID Investor) (kycInitResult : KycInitResult),
      before.investors.lookup user.id = some user.val ∧ user.val.isVerified = false ∧
      after.investors = before.investors.save Investor.write
        ⟨user.id, activatedUser app draws user.val kycInitResult⟩ := by
  obtain ⟨user, kycInitResult, first, unverified, writes⟩ := saves
  obtain ⟨choice, answered⟩ := executes.first first
  have loaded := findInvestor_loaded (findInvestor_answered answered.symm)
  refine ⟨user, kycInitResult, loaded.1, unverified, ?_⟩
  rw [investors_after executes, writes]
  rfl

theorem lookup_activated {investors : Collection ObjectID Investor} {user : Doc ObjectID Investor}
    (stored : investors.lookup user.id = some user.val) (activated : Investor) :
    (investors.save Investor.write ⟨user.id, activated⟩).lookup user.id =
      some (Investor.write user.val activated) := by
  rw [Collection.lookup_save, if_pos rfl, stored]
  rfl

/-- A failure after the save is not undone. -/
theorem AllOrNothing.undisturbed
    (executes : Executes perform (UserService.activate app activationData draws) before trace outcome
      after)
    (promise : AllOrNothing app before after outcome) : Undisturbed app trace := by
  obtain ⟨done, thrown⟩ := executes.meets (activate_saves activationData draws)
  cases outcome with
  | ok result => exact (done result rfl).1.2
  | error error =>
      rcases thrown error rfl with ⟨_, undisturbed⟩ | ⟨saves, _⟩
      · exact undisturbed
      · obtain ⟨user, kycInitResult, stored, unverified, saved⟩ := saves.stored executes
        have activated := lookup_activated stored (activatedUser app draws user.val kycInitResult)
        rw [← saved, promise.nothing error rfl, stored] at activated
        have same := congrArg Investor.isVerified (Option.some.inj activated)
        rw [unverified] at same
        cases same

theorem Undisturbed.nothing
    (executes : Executes perform (UserService.activate app activationData draws) before trace outcome
      after)
    (undisturbed : Undisturbed app trace) {error : Exception} (threw : outcome = .error error) :
    after.investors = before.investors := by
  rcases (executes.meets (activate_saves activationData draws)).2 error threw with
    ⟨noWrite, _⟩ | ⟨_, disturbed⟩
  · have noWrite : investorWrites trace = [] := noWrite
    rw [investors_after executes, noWrite]
    rfl
  · exact absurd undisturbed disturbed

/-- An activation keeps its promise exactly when no call after its save fails. -/
theorem allOrNothing_iff
    (executes : Executes perform (UserService.activate app activationData draws) before trace outcome
      after) :
    AllOrNothing app before after outcome ↔ Undisturbed app trace := by
  refine ⟨AllOrNothing.undisturbed executes, fun undisturbed => ⟨?_, ?_⟩⟩
  · exact fun error threw => undisturbed.nothing executes threw
  · intro id investor stored verified unverifiedBefore
    cases outcome with
    | error error =>
        rw [undisturbed.nothing executes rfl] at stored
        rw [unverifiedBefore investor stored] at verified
        cases verified
    | ok result =>
        obtain ⟨⟨saves, _⟩, wallets⟩ :=
          (executes.meets (activate_saves activationData draws)).1 result rfl
        obtain ⟨user, kycInitResult, loaded, _, saved⟩ := saves.stored executes
        by_cases own : id = user.id
        · subst own
          rw [saved, lookup_activated loaded] at stored
          obtain rfl := Option.some.inj stored
          exact ⟨result, activatedWallet app draws, _, rfl, rfl, by rw [wallets]; exact List.mem_cons_self,
            rfl, rfl⟩
        · rw [saved, Collection.lookup_save, if_neg own] at stored
          rw [unverifiedBefore investor stored] at verified
          cases verified

end AllOrNothing

/-! ## A failing login -/

def newcomers : World := (after .plain signUp).world

def activateNewcomer (choices : List Choice) :
    Option (AccountTrace × Except Exception ActivationResult × World) :=
  execute perform choices
    (UserService.activate .plain
      { email := "ann@example.com", verificationId := "v1", code := "123456" }
      { mnemonic := "pig", salt := "salt" })
    newcomers

theorem activation_keeps :
    ∃ trace outcome after,
      activateNewcomer [{}, {}, {}, {}, { accessToken := "t1" }, { id := 1 }, {}] =
        some (trace, outcome, after) ∧ AllOrNothing .plain newcomers after outcome := by
  have ran : activateNewcomer [{}, {}, {}, {}, { accessToken := "t1" }, { id := 1 }, {}] =
    some (_, _, _) := rfl
  have executes := executes_of_execute ran
  refine ⟨_, _, _, ran, (allOrNothing_iff executes).mpr ?_⟩
  simp [Undisturbed, FailsLate]

/-- The investor is saved, and then the auth service rejects the login. -/
theorem activation_lost :
    ∃ trace outcome after,
      activateNewcomer [{}, {}, {}, {}, { rejects := some (requestError 500) }] =
        some (trace, outcome, after) ∧ ¬ AllOrNothing .plain newcomers after outcome := by
  refine ⟨_, _, _, rfl, ?_⟩
  intro promise
  have lookups := congrArg (fun investors => investors.lookup 1) (promise.nothing _ rfl)
  revert lookups
  decide

end IcoDashboard.Accounts
