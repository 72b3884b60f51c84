import IcoDashboard.Accounts.Guards
import IcoDashboard.Async.Rounds

namespace IcoDashboard.Accounts

open IcoDashboard.Async IcoDashboard.Async.Program IcoDashboard.Data

/-! # The whitelist queue

The repeated job `check_whitelist`, and the backend that runs it among the
requests.  The job queries the investors as a list, which no request does.
-/

inductive JobOp where
  | account (op : Op)
  | findVerified
  | findReferred

abbrev JobAns : JobOp → Type
  | .account op => Ans op
  | .findVerified => List (Doc ObjectID Investor)
  | .findReferred => List (Doc ObjectID Investor)

abbrev Job (α : Type) : Type := Program JobOp JobAns Exception α

abbrev JobTrace : Type := Trace JobOp JobAns Exception

def requestJob (op : JobOp) : Job (JobAns op) := Program.call op

/-- The program of a request, as one of the backend. -/
def asJob : Handler α → Job α
  | .done value => .done value
  | .fail error => .fail error
  | .await op resume => .await (.account op) fun answer => asJob (resume answer)

namespace Web3Queue

/-- The address of the wallet, when there is one and it is not empty. -/
def walletAddress (investor : Investor) : Option String :=
  investor.ethWallet.bind fun wallet => if wallet.address = "" then none else some wallet.address

variable (app : App)

def restoreWhitelisted (investor : Doc ObjectID Investor) : Job Unit :=
  match walletAddress investor.val with
  | none => return ()
  | some address => do
      let allowed ← requestJob (.account (.isAllowed address))
      if allowed = true then return ()
      else requestJob (.account (.addAddressToWhiteList address))

def restoreReferral (investor : Doc ObjectID Investor) : Job Unit :=
  match walletAddress investor.val with
  | none => return ()
  | some address => do
      let email ← orThrow investor.val.referral typeError
      let referral ← requestJob (.account (.findInvestor (.email (app.toLowerCase email))))
      match referral.bind fun referral => walletAddress referral.val with
      | none => return ()
      | some referralAddress => do
          let addressFromWhiteList ← requestJob (.account (.getReferralOf address))
          if app.toLowerCase addressFromWhiteList ≠ app.toLowerCase referralAddress then
            requestJob (.account (.addReferralOf address referralAddress))
          else return ()

/-- Restore the investors and the referrals that the whitelist does not have. -/
def checkWhiteList : Job Bool := do
  let verifiedInvestors ← requestJob .findVerified
  forEach verifiedInvestors restoreWhitelisted
  let investorsWithReferral ← requestJob .findReferred
  forEach investorsWithReferral (restoreReferral app)
  return true

end Web3Queue

/-! ## The backend -/

/-- The queries select by status, and by a referral that is not null. -/
def performJob (choice : Choice) (op : JobOp) (world : World) :
    Except Exception (JobAns op) × World :=
  match op with
  | .account op => perform choice op world
  | .findVerified =>
      match choice.rejects with
      | some error => (.error error, world)
      | none => (.ok (world.investors.docs.filter fun investor =>
          investor.val.kycStatus = .verified), world)
  | .findReferred =>
      match choice.rejects with
      | some error => (.error error, world)
      | none => (.ok (world.investors.docs.filter fun investor =>
          investor.val.referral.isSome), world)

section Queries

variable {choice : Choice} {world : World} {found : List (Doc ObjectID Investor)}

theorem findVerified_keeps (choice : Choice) (world : World) :
    (performJob choice .findVerified world).2 = world := by
  unfold performJob
  split <;> rfl

theorem findReferred_keeps (choice : Choice) (world : World) :
    (performJob choice .findReferred world).2 = world := by
  unfold performJob
  split <;> rfl

theorem findVerified_answered (answered : (performJob choice .findVerified world).1 = .ok found) :
    found = world.investors.docs.filter fun investor => investor.val.kycStatus = .verified := by
  simp only [performJob] at answered
  split at answered
  · cases answered
  · exact (Except.ok.inj answered).symm

theorem findReferred_answered (answered : (performJob choice .findReferred world).1 = .ok found) :
    found = world.investors.docs.filter fun investor => investor.val.referral.isSome := by
  simp only [performJob] at answered
  split at answered
  · cases answered
  · exact (Except.ok.inj answered).symm

end Queries

/-- What the backend serves. -/
inductive Visit where
  | request (arrival : Arrival)
  | checkWhiteList

def backend (app : App) : System JobOp JobAns Exception World Choice Visit (Response ⊕ Bool) where
  handler
    | .request arrival => asJob (do return .inl (← handle app arrival.draws arrival.request))
    | .checkWhiteList => do return .inr (← Web3Queue.checkWhiteList app)
  perform := performJob

abbrev BackendRound : Type := Round JobOp JobAns Exception World Visit (Response ⊕ Bool)

/-- The calls a request has made. -/
def accountTrace (trace : JobTrace) : AccountTrace :=
  trace.filterMap fun
    | ⟨.account op, answer⟩ => some ⟨op, answer⟩
    | _ => none

def accountCall (call : Call Op Ans Exception) : Call JobOp JobAns Exception :=
  ⟨.account call.1, call.2⟩

theorem accountTrace_append (first second : JobTrace) :
    accountTrace (first ++ second) = accountTrace first ++ accountTrace second :=
  List.filterMap_append

theorem accountTrace_map (trace : AccountTrace) :
    accountTrace (trace.map accountCall) = trace := by
  induction trace with
  | nil => rfl
  | cons call rest ih =>
      rw [List.map_cons, ← List.singleton_append, accountTrace_append, ih]
      rfl

/-- The backend runs the program of a request as it is. -/
theorem executes_asJob {program : Handler α} {before after : World} {trace : JobTrace}
    {outcome : Except Exception α}
    (executes : Executes performJob (asJob program) before trace outcome after) :
    ∃ calls, trace = calls.map accountCall ∧
      Executes perform program before calls outcome after := by
  induction program generalizing before trace with
  | done value =>
      cases executes
      exact ⟨[], rfl, .done value _⟩
  | fail error =>
      cases executes
      exact ⟨[], rfl, .fail error _⟩
  | await op resume ih =>
      cases executes with
      | await choice rest =>
          obtain ⟨calls, split, ran⟩ := ih _ rest
          exact ⟨⟨op, (perform choice op before).1⟩ :: calls, by rw [split]; rfl, .await choice ran⟩

end IcoDashboard.Accounts
