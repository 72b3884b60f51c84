import IcoDashboard.Accounts.Kyc
import IcoDashboard.Async.Contract
import Mathlib.Data.Set.Insert

namespace IcoDashboard.Accounts.ShuftiproProvider

open IcoDashboard.Async IcoDashboard.Async.Program IcoDashboard.Data

/-! # Signed callbacks

The signature of a callback is over its three texts put together, so it fixes
the text it was made from, and the three texts only where the places to cut are
known.
-/

structure SignedTriple where
  statusCode : String
  message : String
  reference : String
deriving DecidableEq, Repr

def SignedTriple.text (triple : SignedTriple) : String :=
  triple.statusCode ++ triple.message ++ triple.reference

def ownTriple (result : ShuftiproInitResult) : SignedTriple :=
  ⟨jsText result.statusCode, jsText result.message, jsText result.reference⟩

/-- Of the texts signed with the secret key, only those of the provider are
known outside. -/
def Unforged (app : App) (signed : Set SignedTriple) (result : ShuftiproInitResult) : Prop :=
  ∀ text, result.signature = some (signature app text) →
    ∃ triple ∈ signed, signature app text = signature app triple.text

def Approves : Op → Prop
  | .addAddressToWhiteList _ => True
  | .saveInvestor investor => investor.val.kycStatus = .verified
  | _ => False

/-- Whatever the services answer, the callback approves an investor only if it
is allowed to. -/
def ApprovesOnly (app : App) (result : ShuftiproInitResult) (timestamp : String) (allowed : Prop) :
    Prop :=
  (processCallback app result timestamp).Meets (fun _ op => Approves op → allowed) (fun _ _ => True)
    (fun _ _ => True) []

theorem append_cancel {first second rest rest' : String} (same : first ++ rest = second ++ rest')
    (lengths : first.length = second.length) : first = second ∧ rest = rest' := by
  have lists := congrArg String.toList same
  rw [String.toList_append, String.toList_append] at lists
  obtain ⟨firsts, rests⟩ := List.append_inj lists (by simpa only [String.length_toList] using lengths)
  exact ⟨String.toList_injective firsts, String.toList_injective rests⟩

/-- With the places to cut known, the text determines the triple. -/
theorem SignedTriple.eq_of_text {first second : SignedTriple} (same : first.text = second.text)
    (statusCodes : first.statusCode.length = second.statusCode.length)
    (references : first.reference.length = second.reference.length) : first = second := by
  unfold SignedTriple.text at same
  have lengths := congrArg String.length same
  simp only [String.length_append] at lengths
  obtain ⟨fronts, sameReference⟩ := append_cancel same (by simp only [String.length_append]; omega)
  obtain ⟨sameStatus, sameMessage⟩ := append_cancel fronts statusCodes
  cases first
  cases second
  simp_all

variable {app : App} {signed : Set SignedTriple} {result : ShuftiproInitResult} {timestamp : String}

theorem signedText_eq {statusCode : String} (given : result.statusCode = some statusCode) :
    signedText result.statusCode result.message result.reference = (ownTriple result).text := by
  simp [signedText, ownTriple, SignedTriple.text, given, jsText]

/-- A valid signature was made from a text of the provider. -/
theorem Unforged.provider (collisionFree : Function.Injective app.sha256)
    (unforged : Unforged app signed result) {text : String}
    (valid : result.signature = some (signature app text)) :
    ∃ triple ∈ signed, triple.text = text := by
  obtain ⟨triple, member, same⟩ := unforged text valid
  exact ⟨triple, member, ((String.append_left_inj _).mp (collisionFree same)).symm⟩

/-- What an approved callback has in common with what the provider signed. -/
def SignedAlike (signed : Set SignedTriple) (own : SignedTriple) : Prop :=
  ∃ triple ∈ signed, triple.text = own.text ∧
    (triple.statusCode.length = 3 → triple.reference.length = own.reference.length → triple = own)

theorem signedAlike (collisionFree : Function.Injective app.sha256)
    (unforged : Unforged app signed result) (given : result.statusCode = some "SP1")
    (valid : some (signature app (signedText result.statusCode result.message result.reference)) =
      result.signature) :
    SignedAlike signed (ownTriple result) := by
  rw [signedText_eq given] at valid
  obtain ⟨triple, member, same⟩ := unforged.provider collisionFree valid.symm
  refine ⟨triple, member, same, ?_⟩
  intro statusCodes references
  have own : (ownTriple result).statusCode = "SP1" := by
    rw [ownTriple, given]
    rfl
  have three : "SP1".length = 3 := by decide
  rw [← three, ← own] at statusCodes
  exact SignedTriple.eq_of_text same statusCodes references

/-- Only a callback with a text of the provider approves an investor. -/
theorem approvesOnly_signed (collisionFree : Function.Injective app.sha256)
    (unforged : Unforged app signed result) :
    ApprovesOnly app result timestamp
      (result.statusCode = some "SP1" ∧ SignedAlike signed (ownTriple result)) := by
  simp only [ApprovesOnly, processCallback, applyKycResult, findInvestor, request, call, meets_bind,
    meets_await, meets_done, meets_fail, meets_pure, meets_ite, meets_throwIf, meets_orThrow,
    implies_true, and_true, true_and, Approves, false_implies]
  intro _ _ investor _ _ undecided signatureMatches
  have valid := not_not.mp signatureMatches
  refine ⟨fun given ethWallet _ => ?_, fun _ => ⟨fun _ approved => ?_, fun _ approved => ?_⟩⟩
  · have alike := signedAlike collisionFree unforged given valid
    exact ⟨fun _ => ⟨given, alike⟩, fun _ _ => ⟨given, alike⟩⟩
  · cases approved
  · exact absurd approved undecided

/-! ## A text cut elsewhere -/

def providerTriple : SignedTriple := ⟨"SP1", "verified", "1234"⟩

/-- A collision-free digest that is the SHA-256 digest on the text of the
provider with the key `secret`. -/
def digest (text : String) : String :=
  if text = "SP1verified1234secret" then
    "3c1f0191f0dcc28cc00b8c11b3c49a185e14823c263bfd70a2f3709b007a59af"
  else "sha256:" ++ text

theorem digest_injective : Function.Injective digest := by
  intro first second same
  have hex : ∀ text, "3c1f0191f0dcc28cc00b8c11b3c49a185e14823c263bfd70a2f3709b007a59af" ≠
      "sha256:" ++ text := by
    intro text same
    have lists := congrArg (List.head? ∘ String.toList) same
    simp at lists
  unfold digest at same
  split at same <;> split at same
  · simp_all
  · exact absurd same (hex second)
  · exact absurd same.symm (hex first)
  · exact (String.append_right_inj _).mp same

def digestApp : App :=
  { App.plain with config := { shuftiproSecretKey := "secret" }, sha256 := digest }

/-- The provider's answer for reference `1234`. -/
def signedResult : ShuftiproInitResult where
  statusCode := some "SP1"
  message := some "verified"
  reference := some "1234"
  signature := some (signature digestApp providerTriple.text)

theorem signedResult_unforged : Unforged digestApp {providerTriple} signedResult := by
  intro text valid
  exact ⟨providerTriple, rfl, (Option.some.inj valid).symm⟩

theorem signedResult_approved : ApprovesOnly digestApp signedResult ""
    (signedResult.statusCode = some "SP1" ∧ SignedAlike {providerTriple} (ownTriple signedResult)) :=
  approvesOnly_signed digest_injective signedResult_unforged

def pendingInvestor : Investor :=
  (Investor.createInvestor digestApp
    { email := "ann@example.com", firstName := "Ann", lastName := "Lee", country := "EE",
      dob := "1990-01-01", agreeTos := true, password := "secret" } "hash" "verification")
    |>.addEthWallet { ticker := "ETH", address := "0x1", balance := "0", salt := "salt" }

/-- The same signature under reference `234`. -/
def resplitResult : ShuftiproInitResult :=
  { signedResult with message := some "verified1", reference := some "234" }

theorem resplit_approved : Function.Injective digestApp.sha256 ∧
    Unforged digestApp {providerTriple} resplitResult ∧
    ¬ ApprovesOnly digestApp resplitResult ""
      (resplitResult.statusCode = some "SP1" ∧ ownTriple resplitResult ∈ ({providerTriple} : Set _)) := by
  refine ⟨digest_injective, signedResult_unforged, ?_⟩
  intro only
  -- the reference is new, and its investor has a wallet and is not verified yet
  have found := (only.2 (.ok none)).2 (.ok (some ⟨1, pendingInvestor⟩))
  have whitelists := (found.2 (.ok 1)).1
  obtain ⟨_, member⟩ := whitelists trivial
  revert member
  decide

end IcoDashboard.Accounts.ShuftiproProvider
