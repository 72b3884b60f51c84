import IcoDashboard.Accounts.Columns

namespace IcoDashboard.Accounts

open IcoDashboard.Async IcoDashboard.Async.Program IcoDashboard.Data

/-! # Identities

The columns that a sign-up sets and that no later request changes.  Requests
replace whole documents that others may have saved in the meantime; these
columns keep what the sign-up of the document gave them.
-/

/-- The columns of an investor that are set once. -/
structure Identity where
  email : String
  firstName : String
  lastName : String
  phone : Option String
  country : String
  dob : String
  agreeTos : Bool
  referralCode : String
  referral : Option String
  source : Option String
  scope : Option String
deriving DecidableEq, Repr

def Identity.of (investor : Investor) : Identity where
  email := investor.email
  firstName := investor.firstName
  lastName := investor.lastName
  phone := investor.phone
  country := investor.country
  dob := investor.dob
  agreeTos := investor.agreeTos
  referralCode := investor.referralCode
  referral := investor.referral
  source := investor.source
  scope := investor.scope

variable {app : App} {state : AccountState}

theorem Changes.identity {draws : Draws} {loaded saved : Investor} {request : Request}
    (changes : Changes app draws loaded saved request) :
    Identity.of saved = Identity.of loaded := by
  unfold Changes at changes
  split at changes <;> grind [Identity.of]

/-- No request brings another identity. -/
theorem Introduced.signedUp (reached : (accounts app).Reachable (.idle {}) state) {id : ObjectID}
    {identity : Identity} (introduced : Introduced Identity.of state.log id identity) :
    ∃ past thread, SignedUpWith Identity.of state.log past thread id identity := by
  obtain ⟨past, thread, signedUp | brings⟩ := introduced
  · exact ⟨past, thread, signedUp⟩
  · obtain ⟨_, _, changed⟩ := brings.changed reached
    obtain ⟨saved, has, new, changes⟩ := changed.changes
    exact absurd (changes.identity.symm.trans has) new

/-- Whatever was interleaved or failed since, a stored investor is the one that a
sign-up made of its request. -/
theorem stored_as_signed_up (reached : (accounts app).Reachable (.idle {}) state) {id : ObjectID}
    {investor : Investor} (stored : state.world.investors.lookup id = some investor) :
    ∃ past thread arrival userData passwordHash verificationId,
      Occurs state.log past ⟨thread, ⟨.insertInvestor
        (Investor.createInvestor app userData passwordHash verificationId), .ok id⟩⟩ ∧
      Serving state thread arrival ∧ arrival.request = .create userData ∧
      Identity.of investor =
        Identity.of (Investor.createInvestor app userData passwordHash verificationId) := by
  obtain ⟨past, thread, created, occurs, same⟩ :=
    ((columnInvariant Identity.of reached).stored id investor stored).signedUp reached
  obtain ⟨_, arrival, _, _, _, _, serving, guard, _⟩ := event_guarded reached occurs
  obtain ⟨userData, passwordHash, verificationId, request, rfl⟩ := guard
  exact ⟨past, thread, arrival, userData, passwordHash, verificationId, occurs, serving, request,
    same.symm⟩

theorem newcomer_as_signed_up :
    ∃ past thread arrival userData passwordHash verificationId,
      Occurs activated.log past ⟨thread, ⟨.insertInvestor
        (Investor.createInvestor .plain userData passwordHash verificationId), .ok 1⟩⟩ ∧
      Serving activated thread arrival ∧ arrival.request = .create userData ∧
      Identity.of (Investor.createInvestor .plain newcomer "secret" "v1") =
        Identity.of (Investor.createInvestor .plain userData passwordHash verificationId) := by
  have stored : activated.world.investors.lookup 1 =
      some { Investor.createInvestor .plain newcomer "secret" "v1" with
        isVerified := true
        ethWallet := some { ticker := "ETH", address := "salt", balance := "0", salt := "salt" }
        kycInitResult := some (.jumio ⟨"1520846090", "token", "id", "http://localhost"⟩) } := rfl
  have signedUp := stored_as_signed_up (System.reachable_run _ _) stored
  exact signedUp

end IcoDashboard.Accounts
