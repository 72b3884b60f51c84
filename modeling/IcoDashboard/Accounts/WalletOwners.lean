import IcoDashboard.Accounts.Columns

namespace IcoDashboard.Accounts

open IcoDashboard.Async IcoDashboard.Async.Program IcoDashboard.Data

/-! # Owners of wallets

Where the wallet of a stored investor comes from.  Only an activation changes
the wallet, and it creates one of its own, so every wallet goes back to an
activation of its own investor.
-/

variable {app : App} {state : AccountState}

theorem stored_wallet (reached : (accounts app).Reachable (.idle {}) state) {id : ObjectID}
    {investor : Investor} {wallet : Wallet}
    (stored : state.world.investors.lookup id = some investor)
    (has : investor.ethWallet = some wallet) :
    Introduced Investor.ethWallet state.log id (some wallet) :=
  has ▸ (columnInvariant Investor.ethWallet reached).stored id investor stored

/-! ## Activations -/

/-- The thread activated the investor with this id, after a code for it was
validated, and created the wallet. -/
def Creates (app : App) (state : AccountState) (thread : Nat) (id : ObjectID) (wallet : Wallet) :
    Prop :=
  ∃ arrival activationData past user query,
    Serving state thread arrival ∧ arrival.request = .activate activationData ∧
    wallet = activatedWallet app arrival.draws ∧ user.id = id ∧
    acting (localTrace thread past) = some (query, user) ∧
    CodeValidated app state past thread .activate user.val.email emailVerification
      activationData.verificationId

theorem Introduced.creates (reached : (accounts app).Reachable (.idle {}) state) {id : ObjectID}
    {wallet : Wallet} (introduced : Introduced Investor.ethWallet state.log id (some wallet)) :
    ∃ thread, Creates app state thread id wallet := by
  obtain ⟨past, thread, signedUp | brings⟩ := introduced
  · obtain ⟨investor, occurs, has⟩ := signedUp
    obtain ⟨_, _, _, _, _, _, _, guard, _⟩ := event_guarded reached occurs
    obtain ⟨_, _, _, _, rfl⟩ := guard
    cases has
  · obtain ⟨arrival, user, changed⟩ := brings.changed reached
    obtain ⟨saved, has, new, changes⟩ := changed.changes
    obtain ⟨query, acts⟩ := changed.acts
    have asks : ∃ activationData, arrival.request = .activate activationData ∧
        saved.ethWallet = some (activatedWallet app arrival.draws) := by
      rw [← has] at new
      unfold Changes at changes
      split at changes <;> grind
    obtain ⟨activationData, own, created⟩ := asks
    obtain ⟨code, asked, validated⟩ := changed.coded .activate (by rw [own]; rfl)
    rw [own] at asked
    cases asked
    rw [has] at created
    exact ⟨thread, arrival, activationData, past, user, query, changed.serving, own,
      Option.some.inj created, changed.own, acts, validated⟩

theorem Creates.unique {thread : Nat} {first second : ObjectID} {wallet wallet' : Wallet}
    (left : Creates app state thread first wallet) (right : Creates app state thread second wallet') :
    first = second := by
  obtain ⟨_, _, past, user, query, _, _, _, rfl, acts, early, _⟩ := left
  obtain ⟨_, _, past', user', query', _, _, _, rfl, acts', early', _⟩ := right
  have last := acting_extended (localTrace_mono early thread) acts
  have last' := acting_extended (localTrace_mono early' thread) acts'
  cases last.symm.trans last'
  rfl

/-- An activation of the investor with this email created the wallet, after a code
of the investor was validated. -/
def CreatedFor (app : App) (state : AccountState) (email : String) (wallet : Wallet) : Prop :=
  ∃ thread arrival activationData past, Serving state thread arrival ∧
    arrival.request = .activate activationData ∧ wallet = activatedWallet app arrival.draws ∧
    CodeValidated app state past thread .activate email emailVerification
      activationData.verificationId

theorem Introduced.createdFor (reached : (accounts app).Reachable (.idle {}) state) {id : ObjectID}
    {wallet : Wallet} {email : String}
    (introduced : Introduced Investor.ethWallet state.log id (some wallet))
    (own : emailOf state.world.investors id = some email) : CreatedFor app state email wallet := by
  obtain ⟨thread, arrival, activationData, past, user, query, serving, asks, created, rfl, acts, code⟩ :=
    introduced.creates reached
  have loaded : ⟨thread, ⟨.findInvestor query, .ok (some user)⟩⟩ ∈ state.log :=
    code.1.subset (acting_loaded acts)
  have email := ((storeInvariant reached).loaded thread query user loaded).1
  rw [own] at email
  rw [← Option.some.inj email] at code
  exact ⟨thread, arrival, activationData, past, serving, asks, created, code⟩

/-- No two activations draw the same account. -/
def FreshAccounts (app : App) (state : AccountState) : Prop :=
  ∀ first second arrival arrival' activationData activationData',
    Serving state first arrival → arrival.request = .activate activationData →
    Serving state second arrival' → arrival'.request = .activate activationData' →
    (activatedWallet app arrival.draws).address = (activatedWallet app arrival'.draws).address →
    first = second

/-- In every interleaving, a stored wallet was created by an activation of its
investor, after a code of the investor was validated, and while activations draw
different accounts, no other investor has its address. -/
theorem wallet_owner (reached : (accounts app).Reachable (.idle {}) state) {id : ObjectID}
    {investor : Investor} {wallet : Wallet}
    (stored : state.world.investors.lookup id = some investor)
    (has : investor.ethWallet = some wallet) :
    CreatedFor app state investor.email wallet ∧
    (FreshAccounts app state → ∀ other investor' wallet',
      state.world.investors.lookup other = some investor' → investor'.ethWallet = some wallet' →
      wallet'.address = wallet.address → other = id) := by
  have introduced := stored_wallet reached stored has
  refine ⟨introduced.createdFor reached (by simp [emailOf, stored]),
    fun fresh other investor' wallet' stored' has' sameAddress => ?_⟩
  obtain ⟨thread, creates⟩ := introduced.creates reached
  obtain ⟨thread', creates'⟩ := (stored_wallet reached stored' has').creates reached
  have first := creates
  have second := creates'
  obtain ⟨arrival, activationData, _, _, _, serving, own, created, _⟩ := first
  obtain ⟨arrival', activationData', _, _, _, serving', own', created', _⟩ := second
  rw [created, created'] at sameAddress
  obtain rfl := fresh thread thread' arrival arrival' activationData activationData' serving own
    serving' own' sameAddress.symm
  exact creates'.unique creates

theorem newcomer_wallet_owner :
    CreatedFor .plain activated "ann@example.com"
      { ticker := "ETH", address := "salt", balance := "0", salt := "salt" } := by
  have stored : activated.world.investors.lookup 1 = some newcomerDoc.val := rfl
  have has : newcomerDoc.val.ethWallet =
      some { ticker := "ETH", address := "salt", balance := "0", salt := "salt" } := rfl
  exact (wallet_owner (System.reachable_run _ _) stored has).1

end IcoDashboard.Accounts
