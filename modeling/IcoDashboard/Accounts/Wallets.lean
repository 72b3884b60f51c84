import IcoDashboard.Accounts.Verifications

namespace IcoDashboard.Accounts

open IcoDashboard.Async IcoDashboard.Async.Program IcoDashboard.Data

/-! # Wallets of activated investors

Every request saves the whole investor as it had loaded it.  A save of a copy
that was loaded unverified is harmless only while the stored investor is not
verified either; with that, an investor is activated once and keeps its wallet.
-/

variable {app : App} {state : AccountState}

def storedVerified (world : World) (id : ObjectID) : Bool :=
  (world.investors.lookup id).any Investor.isVerified

def loadedUnverified (trace : AccountTrace) : Bool :=
  (acting trace).any fun found => !found.2.val.isVerified

def savedInvestor : Op → Option (Doc ObjectID Investor)
  | .saveInvestor investor => some investor
  | _ => none

/-- A copy that was loaded unverified is saved only over an unverified one. -/
def CallFresh (world : World) (log : List AccountEvent) (thread : Nat) (choice : Choice) (op : Op) :
    Prop :=
  ∀ investor ∈ savedInvestor op, choice.rejects = none →
    loadedUnverified (localTrace thread log) = true → storedVerified world investor.id = false

/-- A request that loaded the investor unverified saves it only while the stored
one is unverified. -/
def SavesFresh (state : AccountState) : Action Choice Arrival → Prop
  | .start _ => True
  | .resume thread choice =>
      match state.threads[thread]? with
      | some ⟨_, .await op _⟩ => CallFresh state.world state.log thread choice op
      | _ => True

instance (world : World) (log : List AccountEvent) (thread : Nat) (choice : Choice) (op : Op) :
    Decidable (CallFresh world log thread choice op) :=
  inferInstanceAs (Decidable (∀ investor ∈ savedInvestor op, _))

instance (state : AccountState) : (action : Action Choice Arrival) →
    Decidable (SavesFresh state action)
  | .start _ => .isTrue trivial
  | .resume thread choice =>
      match found : state.threads[thread]? with
      | some ⟨_, .await op _⟩ =>
          decidable_of_iff (CallFresh state.world state.log thread choice op)
            (by simp [SavesFresh, found])
      | some ⟨_, .done _⟩ => .isTrue (by simp [SavesFresh, found])
      | some ⟨_, .fail _⟩ => .isTrue (by simp [SavesFresh, found])
      | none => .isTrue (by simp [SavesFresh, found])

/-- The investor is stored verified, with this wallet. -/
def SettledAs (world : World) (id : ObjectID) (wallet : Option Wallet) : Prop :=
  ∃ stored, world.investors.lookup id = some stored ∧ stored.isVerified = true ∧
    stored.ethWallet = wallet

/-- The thread saved an investor verified that it had loaded unverified. -/
def ActivatesAt (log past : List AccountEvent) (thread : Nat) (id : ObjectID) : Prop :=
  ∃ investor, Occurs log past ⟨thread, ⟨.saveInvestor investor, .ok ()⟩⟩ ∧ investor.id = id ∧
    investor.val.isVerified = true ∧ loadedUnverified (localTrace thread past) = true

structure WalletInvariant (world : World) (log : List AccountEvent) : Prop where
  saved : ∀ thread investor, ⟨thread, ⟨.saveInvestor investor, .ok ()⟩⟩ ∈ log →
    investor.val.isVerified = true → SettledAs world investor.id investor.val.ethWallet
  loaded : ∀ thread query user, ⟨thread, ⟨.findInvestor query, .ok (some user)⟩⟩ ∈ log →
    user.val.isVerified = true → SettledAs world user.id user.val.ethWallet
  once : ∀ id past past' thread thread', ActivatesAt log past thread id →
    ActivatesAt log past' thread' id → past = past'

def Keeps (before after : World) : Prop :=
  ∀ id wallet, SettledAs before id wallet → SettledAs after id wallet

theorem SettledAs.storedVerified {world : World} {id : ObjectID} {wallet : Option Wallet}
    (settled : SettledAs world id wallet) : storedVerified world id = true := by
  obtain ⟨stored, lookup, verified, _⟩ := settled
  simp [Accounts.storedVerified, lookup, verified]

/-- An activated investor has a wallet, whatever overtakes its activation. -/
theorem activated_wallet (reached : (accounts app).Reachable (.idle {}) state) {id : ObjectID}
    {investor : Investor} (stored : state.world.investors.lookup id = some investor)
    (activated : investor.isVerified = true) : ∃ wallet, investor.ethWallet = some wallet := by
  have all := allInvestors (P := fun investor =>
      investor.isVerified = true → ∃ wallet, investor.ethWallet = some wallet)
    (fun _ _ created => by
      obtain ⟨_, _, _, _, same⟩ := created
      rw [same]
      exact fun verified => nomatch verified)
    (fun draws request loaded investor changes had verified => ?_) reached
  · exact all.stored id investor stored activated
  · rcases changes.wallet with ⟨sameVerified, sameWallet⟩ | ⟨_, _, wallet⟩
    · obtain ⟨wallet, has⟩ := had (sameVerified.symm.trans verified)
      exact ⟨wallet, sameWallet.trans has⟩
    · exact ⟨_, wallet⟩

/-! ## One save -/

variable {world : World} {log : List AccountEvent} {thread : Nat} {arrival : Arrival}
  {investor : Doc ObjectID Investor}

/-- What a save writes over a settled investor, or over none. -/
theorem save_settles (store : StoreInvariant app world log) (invariant : WalletInvariant world log)
    (guard : GuardSaveInvestor app arrival (localTrace thread log) investor)
    (fresh : loadedUnverified (localTrace thread log) = true →
      storedVerified world investor.id = false) {after : World}
    (writes : after.investors = world.investors.save Investor.write investor) :
    Keeps world after ∧
      (investor.val.isVerified = true → SettledAs after investor.id investor.val.ethWallet) := by
  have present := saved_email store guard
  obtain ⟨query, user, acts, sameId, changes⟩ := guard
  obtain ⟨stored, lookup, _⟩ := Option.map_eq_some_iff.mp present
  have lookupAfter : ∀ id, after.investors.lookup id = if id = investor.id then
      (world.investors.lookup id).map (Investor.write · investor.val)
      else world.investors.lookup id := fun id => by rw [writes, Collection.lookup_save]
  have written : after.investors.lookup investor.id = some (Investor.write stored investor.val) := by
    rw [lookupAfter, if_pos rfl, lookup]
    rfl
  have others : ∀ id wallet, id ≠ investor.id → SettledAs world id wallet →
      SettledAs after id wallet := by
    intro id wallet other settled
    obtain ⟨current, found, rest⟩ := settled
    exact ⟨current, by rw [lookupAfter, if_neg other, found], rest⟩
  cases loaded : user.val.isVerified with
  | true =>
      -- the copy was loaded after the activation, so it has the stored wallet
      obtain ⟨current, found, _, sameWallet⟩ :=
        invariant.loaded thread query user (acting_loaded acts) loaded
      rw [← sameId, lookup] at found
      obtain rfl := Option.some.inj found
      rcases changes.wallet with ⟨verified, wallet⟩ | ⟨unverified, _⟩
      · have settled : SettledAs after investor.id stored.ethWallet := by
          refine ⟨_, written, verified.trans loaded, ?_⟩
          simp [Investor.write, wallet, sameWallet]
        refine ⟨fun id other before => ?_, fun _ => ?_⟩
        · by_cases own : id = investor.id
          · subst own
            obtain ⟨current, found, _, rfl⟩ := before
            rw [lookup] at found
            obtain rfl := Option.some.inj found
            exact settled
          · exact others id other own before
        · rw [wallet, ← sameWallet]
          exact settled
      · rw [loaded] at unverified
        cases unverified
  | false =>
      have unsettled := fresh (by simp [loadedUnverified, acts, loaded])
      refine ⟨fun id wallet before => ?_, fun verified => ?_⟩
      · refine others id wallet (fun own => ?_) before
        rw [own] at before
        rw [before.storedVerified] at unsettled
        cases unsettled
      · rcases changes.wallet with ⟨unverified, _⟩ | ⟨_, _, wallet⟩
        · rw [unverified, loaded] at verified
          cases verified
        · exact ⟨_, written, verified, by simp [Investor.write, wallet]⟩

/-! ## One call -/

theorem not_rejected {choice : Choice} {op : Op} {value : Ans op}
    (answered : (perform choice op world).1 = .ok value) : choice.rejects = none := by
  unfold perform at answered
  split at answered
  · cases answered
  · assumption

theorem keeps_of_same {before after : World} (same : after.investors = before.investors) :
    Keeps before after := by
  intro id wallet settled
  unfold SettledAs
  rw [same]
  exact settled

theorem keeps_call {op : Op} {choice : Choice} (store : StoreInvariant app world log)
    (invariant : WalletInvariant world log) (guard : Guard app arrival (localTrace thread log) op)
    (fresh : CallFresh world log thread choice op) : Keeps world (perform choice op world).2 := by
  have effect := perform_investors choice op world
  generalize answered : (perform choice op world).1 = result at effect
  generalize stored : (perform choice op world).2.investors = after at effect
  cases effect with
  | kept => exact keeps_of_same stored
  | saved investor =>
      exact (save_settles store invariant guard (fresh investor rfl (not_rejected answered)) stored).1
  | inserted investor id after unused inserted =>
      intro other wallet settled
      obtain ⟨current, found, rest⟩ := settled
      refine ⟨current, ?_, rest⟩
      have different : other ≠ id := by
        intro own
        rw [own, (Collection.insert_eq_some_iff.mp inserted).1] at found
        cases found
      rw [stored, Collection.lookup_insert inserted, if_neg different, found]

/-- The save of a verified investor settles it, and it was not settled before if
the request had loaded it unverified. -/
theorem saved_call {choice : Choice} (store : StoreInvariant app world log)
    (invariant : WalletInvariant world log)
    (guard : GuardSaveInvestor app arrival (localTrace thread log) investor)
    (fresh : CallFresh world log thread choice (.saveInvestor investor))
    (answered : (perform choice (.saveInvestor investor) world).1 = .ok ())
    (verified : investor.val.isVerified = true) :
    SettledAs (perform choice (.saveInvestor investor) world).2 investor.id
      investor.val.ethWallet := by
  have accepted := not_rejected answered
  have writes : (perform choice (.saveInvestor investor) world).2.investors =
      world.investors.save Investor.write investor := by
    simp [perform, accepted, answer]
  exact (save_settles store invariant guard (fresh investor rfl accepted) writes).2 verified

theorem activatesAt_append {past : List AccountEvent} {other : Nat} {id : ObjectID} {op : Op}
    {choice : Choice}
    (activates : ActivatesAt (log ++ [⟨thread, ⟨op, (perform choice op world).1⟩⟩]) past other id) :
    ActivatesAt log past other id ∨
      (past = log ∧ ∃ investor, op = .saveInvestor investor ∧ investor.id = id ∧
        choice.rejects = none ∧ loadedUnverified (localTrace thread log) = true) := by
  obtain ⟨investor, occurs, own, verified, loaded⟩ := activates
  rcases occurs_performed.mp occurs with old | ⟨rfl, rfl, rfl, answered⟩
  · exact .inl ⟨investor, old, own, verified, loaded⟩
  · exact .inr ⟨rfl, investor, rfl, own, not_rejected answered, loaded⟩

theorem WalletInvariant.activated {past : List AccountEvent} {id : ObjectID}
    (invariant : WalletInvariant world log) (activates : ActivatesAt log past thread id) :
    storedVerified world id = true := by
  obtain ⟨investor, occurs, rfl, verified, _⟩ := activates
  exact (invariant.saved thread investor occurs.mem verified).storedVerified

theorem WalletInvariant.call {op : Op} {choice : Choice} (store : StoreInvariant app world log)
    (invariant : WalletInvariant world log) (guard : Guard app arrival (localTrace thread log) op)
    (fresh : CallFresh world log thread choice op) :
    WalletInvariant (perform choice op world).2
      (log ++ [⟨thread, ⟨op, (perform choice op world).1⟩⟩]) := by
  have keeps := keeps_call store invariant guard fresh
  refine ⟨?_, ?_, ?_⟩
  · intro other investor member verified
    rcases mem_performed.mp member with old | ⟨_, rfl, answered⟩
    · exact keeps _ _ (invariant.saved other investor old verified)
    · exact saved_call store invariant guard fresh answered verified
  · intro other query user member verified
    rcases mem_performed.mp member with old | ⟨_, rfl, answered⟩
    · exact keeps _ _ (invariant.loaded other query user old verified)
    · have lookup := (findInvestor_loaded (findInvestor_answered answered)).1
      exact keeps _ _ ⟨user.val, lookup, verified, rfl⟩
  · intro id past past' first second activates activates'
    rcases activatesAt_append activates with old | ⟨rfl, saved, rfl, rfl, accepted, loaded⟩
    · rcases activatesAt_append activates' with old' | ⟨rfl, saved, rfl, rfl, accepted, loaded⟩
      · exact invariant.once id past past' first second old old'
      · have unverified := fresh saved rfl accepted loaded
        rw [invariant.activated old] at unverified
        cases unverified
    · rcases activatesAt_append activates' with old' | ⟨rfl, _⟩
      · have unverified := fresh saved rfl accepted loaded
        rw [invariant.activated old'] at unverified
        cases unverified
      · rfl

/-! ## Runs -/

def Settled (state : AccountState) : Prop := WalletInvariant state.world state.log

theorem settled_idle : Settled (.idle {}) := by
  refine ⟨by simp [State.idle], by simp [State.idle], ?_⟩
  intro id past past' first second activates
  obtain ⟨investor, occurs, _⟩ := activates
  cases occurs.mem

theorem step_settled (reached : (accounts app).Reachable (.idle {}) state) (settled : Settled state)
    {action : Action Choice Arrival} (fresh : SavesFresh state action) :
    Settled ((accounts app).step state action) ∧
      Keeps state.world ((accounts app).step state action).world := by
  rcases (accounts app).step_cases state action with same | ⟨arrival, _, started⟩ |
    ⟨thread, choice, arrival, op, resume, actionEq, awaiting, resumed⟩
  · rw [same]
    exact ⟨settled, fun _ _ => id⟩
  · rw [started]
    exact ⟨settled, fun _ _ => id⟩
  · rw [resumed]
    subst actionEq
    have store := storeInvariant reached
    have guard := guarded reached awaiting
    have callFresh : CallFresh state.world state.log thread choice op := by
      simpa only [SavesFresh, awaiting] using fresh
    exact ⟨settled.call store guard callFresh, keeps_call store settled guard callFresh⟩

theorem run_settled {before : AccountState} (reached : (accounts app).Reachable (.idle {}) before)
    (settled : Settled before) {actions : List (Action Choice Arrival)}
    (fresh : (accounts app).Along SavesFresh before actions) :
    Settled ((accounts app).run before actions) ∧
      Keeps before.world ((accounts app).run before actions).world := by
  have preserved : ∀ state action, (accounts app).Reachable (.idle {}) state →
      (Settled state ∧ Keeps before.world state.world) → SavesFresh state action →
      Settled ((accounts app).step state action) ∧
        Keeps before.world ((accounts app).step state action).world := by
    intro state action reached holds fresh
    obtain ⟨settled, kept⟩ := step_settled reached holds.1 fresh
    exact ⟨settled, fun id wallet before => kept id wallet (holds.2 id wallet before)⟩
  exact System.run_induction preserved reached ⟨settled, fun _ _ => id⟩ fresh

/-! ## One wallet for each email -/

/-- The thread has answered an activation of the email with this result. -/
def Returned (app : App) (state : AccountState) (thread : Nat) (email : String)
    (result : ActivationResult) : Prop :=
  ∃ arrival activationData, state.threads[thread]? = some ⟨arrival, .done (.activated result)⟩ ∧
    arrival.request = .activate activationData ∧ app.toLowerCase activationData.email = email

def StoredUnder (state : AccountState) (email : String) (doc : Doc ObjectID Investor) : Prop :=
  state.world.findInvestor (.email email) = some doc

structure WalletKept (app : App) (email : String) (actions : List (Action Choice Arrival)) :
    Prop where
  once : ∀ first second result result', Returned app (after app actions) first email result →
    Returned app (after app actions) second email result' → first = second
  wallet : ∀ thread result, Returned app (after app actions) thread email result →
    ∃ doc wallet newWallet, StoredUnder (after app actions) email doc ∧ doc.val.isVerified = true ∧
      doc.val.ethWallet = some wallet ∧ result.wallets = [newWallet] ∧
      newWallet.address = wallet.address ∧
      app.getAccountByMnemonicAndSalt newWallet.mnemonic wallet.salt =
        (newWallet.privateKey, wallet.address)
  verified : ∀ earlier later doc, actions = earlier ++ later →
    StoredUnder (after app earlier) email doc → doc.val.isVerified = true →
    ∃ doc', StoredUnder (after app actions) email doc' ∧ doc'.val.isVerified = true

/-- A returned activation was saved, under the email it was for. -/
theorem Returned.activates (reached : (accounts app).Reachable (.idle {}) state) {email : String}
    {result : ActivationResult} (returned : Returned app state thread email result) :
    ∃ (draws : Draws) (investor : Doc ObjectID Investor) (past : List AccountEvent),
      ActivatesAt state.log past thread investor.id ∧
      ⟨thread, ⟨.saveInvestor investor, .ok ()⟩⟩ ∈ state.log ∧ investor.val.isVerified = true ∧
      emailOf state.world.investors investor.id = some email ∧
      investor.val.ethWallet = some (activatedWallet app draws) ∧
      result.wallets = [returnedWallet app draws] := by
  obtain ⟨arrival, activationData, found, request, rfl⟩ := returned
  obtain ⟨_, user, investor, request', acts, saved, sameId, wallet, wallets⟩ :=
    reached.guarded (handle_meets app) found
  rw [request] at request'
  cases request'
  obtain ⟨past, occurs⟩ := occurs_of_mem (mem_localTrace.mp saved)
  obtain ⟨origin, saving, _, _, _, rfl, serving, guard, _⟩ := event_guarded reached occurs
  obtain rfl : arrival = saving := Serving.unique ⟨_, found⟩ serving
  obtain ⟨query, user', acts', _, changes⟩ := guard
  rw [request] at changes
  obtain ⟨unverified, kycInitResult, same⟩ := changes
  have store := storeInvariant reached
  obtain ⟨stored, byEmail⟩ := store.loaded _ _ _ (acting_loaded acts)
  have verified : investor.val.isVerified = true := by rw [same]
  refine ⟨arrival.draws, investor, origin.log, ?_, occurs.mem, verified, ?_, wallet, wallets⟩
  · exact ⟨investor, occurs, rfl, verified, by simp [loadedUnverified, acts', unverified]⟩
  · rw [sameId, stored, byEmail _ rfl]

theorem storedUnder_settled (reached : (accounts app).Reachable (.idle {}) state) {id : ObjectID}
    {email : String} {wallet : Option Wallet} (own : emailOf state.world.investors id = some email)
    (settled : SettledAs state.world id wallet) :
    ∃ doc, StoredUnder state email doc ∧ doc.val.isVerified = true ∧ doc.val.ethWallet = wallet := by
  obtain ⟨stored, lookup, verified, sameWallet⟩ := settled
  obtain ⟨stored', lookup', rfl⟩ := Option.map_eq_some_iff.mp own
  rw [lookup] at lookup'
  cases lookup'
  exact ⟨⟨id, stored⟩, (storeInvariant reached).findInvestor lookup, verified, sameWallet⟩

/-- While no stale copy is saved over an activated investor, every email is
activated once, for good, and with the wallet that was returned. -/
theorem walletKept_of_fresh {actions : List (Action Choice Arrival)}
    (fresh : (accounts app).Along SavesFresh (.idle {}) actions) (email : String) :
    WalletKept app email actions := by
  have reached : (accounts app).Reachable (.idle {}) (after app actions) :=
    System.reachable_run _ actions
  have settled : Settled (after app actions) := (run_settled .initial settled_idle fresh).1
  refine ⟨?_, ?_, ?_⟩
  · intro first second result result' returned returned'
    obtain ⟨_, investor, past, activates, _, _, own, _⟩ := returned.activates reached
    obtain ⟨_, investor', past', activates', _, _, own', _⟩ := returned'.activates reached
    have sameId := (storeInvariant reached).unique _ _ _ own own'
    rw [← sameId] at activates'
    have samePast := settled.once _ _ _ _ _ activates activates'
    obtain ⟨_, ⟨later, split⟩, _⟩ := activates
    obtain ⟨_, ⟨later', split'⟩, _⟩ := activates'
    rw [split, samePast] at split'
    have events := (List.cons.inj (List.append_cancel_left split')).1
    exact congrArg Event.thread events
  · intro thread result returned
    obtain ⟨draws, investor, past, _, saved, verified, own, wallet, wallets⟩ :=
      returned.activates reached
    obtain ⟨doc, stored, docVerified, docWallet⟩ :=
      storedUnder_settled reached own (settled.saved thread investor saved verified)
    rw [wallet] at docWallet
    exact ⟨doc, _, _, stored, docVerified, docWallet, wallets, rfl, rfl⟩
  · intro earlier later doc split stored verified
    subst split
    have reachedEarlier : (accounts app).Reachable (.idle {}) (after app earlier) :=
      System.reachable_run _ earlier
    obtain ⟨freshEarlier, freshLater⟩ := (accounts app).along_append.mp fresh
    have settledEarlier := (run_settled .initial settled_idle freshEarlier).1
    have kept := (run_settled reachedEarlier settledEarlier freshLater).2
    obtain ⟨lookup, byEmail⟩ := findInvestor_loaded stored
    have own : emailOf (after app earlier).world.investors doc.id = some email := by
      simp [emailOf, lookup, byEmail _ rfl]
    have onward : (accounts app).Reachable (after app earlier) (after app (earlier ++ later)) := by
      unfold after
      rw [System.run_append]
      exact System.reachable_run _ later
    have settledLater : SettledAs (after app (earlier ++ later)).world doc.id doc.val.ethWallet := by
      unfold after
      rw [System.run_append]
      exact kept _ _ ⟨doc.val, lookup, verified, rfl⟩
    obtain ⟨doc', stored', verified', _⟩ :=
      storedUnder_settled reached (emailOf_kept reachedEarlier onward own) settledLater
    exact ⟨doc', stored', verified'⟩

/-! ## An overlapping resend -/

theorem walletKept_activated : WalletKept .plain "ann@example.com" (signUp ++ activation 1) :=
  walletKept_of_fresh (by decide) _

/-- The resend loads the investor before the activation and saves it afterwards. -/
def overtaken : List (Action Choice Arrival) :=
  signUp ++ [.start { request := .resendVerification "ann@example.com" }, .resume 1 {}] ++
    activation 2

def staleResend : List (Action Choice Arrival) :=
  [.resume 1 {}, .resume 1 { verificationId := "v2", code := "654321" }, .resume 1 {}]

theorem staleResend_unverifies : ¬ WalletKept .plain "ann@example.com" (overtaken ++ staleResend) := by
  intro kept
  obtain ⟨doc, stored, verified⟩ := kept.verified overtaken staleResend _ rfl rfl rfl
  have unverified : ((after .plain (overtaken ++ staleResend)).world.findInvestor
      (.email "ann@example.com")).any (fun doc => doc.val.isVerified) = false := by
    decide
  rw [stored] at unverified
  simp [verified] at unverified

end IcoDashboard.Accounts
