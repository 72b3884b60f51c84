import IcoDashboard.Accounts.ReferenceRuns
import IcoDashboard.Accounts.Signatures
import IcoDashboard.Async.Sequential

namespace IcoDashboard.Accounts.ShuftiproProvider

open IcoDashboard.Async IcoDashboard.Async.Program IcoDashboard.Data

/-! # Refused callbacks

What a callback that has to be refused leaves behind.  Its result is inserted for
`investor.id` before the investor and the signature are checked.
-/

/-- The investor that a callback belongs to. -/
def callbackInvestor (world : World) (body : ShuftiproInitResult) : Option (Doc ObjectID Investor) :=
  world.findInvestor (callbackQuery
    (world.kycResults.findOne fun result => result.reference = body.reference) body.reference)

def SignatureValid (app : App) (body : ShuftiproInitResult) : Prop :=
  some (signature app (signedText body.statusCode body.message body.reference)) = body.signature

instance (app : App) (body : ShuftiproInitResult) : Decidable (SignatureValid app body) :=
  inferInstanceAs (Decidable (some _ = _))

def Whitelists : Op → Prop
  | .addAddressToWhiteList _ => True
  | _ => False

/-- A callback of no investor returns and changes nothing, and an unsigned one
changes nothing. -/
structure RefusesCleanly (app : App) (body : ShuftiproInitResult) (world : World)
    (trace : AccountTrace) (outcome : Except Exception Unit) (after : World) : Prop where
  ofNobody : callbackInvestor world body = none → outcome = .ok () ∧ after = world
  unsigned : ¬ SignatureValid app body → after = world ∧ ∀ call ∈ trace, ¬ Whitelists call.1

variable {app : App} {body : ShuftiproInitResult} {timestamp : String} {world after : World}
  {trace : AccountTrace} {outcome : Except Exception Unit}

/-- The two queries of a callback find its investor. -/
theorem callbackInvestor_bind {next : Doc ObjectID Investor → Handler Unit}
    (ran : Executes perform (do
      let storedKycResult ← request (.findKycResult body.reference)
      let investor ← findInvestor (callbackQuery storedKycResult body.reference) typeError
      next investor) world trace outcome after)
    (answered : Answered trace) :
    ∃ front rest, trace = front ++ rest ∧ Answered rest ∧ (∀ call ∈ front, ¬ Whitelists call.1) ∧
      Executes perform (orThrow (callbackInvestor world body) typeError >>= next) world rest outcome
        after := by
  obtain ⟨choice, stored, later, known, split, laterAnswered, ran⟩ := ran.answered_bind answered
  have sameWorld : (perform choice (.findKycResult body.reference) world).2 = world := by
    unfold perform
    split <;> rfl
  have sameStored : world.kycResults.findOne (fun result => result.reference = body.reference) =
      stored := by
    rw [perform_eq_ok known] at known
    exact Except.ok.inj known
  rw [sameWorld, findInvestor, Program.bind_assoc] at ran
  obtain ⟨choice, investor, rest, found, splitLater, restAnswered, ran⟩ :=
    ran.answered_bind laterAnswered
  rw [findInvestor_keeps] at ran
  have same : callbackInvestor world body = investor := by
    rw [callbackInvestor, sameStored]
    exact findInvestor_answered found
  rw [same]
  refine ⟨[⟨.findKycResult body.reference, .ok stored⟩,
    ⟨.findInvestor (callbackQuery stored body.reference), .ok investor⟩], rest, ?_, restAnswered, ?_,
    ran⟩
  · rw [split, splitLater]
    rfl
  · simp [Whitelists]

/-- Without an investor the id of `undefined` is read. -/
theorem processCallback_nobody (nobody : callbackInvestor world body = none)
    (ran : Executes perform (processCallback app body timestamp) world trace outcome after)
    (answered : Answered trace) :
    outcome = .error typeError ∧ after = world ∧ ∀ call ∈ trace, ¬ Whitelists call.1 := by
  obtain ⟨front, rest, split, _, quiet, ran⟩ := callbackInvestor_bind ran answered
  rw [nobody] at ran
  cases ran
  rw [split, List.append_nil]
  exact ⟨rfl, rfl, quiet⟩

theorem insertKycResult_changes {choice : Choice} {record : ShuftiproKycResult} {id : ObjectID}
    (inserted : (perform choice (.insertKycResult record) world).1 = .ok id) :
    (perform choice (.insertKycResult record) world).2 ≠ world := by
  have answered := perform_eq_ok inserted
  rw [answered] at inserted ⊢
  simp only [answer] at inserted ⊢
  split at inserted
  · rename_i kycResults stored
    intro same
    have docs := (Collection.insert_eq_some_iff.mp stored).2
    have lengths := congrArg (fun world => world.kycResults.docs.length) same
    simp only [docs, List.length_append, List.length_singleton] at lengths
    omega
  · cases inserted

/-- The result of a callback is inserted, whoever signed it. -/
theorem processCallback_unsigned {investor : Doc ObjectID Investor}
    (owner : callbackInvestor world body = some investor) (unsigned : ¬ SignatureValid app body)
    (ran : Executes perform (processCallback app body timestamp) world trace outcome after)
    (answered : Answered trace) : after ≠ world := by
  obtain ⟨_, rest, _, restAnswered, _, ran⟩ := callbackInvestor_bind ran answered
  rw [owner] at ran
  obtain ⟨choice, id, last, inserted, _, _, ran⟩ := Executes.answered_bind ran restAnswered
  have changed := insertKycResult_changes inserted
  generalize (perform choice (.insertKycResult _) world).2 = middle at ran changed
  have kept : after = middle := by
    by_cases verified : investor.val.kycStatus = .verified
    · rw [if_pos verified] at ran
      cases ran
      rfl
    · rw [if_neg verified, throwIf] at ran
      split at ran
      · cases ran
        rfl
      · rename_i signed
        exact absurd unsigned signed
  rw [kept]
  exact changed

/-! ## The condition -/

theorem ofNobody_iff
    (ran : Executes perform (processCallback app body timestamp) world trace outcome after)
    (answered : Answered trace) :
    (callbackInvestor world body = none → outcome = .ok () ∧ after = world) ↔
      callbackInvestor world body ≠ none := by
  constructor
  · intro returns nobody
    have thrown := (processCallback_nobody nobody ran answered).1
    rw [(returns nobody).1] at thrown
    cases thrown
  · exact fun somebody nobody => absurd nobody somebody

theorem unsigned_iff
    (ran : Executes perform (processCallback app body timestamp) world trace outcome after)
    (answered : Answered trace) :
    (¬ SignatureValid app body → after = world ∧ ∀ call ∈ trace, ¬ Whitelists call.1) ↔
      SignatureValid app body ∨ callbackInvestor world body = none := by
  constructor
  · intro refuses
    by_cases signed : SignatureValid app body
    · exact .inl signed
    cases owner : callbackInvestor world body with
    | none => exact .inr rfl
    | some investor =>
        exact absurd (refuses signed).1 (processCallback_unsigned owner signed ran answered)
  · rintro (signed | nobody) unsigned
    · exact absurd signed unsigned
    · exact (processCallback_nobody nobody ran answered).2

/-- An answered run refuses as it should exactly when there is nothing to refuse. -/
theorem refusesCleanly_iff
    (ran : Executes perform (processCallback app body timestamp) world trace outcome after)
    (answered : Answered trace) :
    RefusesCleanly app body world trace outcome after ↔
      callbackInvestor world body ≠ none ∧ SignatureValid app body := by
  have nobody := ofNobody_iff ran answered
  have unsigned := unsigned_iff ran answered
  constructor
  · intro clean
    have somebody := nobody.mp clean.ofNobody
    exact ⟨somebody, (unsigned.mp clean.unsigned).resolve_right somebody⟩
  · rintro ⟨somebody, signed⟩
    exact ⟨nobody.mpr somebody, unsigned.mpr (.inl signed)⟩

/-! ## A signed callback, a forged one and a lost one -/

def sessionInvestor : Investor :=
  { pendingInvestor with kycInitResult := some (.shuftiproInit { reference := some "1234" }) }

def sessionWorld : World := { investors := ⟨[⟨1, sessionInvestor⟩], by decide⟩ }

/-- A callback of the session in `sessionWorld`. -/
def sessionCallback (signature : String) : ShuftiproInitResult where
  statusCode := some "SP1"
  message := some "verified"
  reference := some "1234"
  signature := some signature

theorem signedCallback_refusesCleanly : ∃ trace outcome after,
    Executes perform (processCallback .plain (sessionCallback "SP1verified1234") "") sessionWorld
      trace outcome after ∧
    RefusesCleanly .plain (sessionCallback "SP1verified1234") sessionWorld trace outcome after := by
  obtain ⟨trace, outcome, after, ran, answered⟩ : ∃ trace outcome after,
      Executes perform (processCallback .plain (sessionCallback "SP1verified1234") "") sessionWorld
        trace outcome after ∧ Answered trace := by
    refine ⟨_, _, _, .await ({} : Choice) (.await ({} : Choice) (.await ({} : Choice)
      (.await ({} : Choice) (.await ({} : Choice) (.done () _))))), ?_⟩
    simp only [Answered, List.forall_mem_cons]
    exact ⟨⟨_, rfl⟩, ⟨_, rfl⟩, ⟨_, rfl⟩, ⟨_, rfl⟩, ⟨_, rfl⟩, List.forall_mem_nil _⟩
  exact ⟨trace, outcome, after, ran, (refusesCleanly_iff ran answered).mpr ⟨by decide, rfl⟩⟩

/-- A forged callback leaves its result behind, and one that belongs to nobody throws. -/
theorem forgedCallback_recorded :
    (∃ trace outcome after,
      Executes perform (processCallback .plain (sessionCallback "forged") "") sessionWorld trace
        outcome after ∧ Answered trace ∧
      after.kycResults.docs.length = 1 ∧
      ¬ RefusesCleanly .plain (sessionCallback "forged") sessionWorld trace outcome after) ∧
    ∃ trace after,
      Executes perform (processCallback .plain (sessionCallback "forged") "") {} trace
        (.error typeError) after ∧ Answered trace ∧
      ¬ RefusesCleanly .plain (sessionCallback "forged") {} trace (.error typeError) after := by
  constructor
  · refine ⟨_, _, _, .await ({} : Choice) (.await ({} : Choice) (.await ({} : Choice) (.fail _ _))),
      ?_, rfl, ?_⟩
    · simp only [Answered, List.forall_mem_cons]
      exact ⟨⟨_, rfl⟩, ⟨_, rfl⟩, ⟨_, rfl⟩, List.forall_mem_nil _⟩
    · intro clean
      have unchanged := (clean.unsigned (by decide)).1
      have lengths := congrArg (fun world => world.kycResults.docs.length) unchanged
      exact absurd lengths (by decide)
  · refine ⟨_, _, .await ({} : Choice) (.await ({} : Choice) (.fail _ _)), ?_, ?_⟩
    · simp only [Answered, List.forall_mem_cons]
      exact ⟨⟨_, rfl⟩, ⟨_, rfl⟩, List.forall_mem_nil _⟩
    · intro clean
      have returned := (clean.ofNobody rfl).1
      cases returned

end IcoDashboard.Accounts.ShuftiproProvider
