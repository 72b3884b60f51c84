import IcoDashboard.Accounts.Tokens

namespace IcoDashboard.Accounts

open IcoDashboard.Async IcoDashboard.Async.Program IcoDashboard.Data

/-! # The life of a token

A stored token keeps its text and its verification.  It is verified from the
start, or is unlocked at most once, and is never locked again.
-/

variable {app : App} {state : AccountState}

/-- After `past`, a request unlocked the token. -/
def Unlocks (log past : List AccountEvent) (id : ObjectID) : Prop :=
  ∃ thread saved, Occurs log past ⟨thread, ⟨.saveToken saved, .ok ()⟩⟩ ∧ saved.id = id

def Unlocked (log : List AccountEvent) (id : ObjectID) : Prop :=
  ∃ thread saved, ⟨thread, ⟨.saveToken saved, .ok ()⟩⟩ ∈ log ∧ saved.id = id

theorem Unlocks.unlocked {log past : List AccountEvent} {id : ObjectID}
    (unlocks : Unlocks log past id) : Unlocked log id := by
  obtain ⟨thread, saved, occurs, own⟩ := unlocks
  exact ⟨thread, saved, occurs.mem, own⟩

theorem Unlocked.unlocks {log : List AccountEvent} {id : ObjectID} (unlocked : Unlocked log id) :
    ∃ past, Unlocks log past id := by
  obtain ⟨thread, saved, member, own⟩ := unlocked
  obtain ⟨past, occurs⟩ := occurs_of_mem member
  exact ⟨past, thread, saved, occurs, own⟩

theorem unlocked_append {log : List AccountEvent} {thread : Nat} {call : Call Op Ans Exception}
    {id : ObjectID} :
    Unlocked (log ++ [⟨thread, call⟩]) id ↔ Unlocked log id ∨
      ∃ saved, call = ⟨.saveToken saved, .ok ()⟩ ∧ saved.id = id := by
  constructor
  · intro unlocked
    obtain ⟨other, saved, member, own⟩ := unlocked
    rcases List.mem_append.mp member with old | new
    · exact .inl ⟨other, saved, old, own⟩
    · cases List.mem_singleton.mp new
      exact .inr ⟨saved, rfl, own⟩
  · intro either
    rcases either with ⟨other, saved, old, own⟩ | ⟨saved, rfl, own⟩
    · exact ⟨other, saved, List.mem_append_left _ old, own⟩
    · exact ⟨thread, saved, by simp, own⟩

/-! ## The stored token -/

/-- What is stored of a token that was inserted under the id. -/
structure KeptToken (world : World) (log : List AccountEvent) (id : ObjectID)
    (token : VerifiedToken) : Prop where
  stored : ∃ stored, world.tokens.lookup id = some stored ∧ stored.token = token.token ∧
    stored.verification = token.verification ∧
    (stored.verified = true ↔ token.verified = true ∨ Unlocked log id)
  locked : token.verified = true → ¬ Unlocked log id

/-- What a copy that was loaded under the id shows of it. -/
structure LoadedToken (token loaded : VerifiedToken) : Prop where
  text : loaded.token = token.token
  verification : loaded.verification = token.verification
  verified : token.verified = true → loaded.verified = true

structure LifeInvariant (world : World) (log : List AccountEvent) : Prop where
  stored : ∀ id stored, world.tokens.lookup id = some stored →
    ∃ thread token, ⟨thread, ⟨.insertToken token, .ok id⟩⟩ ∈ log
  unique : ∀ thread thread' token token' id, ⟨thread, ⟨.insertToken token, .ok id⟩⟩ ∈ log →
    ⟨thread', ⟨.insertToken token', .ok id⟩⟩ ∈ log → token = token'
  kept : ∀ thread token id, ⟨thread, ⟨.insertToken token, .ok id⟩⟩ ∈ log →
    KeptToken world log id token
  loaded : ∀ thread query doc, ⟨thread, ⟨.findToken query, .ok (some doc)⟩⟩ ∈ log →
    ∃ inserter token, ⟨inserter, ⟨.insertToken token, .ok doc.id⟩⟩ ∈ log ∧
      LoadedToken token doc.val
  saved : ∀ id, Unlocked log id → ∃ thread token, ⟨thread, ⟨.insertToken token, .ok id⟩⟩ ∈ log

theorem KeptToken.loaded {world : World} {log : List AccountEvent} {id : ObjectID}
    {token stored : VerifiedToken} (kept : KeptToken world log id token)
    (found : world.tokens.lookup id = some stored) : LoadedToken token stored := by
  obtain ⟨current, lookup, text, verification, verified⟩ := kept.stored
  rw [lookup] at found
  obtain rfl := Option.some.inj found
  exact ⟨text, verification, fun already => verified.mpr (.inl already)⟩

/-- A call that leaves the token as it is and does not save it. -/
theorem KeptToken.quiet {world after : World} {log : List AccountEvent} {thread : Nat}
    {call : Call Op Ans Exception} {id : ObjectID} {token : VerifiedToken}
    (kept : KeptToken world log id token)
    (same : after.tokens.lookup id = world.tokens.lookup id)
    (noSave : ∀ saved, call = ⟨.saveToken saved, .ok ()⟩ → saved.id ≠ id) :
    KeptToken after (log ++ [⟨thread, call⟩]) id token := by
  have logged : Unlocked (log ++ [⟨thread, call⟩]) id ↔ Unlocked log id := by
    rw [unlocked_append]
    refine or_iff_left fun saves => ?_
    obtain ⟨saved, made, own⟩ := saves
    exact noSave saved made own
  obtain ⟨stored, lookup, text, verification, verified⟩ := kept.stored
  exact ⟨⟨stored, same.trans lookup, text, verification, by rw [logged]; exact verified⟩,
    by rw [logged]; exact kept.locked⟩

/-- The save of a copy that was loaded locked unlocks the token. -/
theorem KeptToken.saved {world after : World} {log : List AccountEvent} {thread : Nat}
    {id : ObjectID} {token loaded : VerifiedToken} (kept : KeptToken world log id token)
    (shown : LoadedToken token loaded) (locked : loaded.verified = false)
    (writes : after.tokens =
      world.tokens.save VerifiedToken.write ⟨id, { loaded with verified := true }⟩) :
    KeptToken after (log ++ [⟨thread, ⟨.saveToken ⟨id, { loaded with verified := true }⟩, .ok ()⟩⟩])
      id token := by
  obtain ⟨stored, lookup, _⟩ := kept.stored
  have unlocked : Unlocked
      (log ++ [⟨thread, ⟨.saveToken ⟨id, { loaded with verified := true }⟩, .ok ()⟩⟩]) id :=
    unlocked_append.mpr (.inr ⟨_, rfl, rfl⟩)
  refine ⟨⟨{ loaded with verified := true }, ?_, shown.text, shown.verification,
    fun _ => .inr unlocked, fun _ => rfl⟩, fun verified => ?_⟩
  · rw [writes, Collection.lookup_save, if_pos rfl, lookup]
    rfl
  · rw [shown.verified verified] at locked
    cases locked

/-! ## One call -/

variable {world : World} {log : List AccountEvent} {thread : Nat} {arrival : Arrival}

/-- A call inserts a token, saves one, or neither. -/
theorem token_call (choice : Choice) (op : Op) (world : World) :
    (∃ token id, (⟨op, (perform choice op world).1⟩ : Call Op Ans Exception) =
        ⟨.insertToken token, .ok id⟩ ∧
      world.tokens.insert ⟨id, token⟩ = some (perform choice op world).2.tokens) ∨
    (∃ saved, (⟨op, (perform choice op world).1⟩ : Call Op Ans Exception) =
        ⟨.saveToken saved, .ok ()⟩ ∧
      (perform choice op world).2.tokens = world.tokens.save VerifiedToken.write saved) ∨
    (perform choice op world).2.tokens = world.tokens ∧
      (∀ token id, (⟨op, (perform choice op world).1⟩ : Call Op Ans Exception) ≠
        ⟨.insertToken token, .ok id⟩) ∧
      ∀ saved, (⟨op, (perform choice op world).1⟩ : Call Op Ans Exception) ≠
        ⟨.saveToken saved, .ok ()⟩ := by
  by_cases own : op.part = some .tokens
  · unfold perform
    cases choice.rejects with
    | some error =>
        exact .inr (.inr ⟨rfl, fun _ _ => rejected_ne_answered, fun _ => rejected_ne_answered⟩)
    | none =>
        cases op with
        | saveToken saved => exact .inr (.inl ⟨saved, rfl, rfl⟩)
        | insertToken token =>
            simp only [answer]
            split
            · rename_i after stored
              exact .inl ⟨token, _, rfl, stored⟩
            · exact .inr (.inr ⟨rfl, fun _ _ => rejected_ne_answered, fun _ => rejected_ne_answered⟩)
        | _ => cases own
  · refine .inr (.inr ⟨(perform_frame choice op world).tokens own, fun token id same => own ?_,
      fun saved same => own ?_⟩)
    · cases congrArg Sigma.fst same
      rfl
    · cases congrArg Sigma.fst same
      rfl

theorem LifeInvariant.quiet {after : World} {call : Call Op Ans Exception}
    (invariant : LifeInvariant world log) (same : after.tokens = world.tokens)
    (noInsert : ∀ token id, call ≠ ⟨.insertToken token, .ok id⟩)
    (noSave : ∀ saved, call ≠ ⟨.saveToken saved, .ok ()⟩)
    (copies : ∀ query doc, call = ⟨.findToken query, .ok (some doc)⟩ →
      world.tokens.lookup doc.id = some doc.val) :
    LifeInvariant after (log ++ [⟨thread, call⟩]) := by
  have earlier : ∀ other token id, ⟨other, ⟨.insertToken token, .ok id⟩⟩ ∈ log ++ [⟨thread, call⟩] →
      ⟨other, ⟨.insertToken token, .ok id⟩⟩ ∈ log := by
    intro other token id member
    rcases List.mem_append.mp member with old | new
    · exact old
    · cases List.mem_singleton.mp new
      exact absurd rfl (noInsert token id)
  refine ⟨fun id stored found => ?_, fun _ _ _ _ _ first second => ?_, fun other token id member => ?_,
    fun other query doc member => ?_, fun id unlocked => ?_⟩
  · rw [same] at found
    obtain ⟨other, token, member⟩ := invariant.stored id stored found
    exact ⟨other, token, List.mem_append_left _ member⟩
  · exact invariant.unique _ _ _ _ _ (earlier _ _ _ first) (earlier _ _ _ second)
  · exact (invariant.kept other token id (earlier _ _ _ member)).quiet (by rw [same])
      fun saved made => absurd made (noSave saved)
  · rcases List.mem_append.mp member with old | new
    · obtain ⟨inserter, token, inserted, shown⟩ := invariant.loaded other query doc old
      exact ⟨inserter, token, List.mem_append_left _ inserted, shown⟩
    · cases List.mem_singleton.mp new
      have found := copies query doc rfl
      obtain ⟨inserter, token, inserted⟩ := invariant.stored doc.id doc.val found
      exact ⟨inserter, token, List.mem_append_left _ inserted,
        (invariant.kept inserter token doc.id inserted).loaded found⟩
  · rcases unlocked_append.mp unlocked with before | ⟨saved, made, _⟩
    · obtain ⟨inserter, token, inserted⟩ := invariant.saved id before
      exact ⟨inserter, token, List.mem_append_left _ inserted⟩
    · exact absurd made (noSave saved)

theorem LifeInvariant.inserted {after : World} {token : VerifiedToken} {id : ObjectID}
    (invariant : LifeInvariant world log)
    (stores : world.tokens.insert ⟨id, token⟩ = some after.tokens) :
    LifeInvariant after (log ++ [⟨thread, ⟨.insertToken token, .ok id⟩⟩]) := by
  have lookups : ∀ other, after.tokens.lookup other =
      if other = id then some token else world.tokens.lookup other :=
    fun _ => Collection.lookup_insert stores
  have free := (Collection.insert_eq_some_iff.mp stores).1
  have unused : ∀ other token', ⟨other, ⟨.insertToken token', .ok id⟩⟩ ∉ log := by
    intro other token' member
    obtain ⟨stored, found, _⟩ := (invariant.kept other token' id member).stored
    rw [free] at found
    cases found
  refine ⟨fun other stored found => ?_, fun _ _ _ _ _ first second => ?_,
    fun other token' id' member => ?_, fun other query doc member => ?_, fun other unlocked => ?_⟩
  · rw [lookups] at found
    split at found
    · rename_i own
      exact ⟨thread, token, by simp [own]⟩
    · obtain ⟨inserter, token', member⟩ := invariant.stored other stored found
      exact ⟨inserter, token', List.mem_append_left _ member⟩
  · rcases List.mem_append.mp first with old | new <;>
      rcases List.mem_append.mp second with old' | new'
    · exact invariant.unique _ _ _ _ _ old old'
    · cases List.mem_singleton.mp new'
      exact absurd old (unused _ _)
    · cases List.mem_singleton.mp new
      exact absurd old' (unused _ _)
    · cases List.mem_singleton.mp new
      cases List.mem_singleton.mp new'
      rfl
  · rcases List.mem_append.mp member with old | new
    · have different : id' ≠ id := by
        intro own
        rw [own] at old
        exact unused _ _ old
      refine (invariant.kept other token' id' old).quiet ?_ (fun saved made => by cases made)
      rw [lookups, if_neg different]
    · cases List.mem_singleton.mp new
      have unlogged : ¬ Unlocked (log ++ [⟨thread, ⟨.insertToken token, .ok id⟩⟩]) id := by
        rw [unlocked_append]
        intro either
        rcases either with before | ⟨saved, made, _⟩
        · obtain ⟨inserter, token', inserted⟩ := invariant.saved id before
          exact unused inserter token' inserted
        · cases made
      refine ⟨⟨token, by rw [lookups, if_pos rfl], rfl, rfl, ?_⟩, fun _ => unlogged⟩
      exact ⟨.inl, fun either => either.resolve_right unlogged⟩
  · rcases List.mem_append.mp member with old | new
    · obtain ⟨inserter, token', inserted, shown⟩ := invariant.loaded other query doc old
      exact ⟨inserter, token', List.mem_append_left _ inserted, shown⟩
    · cases List.mem_singleton.mp new
  · rcases unlocked_append.mp unlocked with before | ⟨saved, made, _⟩
    · obtain ⟨inserter, token', inserted⟩ := invariant.saved other before
      exact ⟨inserter, token', List.mem_append_left _ inserted⟩
    · cases made

/-- A copy that was loaded locked is saved unlocked. -/
theorem LifeInvariant.unlocked {after : World} {loaded : Doc ObjectID VerifiedToken}
    {query : Option String} {other : Nat} (invariant : LifeInvariant world log)
    (found : ⟨other, ⟨.findToken query, .ok (some loaded)⟩⟩ ∈ log)
    (locked : loaded.val.verified = false)
    (writes : after.tokens = world.tokens.save VerifiedToken.write
      ⟨loaded.id, { loaded.val with verified := true }⟩) :
    LifeInvariant after (log ++
      [⟨thread, ⟨.saveToken ⟨loaded.id, { loaded.val with verified := true }⟩, .ok ()⟩⟩]) := by
  obtain ⟨owner, own, ownInserted, shown⟩ := invariant.loaded other query loaded found
  have earlier : ∀ other token id, ⟨other, ⟨.insertToken token, .ok id⟩⟩ ∈ log ++
        [⟨thread, ⟨.saveToken ⟨loaded.id, { loaded.val with verified := true }⟩, .ok ()⟩⟩] →
      ⟨other, ⟨.insertToken token, .ok id⟩⟩ ∈ log := by
    intro other token id member
    rcases List.mem_append.mp member with old | new
    · exact old
    · cases List.mem_singleton.mp new
  refine ⟨fun id stored found => ?_, fun _ _ _ _ _ first second => ?_, fun other token id member => ?_,
    fun other query doc member => ?_, fun id unlocked => ?_⟩
  · rw [writes, Collection.lookup_save] at found
    have before : ∃ stored, world.tokens.lookup id = some stored := by
      split at found
      · obtain ⟨former, lookup, _⟩ := Option.map_eq_some_iff.mp found
        exact ⟨former, lookup⟩
      · exact ⟨stored, found⟩
    obtain ⟨former, lookup⟩ := before
    obtain ⟨inserter, token, inserted⟩ := invariant.stored id former lookup
    exact ⟨inserter, token, List.mem_append_left _ inserted⟩
  · exact invariant.unique _ _ _ _ _ (earlier _ _ _ first) (earlier _ _ _ second)
  · have inserted := earlier _ _ _ member
    have kept := invariant.kept other token id inserted
    by_cases same : id = loaded.id
    · subst same
      rw [← invariant.unique _ _ _ _ _ inserted ownInserted] at shown
      exact kept.saved shown locked writes
    · refine kept.quiet (by rw [writes, Collection.lookup_save, if_neg same]) fun saved made => ?_
      cases made
      exact fun saves => same saves.symm
  · rcases List.mem_append.mp member with old | new
    · obtain ⟨inserter, token, inserted, shown⟩ := invariant.loaded other query doc old
      exact ⟨inserter, token, List.mem_append_left _ inserted, shown⟩
    · cases List.mem_singleton.mp new
  · rcases unlocked_append.mp unlocked with before | ⟨saved, made, saves⟩
    · obtain ⟨inserter, token, inserted⟩ := invariant.saved id before
      exact ⟨inserter, token, List.mem_append_left _ inserted⟩
    · cases made
      subst saves
      exact ⟨owner, own, List.mem_append_left _ ownInserted⟩

theorem LifeInvariant.step {op : Op} {choice : Choice} (invariant : LifeInvariant world log)
    (guard : Guard app arrival (localTrace thread log) op) :
    LifeInvariant (perform choice op world).2
      (log ++ [⟨thread, ⟨op, (perform choice op world).1⟩⟩]) := by
  rcases token_call choice op world with ⟨token, id, call, stores⟩ | ⟨saved, call, writes⟩ |
    ⟨same, noInsert, noSave⟩
  · rw [call]
    exact invariant.inserted stores
  · obtain rfl : op = .saveToken saved := congrArg Sigma.fst call
    obtain ⟨_, _, loaded, _, _, found, becomes, locked, _⟩ := guard
    subst becomes
    rw [call]
    exact invariant.unlocked (mem_localTrace.mp found) locked writes
  · refine invariant.quiet same noInsert noSave fun query doc call => ?_
    obtain rfl : op = .findToken query := congrArg Sigma.fst call
    have answered : (perform choice (.findToken query) world).1 = .ok (some doc) :=
      eq_of_heq (Sigma.mk.inj call).2
    obtain ⟨stored, _⟩ := findToken_answered answered
    exact Collection.lookup_eq_some_iff.mpr stored

theorem lifeInvariant (reached : (accounts app).Reachable (.idle {}) state) :
    LifeInvariant state.world state.log := by
  have start : LifeInvariant {} [] := by
    refine ⟨fun id stored found => ?_, by simp, by simp, by simp, by simp [Unlocked]⟩
    cases found
  exact account_calls start (fun _ _ _ _ _ _ _ guard invariant => invariant.step guard) reached

/-! ## Unlocked once -/

/-- A request saves one token at most. -/
def SavesOnce (past : AccountTrace) (op : Op) : Prop :=
  ∀ saved, op = .saveToken saved → ∀ other answer, ⟨.saveToken other, answer⟩ ∉ past

theorem verifyLogin_savesOnce (inputData : VerifyLoginInput) (draws : Draws) :
    (UserService.verifyLogin app inputData draws).Meets SavesOnce (fun _ _ => True)
      (fun _ _ => True) [] := by
  simp [UserService.verifyLogin, UserService.findUser, findInvestor,
    VerificationClient.checkVerificationPayloadAndCode, VerificationClient.getVerification,
    VerificationClient.validateVerification, VerificationClient.invalidateVerification, notify,
    EmailTemplateService.getRenderedTemplate, fire, request, call, SavesOnce]

theorem handle_savesOnce (app : App) (arrival : Arrival) :
    (handle app arrival.draws arrival.request).Meets SavesOnce (fun _ _ => True) (fun _ _ => True)
      [] := by
  by_cases verifies : ∃ inputData, arrival.request = .verifyLogin inputData
  · obtain ⟨inputData, own⟩ := verifies
    rw [own]
    simpa [handle] using verifyLogin_savesOnce inputData arrival.draws
  · refine (handle_meets app arrival).mono (fun past op guard saved same => ?_)
      (fun _ _ _ => trivial) (fun _ _ _ => trivial)
    subst same
    obtain ⟨inputData, _, _, own, _⟩ := guard
    exact absurd ⟨inputData, own⟩ verifies

theorem saved_once (reached : (accounts app).Reachable (.idle {}) state) {past past' : List AccountEvent}
    {thread : Nat} {first second : Doc ObjectID VerifiedToken}
    (occurs : Occurs state.log past ⟨thread, ⟨.saveToken first, .ok ()⟩⟩)
    (occurs' : Occurs state.log past' ⟨thread, ⟨.saveToken second, .ok ()⟩⟩) : past = past' := by
  have none : ∀ {past saved}, Occurs state.log past ⟨thread, ⟨.saveToken saved, .ok ()⟩⟩ →
      ∀ other, ⟨thread, ⟨.saveToken other, .ok ()⟩⟩ ∉ past := by
    intro past saved occurs other member
    obtain ⟨origin, _, _, _, before, rfl, awaiting, _, _⟩ := reached.event_origin occurs
    have once := (before.guarded (handle_savesOnce app) awaiting).1
    exact once saved rfl other _ (mem_localTrace.mpr member)
  rcases occurs.compare occurs' with ⟨same, _⟩ | earlier | earlier
  · exact same
  · exact absurd earlier (none occurs' first)
  · exact absurd earlier (none occurs second)

/-- One verification is validated by one thread. -/
theorem validated_by (reached : (accounts app).Reachable (.idle {}) state) {first second : Nat}
    {method method' id : String} (validated : Validated (localTrace first state.log) method id)
    (validated' : Validated (localTrace second state.log) method' id) : first = second := by
  obtain ⟨input, result, member⟩ := validated
  obtain ⟨input', result', member'⟩ := validated'
  have invariant := verificationInvariant reached
  obtain ⟨verifier, stored, own, _⟩ := invariant.consumed _ _ _ _ _ (mem_localTrace.mp member)
  obtain ⟨verifier', stored', own', _⟩ := invariant.consumed _ _ _ _ _ (mem_localTrace.mp member')
  have same : verifier = verifier' := List.inj_on_of_nodup_map invariant.distinct stored stored'
    (own.2.trans own'.2.symm)
  obtain rfl : method = method' := own.1.symm.trans (same ▸ own'.1)
  obtain ⟨past, occurs⟩ := occurs_of_mem (mem_localTrace.mp member)
  obtain ⟨past', occurs'⟩ := occurs_of_mem (mem_localTrace.mp member')
  rcases occurs.compare occurs' with ⟨_, events⟩ | earlier | earlier
  · exact congrArg Event.thread events
  · exact absurd earlier (not_validated_before reached occurs')
  · exact absurd earlier (not_validated_before reached occurs)

/-- What unlocks a token has validated the verification that was stored with it. -/
theorem unlocks_validated (reached : (accounts app).Reachable (.idle {}) state)
    {past : List AccountEvent} {thread inserter : Nat} {saved : Doc ObjectID VerifiedToken}
    {token : VerifiedToken}
    (occurs : Occurs state.log past ⟨thread, ⟨.saveToken saved, .ok ()⟩⟩)
    (inserted : ⟨inserter, ⟨.insertToken token, .ok saved.id⟩⟩ ∈ state.log) :
    ∃ method id, token.verification.map Verification.id = some id ∧
      Validated (localTrace thread state.log) method id := by
  obtain ⟨origin, _, _, _, _, rfl, _, guard, _⟩ := event_guarded reached occurs
  obtain ⟨_, input, loaded, _, _, found, becomes, _, verificationId, validated⟩ := guard
  subst becomes
  have invariant := lifeInvariant reached
  have later := occurs.localTrace_extends thread
  obtain ⟨owner, own, ownInserted, shown⟩ :=
    invariant.loaded _ _ _ (mem_localTrace.mp (later.subset found))
  obtain rfl := invariant.unique _ _ _ _ _ inserted ownInserted
  exact ⟨input.method, input.id, by rw [← shown.verification]; exact verificationId,
    validated.extended later⟩

theorem unlocks_once (reached : (accounts app).Reachable (.idle {}) state)
    {past past' : List AccountEvent} {id : ObjectID} (unlocks : Unlocks state.log past id)
    (unlocks' : Unlocks state.log past' id) : past = past' := by
  obtain ⟨thread, saved, occurs, rfl⟩ := unlocks
  obtain ⟨thread', saved', occurs', same⟩ := unlocks'
  obtain ⟨inserter, token, inserted⟩ := (lifeInvariant reached).saved saved.id ⟨_, _, occurs.mem, rfl⟩
  obtain ⟨method, verification, own, validated⟩ := unlocks_validated reached occurs inserted
  obtain ⟨method', verification', own', validated'⟩ :=
    unlocks_validated reached occurs' (by rw [same]; exact inserted)
  obtain rfl : verification = verification' := Option.some.inj (own.symm.trans own')
  obtain rfl := validated_by reached validated validated'
  exact saved_once reached occurs occurs'

/-- A token keeps its text and its verification.  It is stored verified, or a
single request unlocks it, for good. -/
theorem token_life (reached : (accounts app).Reachable (.idle {}) state) {thread : Nat}
    {token : VerifiedToken} {id : ObjectID}
    (inserted : ⟨thread, ⟨.insertToken token, .ok id⟩⟩ ∈ state.log) :
    (∃ stored, state.world.tokens.lookup id = some stored ∧ stored.token = token.token ∧
      stored.verification = token.verification ∧
      (stored.verified = true ↔ token.verified = true ∨ ∃ past, Unlocks state.log past id)) ∧
    (token.verified = true → ∀ past, ¬ Unlocks state.log past id) ∧
    ∀ past past', Unlocks state.log past id → Unlocks state.log past' id → past = past' := by
  have kept := (lifeInvariant reached).kept thread token id inserted
  obtain ⟨stored, lookup, text, verification, verified⟩ := kept.stored
  have unlocked : Unlocked state.log id ↔ ∃ past, Unlocks state.log past id :=
    ⟨Unlocked.unlocks, fun unlocks => unlocks.elim fun _ => Unlocks.unlocked⟩
  rw [unlocked] at verified
  refine ⟨⟨stored, lookup, text, verification, verified⟩, fun already past unlocks => ?_, ?_⟩
  · exact kept.locked already unlocks.unlocked
  · exact fun _ _ => unlocks_once reached

theorem activated_token_life :
    ∃ stored, activated.world.tokens.lookup 1 = some stored ∧ stored.token = "t1" ∧
      stored.verification = none ∧
      (stored.verified = true ↔ true = true ∨ ∃ past, Unlocks activated.log past 1) := by
  have inserted : ⟨1, ⟨.insertToken (VerifiedToken.createVerifiedToken "t1"), .ok 1⟩⟩ ∈
      activated.log := List.mem_of_getElem? (show activated.log[10]? = some _ from rfl)
  exact (token_life (System.reachable_run _ _) inserted).1

end IcoDashboard.Accounts
