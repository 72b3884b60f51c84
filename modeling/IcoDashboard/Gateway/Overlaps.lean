import IcoDashboard.Gateway.Notifications

namespace IcoDashboard.Gateway

open IcoDashboard.Async IcoDashboard.Async.Program IcoDashboard.Data

/-! # Overlapping notifications

A handler saves the whole copy it loaded, so a save over a record that has
changed since takes the change back.  Where no save does that, the handlers act
on the record one after another, whatever the order of their calls is.
-/

abbrev IpnState : Type :=
  State Op Ans Exception World Notification (Doc ObjectID PaymentGateTransaction)

variable {app : App} {initial : World} {state : IpnState} {id : ObjectID}

def storedRecord (id : ObjectID) (state : IpnState) : Option PaymentGateTransaction :=
  state.world.transactions.lookup id

/-- The copy of the transaction that a thread has loaded. -/
def loadedBy (thread : Nat) (state : IpnState) : Option (Doc ObjectID PaymentGateTransaction) :=
  loadedTransaction (localTrace thread state.log)

/-- What a thread has saved. -/
def savedBy (thread : Nat) (state : IpnState) : Option (Doc ObjectID PaymentGateTransaction) :=
  savedTransaction (localTrace thread state.log)

/-- The transaction that the program is about to save. -/
def saving : Handler (Doc ObjectID PaymentGateTransaction) →
    Option (Doc ObjectID PaymentGateTransaction)
  | .await (.saveTransaction tx) _ => some tx
  | _ => none

def Notification.isFail : Notification → Bool
  | .fail _ => true
  | _ => false

/-- The stored notifications are in the loaded copy or are the one at hand, and a
stored failure is in the copy or comes again. -/
def Covers (stored loaded : PaymentGateTransaction) (notification : Notification) : Prop :=
  (∀ ipn ∈ stored.buyIpns, ipn ∈ loaded.buyIpns ∨
    loaded.type = .buy ∧ ipn = IPNResponse.createIPNResponse notification.data) ∧
  (stored.status = .failed → loaded.status = .failed ∨ notification.isFail = true)

instance (stored loaded : PaymentGateTransaction) (notification : Notification) :
    Decidable (Covers stored loaded notification) :=
  inferInstanceAs (Decidable (_ ∧ _))

/-- A save of the record that reaches the database comes from a copy that covers
what is stored by then. -/
def SavesFresh (id : ObjectID) (state : IpnState) : Action Choice Notification → Prop
  | .start _ => True
  | .resume thread choice =>
      choice.rejects.isNone = true → ∀ entry ∈ state.threads[thread]?,
        ∀ tx ∈ saving entry.program, tx.id = id → ∀ stored ∈ storedRecord id state,
          ∀ loaded ∈ loadedBy thread state, Covers stored loaded.val entry.request

instance (id : ObjectID) (state : IpnState) :
    (action : Action Choice Notification) → Decidable (SavesFresh id state action)
  | .start _ => .isTrue trivial
  | .resume _ choice => inferInstanceAs (Decidable (choice.rejects.isNone = true → _))

/-! ## What the notifications promise -/

/-- The thread has handled the notification on a copy of the record. -/
structure Handled (id : ObjectID) (state : IpnState) (thread : Nat) (notification : Notification)
    (loaded : Doc ObjectID PaymentGateTransaction) : Prop where
  returned : ∃ saved, state.threads[thread]? = some ⟨notification, .done saved⟩
  loads : loadedBy thread state = some loaded
  own : loaded.id = id

/-- Every notification that was accepted while the record was a buy is in it, and
a failure that was stored has not become pending or started. -/
structure KeepsNotifications (id : ObjectID) (state : IpnState) : Prop where
  recorded : ∀ thread notification loaded, Handled id state thread notification loaded →
    loaded.val.type = .buy → ∃ record, storedRecord id state = some record ∧
      IPNResponse.createIPNResponse notification.data ∈ record.buyIpns
  failed : ∀ thread data loaded, Handled id state thread (.fail data) loaded →
    ∃ record, storedRecord id state = some record ∧
      record.status ∉ [PaymentGateTransactionStatus.pending, .started]

/-! ## The effect of the saves -/

/-- What a save has left in the record. -/
def LeftIn (record : PaymentGateTransaction) (loaded : PaymentGateTransaction) :
    Notification → Prop := fun notification =>
  (loaded.type = .buy →
    IPNResponse.createIPNResponse notification.data ∈ record.buyIpns) ∧
  ∀ data, notification = .fail data → record.status = .failed

/-- Every save of the record is still in it. -/
def SavesKept (id : ObjectID) (state : IpnState) : Prop :=
  ∀ thread notification program loaded saved,
    state.threads[thread]? = some ⟨notification, program⟩ → loadedBy thread state = some loaded →
    loaded.id = id → savedBy thread state = some saved →
    ∃ record, storedRecord id state = some record ∧ LeftIn record loaded.val notification

theorem Makes.fails {loaded saved : PaymentGateTransaction} {trace : IpnTrace}
    {notification : Notification} (makes : Makes trace loaded saved notification)
    (fails : notification.isFail = true) : saved.status = .failed := by
  cases notification with
  | fail data =>
      obtain ⟨_, same⟩ := makes
      rw [same]
      unfold IPNService.pushIfBuy
      split <;> rfl
  | pending data => cases fails
  | complete data => cases fails

theorem LeftIn.makes {record loaded copy saved : PaymentGateTransaction} {trace : IpnTrace}
    {notification other : Notification} (left : LeftIn record loaded other)
    (covers : Covers record copy notification)
    (accepted : copy.status ∈ notification.accepts)
    (makes : Makes trace copy saved notification) : LeftIn saved loaded other := by
  obtain ⟨ipns, failures⟩ := covers
  refine ⟨fun buy => ?_, fun data own => ?_⟩
  · rcases ipns _ (left.1 buy) with recorded | ⟨copyBuy, own⟩
    · rcases makes.buyIpns with same | extended
      · rw [same]
        exact recorded
      · rw [extended]
        exact List.mem_append_left _ recorded
    · rw [own]
      exact makes.recorded copyBuy
  · rcases failures (left.2 data own) with failed | fails
    · exact makes.failed accepted failed
    · exact makes.fails fails

theorem Makes.left {loaded saved : PaymentGateTransaction} {trace : IpnTrace}
    {notification : Notification} (makes : Makes trace loaded saved notification) :
    LeftIn saved loaded notification := by
  refine ⟨makes.recorded, fun data own => makes.fails ?_⟩
  rw [own]
  rfl

theorem loadedTransaction_append {trace later : IpnTrace} {txnId : String}
    {loaded : Doc ObjectID PaymentGateTransaction}
    (first : trace.head? = some ⟨.findTransaction txnId, .ok (some loaded)⟩) :
    loadedTransaction (trace ++ later) = some loaded := by
  cases trace with
  | nil => cases first
  | cons call rest =>
      cases first
      rfl

theorem loadedTransaction_of_first {trace : IpnTrace} {txnId : String}
    {loaded : Doc ObjectID PaymentGateTransaction}
    (first : trace.head? = some ⟨.findTransaction txnId, .ok (some loaded)⟩) :
    loadedTransaction trace = some loaded := by
  rw [← List.append_nil trace]
  exact loadedTransaction_append first

theorem savedTransaction_single {op : Op} {answer : Except Exception (Ans op)}
    {tx : Doc ObjectID PaymentGateTransaction}
    (saved : savedTransaction [⟨op, answer⟩] = some tx) :
    op = .saveTransaction tx := by
  cases op with
  | saveTransaction other =>
      cases answer with
      | ok value =>
          have same : some other = some tx := saved
          rw [Option.some.inj same]
      | error error => cases saved
  | _ => cases saved

/-- A transaction that is stored stays stored. -/
theorem perform_keeps (choice : Choice) (op : Op) (world : World)
    (stored : (world.transactions.lookup id).isSome = true) :
    ((perform choice op world).2.transactions.lookup id).isSome = true := by
  unfold perform
  cases choice.rejects with
  | some error => exact stored
  | none =>
      cases op with
      | saveTransaction tx =>
          change ((world.transactions.save PaymentGateTransaction.write tx).lookup id).isSome = true
          rw [Collection.lookup_save]
          split
          · rw [Option.isSome_map]
            exact stored
          · exact stored
      | insertTransaction tx =>
          simp only [answer]
          cases inserted : world.transactions.insert ⟨choice.id, tx⟩ with
          | none => exact stored
          | some transactions =>
              change (transactions.lookup id).isSome = true
              rw [Collection.lookup_insert inserted]
              split
              · rfl
              · exact stored
      | _ => exact stored

/-- What the calls have found is stored. -/
def FoundStored (world : World) (log : List (Event Op Ans Exception)) : Prop :=
  ∀ thread txnId (loaded : Doc ObjectID PaymentGateTransaction),
    ⟨thread, ⟨.findTransaction txnId, .ok (some loaded)⟩⟩ ∈ log →
      (world.transactions.lookup loaded.id).isSome = true

theorem found_stored (reached : (ipnService app).Reachable (.idle initial) state) :
    FoundStored state.world state.log := by
  apply @System.Reachable.calls _ _ _ _ _ _ _ (ipnService app) initial FoundStored
  · intro _ _ _ member
    cases member
  · intro state other choice request op resume _ _ kept thread txnId loaded member
    rcases (@mem_answered _ _ _ (fun op => (perform choice op state.world).1) _ _ _ _ _ _).mp
      member with old | ⟨_, opEq, answered⟩
    · exact perform_keeps choice op state.world (kept thread txnId loaded old)
    · subst opEq
      apply perform_keeps
      rw [Collection.lookup_of_findOne (findTransaction_answered answered)]
      rfl
  · exact reached

/-- What a handler has loaded is stored ever after. -/
theorem loaded_stored (reached : (ipnService app).Reachable (.idle initial) state) {thread : Nat}
    {loaded : Doc ObjectID PaymentGateTransaction} (loads : loadedBy thread state = some loaded) :
    ∃ record, storedRecord loaded.id state = some record := by
  obtain ⟨txnId, member⟩ := loadedTransaction_mem loads
  exact Option.isSome_iff_exists.mp
    (found_stored reached thread txnId loaded (mem_localTrace.mp member))

/-- A call that has saved was a save and was not rejected. -/
theorem savedTransaction_answered {choice : Choice} {op : Op} {world : World}
    {tx : Doc ObjectID PaymentGateTransaction}
    (saved : savedTransaction [⟨op, (perform choice op world).1⟩] = some tx) :
    op = .saveTransaction tx ∧ choice.rejects.isNone = true := by
  have own := savedTransaction_single saved
  subst own
  refine ⟨rfl, ?_⟩
  cases rejects : choice.rejects with
  | some error =>
      simp only [perform, rejects] at saved
      cases saved
  | none => rfl

/-- The world and the log after the answer to the call that a thread awaits. -/
def answeredState (state : IpnState) (thread : Nat) (choice : Choice) (notification : Notification)
    (op : Op) (resume : Except Exception (Ans op) → Handler (Doc ObjectID PaymentGateTransaction)) :
    IpnState where
  world := (perform choice op state.world).2
  threads := state.threads.set thread ⟨notification, resume (perform choice op state.world).1⟩
  log := state.log ++ [⟨thread, ⟨op, (perform choice op state.world).1⟩⟩]

theorem savesKept_resumed {thread : Nat} {notification : Notification} {op : Op} {choice : Choice}
    {resume : Except Exception (Ans op) → Handler (Doc ObjectID PaymentGateTransaction)}
    (reached : (ipnService app).Reachable (.idle initial) state)
    (awaiting : state.threads[thread]? = some ⟨notification, .await op resume⟩)
    (guard : NotificationGuard notification (localTrace thread state.log) op)
    (fresh : SavesFresh id state (.resume thread choice)) (kept : SavesKept id state) :
    SavesKept id (answeredState state thread choice notification op resume) := by
  obtain ⟨bound, _⟩ := List.getElem?_eq_some_iff.mp awaiting
  obtain ⟨unsaved, allowed⟩ := guard
  have noInsert : ∀ tx, op ≠ .insertTransaction tx := by
    intro tx insert
    subst insert
    exact allowed
  have transactions := perform_transactions choice state.world noInsert
  intro other request program loaded saved found loads own saves
  cases saving : savedTransaction [⟨op, (perform choice op state.world).1⟩] with
  | none =>
      have unchanged : storedRecord id (answeredState state thread choice notification op resume) =
          storedRecord id state := by
        rw [storedAfter, saving] at transactions
        exact congrArg (Collection.lookup · id) transactions
      rw [unchanged]
      by_cases same : thread = other
      · subst same
        simp only [savedBy, answeredState, localTrace_append, localTrace_own,
          savedTransaction_append, unsaved, saving] at saves
        cases saves
      · simp only [loadedBy, savedBy, answeredState, localTrace_other _ _ same] at loads saves
        simp only [answeredState, List.getElem?_set_ne same] at found
        exact kept other request program loaded saved found loads own saves
  | some tx =>
      obtain ⟨opEq, answered⟩ := savedTransaction_answered saving
      subst opEq
      obtain ⟨copy, accepts, sameId, makes⟩ := allowed
      have copied : loadedBy thread state = some copy :=
        loadedTransaction_of_first accepts.1
      have stored : storedRecord id
          (answeredState state thread choice notification (.saveTransaction tx) resume) =
            if id = tx.id then (storedRecord id state).map fun _ => tx.val
            else storedRecord id state := by
        rw [storedAfter, saving] at transactions
        refine (congrArg (Collection.lookup · id) transactions).trans ?_
        exact Collection.lookup_save PaymentGateTransaction.write
      rw [stored]
      by_cases same : thread = other
      · subst same
        simp only [answeredState, List.getElem?_set_self bound] at found
        cases found
        simp only [loadedBy, answeredState, localTrace_append, localTrace_own,
          loadedTransaction_append accepts.1] at loads
        cases loads
        obtain ⟨record, present⟩ := loaded_stored reached copied
        rw [own] at present
        refine ⟨tx.val, ?_, makes.left⟩
        rw [if_pos (own.symm.trans sameId.symm), present]
        rfl
      · simp only [loadedBy, savedBy, answeredState, localTrace_other _ _ same] at loads saves
        simp only [answeredState, List.getElem?_set_ne same] at found
        obtain ⟨record, present, left⟩ := kept other request program loaded saved found loads own saves
        by_cases ours : id = tx.id
        · have covers : Covers record copy.val notification :=
            fresh answered ⟨notification, .await (.saveTransaction tx) resume⟩ awaiting tx rfl ours.symm
              record present copy copied
          refine ⟨tx.val, ?_, left.makes covers accepts.2 makes⟩
          rw [if_pos ours, present]
          rfl
        · refine ⟨record, ?_, left⟩
          rw [if_neg ours]
          exact present

theorem savesKept_step {action : Action Choice Notification}
    (reached : (ipnService app).Reachable (.idle initial) state) (kept : SavesKept id state)
    (fresh : SavesFresh id state action) : SavesKept id ((ipnService app).step state action) := by
  rcases (ipnService app).step_cases state action with same | ⟨request, _, started⟩ |
    ⟨thread, choice, notification, op, resume, actionEq, awaiting, resumed⟩
  · rw [same]
    exact kept
  · rw [started]
    intro thread notification program loaded saved found loads own saves
    by_cases old : thread < state.threads.length
    · rw [List.getElem?_append_left old] at found
      exact kept thread notification program loaded saved found loads own saves
    · -- the new thread has made no calls
      obtain ⟨bound, _⟩ := List.getElem?_eq_some_iff.mp found
      have last : thread = state.threads.length := by
        simp only [List.length_append, List.length_cons, List.length_nil] at bound
        omega
      have none : localTrace thread state.log = [] := by
        rw [last]
        exact System.localTrace_unstarted reached.log_bounded
      simp only [savedBy, none] at saves
      cases saves
  · subst actionEq
    rw [resumed]
    have met := reached.guarded (notification_returns app) awaiting
    exact savesKept_resumed reached awaiting met.1 fresh kept

theorem savesKept_run {actions : List (Action Choice Notification)}
    (fresh : (ipnService app).Along (SavesFresh id) (.idle initial) actions) :
    SavesKept id ((ipnService app).run (.idle initial) actions) := by
  have preserved : ∀ state action, (ipnService app).Reachable (.idle initial) state →
      SavesKept id state → SavesFresh id state action →
      SavesKept id ((ipnService app).step state action) :=
    fun _ _ reached kept fresh => savesKept_step reached kept fresh
  refine System.run_induction preserved .initial ?_ fresh
  intro thread notification program loaded saved found
  cases found

/-- A handler that has returned has saved. -/
theorem Handled.saved (reached : (ipnService app).Reachable (.idle initial) state) {thread : Nat}
    {notification : Notification} {loaded : Doc ObjectID PaymentGateTransaction}
    (handled : Handled id state thread notification loaded) :
    ∃ saved, state.threads[thread]? = some ⟨notification, .done saved⟩ ∧
      savedBy thread state = some saved := by
  obtain ⟨saved, done⟩ := handled.returned
  have met := reached.guarded (notification_returns app) done
  exact ⟨saved, done, met.1⟩

/-- Where every save comes from a copy that covers what is stored, no
notification is lost and no failure taken back, in any order of the calls. -/
theorem keepsNotifications_of_fresh {actions : List (Action Choice Notification)}
    (fresh : (ipnService app).Along (SavesFresh id) (.idle initial) actions) :
    KeepsNotifications id ((ipnService app).run (.idle initial) actions) := by
  have kept := savesKept_run fresh
  have reached := @System.reachable_run _ _ _ _ _ _ _ (ipnService app) (.idle initial) actions
  apply KeepsNotifications.mk
  · intro thread notification loaded handled buy
    obtain ⟨saved, done, saves⟩ := handled.saved reached
    obtain ⟨record, stored, left⟩ :=
      kept thread notification _ loaded saved done handled.loads handled.own saves
    exact ⟨record, stored, left.1 buy⟩
  · intro thread data loaded handled
    obtain ⟨saved, done, saves⟩ := handled.saved reached
    obtain ⟨record, stored, left⟩ :=
      kept thread _ _ loaded saved done handled.loads handled.own saves
    refine ⟨record, stored, ?_⟩
    rw [left.2 data rfl]
    decide

/-! ## Two overlaps -/

def pendingIpn : IPNApiTypeResponse := { status := some 1, txnId := "t1" }

def failIpn : IPNApiTypeResponse := { status := some (-1), txnId := "t1" }

/-- The pending notification is delivered twice at once, and a failure after it. -/
def repeatedRun : List (Action Choice Notification) :=
  [.start (.pending pendingIpn), .start (.pending pendingIpn), .resume 0 {}, .resume 1 {},
    .resume 0 {}, .start (.fail failIpn), .resume 1 {}, .resume 2 {}, .resume 2 {}]

/-- The failure is handled between the load and the save of the pending one. -/
def overtakenRun : List (Action Choice Notification) :=
  [.start (.pending pendingIpn), .resume 0 {}, .start (.fail failIpn), .resume 1 {}, .resume 1 {},
    .resume 0 {}]

theorem repeatedRun_keeps :
    KeepsNotifications 7 ((ipnService .plain).run (.idle boughtWorld) repeatedRun) :=
  keepsNotifications_of_fresh (by decide)

theorem overtakenRun_loses :
    ¬ KeepsNotifications 7 ((ipnService .plain).run (.idle boughtWorld) overtakenRun) := by
  intro keeps
  have handled : Handled 7 ((ipnService .plain).run (.idle boughtWorld) overtakenRun) 1
      (.fail failIpn) boughtTx := ⟨⟨_, rfl⟩, rfl, rfl⟩
  obtain ⟨record, stored, status⟩ := keeps.failed 1 failIpn boughtTx handled
  have replaced : record.status = .pending := by
    cases stored
    rfl
  rw [replaced] at status
  exact status (by decide)

end IcoDashboard.Gateway
