import IcoDashboard.Async.Contract

namespace IcoDashboard.Async

/-! # Interleaved execution

A system starts programs on request and lets them run against one shared world.
An action either starts a request or resumes one thread at its await: the call
takes effect in the world under some choice of the environment, and the thread
goes on with the answer.  Every schedule is a list of actions, so a statement
about all lists of actions is one about all interleavings at the await points.
-/

structure System (Op : Type) (Ans : Op → Type) (ε World Choice Req Out : Type) where
  handler : Req → Program Op Ans ε Out
  perform : Choice → (op : Op) → World → Except ε (Ans op) × World

structure Thread (Op : Type) (Ans : Op → Type) (ε Req Out : Type) where
  request : Req
  program : Program Op Ans ε Out

structure Event (Op : Type) (Ans : Op → Type) (ε : Type) where
  thread : Nat
  call : Call Op Ans ε

/-- The log keeps every answered call, oldest first. -/
structure State (Op : Type) (Ans : Op → Type) (ε World Req Out : Type) where
  world : World
  threads : List (Thread Op Ans ε Req Out)
  log : List (Event Op Ans ε)

inductive Action (Choice Req : Type) where
  | start (request : Req)
  | resume (thread : Nat) (choice : Choice)

variable {Op : Type} {Ans : Op → Type} {ε World Choice Req Out : Type}

/-- Nothing has been requested yet. -/
def State.idle (world : World) : State Op Ans ε World Req Out :=
  { world, threads := [], log := [] }

/-- The calls of one thread. -/
def localTrace (thread : Nat) (log : List (Event Op Ans ε)) : Trace Op Ans ε :=
  (log.filter (fun event => event.thread = thread)).map Event.call

theorem localTrace_append (thread : Nat) (first second : List (Event Op Ans ε)) :
    localTrace thread (first ++ second) = localTrace thread first ++ localTrace thread second := by
  simp [localTrace]

@[simp] theorem localTrace_own (thread : Nat) (call : Call Op Ans ε) :
    localTrace thread [⟨thread, call⟩] = [call] := by
  simp [localTrace]

/-- A call of one thread leaves those of the others as they are. -/
theorem localTrace_other {thread other : Nat} (log : List (Event Op Ans ε)) (call : Call Op Ans ε)
    (different : other ≠ thread) :
    localTrace thread (log ++ [⟨other, call⟩]) = localTrace thread log := by
  simp [localTrace, different]

theorem localTrace_mono {past log : List (Event Op Ans ε)} (early : past <+: log) (thread : Nat) :
    localTrace thread past <+: localTrace thread log := by
  obtain ⟨later, split⟩ := early
  rw [← split, localTrace_append]
  exact List.prefix_append _ _

theorem mem_localTrace {thread : Nat} {log : List (Event Op Ans ε)} {call : Call Op Ans ε} :
    call ∈ localTrace thread log ↔ ⟨thread, call⟩ ∈ log := by
  simp only [localTrace, List.mem_map, List.mem_filter, decide_eq_true_eq]
  constructor
  · rintro ⟨⟨_, _⟩, ⟨member, rfl⟩, rfl⟩
    exact member
  · exact fun member => ⟨⟨thread, call⟩, ⟨member, rfl⟩, rfl⟩

/-- The event is in the log, with `past` before it. -/
def Occurs (log past : List (Event Op Ans ε)) (event : Event Op Ans ε) : Prop :=
  ∃ later, log = past ++ event :: later

theorem occurs_append {log past : List (Event Op Ans ε)} {last event : Event Op Ans ε} :
    Occurs (log ++ [last]) past event ↔ Occurs log past event ∨ past = log ∧ event = last := by
  constructor
  · intro occurs
    obtain ⟨later, split⟩ := occurs
    rcases List.eq_nil_or_concat later with none | ⟨front, final, concat⟩
    · subst none
      obtain ⟨logs, events⟩ := List.append_inj' split rfl
      exact .inr ⟨logs.symm, (List.singleton_inj.mp events).symm⟩
    · rw [concat, List.concat_eq_append, ← List.cons_append, ← List.append_assoc] at split
      exact .inl ⟨front, (List.append_inj' split rfl).1⟩
  · intro either
    rcases either with ⟨later, split⟩ | ⟨pastEq, eventEq⟩
    · exact ⟨later ++ [last], by rw [split]; simp⟩
    · exact ⟨[], by rw [pastEq, eventEq]⟩

/-- Two events of one log are the same, or one of them comes first. -/
theorem Occurs.compare {log firstPast secondPast : List (Event Op Ans ε)}
    {first second : Event Op Ans ε} (left : Occurs log firstPast first)
    (right : Occurs log secondPast second) :
    (firstPast = secondPast ∧ first = second) ∨ first ∈ secondPast ∨ second ∈ firstPast := by
  obtain ⟨laterFirst, splitFirst⟩ := left
  obtain ⟨laterSecond, splitSecond⟩ := right
  rw [splitFirst] at splitSecond
  rcases List.append_eq_append_iff.mp splitSecond with ⟨between, pasts, rests⟩ |
    ⟨between, pasts, rests⟩
  · cases between with
    | nil => exact .inl ⟨by simpa using pasts.symm, (List.cons.inj rests).1⟩
    | cons event rest =>
        obtain ⟨rfl, _⟩ := List.cons.inj rests
        exact .inr (.inl (by simp [pasts]))
  · cases between with
    | nil => exact .inl ⟨by simpa using pasts, (List.cons.inj rests).1.symm⟩
    | cons event rest =>
        obtain ⟨rfl, _⟩ := List.cons.inj rests
        exact .inr (.inr (by simp [pasts]))

theorem Occurs.trans {log past before : List (Event Op Ans ε)} {first second : Event Op Ans ε}
    (occurs : Occurs log past second) (earlier : Occurs past before first) :
    Occurs log before first := by
  obtain ⟨later, split⟩ := occurs
  obtain ⟨between, splitPast⟩ := earlier
  exact ⟨between ++ second :: later, by simp [split, splitPast]⟩

theorem Occurs.early {log past : List (Event Op Ans ε)} {event : Event Op Ans ε}
    (occurs : Occurs log past event) : past <+: log := by
  obtain ⟨later, split⟩ := occurs
  rw [split]
  exact List.prefix_append _ _

theorem Occurs.localTrace_extends {log past : List (Event Op Ans ε)} {event : Event Op Ans ε}
    (occurs : Occurs log past event) (thread : Nat) :
    localTrace thread past <+: localTrace thread log :=
  localTrace_mono occurs.early thread

theorem occurs_of_mem {log : List (Event Op Ans ε)} {event : Event Op Ans ε} (member : event ∈ log) :
    ∃ past, Occurs log past event := by
  obtain ⟨past, later, split⟩ := List.mem_iff_append.mp member
  exact ⟨past, later, split⟩

theorem Occurs.mem {log past : List (Event Op Ans ε)} {event : Event Op Ans ε}
    (occurs : Occurs log past event) : event ∈ log := by
  obtain ⟨later, split⟩ := occurs
  simp [split]

/-- A call of a thread is one of the log, with the thread's calls before it. -/
theorem occurs_of_localTrace {log : List (Event Op Ans ε)} {thread : Nat} {before : Trace Op Ans ε}
    {call : Call Op Ans ε} {later : Trace Op Ans ε}
    (split : localTrace thread log = before ++ call :: later) :
    ∃ past, Occurs log past ⟨thread, call⟩ ∧ localTrace thread past = before := by
  obtain ⟨first, second, filtered, mapped, rest⟩ := List.map_eq_append_iff.mp split
  obtain ⟨event, others, rfl, called, _⟩ := List.map_eq_cons_iff.mp rest
  obtain ⟨past, after, rfl, pastEq, afterEq⟩ := List.filter_eq_append_iff.mp filtered
  obtain ⟨between, final, rfl, unrelated, own, _⟩ := List.filter_eq_cons_iff.mp afterEq
  obtain rfl : event.thread = thread := by simpa using own
  refine ⟨past ++ between, ⟨final, by simp [← called]⟩, ?_⟩
  have none : between.filter (fun other => other.thread = event.thread) = [] :=
    List.filter_eq_nil_iff.mpr fun other member => by simpa using unrelated other member
  rw [localTrace, List.filter_append, pastEq, none, List.append_nil, mapped]

theorem event_answered {answers : (op : Op) → Except ε (Ans op)} {thread other : Nat} {op op' : Op}
    {result : Except ε (Ans op')} :
    (⟨other, ⟨op', result⟩⟩ : Event Op Ans ε) = ⟨thread, ⟨op, answers op⟩⟩ ↔
      other = thread ∧ op = op' ∧ answers op' = result := by
  constructor
  · intro same
    generalize given : answers op = answered at same
    cases same
    exact ⟨rfl, rfl, given⟩
  · intro parts
    obtain ⟨rfl, rfl, rfl⟩ := parts
    rfl

theorem mem_answered {answers : (op : Op) → Except ε (Ans op)} {log : List (Event Op Ans ε)}
    {thread other : Nat} {op op' : Op} {result : Except ε (Ans op')} :
    ⟨other, ⟨op', result⟩⟩ ∈ log ++ [⟨thread, ⟨op, answers op⟩⟩] ↔
      ⟨other, ⟨op', result⟩⟩ ∈ log ∨ other = thread ∧ op = op' ∧ answers op' = result := by
  rw [List.mem_append, List.mem_singleton, event_answered]

theorem occurs_answered {answers : (op : Op) → Except ε (Ans op)} {log past : List (Event Op Ans ε)}
    {thread other : Nat} {op op' : Op} {result : Except ε (Ans op')} :
    Occurs (log ++ [⟨thread, ⟨op, answers op⟩⟩]) past ⟨other, ⟨op', result⟩⟩ ↔
      Occurs log past ⟨other, ⟨op', result⟩⟩ ∨
        past = log ∧ other = thread ∧ op = op' ∧ answers op' = result := by
  rw [occurs_append, event_answered]

namespace System

variable (system : System Op Ans ε World Choice Req Out)

def step (state : State Op Ans ε World Req Out) :
    Action Choice Req → State Op Ans ε World Req Out
  | .start request =>
      { state with threads := state.threads ++ [⟨request, system.handler request⟩] }
  | .resume thread choice =>
      match state.threads[thread]? with
      | some ⟨request, .await op resume⟩ =>
          let (answer, world) := system.perform choice op state.world
          { world
            threads := state.threads.set thread ⟨request, resume answer⟩
            log := state.log ++ [⟨thread, ⟨op, answer⟩⟩] }
      | _ => state

def run (state : State Op Ans ε World Req Out) (actions : List (Action Choice Req)) :
    State Op Ans ε World Req Out :=
  actions.foldl system.step state

/-- What one action can do: nothing, start a thread, or answer the call a
thread awaits. -/
theorem step_cases (state : State Op Ans ε World Req Out) (action : Action Choice Req) :
    system.step state action = state ∨
    (∃ request, action = .start request ∧ system.step state action =
      { state with threads := state.threads ++ [⟨request, system.handler request⟩] }) ∨
    (∃ thread choice request op resume, action = .resume thread choice ∧
      state.threads[thread]? = some ⟨request, .await op resume⟩ ∧
      system.step state action =
        { world := (system.perform choice op state.world).2
          threads := state.threads.set thread
            ⟨request, resume (system.perform choice op state.world).1⟩
          log := state.log ++ [⟨thread, ⟨op, (system.perform choice op state.world).1⟩⟩] }) := by
  cases action with
  | start request => exact .inr (.inl ⟨request, rfl, rfl⟩)
  | resume thread choice =>
      cases found : state.threads[thread]? with
      | none => exact .inl (by simp [step, found])
      | some entry =>
          obtain ⟨request, program⟩ := entry
          cases program with
          | done value => exact .inl (by simp [step, found])
          | fail error => exact .inl (by simp [step, found])
          | await op resume =>
              exact .inr (.inr ⟨thread, choice, request, op, resume, rfl, found,
                by simp [step, found]⟩)

/-! ## Induction over runs -/

/-- Each action of the run satisfies `allowed` in the state it finds. -/
def Along (allowed : State Op Ans ε World Req Out → Action Choice Req → Prop) :
    State Op Ans ε World Req Out → List (Action Choice Req) → Prop
  | _, [] => True
  | state, action :: rest => allowed state action ∧ Along allowed (system.step state action) rest

def decidableAlong {allowed : State Op Ans ε World Req Out → Action Choice Req → Prop}
    [∀ state action, Decidable (allowed state action)] :
    ∀ state actions, Decidable (system.Along allowed state actions)
  | _, [] => .isTrue trivial
  | state, action :: rest =>
      @instDecidableAnd _ _ _ (decidableAlong (system.step state action) rest)

instance {allowed : State Op Ans ε World Req Out → Action Choice Req → Prop}
    [∀ state action, Decidable (allowed state action)] (state : State Op Ans ε World Req Out)
    (actions : List (Action Choice Req)) : Decidable (system.Along allowed state actions) :=
  system.decidableAlong state actions

theorem run_append (state : State Op Ans ε World Req Out) (first second : List (Action Choice Req)) :
    system.run state (first ++ second) = system.run (system.run state first) second :=
  List.foldl_append

theorem along_append {allowed : State Op Ans ε World Req Out → Action Choice Req → Prop}
    {state : State Op Ans ε World Req Out} {first second : List (Action Choice Req)} :
    system.Along allowed state (first ++ second) ↔
      system.Along allowed state first ∧ system.Along allowed (system.run state first) second := by
  induction first generalizing state with
  | nil => simp [Along, run]
  | cons action rest ih =>
      simp only [List.cons_append, Along, ih, and_assoc]
      rfl

theorem along_of_all {allowed : State Op Ans ε World Req Out → Action Choice Req → Prop}
    {actions : List (Action Choice Req)} (all : ∀ action ∈ actions, ∀ state, allowed state action)
    (state : State Op Ans ε World Req Out) : system.Along allowed state actions := by
  induction actions generalizing state with
  | nil => trivial
  | cons action rest ih =>
      exact ⟨all action List.mem_cons_self state,
        ih (fun other member => all other (List.mem_cons_of_mem _ member)) _⟩

theorem along_and {first second : State Op Ans ε World Req Out → Action Choice Req → Prop}
    {state : State Op Ans ε World Req Out} {actions : List (Action Choice Req)}
    (left : system.Along first state actions) (right : system.Along second state actions) :
    system.Along (fun state action => first state action ∧ second state action) state actions := by
  induction actions generalizing state with
  | nil => trivial
  | cons action rest ih => exact ⟨⟨left.1, right.1⟩, ih left.2 right.2⟩

inductive Reachable (initial : State Op Ans ε World Req Out) :
    State Op Ans ε World Req Out → Prop where
  | initial : Reachable initial initial
  | step {state : State Op Ans ε World Req Out} (action : Action Choice Req)
      (reached : Reachable initial state) : Reachable initial (system.step state action)

variable {system}

theorem Reachable.trans {first second third : State Op Ans ε World Req Out}
    (left : system.Reachable first second) (right : system.Reachable second third) :
    system.Reachable first third := by
  induction right with
  | initial => exact left
  | step action _ ih => exact ih.step action

theorem reachable_run (state : State Op Ans ε World Req Out) (actions : List (Action Choice Req)) :
    system.Reachable state (system.run state actions) := by
  induction actions generalizing state with
  | nil => exact .initial
  | cons action rest ih => exact (Reachable.initial.step action).trans (ih _)

/-- What holds at a reachable state and is preserved by every allowed action
holds after every run of allowed actions from there. -/
theorem run_induction {Holds : State Op Ans ε World Req Out → Prop}
    {allowed : State Op Ans ε World Req Out → Action Choice Req → Prop}
    {initial state : State Op Ans ε World Req Out} {actions : List (Action Choice Req)}
    (preserved : ∀ state action, system.Reachable initial state → Holds state →
      allowed state action → Holds (system.step state action))
    (reached : system.Reachable initial state) (start : Holds state)
    (along : system.Along allowed state actions) : Holds (system.run state actions) := by
  induction actions generalizing state with
  | nil => exact start
  | cons action rest ih =>
      exact ih (reached.step action) (preserved _ _ reached start along.1) along.2

/-- What holds of an idle world and survives every answered call holds of the
world and the log of every reachable state. -/
theorem Reachable.calls {world : World} {Holds : World → List (Event Op Ans ε) → Prop}
    (start : Holds world [])
    (answered : ∀ state thread choice request op resume, system.Reachable (.idle world) state →
      state.threads[thread]? = some ⟨request, .await op resume⟩ → Holds state.world state.log →
      Holds (system.perform choice op state.world).2
        (state.log ++ [⟨thread, ⟨op, (system.perform choice op state.world).1⟩⟩]))
    {state : State Op Ans ε World Req Out} (reached : system.Reachable (.idle world) state) :
    Holds state.world state.log := by
  induction reached with
  | initial => exact start
  | @step state action reached ih =>
      rcases system.step_cases state action with same | ⟨request, _, started⟩ |
        ⟨thread, choice, request, op, resume, _, awaiting, resumed⟩
      · rw [same]; exact ih
      · rw [started]; exact ih
      · rw [resumed]
        exact answered state thread choice request op resume reached awaiting ih

/-! ## Threads follow their programs -/

/-- A thread keeps its place and its request. -/
theorem Reachable.request_stable {before after : State Op Ans ε World Req Out}
    (reached : system.Reachable before after) {thread : Nat} {entry : Thread Op Ans ε Req Out}
    (found : before.threads[thread]? = some entry) :
    ∃ program, after.threads[thread]? = some ⟨entry.request, program⟩ := by
  induction reached with
  | initial => exact ⟨entry.program, found⟩
  | @step state action _ ih =>
      obtain ⟨program, found⟩ := ih
      obtain ⟨bound, _⟩ := List.getElem?_eq_some_iff.mp found
      rcases system.step_cases state action with same | ⟨request, _, started⟩ |
        ⟨other, choice, request, op, resume, _, awaiting, resumed⟩
      · exact ⟨program, by rw [same]; exact found⟩
      · exact ⟨program, by rw [started]; simpa [List.getElem?_append_left bound] using found⟩
      · by_cases same : other = thread
        · subst same
          obtain rfl : entry.request = request := by
            rw [found] at awaiting
            simp only [Option.some.injEq, Thread.mk.injEq] at awaiting
            exact awaiting.1
          exact ⟨_, by rw [resumed]; exact List.getElem?_set_self bound⟩
        · exact ⟨program, by rw [resumed]; simpa [List.getElem?_set_ne same] using found⟩

/-- A thread that had been started had its request. -/
theorem Reachable.request_earlier {before after : State Op Ans ε World Req Out}
    (reached : system.Reachable before after) {thread : Nat} {entry : Thread Op Ans ε Req Out}
    (found : after.threads[thread]? = some entry) (started : thread < before.threads.length) :
    ∃ program, before.threads[thread]? = some ⟨entry.request, program⟩ := by
  have old : before.threads[thread]? = some before.threads[thread] := List.getElem?_eq_getElem started
  obtain ⟨program, now⟩ := reached.request_stable old
  rw [found] at now
  cases now
  exact ⟨_, old⟩

theorem step_log_extends (system : System Op Ans ε World Choice Req Out)
    (state : State Op Ans ε World Req Out) (action : Action Choice Req) :
    state.log <+: (system.step state action).log := by
  rcases system.step_cases state action with same | ⟨request, _, started⟩ |
    ⟨thread, choice, request, op, resume, _, awaiting, resumed⟩
  · exact ⟨[], by rw [same, List.append_nil]⟩
  · exact ⟨[], by rw [started, List.append_nil]⟩
  · rw [resumed]
    exact List.prefix_append _ _

/-- Calls are only ever added to the log. -/
theorem Reachable.log_extends {before after : State Op Ans ε World Req Out}
    (reached : system.Reachable before after) : before.log <+: after.log := by
  induction reached with
  | initial => exact List.prefix_refl _
  | @step state action _ ih => exact ih.trans (step_log_extends system state action)

theorem Reachable.log_bounded {world : World} {state : State Op Ans ε World Req Out}
    (reached : system.Reachable (.idle world) state) :
    ∀ event ∈ state.log, event.thread < state.threads.length := by
  induction reached with
  | initial => simp [State.idle]
  | @step state action _ ih =>
      rcases system.step_cases state action with same | ⟨request, _, started⟩ |
        ⟨thread, choice, request, op, resume, _, awaiting, resumed⟩
      · rw [same]; exact ih
      · rw [started]
        intro event member
        have := ih event member
        simp only [List.length_append, List.length_cons, List.length_nil]
        omega
      · obtain ⟨bound, _⟩ := List.getElem?_eq_some_iff.mp awaiting
        rw [resumed]
        intro event member
        simp only [List.length_set]
        rcases List.mem_append.mp member with old | new
        · exact ih event old
        · obtain rfl := List.mem_singleton.mp new
          exact bound

theorem localTrace_unstarted {state : State Op Ans ε World Req Out}
    (bounded : ∀ event ∈ state.log, event.thread < state.threads.length) :
    localTrace state.threads.length state.log = [] := by
  have none : state.log.filter (fun event => event.thread = state.threads.length) = [] := by
    refine List.filter_eq_nil_iff.mpr fun event member => ?_
    have := bounded event member
    simp only [decide_eq_true_eq]
    omega
  simp [localTrace, none]

/-- Every thread has come where its program goes on the answers it was given. -/
theorem Reachable.follows {world : World} {state : State Op Ans ε World Req Out}
    (reached : system.Reachable (.idle world) state) {thread : Nat}
    {entry : Thread Op Ans ε Req Out} (found : state.threads[thread]? = some entry) :
    (system.handler entry.request).Follows (localTrace thread state.log) entry.program := by
  induction reached generalizing thread entry with
  | initial => simp [State.idle] at found
  | @step state action reached ih =>
      rcases system.step_cases state action with same | ⟨request, _, started⟩ |
        ⟨other, choice, request, op, resume, _, awaiting, resumed⟩
      · rw [same] at found ⊢
        exact ih found
      · rw [started] at found ⊢
        by_cases old : thread < state.threads.length
        · rw [List.getElem?_append_left old] at found
          exact ih found
        · obtain ⟨bound, entryEq⟩ := List.getElem?_eq_some_iff.mp found
          obtain rfl : thread = state.threads.length := by
            simp only [List.length_append, List.length_cons, List.length_nil] at bound
            omega
          obtain rfl : entry = ⟨request, system.handler request⟩ := by simpa using entryEq.symm
          rw [localTrace_unstarted reached.log_bounded]
          exact .here _
      · rw [resumed] at found ⊢
        by_cases same : other = thread
        · subst same
          obtain ⟨bound, _⟩ := List.getElem?_eq_some_iff.mp awaiting
          rw [List.getElem?_set_self bound] at found
          obtain rfl := Option.some.inj found
          rw [localTrace_append, localTrace_own]
          exact (ih awaiting).snoc _
        · rw [List.getElem?_set_ne same] at found
          rw [localTrace_other _ _ same]
          exact ih found

/-- What the handlers guard holds of every call a thread is about to make. -/
theorem Reachable.guarded {world : World} {state : State Op Ans ε World Req Out}
    (reached : system.Reachable (.idle world) state)
    {guard : Req → Trace Op Ans ε → Op → Prop} {onDone : Req → Trace Op Ans ε → Out → Prop}
    {onFail : Req → Trace Op Ans ε → ε → Prop}
    (contract : ∀ request, (system.handler request).Meets (guard request) (onDone request)
      (onFail request) [])
    {thread : Nat} {entry : Thread Op Ans ε Req Out}
    (found : state.threads[thread]? = some entry) :
    entry.program.Meets (guard entry.request) (onDone entry.request) (onFail entry.request)
      (localTrace thread state.log) := by
  simpa using (contract entry.request).follow (reached.follows found)

/-- Every event was logged in a reachable state, by a thread that awaited it,
when the log held just the events before it. -/
theorem Reachable.event_origin {world : World} {state : State Op Ans ε World Req Out}
    (reached : system.Reachable (.idle world) state)
    {past : List (Event Op Ans ε)} {event : Event Op Ans ε}
    (occurs : Occurs state.log past event) :
    ∃ origin choice request resume, system.Reachable (.idle world) origin ∧ origin.log = past ∧
      origin.threads[event.thread]? = some ⟨request, .await event.call.1 resume⟩ ∧
      event.call.2 = (system.perform choice event.call.1 origin.world).1 ∧
      system.Reachable (system.step origin (.resume event.thread choice)) state := by
  induction reached with
  | initial =>
      obtain ⟨later, split⟩ := occurs
      simp [State.idle] at split
  | @step state action reached ih =>
      rcases system.step_cases state action with same | ⟨request, _, started⟩ |
        ⟨thread, choice, request, op, resume, actionEq, awaiting, resumed⟩
      · rw [same] at occurs ⊢
        exact ih occurs
      · rw [started] at occurs
        obtain ⟨origin, choice, request', resume, before, log, awaiting, answered, after⟩ := ih occurs
        exact ⟨origin, choice, request', resume, before, log, awaiting, answered, after.step action⟩
      · rw [resumed] at occurs
        rcases occurs_append.mp occurs with old | ⟨pastEq, eventEq⟩
        · obtain ⟨origin, choice', request', resume', before, log, awaiting', answered, after⟩ :=
            ih old
          exact ⟨origin, choice', request', resume', before, log, awaiting', answered,
            after.step action⟩
        · subst eventEq
          exact ⟨state, choice, request, resume, reached, pastEq.symm, awaiting, rfl,
            actionEq ▸ .initial⟩

end System
end IcoDashboard.Async
