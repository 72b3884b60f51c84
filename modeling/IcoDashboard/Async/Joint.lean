import IcoDashboard.Async.Interleaving

namespace IcoDashboard.Async

/-! # Systems side by side

Two systems run at once, and the second one reads from the first: a request of
the second is admitted by what the first has done so far, and the environment of
one of its calls is partly decided by where the first stands.  A joint run is a
run of each of them, so what holds of all runs of either holds here; the origin
rules say at which moment of the first system something of the second was asked.
-/

structure Joint (Op : Type) (Ans : Op → Type) (ε World Choice Req Out : Type)
    (Op' : Type) (Ans' : Op' → Type) (ε' World' Choice' Req' Out' : Type) where
  first : System Op Ans ε World Choice Req Out
  second : System Op' Ans' ε' World' Choice' Req' Out'
  admits : State Op Ans ε World Req Out → Req' → Bool
  /-- What the second system is given at a call. -/
  feed : World → Op' → Choice' → Choice'

structure JointState (Op : Type) (Ans : Op → Type) (ε World Req Out : Type)
    (Op' : Type) (Ans' : Op' → Type) (ε' World' Req' Out' : Type) where
  first : State Op Ans ε World Req Out
  second : State Op' Ans' ε' World' Req' Out'

inductive JointAction (Choice Req Choice' Req' : Type) where
  | first (action : Action Choice Req)
  | second (action : Action Choice' Req')

variable {Op : Type} {Ans : Op → Type} {ε World Choice Req Out : Type}
  {Op' : Type} {Ans' : Op' → Type} {ε' World' Choice' Req' Out' : Type}

/-- A resumed thread is the one that was there. -/
theorem System.length_resume (system : System Op Ans ε World Choice Req Out)
    (state : State Op Ans ε World Req Out) (thread : Nat) (choice : Choice) :
    (system.step state (.resume thread choice)).threads.length = state.threads.length := by
  rcases system.step_cases state (.resume thread choice) with same | ⟨_, impossible, _⟩ |
    ⟨_, _, _, _, _, _, _, resumed⟩
  · rw [same]
  · cases impossible
  · rw [resumed, List.length_set]

namespace Joint

variable (joint : Joint Op Ans ε World Choice Req Out Op' Ans' ε' World' Choice' Req' Out')

/-- What a resumed thread of the second system is given. -/
def fed (state : JointState Op Ans ε World Req Out Op' Ans' ε' World' Req' Out') (thread : Nat)
    (choice : Choice') : Choice' :=
  match state.second.threads[thread]? with
  | some ⟨_, .await op _⟩ => joint.feed state.first.world op choice
  | _ => choice

def step (state : JointState Op Ans ε World Req Out Op' Ans' ε' World' Req' Out') :
    JointAction Choice Req Choice' Req' →
      JointState Op Ans ε World Req Out Op' Ans' ε' World' Req' Out'
  | .first action => { state with first := joint.first.step state.first action }
  | .second (.start request) =>
      if joint.admits state.first request then
        { state with second := joint.second.step state.second (.start request) }
      else state
  | .second (.resume thread choice) =>
      { state with
        second := joint.second.step state.second (.resume thread (joint.fed state thread choice)) }

def run (state : JointState Op Ans ε World Req Out Op' Ans' ε' World' Req' Out')
    (actions : List (JointAction Choice Req Choice' Req')) :
    JointState Op Ans ε World Req Out Op' Ans' ε' World' Req' Out' :=
  actions.foldl joint.step state

inductive Reachable (initial : JointState Op Ans ε World Req Out Op' Ans' ε' World' Req' Out') :
    JointState Op Ans ε World Req Out Op' Ans' ε' World' Req' Out' → Prop where
  | initial : Reachable initial initial
  | step {state : JointState Op Ans ε World Req Out Op' Ans' ε' World' Req' Out'}
      (action : JointAction Choice Req Choice' Req') (reached : Reachable initial state) :
      Reachable initial (joint.step state action)

/-- Nothing has been requested of either system. -/
def idle (world : World) (world' : World') :
    JointState Op Ans ε World Req Out Op' Ans' ε' World' Req' Out' :=
  { first := .idle world, second := .idle world' }

/-- What one action can do: move the first system, do nothing, start an admitted
request of the second, or resume a thread of the second with what it is fed. -/
theorem step_cases (state : JointState Op Ans ε World Req Out Op' Ans' ε' World' Req' Out')
    (action : JointAction Choice Req Choice' Req') :
    (∃ own, joint.step state action = { state with first := joint.first.step state.first own }) ∨
    joint.step state action = state ∨
    (∃ request, joint.admits state.first request = true ∧ joint.step state action =
      { state with second := joint.second.step state.second (.start request) }) ∨
    (∃ thread choice, joint.step state action =
      { state with
        second := joint.second.step state.second (.resume thread (joint.fed state thread choice)) }) := by
  cases action with
  | first own => exact .inl ⟨own, rfl⟩
  | second action =>
      cases action with
      | start request =>
          by_cases admitted : joint.admits state.first request = true
          · exact .inr (.inr (.inl ⟨request, admitted, by simp [step, admitted]⟩))
          · exact .inr (.inl (by simp [step, admitted]))
      | resume thread choice => exact .inr (.inr (.inr ⟨thread, choice, rfl⟩))

variable {joint}
variable {initial state : JointState Op Ans ε World Req Out Op' Ans' ε' World' Req' Out'}

theorem Reachable.trans {last : JointState Op Ans ε World Req Out Op' Ans' ε' World' Req' Out'}
    (left : joint.Reachable initial state) (right : joint.Reachable state last) :
    joint.Reachable initial last := by
  induction right with
  | initial => exact left
  | step action _ ih => exact ih.step action

theorem reachable_run (state : JointState Op Ans ε World Req Out Op' Ans' ε' World' Req' Out')
    (actions : List (JointAction Choice Req Choice' Req')) :
    joint.Reachable state (joint.run state actions) := by
  induction actions generalizing state with
  | nil => exact .initial
  | cons action rest ih => exact (Reachable.initial.step action).trans (ih _)

/-- A joint run is a run of the first system. -/
theorem Reachable.ofFirst (reached : joint.Reachable initial state) :
    joint.first.Reachable initial.first state.first := by
  induction reached with
  | initial => exact .initial
  | @step state action _ ih =>
      rcases joint.step_cases state action with ⟨own, moved⟩ | same | ⟨request, _, started⟩ |
        ⟨thread, choice, resumed⟩
      · rw [moved]
        exact ih.step own
      · rw [same]
        exact ih
      · rw [started]
        exact ih
      · rw [resumed]
        exact ih

/-- A joint run is a run of the second system. -/
theorem Reachable.ofSecond (reached : joint.Reachable initial state) :
    joint.second.Reachable initial.second state.second := by
  induction reached with
  | initial => exact .initial
  | @step state action _ ih =>
      rcases joint.step_cases state action with ⟨own, moved⟩ | same | ⟨request, _, started⟩ |
        ⟨thread, choice, resumed⟩
      · rw [moved]
        exact ih
      · rw [same]
        exact ih
      · rw [started]
        exact System.Reachable.step (.start request) ih
      · rw [resumed]
        exact System.Reachable.step (.resume thread (joint.fed state thread choice)) ih

/-- A thread of the second system was started at a moment that admitted its
request. -/
theorem Reachable.admitted {world : World} {world' : World'}
    (reached : joint.Reachable (idle world world') state) {thread : Nat}
    {entry : Thread Op' Ans' ε' Req' Out'} (found : state.second.threads[thread]? = some entry) :
    ∃ origin, joint.Reachable (idle world world') origin ∧
      joint.admits origin.first entry.request = true ∧ joint.Reachable origin state := by
  induction reached generalizing entry with
  | initial => simp [idle, State.idle] at found
  | @step state action reached ih =>
      have stepped : joint.Reachable state (joint.step state action) := .step action .initial
      by_cases earlier : thread < state.second.threads.length
      · obtain ⟨program, before⟩ := stepped.ofSecond.request_earlier found earlier
        obtain ⟨origin, start, admitted, after⟩ := ih before
        exact ⟨origin, start, admitted, after.step action⟩
      · obtain ⟨bound, entryEq⟩ := List.getElem?_eq_some_iff.mp found
        rcases joint.step_cases state action with ⟨own, moved⟩ | same | ⟨request, admitted, started⟩ |
          ⟨other, choice, resumed⟩
        · rw [moved] at bound
          exact absurd bound earlier
        · rw [same] at bound
          exact absurd bound earlier
        · simp only [started, System.step, List.length_append, List.length_singleton] at bound entryEq
          obtain rfl : thread = state.second.threads.length := by omega
          obtain rfl : entry = ⟨request, joint.second.handler request⟩ := by simpa using entryEq.symm
          exact ⟨state, reached, admitted, stepped⟩
        · rw [resumed, System.length_resume] at bound
          exact absurd bound earlier

/-- A call of the second system was answered at a moment whose first world fed
it. -/
theorem Reachable.answered {world : World} {world' : World'}
    (reached : joint.Reachable (idle world world') state) {past : List (Event Op' Ans' ε')}
    {event : Event Op' Ans' ε'} (occurs : Occurs state.second.log past event) :
    ∃ origin choice, joint.Reachable (idle world world') origin ∧ origin.second.log = past ∧
      event.call.2 = (joint.second.perform (joint.feed origin.first.world event.call.1 choice)
        event.call.1 origin.second.world).1 ∧
      joint.Reachable origin state := by
  induction reached with
  | initial =>
      obtain ⟨later, split⟩ := occurs
      simp [idle, State.idle] at split
  | @step state action reached ih =>
      have kept : Occurs state.second.log past event → ∃ origin choice,
          joint.Reachable (idle world world') origin ∧ origin.second.log = past ∧
          event.call.2 = (joint.second.perform (joint.feed origin.first.world event.call.1 choice)
            event.call.1 origin.second.world).1 ∧
          joint.Reachable origin (joint.step state action) := by
        intro old
        obtain ⟨origin, choice, start, log, answer, after⟩ := ih old
        exact ⟨origin, choice, start, log, answer, after.step action⟩
      rcases joint.step_cases state action with ⟨own, moved⟩ | same | ⟨request, _, started⟩ |
        ⟨thread, choice, resumed⟩
      · rw [moved] at occurs
        exact kept occurs
      · rw [same] at occurs
        exact kept occurs
      · rw [started] at occurs
        exact kept occurs
      · rcases joint.second.step_cases state.second (.resume thread (joint.fed state thread choice))
          with same | ⟨_, impossible, _⟩ | ⟨_, _, request, op, resume, actionEq, awaiting, stepped⟩
        · rw [resumed, same] at occurs
          exact kept occurs
        · cases impossible
        · cases actionEq
          rw [resumed, stepped] at occurs
          rcases occurs_append.mp occurs with old | ⟨pastEq, eventEq⟩
          · exact kept old
          · subst eventEq
            have own : joint.fed state thread choice = joint.feed state.first.world op choice := by
              simp [fed, awaiting]
            exact ⟨state, choice, reached, pastEq.symm, by rw [own], .step action .initial⟩

end Joint
end IcoDashboard.Async
