import IcoDashboard.Async.Contract

namespace IcoDashboard.Async

/-! # Sequential execution

One program running against a world with nothing in between.  The environment
still chooses how each call turns out.
-/

variable {Op : Type} {Ans : Op → Type} {ε α β World Choice View : Type}

inductive Executes (perform : Choice → (op : Op) → World → Except ε (Ans op) × World) :
    Program Op Ans ε α → World → Trace Op Ans ε → Except ε α → World → Prop where
  | done (value : α) (world : World) : Executes perform (.done value) world [] (.ok value) world
  | fail (error : ε) (world : World) : Executes perform (.fail error) world [] (.error error) world
  | await {op : Op} {resume : Except ε (Ans op) → Program Op Ans ε α} {world after : World}
      {trace : Trace Op Ans ε} {outcome : Except ε α} (choice : Choice)
      (rest : Executes perform (resume (perform choice op world).1) (perform choice op world).2 trace
        outcome after) :
      Executes perform (.await op resume) world (⟨op, (perform choice op world).1⟩ :: trace) outcome
        after

/-- The execution under the choices of a list, when it has enough of them. -/
def execute (perform : Choice → (op : Op) → World → Except ε (Ans op) × World) :
    List Choice → Program Op Ans ε α → World → Option (Trace Op Ans ε × Except ε α × World)
  | _, .done value, world => some ([], .ok value, world)
  | _, .fail error, world => some ([], .error error, world)
  | [], .await _ _, _ => none
  | choice :: rest, .await op resume, world =>
      let (answer, after) := perform choice op world
      (execute perform rest (resume answer) after).map fun (trace, last) => (⟨op, answer⟩ :: trace, last)

theorem executes_of_execute {perform : Choice → (op : Op) → World → Except ε (Ans op) × World}
    {choices : List Choice} {program : Program Op Ans ε α} {before after : World}
    {trace : Trace Op Ans ε} {outcome : Except ε α}
    (ran : execute perform choices program before = some (trace, outcome, after)) :
    Executes perform program before trace outcome after := by
  induction program generalizing choices before trace with
  | done value =>
      simp only [execute, Option.some.injEq, Prod.mk.injEq] at ran
      obtain ⟨rfl, rfl, rfl⟩ := ran
      exact .done value before
  | fail error =>
      simp only [execute, Option.some.injEq, Prod.mk.injEq] at ran
      obtain ⟨rfl, rfl, rfl⟩ := ran
      exact .fail error before
  | await op resume ih =>
      cases choices with
      | nil => cases ran
      | cons choice rest =>
          obtain ⟨⟨tail, last⟩, tailRan, same⟩ := Option.map_eq_some_iff.mp ran
          cases same
          exact .await choice (ih _ tailRan)

namespace Executes

variable {perform : Choice → (op : Op) → World → Except ε (Ans op) × World}
  {program : Program Op Ans ε α} {before after : World} {trace : Trace Op Ans ε}
  {outcome : Except ε α}

/-- What the contract of a program says of its outcome. -/
theorem meets {guard : Trace Op Ans ε → Op → Prop} {onDone : Trace Op Ans ε → α → Prop}
    {onFail : Trace Op Ans ε → ε → Prop} {past : Trace Op Ans ε}
    (executes : Executes perform program before trace outcome after)
    (met : program.Meets guard onDone onFail past) :
    (∀ value, outcome = .ok value → onDone (past ++ trace) value) ∧
      ∀ error, outcome = .error error → onFail (past ++ trace) error := by
  induction executes generalizing past with
  | done value world => exact ⟨fun _ same => by cases same; simpa using met, by simp⟩
  | fail error world => exact ⟨by simp, fun _ same => by cases same; simpa using met⟩
  | await choice rest ih => simpa using ih (met.2 _)

/-- A part of the world that each call changes in a known way is changed by the
calls of the trace, one after the other. -/
theorem replay (executes : Executes perform program before trace outcome after)
    (view : World → View) (apply : View → Call Op Ans ε → View)
    (called : ∀ choice op world,
      view (perform choice op world).2 = apply (view world) ⟨op, (perform choice op world).1⟩) :
    view after = trace.foldl apply (view before) := by
  induction executes with
  | done value world => rfl
  | fail error world => rfl
  | await choice rest ih => rw [ih, called]; rfl

/-- The first call is answered by the world the program starts in. -/
theorem first {call : Call Op Ans ε} (executes : Executes perform program before trace outcome after)
    (head : trace.head? = some call) : ∃ choice, call.2 = (perform choice call.1 before).1 := by
  cases executes with
  | done => cases head
  | fail => cases head
  | await choice rest => cases head; exact ⟨choice, rfl⟩

/-- A sequence is executed part by part, unless the first part throws. -/
theorem of_bind {first : Program Op Ans ε β} {next : β → Program Op Ans ε α}
    (executes : Executes perform (first >>= next) before trace outcome after) :
    (∃ value front rest middle, trace = front ++ rest ∧
      Executes perform first before front (.ok value) middle ∧
      Executes perform (next value) middle rest outcome after) ∨
    ∃ error, Executes perform first before trace (.error error) after ∧ outcome = .error error := by
  change Executes perform (first.bind next) before trace outcome after at executes
  induction first generalizing before trace with
  | done value => exact .inl ⟨value, [], trace, before, rfl, .done value before, executes⟩
  | fail error =>
      cases executes
      exact .inr ⟨error, .fail error _, rfl⟩
  | await op resume ih =>
      cases executes with
      | await choice tail =>
          rcases ih _ tail with ⟨value, front, rest, middle, split, firsts, rests⟩ | ⟨error, firsts, same⟩
          · exact .inl ⟨value, _, rest, middle, by rw [split, List.cons_append],
              .await choice firsts, rests⟩
          · exact .inr ⟨error, .await choice firsts, same⟩

theorem of_call {op : Op} {outcome : Except ε (Ans op)}
    (executes : Executes perform (Program.call op) before trace outcome after) :
    ∃ choice, trace = [⟨op, (perform choice op before).1⟩] ∧
      outcome = (perform choice op before).1 ∧ after = (perform choice op before).2 := by
  cases executes with
  | await choice tail =>
      refine ⟨choice, ?_⟩
      generalize perform choice op before = answered at tail ⊢
      obtain ⟨answer, world⟩ := answered
      cases answer with
      | ok value =>
          change Executes perform (.done value) world _ outcome after at tail
          cases tail
          exact ⟨rfl, rfl, rfl⟩
      | error error =>
          change Executes perform (.fail error) world _ outcome after at tail
          cases tail
          exact ⟨rfl, rfl, rfl⟩

/-- The calls of a sequence are those of its parts. -/
theorem bind {first : Program Op Ans ε β} {next : β → Program Op Ans ε α} {value : β}
    {middle : World} {front rest : Trace Op Ans ε}
    (firsts : Executes perform first before front (.ok value) middle)
    (rests : Executes perform (next value) middle rest outcome after) :
    Executes perform (first >>= next) before (front ++ rest) outcome after := by
  change Executes perform (first.bind next) before (front ++ rest) outcome after
  generalize returned : Except.ok value = result at firsts
  induction firsts with
  | done value world =>
      cases returned
      exact rests
  | fail error world => cases returned
  | await choice tail ih => exact .await choice (ih rests returned)

section Loops

variable {γ : Type} {log : Trace Op Ans ε → List γ} {good : Call Op Ans ε → Prop} {values : List β}
  {body : β → Program Op Ans ε Unit} {adds : β → List γ} {world : World}

/-- Each pass returns, leaves the world as it is and adds to a log of the calls what
belongs to its value. -/
def Passes (perform : Choice → (op : Op) → World → Except ε (Ans op) × World)
    (log : Trace Op Ans ε → List γ) (good : Call Op Ans ε → Prop) (world : World)
    (body : β → Program Op Ans ε Unit) (adds : β → List γ) (values : List β) : Prop :=
  ∀ value ∈ values, ∀ trace outcome after,
    Executes perform (body value) world trace outcome after → (∀ call ∈ trace, good call) →
      outcome = .ok () ∧ after = world ∧ log trace = adds value

theorem forEach (none : log [] = [])
    (append : ∀ first second, log (first ++ second) = log first ++ log second)
    (passes : Passes perform log good world body adds values) {trace : Trace Op Ans ε}
    {outcome : Except ε Unit} {after : World}
    (executes : Executes perform (Program.forEach values body) world trace outcome after)
    (calls : ∀ call ∈ trace, good call) :
    outcome = .ok () ∧ after = world ∧ log trace = values.flatMap adds := by
  induction values generalizing trace with
  | nil =>
      cases executes
      exact ⟨rfl, rfl, none⟩
  | cons value rest ih =>
      have first := passes value List.mem_cons_self
      rcases executes.of_bind with ⟨_, front, later, middle, split, pass, rests⟩ | ⟨error, pass, same⟩
      · obtain ⟨_, unchanged, added⟩ := first _ _ _ pass fun call member =>
          calls call (split ▸ List.mem_append_left _ member)
        rw [unchanged] at rests
        obtain ⟨returned, last, others⟩ := ih
          (fun value member => passes value (List.mem_cons_of_mem _ member)) rests
          fun call member => calls call (split ▸ List.mem_append_right _ member)
        refine ⟨returned, last, ?_⟩
        rw [split, append, added, others, List.flatMap_cons]
      · obtain ⟨returned, _⟩ := first _ _ _ pass calls
        cases returned

/-- A loop and what comes after it. -/
theorem forEach_bind {next : Unit → Program Op Ans ε α} (none : log [] = [])
    (append : ∀ first second, log (first ++ second) = log first ++ log second)
    (passes : Passes perform log good world body adds values)
    (executes : Executes perform (Program.forEach values body >>= next) world trace outcome after)
    (calls : ∀ call ∈ trace, good call) :
    ∃ front rest, trace = front ++ rest ∧ log front = values.flatMap adds ∧
      Executes perform (next ()) world rest outcome after := by
  rcases executes.of_bind with ⟨_, front, rest, middle, split, loop, rests⟩ | ⟨error, loop, _⟩
  · obtain ⟨_, unchanged, added⟩ := forEach none append passes loop fun call member =>
      calls call (split ▸ List.mem_append_left _ member)
    rw [unchanged] at rests
    exact ⟨front, rest, split, added, rests⟩
  · obtain ⟨returned, _⟩ := forEach none append passes loop calls
    cases returned

end Loops

end Executes

/-- A sequence of three parts may be read from either end. -/
theorem Program.bind_assoc {γ : Type} (first : Program Op Ans ε γ) (second : γ → Program Op Ans ε β)
    (third : β → Program Op Ans ε α) :
    first >>= second >>= third = first >>= fun value => second value >>= third := by
  change (first.bind second).bind third = first.bind fun value => (second value).bind third
  induction first with
  | done value => rfl
  | fail error => rfl
  | await op resume ih =>
      simp only [Program.bind, Program.await.injEq, heq_eq_eq, true_and]
      funext answer
      exact ih answer

/-- No call was rejected. -/
def Answered (trace : Trace Op Ans ε) : Prop := ∀ call ∈ trace, ∃ value, call.2 = .ok value

/-- A sequence that starts with an answered call goes on with the answer. -/
theorem Executes.answered_bind
    {perform : Choice → (op : Op) → World → Except ε (Ans op) × World} {op : Op}
    {next : Ans op → Program Op Ans ε α} {before after : World} {trace : Trace Op Ans ε}
    {outcome : Except ε α}
    (executes : Executes perform (Program.call op >>= next) before trace outcome after)
    (answered : Answered trace) :
    ∃ choice value rest, (perform choice op before).1 = .ok value ∧
      trace = ⟨op, .ok value⟩ :: rest ∧ Answered rest ∧
      Executes perform (next value) (perform choice op before).2 rest outcome after := by
  rcases executes.of_bind with ⟨value, front, rest, middle, split, called, tail⟩ | ⟨error, called, _⟩
  · obtain ⟨choice, one, returned, reached⟩ := called.of_call
    subst reached
    rw [one, ← returned] at split
    subst split
    exact ⟨choice, value, rest, returned.symm, rfl, fun call member =>
      answered call (List.mem_cons_of_mem _ member), tail⟩
  · obtain ⟨choice, one, returned, _⟩ := called.of_call
    obtain ⟨value, given⟩ := answered ⟨op, (perform choice op before).1⟩ (by rw [one]; simp)
    rw [← returned] at given
    cases given

/-- An environment that can answer every call runs the program to its end. -/
theorem exists_answered {perform : Choice → (op : Op) → World → Except ε (Ans op) × World}
    {fine : Op → Prop} {program : Program Op Ans ε α} {past : Trace Op Ans ε} (choice : Choice)
    (met : program.Meets (fun _ op => fine op) (fun _ _ => True) (fun _ _ => True) past)
    (answers : ∀ op world, fine op → ∃ value, (perform choice op world).1 = .ok value)
    (world : World) :
    ∃ trace outcome after, Executes perform program world trace outcome after ∧ Answered trace := by
  induction program generalizing past world with
  | done value => exact ⟨[], .ok value, world, .done value world, fun _ member => nomatch member⟩
  | fail error => exact ⟨[], .error error, world, .fail error world, fun _ member => nomatch member⟩
  | await op resume ih =>
      obtain ⟨trace, outcome, after, executes, answered⟩ :=
        ih (perform choice op world).1 (met.2 _) (perform choice op world).2
      refine ⟨_, outcome, after, .await choice executes, fun call member => ?_⟩
      rcases List.mem_cons.mp member with here | later
      · subst here
        exact answers op world met.1
      · exact answered call later

namespace Program

/-- A program that makes only certain calls adds only such calls to the trace. -/
theorem Meets.adding {quiet : Op → Prop} {program : Program Op Ans ε α} {past : Trace Op Ans ε}
    (met : program.Meets (fun _ op => quiet op) (fun _ _ => True) (fun _ _ => True) past) :
    program.Meets (fun _ op => quiet op)
      (fun later _ => ∃ added, later = past ++ added ∧ ∀ call ∈ added, quiet call.1)
      (fun later _ => ∃ added, later = past ++ added ∧ ∀ call ∈ added, quiet call.1) past := by
  induction program generalizing past with
  | done value => exact ⟨[], by simp, by simp⟩
  | fail error => exact ⟨[], by simp, by simp⟩
  | await op resume ih =>
      have longer : ∀ {answer : Except ε (Ans op)} {later : Trace Op Ans ε},
          (∃ added, later = past ++ [⟨op, answer⟩] ++ added ∧ ∀ call ∈ added, quiet call.1) →
          ∃ added, later = past ++ added ∧ ∀ call ∈ added, quiet call.1 := by
        intro answer later extended
        obtain ⟨added, split, all⟩ := extended
        exact ⟨⟨op, answer⟩ :: added, by simp [split], by simpa using ⟨met.1, all⟩⟩
      exact ⟨met.1, fun answer => (ih answer (met.2 answer)).mono (fun _ _ guarded => guarded)
        (fun _ _ => longer) (fun _ _ => longer)⟩

/-- The rule for a part of a program that makes only certain calls. -/
theorem Meets.through {quiet : Op → Prop} {program : Program Op Ans ε α} {past : Trace Op Ans ε}
    {guard : Trace Op Ans ε → Op → Prop} {onDone : Trace Op Ans ε → α → Prop}
    {onFail : Trace Op Ans ε → ε → Prop}
    (met : program.Meets (fun _ op => quiet op) (fun _ _ => True) (fun _ _ => True) past)
    (guards : ∀ later op, quiet op → guard later op)
    (rest : ∀ added value, (∀ call ∈ added, quiet call.1) → onDone (past ++ added) value)
    (thrown : ∀ added error, (∀ call ∈ added, quiet call.1) → onFail (past ++ added) error) :
    program.Meets guard onDone onFail past := by
  refine met.adding.mono guards (fun later value extended => ?_) fun later error extended => ?_
  · obtain ⟨added, split, all⟩ := extended
    rw [split]
    exact rest added value all
  · obtain ⟨added, split, all⟩ := extended
    rw [split]
    exact thrown added error all

end Program
end IcoDashboard.Async
