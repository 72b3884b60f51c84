import IcoDashboard.Async.Rounds

namespace IcoDashboard.Async

/-! # What a program can be led to

`program.May perform onDone onFail world` says that the environment can answer
the calls of the program, with nothing in between, so that it returns with
`onDone` or throws with `onFail`.  The rules are those of a contract, with some
answer to each call in place of every answer.
-/

variable {Op : Type} {Ans : Op → Type} {ε α β World Choice Req Out : Type}

namespace Program

variable {perform : Choice → (op : Op) → World → Except ε (Ans op) × World}
  {onDone : α → World → Prop} {onFail : ε → World → Prop} {world : World}

def May (perform : Choice → (op : Op) → World → Except ε (Ans op) × World)
    (onDone : α → World → Prop) (onFail : ε → World → Prop) : Program Op Ans ε α → World → Prop
  | done value, world => onDone value world
  | fail error, world => onFail error world
  | await op resume, world => ∃ choice,
      May perform onDone onFail (resume (perform choice op world).1) (perform choice op world).2

@[simp] theorem may_done {value : α} :
    (done value : Program Op Ans ε α).May perform onDone onFail world ↔ onDone value world :=
  Iff.rfl

@[simp] theorem may_fail {error : ε} :
    (fail error : Program Op Ans ε α).May perform onDone onFail world ↔ onFail error world :=
  Iff.rfl

@[simp] theorem may_pure {value : α} :
    (pure value : Program Op Ans ε α).May perform onDone onFail world ↔ onDone value world :=
  Iff.rfl

@[simp] theorem may_bind {program : Program Op Ans ε β} {next : β → Program Op Ans ε α} :
    (program >>= next).May perform onDone onFail world ↔
      program.May perform (fun value world => (next value).May perform onDone onFail world) onFail
        world := by
  change (Program.bind program next).May perform onDone onFail world ↔ _
  induction program generalizing world with
  | done value => rfl
  | fail error => rfl
  | await op resume ih => simp only [Program.bind, May, ih]

@[simp] theorem may_tryCatch {program : Program Op Ans ε α} {handler : ε → Program Op Ans ε α} :
    (tryCatch program handler).May perform onDone onFail world ↔
      program.May perform onDone (fun error world => (handler error).May perform onDone onFail world)
        world := by
  change (Program.tryCatch program handler).May perform onDone onFail world ↔ _
  induction program generalizing world with
  | done value => rfl
  | fail error => rfl
  | await op resume ih => simp only [Program.tryCatch, May, ih]

/-- The rule of consequence. -/
theorem May.mono {onDone' : α → World → Prop} {program : Program Op Ans ε α}
    (may : program.May perform onDone onFail world)
    (dones : ∀ value world, onDone value world → onDone' value world) :
    program.May perform onDone' onFail world := by
  induction program generalizing world with
  | done value => exact dones _ _ may
  | fail error => exact may
  | await op resume ih =>
      obtain ⟨choice, rest⟩ := may
      exact ⟨choice, ih _ rest⟩

theorem may_throwIf {condition : Prop} [Decidable condition] {error : ε}
    {onDone : Unit → World → Prop} (passes : ¬ condition) (rest : onDone () world) :
    (throwIf condition error : Program Op Ans ε Unit).May perform onDone onFail world := by
  rw [throwIf, if_neg passes]
  exact rest

theorem may_orThrow {option : Option α} {value : α} {error : ε} (given : option = some value)
    (rest : onDone value world) :
    (orThrow option error : Program Op Ans ε α).May perform onDone onFail world := by
  rw [given]
  exact rest

theorem may_call {op : Op} {value : Ans op} {after : World} {onDone : Ans op → World → Prop}
    (choice : Choice) (answers : perform choice op world = (.ok value, after))
    (rest : onDone value after) :
    (call op : Program Op Ans ε (Ans op)).May perform onDone onFail world := by
  refine ⟨choice, ?_⟩
  rw [answers]
  exact rest

/-- What may be done is done in some execution. -/
theorem May.executes {program : Program Op Ans ε α} (may : program.May perform onDone onFail world) :
    ∃ trace outcome after, Executes perform program world trace outcome after ∧
      (∀ value, outcome = .ok value → onDone value after) ∧
      ∀ error, outcome = .error error → onFail error after := by
  induction program generalizing world with
  | done value =>
      refine ⟨[], .ok value, world, .done value world, fun other same => ?_, by simp⟩
      cases same
      exact may
  | fail error =>
      refine ⟨[], .error error, world, .fail error world, by simp, fun other same => ?_⟩
      cases same
      exact may
  | await op resume ih =>
      obtain ⟨choice, rest⟩ := may
      obtain ⟨trace, outcome, after, executes, ends⟩ := ih _ rest
      exact ⟨_, outcome, after, .await choice executes, ends⟩

end Program

/-- A request that may return is one way to go on. -/
theorem System.may_reach (system : System Op Ans ε World Choice Req Out)
    {onDone : Out → World → Prop} {state : State Op Ans ε World Req Out} (request : Req)
    (may : (system.handler request).May system.perform onDone (fun _ _ => False) state.world) :
    ∃ later value, system.Reachable state later ∧ onDone value later.world := by
  obtain ⟨trace, outcome, after, executes, dones, fails⟩ := may.executes
  cases outcome with
  | error error => exact (fails error rfl).elim
  | ok value =>
      have ran : system.Ran { request, before := state.world, trace, outcome := .ok value, after } :=
        executes
      obtain ⟨later, reached, ended⟩ := ran.reachable rfl
      exact ⟨later, value, reached, by rw [ended]; exact dones value rfl⟩

end IcoDashboard.Async
