import IcoDashboard.Async.Contract

namespace IcoDashboard.Async.Program

/-! # Observed contracts

A contract that looks at the calls only through what an observer keeps of them.
`program.Observed observe onDone onFail seen` says that the program, begun after
`seen`, returns and throws only as allowed for what has been observed by then.
The rules are those of the contracts over whole traces, and what is shown here
is a contract of that kind.
-/

variable {Op : Type} {Ans : Op → Type} {ε α β S : Type}
  {observe : S → (op : Op) → Except ε (Ans op) → S} {onDone : S → α → Prop} {onFail : S → ε → Prop}
  {seen : S}

def Observed (observe : S → (op : Op) → Except ε (Ans op) → S) (onDone : S → α → Prop)
    (onFail : S → ε → Prop) : S → Program Op Ans ε α → Prop
  | seen, done value => onDone seen value
  | seen, fail error => onFail seen error
  | seen, await op resume =>
      ∀ answer, Observed observe onDone onFail (observe seen op answer) (resume answer)

/-- What is observed of a trace. -/
def observed (observe : S → (op : Op) → Except ε (Ans op) → S) (seen : S) (trace : Trace Op Ans ε) : S :=
  trace.foldl (fun seen call => observe seen call.1 call.2) seen

@[simp] theorem observed_nil : observed observe seen [] = seen := rfl

theorem observed_snoc (trace : Trace Op Ans ε) (op : Op) (answer : Except ε (Ans op)) :
    observed observe seen (trace ++ [⟨op, answer⟩]) = observe (observed observe seen trace) op answer := by
  simp [observed]

@[simp] theorem Observed.done_iff {value : α} :
    (done value : Program Op Ans ε α).Observed observe onDone onFail seen ↔ onDone seen value :=
  Iff.rfl

@[simp] theorem Observed.fail_iff {error : ε} :
    (fail error : Program Op Ans ε α).Observed observe onDone onFail seen ↔ onFail seen error :=
  Iff.rfl

@[simp] theorem Observed.pure_iff {value : α} :
    (pure value : Program Op Ans ε α).Observed observe onDone onFail seen ↔ onDone seen value :=
  Iff.rfl

@[simp] theorem Observed.throw_iff {error : ε} :
    (throw error : Program Op Ans ε α).Observed observe onDone onFail seen ↔ onFail seen error :=
  Iff.rfl

@[simp] theorem Observed.await_iff {op : Op} {resume : Except ε (Ans op) → Program Op Ans ε α} :
    (await op resume).Observed observe onDone onFail seen ↔
      (∀ value, (resume (.ok value)).Observed observe onDone onFail (observe seen op (.ok value))) ∧
      ∀ error, (resume (.error error)).Observed observe onDone onFail
        (observe seen op (.error error)) := by
  simp only [Observed, forall_answer]

@[simp] theorem Observed.bind_iff {program : Program Op Ans ε β} {next : β → Program Op Ans ε α} :
    (program >>= next).Observed observe onDone onFail seen ↔
      program.Observed observe (fun seen value => (next value).Observed observe onDone onFail seen)
        onFail seen := by
  change (Program.bind program next).Observed observe onDone onFail seen ↔ _
  induction program generalizing seen with
  | done value => rfl
  | fail error => rfl
  | await op resume ih => simp only [Program.bind, Observed, ih]

@[simp] theorem Observed.tryCatch_iff {program : Program Op Ans ε α}
    {handler : ε → Program Op Ans ε α} :
    (tryCatch program handler).Observed observe onDone onFail seen ↔
      program.Observed observe onDone
        (fun seen error => (handler error).Observed observe onDone onFail seen) seen := by
  change (Program.tryCatch program handler).Observed observe onDone onFail seen ↔ _
  induction program generalizing seen with
  | done value => rfl
  | fail error => rfl
  | await op resume ih => simp only [Program.tryCatch, Observed, ih]

@[simp] theorem Observed.ite_iff {condition : Prop} [Decidable condition]
    {first second : Program Op Ans ε α} :
    (if condition then first else second).Observed observe onDone onFail seen ↔
      (condition → first.Observed observe onDone onFail seen) ∧
        (¬ condition → second.Observed observe onDone onFail seen) := by
  by_cases holds : condition <;> simp [holds]

@[simp] theorem Observed.throwIf_iff {condition : Prop} [Decidable condition] {error : ε}
    {onDone : S → Unit → Prop} :
    (throwIf condition error : Program Op Ans ε Unit).Observed observe onDone onFail seen ↔
      (condition → onFail seen error) ∧ (¬ condition → onDone seen ()) :=
  Observed.ite_iff

@[simp] theorem Observed.orThrow_iff {option : Option α} {error : ε} :
    (orThrow option error : Program Op Ans ε α).Observed observe onDone onFail seen ↔
      (∀ value, option = some value → onDone seen value) ∧ (option = none → onFail seen error) := by
  cases option <;> simp [orThrow]

/-- An observed contract is weakened at its ends. -/
theorem Observed.mono {onDone' : S → α → Prop} {onFail' : S → ε → Prop} {program : Program Op Ans ε α}
    (holds : program.Observed observe onDone onFail seen)
    (dones : ∀ seen value, onDone seen value → onDone' seen value)
    (fails : ∀ seen error, onFail seen error → onFail' seen error) :
    program.Observed observe onDone' onFail' seen := by
  induction program generalizing seen with
  | done value => exact dones seen value holds
  | fail error => exact fails seen error holds
  | await op resume ih => exact fun answer => ih answer (holds answer)

/-- An observed contract is one over the trace. -/
theorem Observed.meets {start : S} {trace : Trace Op Ans ε} {program : Program Op Ans ε α}
    (holds : program.Observed observe onDone onFail (observed observe start trace)) :
    program.Meets (fun _ _ => True) (fun later value => onDone (observed observe start later) value)
      (fun later error => onFail (observed observe start later) error) trace := by
  induction program generalizing trace with
  | done value => exact holds
  | fail error => exact holds
  | await op resume ih =>
      refine ⟨trivial, fun answer => ih answer ?_⟩
      rw [observed_snoc]
      exact holds answer

end IcoDashboard.Async.Program
