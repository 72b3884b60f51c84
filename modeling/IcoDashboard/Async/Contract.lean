import IcoDashboard.Async.Program

namespace IcoDashboard.Async.Program

/-! # Contracts

`program.Meets guard onDone onFail trace` says that from the calls in `trace`
on, every call the program issues satisfies `guard`, that it returns only with
`onDone` and throws only with `onFail`, whatever the calls answer.  The rules
below execute a program written with `do` symbolically.
-/

variable {Op : Type} {Ans : Op → Type} {ε α β : Type}
  {guard : Trace Op Ans ε → Op → Prop} {onDone : Trace Op Ans ε → α → Prop}
  {onFail : Trace Op Ans ε → ε → Prop} {trace : Trace Op Ans ε}

def Meets (guard : Trace Op Ans ε → Op → Prop) (onDone : Trace Op Ans ε → α → Prop)
    (onFail : Trace Op Ans ε → ε → Prop) : Trace Op Ans ε → Program Op Ans ε α → Prop
  | trace, done value => onDone trace value
  | trace, fail error => onFail trace error
  | trace, await op resume => guard trace op ∧
      ∀ answer, Meets guard onDone onFail (trace ++ [⟨op, answer⟩]) (resume answer)

@[simp] theorem meets_done {value : α} :
    (done value : Program Op Ans ε α).Meets guard onDone onFail trace ↔ onDone trace value :=
  Iff.rfl

@[simp] theorem meets_fail {error : ε} :
    (fail error : Program Op Ans ε α).Meets guard onDone onFail trace ↔ onFail trace error :=
  Iff.rfl

@[simp] theorem meets_pure {value : α} :
    (pure value : Program Op Ans ε α).Meets guard onDone onFail trace ↔ onDone trace value :=
  Iff.rfl

@[simp] theorem meets_throw {error : ε} :
    (throw error : Program Op Ans ε α).Meets guard onDone onFail trace ↔ onFail trace error :=
  Iff.rfl

theorem forall_answer {P : Except ε α → Prop} :
    (∀ answer, P answer) ↔ (∀ value, P (.ok value)) ∧ ∀ error, P (.error error) := by
  constructor
  · exact fun all => ⟨fun _ => all _, fun _ => all _⟩
  · rintro ⟨values, errors⟩ (error | value)
    · exact errors error
    · exact values value

@[simp] theorem meets_await {op : Op} {resume : Except ε (Ans op) → Program Op Ans ε α} :
    (await op resume).Meets guard onDone onFail trace ↔ guard trace op ∧
      (∀ value, (resume (.ok value)).Meets guard onDone onFail (trace ++ [⟨op, .ok value⟩])) ∧
      ∀ error, (resume (.error error)).Meets guard onDone onFail (trace ++ [⟨op, .error error⟩]) := by
  simp only [Meets, forall_answer]

@[simp] theorem meets_bind {program : Program Op Ans ε β} {next : β → Program Op Ans ε α} :
    (program >>= next).Meets guard onDone onFail trace ↔
      program.Meets guard (fun trace value => (next value).Meets guard onDone onFail trace)
        onFail trace := by
  change (Program.bind program next).Meets guard onDone onFail trace ↔ _
  induction program generalizing trace with
  | done value => rfl
  | fail error => rfl
  | await op resume ih => simp only [Program.bind, Meets, ih]

@[simp] theorem meets_tryCatch {program : Program Op Ans ε α} {handler : ε → Program Op Ans ε α} :
    (tryCatch program handler).Meets guard onDone onFail trace ↔
      program.Meets guard onDone
        (fun trace error => (handler error).Meets guard onDone onFail trace) trace := by
  change (Program.tryCatch program handler).Meets guard onDone onFail trace ↔ _
  induction program generalizing trace with
  | done value => rfl
  | fail error => rfl
  | await op resume ih => simp only [Program.tryCatch, Meets, ih]

@[simp] theorem meets_ite {condition : Prop} [Decidable condition] {first second : Program Op Ans ε α} :
    (if condition then first else second).Meets guard onDone onFail trace ↔
      (condition → first.Meets guard onDone onFail trace) ∧
        (¬ condition → second.Meets guard onDone onFail trace) := by
  by_cases holds : condition <;> simp [holds]

@[simp] theorem meets_throwIf {condition : Prop} [Decidable condition] {error : ε}
    {onDone : Trace Op Ans ε → Unit → Prop} :
    (throwIf condition error : Program Op Ans ε Unit).Meets guard onDone onFail trace ↔
      (condition → onFail trace error) ∧ (¬ condition → onDone trace ()) :=
  meets_ite

@[simp] theorem meets_orThrow {option : Option α} {error : ε} :
    (orThrow option error : Program Op Ans ε α).Meets guard onDone onFail trace ↔
      (∀ value, option = some value → onDone trace value) ∧ (option = none → onFail trace error) := by
  cases option <;> simp [orThrow]

@[simp] theorem meets_ofExcept {result : Except ε α} :
    (ofExcept result : Program Op Ans ε α).Meets guard onDone onFail trace ↔
      (∀ value, result = .ok value → onDone trace value) ∧
        ∀ error, result = .error error → onFail trace error := by
  cases result <;> simp [ofExcept]

/-- The rule of consequence. -/
theorem Meets.mono {guard' : Trace Op Ans ε → Op → Prop} {onDone' : Trace Op Ans ε → α → Prop}
    {onFail' : Trace Op Ans ε → ε → Prop} {program : Program Op Ans ε α}
    (met : program.Meets guard onDone onFail trace)
    (guards : ∀ trace op, guard trace op → guard' trace op)
    (dones : ∀ trace value, onDone trace value → onDone' trace value)
    (fails : ∀ trace error, onFail trace error → onFail' trace error) :
    program.Meets guard' onDone' onFail' trace := by
  induction program generalizing trace with
  | done value => exact dones _ _ met
  | fail error => exact fails _ _ met
  | await op resume ih => exact ⟨guards _ _ met.1, fun answer => ih answer (met.2 answer)⟩

/-- Calls are only ever added to the trace. -/
theorem Meets.extending {program : Program Op Ans ε α}
    (met : program.Meets guard onDone onFail trace) :
    program.Meets guard (fun later value => trace <+: later ∧ onDone later value)
      (fun later error => trace <+: later ∧ onFail later error) trace := by
  have general : ∀ past, past <+: trace → program.Meets guard
      (fun later value => past <+: later ∧ onDone later value)
      (fun later error => past <+: later ∧ onFail later error) trace := by
    intro past earlier
    induction program generalizing trace with
    | done value => exact ⟨earlier, met⟩
    | fail error => exact ⟨earlier, met⟩
    | await op resume ih =>
        exact ⟨met.1, fun answer => ih answer (met.2 answer)
          (earlier.trans (List.prefix_append _ _))⟩
  exact general trace (List.prefix_refl _)

/-- A program whose own calls are fine meets whatever holds after any calls it
may add. -/
theorem Meets.after {program : Program Op Ans ε α}
    (met : program.Meets guard (fun _ _ => True) onFail trace)
    (rest : ∀ later value, trace <+: later → onDone later value) :
    program.Meets guard onDone onFail trace :=
  met.extending.mono (fun _ _ guarded => guarded)
    (fun later value extended => rest later value extended.1)
    (fun _ _ failed => failed.2)

/-- The same when what follows a throw matters too. -/
theorem Meets.afterEither {program : Program Op Ans ε α}
    (met : program.Meets guard (fun _ _ => True) (fun _ _ => True) trace)
    (rest : ∀ later value, trace <+: later → onDone later value)
    (thrown : ∀ later error, trace <+: later → onFail later error) :
    program.Meets guard onDone onFail trace :=
  met.extending.mono (fun _ _ guarded => guarded)
    (fun later value extended => rest later value extended.1)
    (fun later error extended => thrown later error extended.1)

/-- Two contracts of one program are one contract. -/
theorem Meets.both {guard' : Trace Op Ans ε → Op → Prop} {onDone' : Trace Op Ans ε → α → Prop}
    {onFail' : Trace Op Ans ε → ε → Prop} {program : Program Op Ans ε α}
    (left : program.Meets guard onDone onFail trace)
    (right : program.Meets guard' onDone' onFail' trace) :
    program.Meets (fun trace op => guard trace op ∧ guard' trace op)
      (fun trace value => onDone trace value ∧ onDone' trace value)
      (fun trace error => onFail trace error ∧ onFail' trace error) trace := by
  induction program generalizing trace with
  | done value => exact ⟨left, right⟩
  | fail error => exact ⟨left, right⟩
  | await op resume ih =>
      exact ⟨⟨left.1, right.1⟩, fun answer => ih answer (left.2 answer) (right.2 answer)⟩

/-- A guard that holds from here on is kept by every program. -/
theorem Meets.under {program : Program Op Ans ε α}
    (holds : ∀ later op, trace <+: later → guard later op) :
    program.Meets guard (fun _ _ => True) (fun _ _ => True) trace := by
  induction program generalizing trace with
  | done value => trivial
  | fail error => trivial
  | await op resume ih =>
      exact ⟨holds trace op (List.prefix_refl _), fun answer => ih answer fun later op extended =>
        holds later op ((List.prefix_append _ _).trans extended)⟩

/-- A loop whose passes make only fine calls makes only fine calls. -/
theorem Meets.forEach {values : List β} {body : β → Program Op Ans ε Unit}
    (passes : ∀ value ∈ values, ∀ trace,
      (body value).Meets guard (fun _ _ => True) (fun _ _ => True) trace) :
    (Program.forEach values body).Meets guard (fun _ _ => True) (fun _ _ => True) trace := by
  induction values generalizing trace with
  | nil => trivial
  | cons first rest ih =>
      rw [Program.forEach, meets_bind]
      refine (passes first List.mem_cons_self trace).after fun later _ _ => ?_
      exact ih fun value member => passes value (List.mem_cons_of_mem _ member)

/-- A loop that has ended has done every pass, when later calls undo none. -/
theorem Meets.forEachDone {values : List β} {body : β → Program Op Ans ε Unit}
    {done : β → Trace Op Ans ε → Prop}
    (stable : ∀ value earlier later, earlier <+: later → done value earlier → done value later)
    (passes : ∀ value ∈ values, ∀ later, trace <+: later →
      (body value).Meets guard (fun last _ => done value last) (fun _ _ => True) later) :
    (Program.forEach values body).Meets guard (fun last _ => ∀ value ∈ values, done value last)
      (fun _ _ => True) trace := by
  induction values generalizing trace with
  | nil => exact fun _ member => nomatch member
  | cons first rest ih =>
      rw [Program.forEach, meets_bind]
      have passed := (passes first List.mem_cons_self trace (List.prefix_refl _)).extending
      refine passed.mono (fun _ _ guarded => guarded) ?_ (fun _ _ _ => trivial)
      intro later _ ended
      obtain ⟨extends', doneFirst⟩ := ended
      have rests := @ih later fun value member last extendsLater =>
        passes value (List.mem_cons_of_mem _ member) last (extends'.trans extendsLater)
      refine rests.extending.mono (fun _ _ guarded => guarded) ?_ (fun _ _ _ => trivial)
      intro last _ ended value member
      rcases List.mem_cons.mp member with rfl | member
      · exact stable value later last ended.1 doneFirst
      · exact ended.2 value member

/-- A loop whose body meets the guard for its own values, after the calls before
the loop. -/
theorem Meets.forEachIn {values : List β} {body : β → Program Op Ans ε Unit}
    (passes : ∀ value ∈ values, ∀ later, trace <+: later →
      (body value).Meets guard (fun _ _ => True) (fun _ _ => True) later) :
    (Program.forEach values body).Meets guard (fun _ _ => True) (fun _ _ => True) trace := by
  have stable : ∀ (_ : β) (earlier later : Trace Op Ans ε), earlier <+: later → True → True :=
    fun _ _ _ _ _ => trivial
  exact (Meets.forEachDone stable passes).mono (fun _ _ guarded => guarded) (fun _ _ _ => trivial)
    fun _ _ _ => trivial

/-- The calls of a program that has returned are a whole run of it. -/
theorem Meets.followed {program : Program Op Ans ε α}
    (met : program.Meets guard onDone onFail trace) :
    program.Meets guard
      (fun last value => (∃ segment, last = trace ++ segment ∧ program.Follows segment (done value)) ∧
        onDone last value) onFail trace := by
  induction program generalizing trace with
  | done value => exact ⟨⟨[], by simp, .here _⟩, met⟩
  | fail error => exact met
  | await op resume ih =>
      refine ⟨met.1, fun answer => ?_⟩
      refine (ih answer (met.2 answer)).mono (fun _ _ guarded => guarded) ?_ (fun _ _ failed => failed)
      intro last value ended
      obtain ⟨⟨segment, split, follows⟩, doneLast⟩ := ended
      exact ⟨⟨⟨op, answer⟩ :: segment, by simp [split], .next follows⟩, doneLast⟩

/-- Where a program that keeps its contract has come to, it keeps it. -/
theorem Meets.follow {program rest : Program Op Ans ε α} {past : Trace Op Ans ε}
    (met : program.Meets guard onDone onFail past) (followed : program.Follows trace rest) :
    rest.Meets guard onDone onFail (past ++ trace) := by
  induction followed generalizing past with
  | here => simpa using met
  | next tail ih => simpa using ih (met.2 _)

/-! ## Taking a followed sequence apart -/

theorem Follows.of_bind {first : Program Op Ans ε β} {next : β → Program Op Ans ε α}
    {rest : Program Op Ans ε α} (followed : (first >>= next).Follows trace rest) :
    (∃ middle, first.Follows trace middle) ∨
      ∃ front later value, trace = front ++ later ∧ first.Follows front (done value) ∧
        (next value).Follows later rest := by
  change (first.bind next).Follows trace rest at followed
  induction first generalizing trace with
  | done value => exact .inr ⟨[], trace, value, rfl, .here _, followed⟩
  | fail error =>
      cases followed
      exact .inl ⟨.fail error, .here _⟩
  | await op resume ih =>
      cases followed with
      | here => exact .inl ⟨.await op resume, .here _⟩
      | next tail =>
          rcases ih _ tail with ⟨middle, firsts⟩ | ⟨front, later, value, split, firsts, follows⟩
          · exact .inl ⟨middle, .next firsts⟩
          · exact .inr ⟨_ :: front, later, value, by rw [split, List.cons_append], .next firsts, follows⟩

/-- A program that makes only certain calls has made only such calls. -/
theorem Meets.calls {quiet : Op → Prop} {program rest : Program Op Ans ε α} {past : Trace Op Ans ε}
    (met : program.Meets (fun _ op => quiet op) onDone onFail past)
    (followed : program.Follows trace rest) : ∀ call ∈ trace, quiet call.1 := by
  induction followed generalizing past with
  | here => exact fun _ member => nomatch member
  | next tail ih =>
      intro call member
      rcases List.mem_cons.mp member with rfl | later
      · exact met.1
      · exact ih (met.2 _) call later

/-- A call that the first part of a sequence does not make is one of the second. -/
theorem Follows.second {quiet : Op → Prop} {first : Program Op Ans ε β}
    {next : β → Program Op Ans ε α} {rest : Program Op Ans ε α} {before after : Trace Op Ans ε}
    {call : Call Op Ans ε} (followed : (first >>= next).Follows (before ++ call :: after) rest)
    (met : first.Meets (fun _ op => quiet op) (fun _ _ => True) (fun _ _ => True) [])
    (loud : ¬ quiet call.1) :
    ∃ value front middle, before = front ++ middle ∧ first.Follows front (done value) ∧
      (next value).Follows (middle ++ call :: after) rest := by
  rcases followed.of_bind with ⟨_, firsts⟩ | ⟨front, later, value, split, firsts, follows⟩
  · exact absurd (met.calls firsts call (by simp)) loud
  · rcases List.append_eq_append_iff.mp split with ⟨between, fronts, rests⟩ | ⟨middle, befores, rests⟩
    · cases between with
      | nil =>
          rw [List.append_nil] at fronts
          rw [List.nil_append] at rests
          subst fronts rests
          exact ⟨value, front, [], (List.append_nil _).symm, firsts, follows⟩
      | cons other between =>
          obtain ⟨rfl, _⟩ := List.cons.inj rests
          exact absurd (met.calls firsts call (by simp [fronts])) loud
    · rw [rests] at follows
      exact ⟨value, front, middle, befores, firsts, follows⟩

/-- A call that only comes first has been made first. -/
theorem Follows.first {quiet : Op → Prop} {op : Op} {next : Ans op → Program Op Ans ε α}
    {rest : Program Op Ans ε α} {before after : Trace Op Ans ε} {value : Ans op}
    (followed : (call op >>= next).Follows (before ++ ⟨op, .ok value⟩ :: after) rest)
    (met : ∀ value, (next value).Meets (fun _ op => quiet op) (fun _ _ => True) (fun _ _ => True) [])
    (loud : ¬ quiet op) : before = [] ∧ (next value).Follows after rest := by
  cases before with
  | nil =>
      cases followed with
      | next tail => exact ⟨rfl, tail⟩
  | cons earlier before =>
      cases followed with
      | @next _ _ answer _ _ tail =>
          cases answer with
          | error error => cases before <;> cases tail
          | ok other => exact absurd ((met other).calls tail ⟨op, .ok value⟩ (by simp)) loud

end IcoDashboard.Async.Program
