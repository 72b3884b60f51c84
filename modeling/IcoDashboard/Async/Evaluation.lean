import IcoDashboard.Async.Interleaving

namespace IcoDashboard.Async

/-! # Evaluation

One program run to its end in an environment that does not change: `perform`
answers every call.  It is what a system does that starts a request and resumes
nothing else.
-/

variable {Op : Type} {Ans : Op → Type} {ε α β World : Type}

namespace Program

def evaluate (perform : (op : Op) → World → Except ε (Ans op) × World) :
    Program Op Ans ε α → World → Except ε α × World
  | done value, world => (.ok value, world)
  | fail error, world => (.error error, world)
  | await op resume, world =>
      evaluate perform (resume (perform op world).1) (perform op world).2

variable {perform : (op : Op) → World → Except ε (Ans op) × World}

@[simp] theorem evaluate_pure (value : α) (world : World) :
    evaluate perform (pure value) world = (.ok value, world) := rfl

@[simp] theorem evaluate_call (op : Op) (world : World) :
    evaluate perform (call op) world = perform op world := by
  rw [call, evaluate]
  generalize perform op world = answered
  obtain ⟨answer, after⟩ := answered
  cases answer <;> rfl

@[simp] theorem evaluate_bind (program : Program Op Ans ε β) (next : β → Program Op Ans ε α)
    (world : World) :
    evaluate perform (program >>= next) world =
      match evaluate perform program world with
      | (.ok value, after) => evaluate perform (next value) after
      | (.error error, after) => (.error error, after) := by
  change evaluate perform (program.bind next) world = _
  induction program generalizing world with
  | done value => rfl
  | fail error => rfl
  | await op resume ih => exact ih _ _

theorem evaluate_bind_of {program : Program Op Ans ε β} {next : β → Program Op Ans ε α}
    {world after : World} {value : β}
    (ran : evaluate perform program world = (.ok value, after)) :
    evaluate perform (program >>= next) world = evaluate perform (next value) after := by
  rw [evaluate_bind, ran]

/-- The inversion rule of sequences that return. -/
theorem evaluate_bind_ok {program : Program Op Ans ε β} {next : β → Program Op Ans ε α}
    {world after : World} {value : α}
    (returned : evaluate perform (program >>= next) world = (.ok value, after)) :
    ∃ result between, evaluate perform program world = (.ok result, between) ∧
      evaluate perform (next result) between = (.ok value, after) := by
  rw [evaluate_bind] at returned
  cases first : evaluate perform program world with
  | mk outcome between =>
      rw [first] at returned
      cases outcome with
      | error error => cases returned
      | ok result => exact ⟨result, between, rfl, returned⟩

@[simp] theorem evaluate_ofExcept (result : Except ε α) (world : World) :
    evaluate perform (ofExcept result) world = (result, world) := by
  cases result <;> rfl

@[simp] theorem evaluate_throw (error : ε) (world : World) :
    evaluate perform (throw error : Program Op Ans ε α) world = (.error error, world) := rfl

@[simp] theorem evaluate_throwIf (condition : Prop) [Decidable condition] (error : ε)
    (world : World) :
    evaluate perform (throwIf condition error) world =
      (if condition then .error error else .ok (), world) := by
  unfold throwIf
  split <;> rfl

@[simp] theorem evaluate_tryCatch (program : Program Op Ans ε α) (handler : ε → Program Op Ans ε α)
    (world : World) :
    evaluate perform (tryCatch program handler) world =
      match evaluate perform program world with
      | (.ok value, after) => (.ok value, after)
      | (.error error, after) => evaluate perform (handler error) after := by
  change evaluate perform (program.tryCatch handler) world = _
  induction program generalizing world with
  | done value => rfl
  | fail error => rfl
  | await op resume ih => exact ih _ _

@[simp] theorem evaluate_orThrow (option : Option α) (error : ε) (world : World) :
    evaluate perform (orThrow option error) world =
      (option.elim (.error error) .ok, world) := by
  cases option <;> rfl

/-- A loop that returns has made every pass, each one from where the passes
before it came to. -/
theorem evaluate_forEach_split {first last : List β} {value : β}
    {body : β → Program Op Ans ε Unit} {world : World}
    (returned : (evaluate perform (forEach (first ++ value :: last) body) world).1 = .ok ()) :
    ∃ before after, evaluate perform (forEach first body) world = (.ok (), before) ∧
      evaluate perform (body value) before = (.ok (), after) := by
  induction first generalizing world with
  | nil =>
      obtain ⟨_, between, passed, _⟩ := evaluate_bind_ok
        (Prod.ext returned rfl : evaluate perform (forEach (value :: last) body) world = (.ok (), _))
      exact ⟨world, between, rfl, passed⟩
  | cons head rest ih =>
      obtain ⟨_, between, passed, rests⟩ := evaluate_bind_ok
        (Prod.ext returned rfl :
          evaluate perform (forEach (head :: (rest ++ value :: last)) body) world = (.ok (), _))
      obtain ⟨before, after, front, here⟩ := ih (by rw [rests])
      exact ⟨before, after, (evaluate_bind_of passed).trans front, here⟩

theorem evaluate_forEach_ok {values : List β} {body : β → Program Op Ans ε Unit} {world : World}
    (returned : (evaluate perform (forEach values body) world).1 = .ok ()) {value : β}
    (member : value ∈ values) : ∃ before, (evaluate perform (body value) before).1 = .ok () := by
  obtain ⟨first, last, rfl⟩ := List.mem_iff_append.mp member
  obtain ⟨before, after, _, passed⟩ := evaluate_forEach_split returned
  exact ⟨before, by rw [passed]⟩

/-- What none of its calls changes, the program leaves as it is. -/
theorem Meets.evaluate_keeps {View : Type} {program : Program Op Ans ε α}
    {guard : Trace Op Ans ε → Op → Prop} {onDone : Trace Op Ans ε → α → Prop}
    {onFail : Trace Op Ans ε → ε → Prop} {trace : Trace Op Ans ε}
    (met : program.Meets guard onDone onFail trace) (view : World → View)
    (keeps : ∀ trace op world, guard trace op → view (perform op world).2 = view world)
    (world : World) : view (evaluate perform program world).2 = view world := by
  induction program generalizing trace world with
  | done value => rfl
  | fail error => rfl
  | await op resume ih =>
      exact (ih _ (met.2 _) _).trans (keeps trace op world met.1)

/-- An environment that makes its choices from a stream, one for each call. -/
def streamed {Choice : Type} (perform : Choice → (op : Op) → World → Except ε (Ans op) × World)
    (op : Op) (state : World × (Nat → Choice)) :
    Except ε (Ans op) × (World × (Nat → Choice)) :=
  ((perform (state.2 0) op state.1).1, (perform (state.2 0) op state.1).2,
    fun call => state.2 (call + 1))

end Program

/-! ## Evaluation in a system -/

namespace System

variable {Choice Req Out : Type} {system : System Op Ans ε World Choice Req Out}

/-- The program a finished evaluation has come to. -/
def finished : Except ε Out → Program Op Ans ε Out
  | .ok value => .done value
  | .error error => .fail error

/-- The environment answers as the system does under the choice it picks. -/
structure AnsweredBy (system : System Op Ans ε World Choice Req Out) {Env : Type}
    (answers : (op : Op) → Env → Except ε (Ans op) × Env) (view : Env → World)
    (picks : Env → Choice) : Prop where
  answered : ∀ op env, (system.perform (picks env) op (view env)).1 = (answers op env).1
  moved : ∀ op env, (system.perform (picks env) op (view env)).2 = view (answers op env).2

section AnsweredBy

variable {Env : Type} {answers : (op : Op) → Env → Except ε (Ans op) × Env} {view : Env → World}
  {picks : Env → Choice} {env : Env}

/-- Resumed alone, a thread comes to where its program evaluates to. -/
theorem resume_evaluates (answered : system.AnsweredBy answers view picks)
    {state : State Op Ans ε World Req Out} {thread : Nat} {request : Req}
    {program : Program Op Ans ε Out} (same : state.world = view env)
    (found : state.threads[thread]? = some ⟨request, program⟩) :
    ∃ choices : List Choice,
      (system.run state (choices.map (.resume thread ·))).world =
        view (program.evaluate answers env).2 ∧
      (system.run state (choices.map (.resume thread ·))).threads[thread]? =
        some ⟨request, finished (program.evaluate answers env).1⟩ := by
  induction program generalizing state env with
  | done value => exact ⟨[], same, found⟩
  | fail error => exact ⟨[], same, found⟩
  | await op resume ih =>
      obtain ⟨bound, _⟩ := List.getElem?_eq_some_iff.mp found
      have stepped : system.step state (.resume thread (picks env)) =
          { world := view (answers op env).2
            threads := state.threads.set thread ⟨request, resume (answers op env).1⟩
            log := state.log ++ [⟨thread, ⟨op, (answers op env).1⟩⟩] } := by
        simp [step, found, same, answered.answered, answered.moved]
      obtain ⟨choices, world, threads⟩ := @ih (answers op env).1 (answers op env).2
        (system.step state (.resume thread (picks env)))
        (by rw [stepped]) (by rw [stepped]; exact List.getElem?_set_self bound)
      exact ⟨picks env :: choices, world, threads⟩

/-- A request that is started and then resumed alone evaluates its handler. -/
theorem started_evaluates (answered : system.AnsweredBy answers view picks)
    (state : State Op Ans ε World Req Out) (same : state.world = view env) (request : Req) :
    ∃ choices : List Choice,
      (system.run state
        (.start request :: choices.map (.resume state.threads.length ·))).world =
          view ((system.handler request).evaluate answers env).2 ∧
      (system.run state
        (.start request :: choices.map (.resume state.threads.length ·))).threads[
          state.threads.length]? =
        some ⟨request, finished ((system.handler request).evaluate answers env).1⟩ := by
  have found : (system.step state (.start request)).threads[state.threads.length]? =
      some ⟨request, system.handler request⟩ := by
    simp [step]
  exact resume_evaluates answered same found

end AnsweredBy

/-- One choice for every call. -/
theorem answeredBy_constant (system : System Op Ans ε World Choice Req Out) (choice : Choice) :
    system.AnsweredBy (system.perform choice) id fun _ => choice where
  answered _ _ := rfl
  moved _ _ := rfl

theorem answeredBy_streamed (system : System Op Ans ε World Choice Req Out) :
    system.AnsweredBy (Program.streamed system.perform) Prod.fst fun env => env.2 0 where
  answered _ _ := rfl
  moved _ _ := rfl

end System
end IcoDashboard.Async
