import Mathlib.Data.List.Basic

namespace IcoDashboard.Async

/-! # Asynchronous programs

A program is the tree of what an `async` function may do: it returns, it
throws, or it awaits one external call and goes on with the answer, which is a
value or a rejection.  Code between two awaits is pure, so an await is the only
place where another program can run.  The signature `Op`, `Ans` of the external
calls is a parameter.
-/

inductive Program (Op : Type) (Ans : Op → Type) (ε α : Type) : Type where
  | done (value : α)
  | fail (error : ε)
  | await (op : Op) (resume : Except ε (Ans op) → Program Op Ans ε α)

/-- One answered external call. -/
abbrev Call (Op : Type) (Ans : Op → Type) (ε : Type) : Type :=
  (op : Op) × Except ε (Ans op)

/-- The calls of one program, oldest first. -/
abbrev Trace (Op : Type) (Ans : Op → Type) (ε : Type) : Type := List (Call Op Ans ε)

variable {Op : Type} {Ans : Op → Type} {ε α β : Type}

theorem rejected_ne_answered {op op' : Op} {error : ε} {value : Ans op'} :
    (⟨op, .error error⟩ : Call Op Ans ε) ≠ ⟨op', .ok value⟩ := by
  intro same
  cases same

namespace Program

protected def bind : Program Op Ans ε α → (α → Program Op Ans ε β) → Program Op Ans ε β
  | done value, next => next value
  | fail error, _ => fail error
  | await op resume, next => await op (fun answer => (resume answer).bind next)

/-- `try … catch`: rejections of the body go to the handler, those of the
handler do not. -/
protected def tryCatch : Program Op Ans ε α → (ε → Program Op Ans ε α) → Program Op Ans ε α
  | done value, _ => done value
  | fail error, handler => handler error
  | await op resume, handler => await op (fun answer => (resume answer).tryCatch handler)

instance : Monad (Program Op Ans ε) where
  pure := done
  bind := Program.bind

instance : MonadExceptOf ε (Program Op Ans ε) where
  throw := fail
  tryCatch := Program.tryCatch

/-- Await one external call; a rejection is thrown. -/
def call (op : Op) : Program Op Ans ε (Ans op) :=
  await op fun
    | .ok value => done value
    | .error error => fail error

/-- `if (condition) throw error;` -/
def throwIf (condition : Prop) [Decidable condition] (error : ε) : Program Op Ans ε Unit :=
  if condition then fail error else done ()

/-- The value, or a throw when there is none. -/
def orThrow : Option α → ε → Program Op Ans ε α
  | some value, _ => done value
  | none, error => fail error

/-- `for (… of …)` -/
def forEach (values : List β) (body : β → Program Op Ans ε Unit) : Program Op Ans ε Unit :=
  match values with
  | [] => done ()
  | value :: rest => body value >>= fun _ => forEach rest body

/-- `Follows program trace rest`: answered as in `trace`, the program has come
to `rest`. -/
inductive Follows : Program Op Ans ε α → Trace Op Ans ε → Program Op Ans ε α → Prop where
  | here (program : Program Op Ans ε α) : Follows program [] program
  | next {op : Op} {resume : Except ε (Ans op) → Program Op Ans ε α} {answer : Except ε (Ans op)}
      {trace : Trace Op Ans ε} {rest : Program Op Ans ε α}
      (tail : Follows (resume answer) trace rest) :
      Follows (await op resume) (⟨op, answer⟩ :: trace) rest

theorem Follows.snoc {program : Program Op Ans ε α} {trace : Trace Op Ans ε} {op : Op}
    {resume : Except ε (Ans op) → Program Op Ans ε α} (answer : Except ε (Ans op))
    (followed : program.Follows trace (await op resume)) :
    program.Follows (trace ++ [⟨op, answer⟩]) (resume answer) := by
  generalize reached : await op resume = rest at followed
  induction followed with
  | here => subst reached; exact .next (.here _)
  | next tail ih => exact .next (ih reached)

end Program
end IcoDashboard.Async
