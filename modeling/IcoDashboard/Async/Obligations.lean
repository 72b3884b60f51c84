import IcoDashboard.Async.Interleaving

namespace IcoDashboard.Async.Program

/-! # Obligations

Some calls leave a debt: the next call of the thread has to be a certain one.
A program pays when it makes no other call while it owes one and never ends
owing.  The rules follow the constructors of a program, so that only the part
that gets into debt has to be looked at.
-/

variable {Op : Type} {Ans : Op → Type} {ε α β : Type}

/-- The call that is owed after the calls of the trace. -/
abbrev Debt (Op : Type) (Ans : Op → Type) (ε : Type) : Type := Trace Op Ans ε → Option Op

variable (debt : Debt Op Ans ε)

/-- The guard of a debt. -/
def Owing (past : Trace Op Ans ε) (op : Op) : Prop := ∀ owed ∈ debt past, op = owed

def Pays (program : Program Op Ans ε α) : Prop :=
  ∀ past, debt past = none → program.Meets (Owing debt) (fun later _ => debt later = none)
    (fun later _ => debt later = none) past

/-- Calls after which nothing is owed. -/
def Free (op : Op) : Prop := ∀ past answer, debt (past ++ [⟨op, answer⟩]) = none

variable {debt} {program : Program Op Ans ε α}

theorem owing_of_none {past : Trace Op Ans ε} (none : debt past = none) (op : Op) :
    Owing debt past op := by
  intro owed owes
  rw [none] at owes
  cases owes

theorem pays_done (value : α) : Pays debt (done value : Program Op Ans ε α) := fun _ free => free

theorem pays_fail (error : ε) : Pays debt (fail error : Program Op Ans ε α) := fun _ free => free

theorem Pays.bind {first : Program Op Ans ε β} {next : β → Program Op Ans ε α}
    (pays : Pays debt first) (pay : ∀ value, Pays debt (next value)) :
    Pays debt (first >>= next) := by
  intro past free
  rw [meets_bind]
  exact (pays past free).mono (fun _ _ guarded => guarded) (fun later value free => pay value later free)
    fun _ _ free => free

theorem Pays.tryCatch {handler : ε → Program Op Ans ε α} (pays : Pays debt program)
    (pay : ∀ error, Pays debt (handler error)) : Pays debt (tryCatch program handler) := by
  intro past free
  rw [meets_tryCatch]
  exact (pays past free).mono (fun _ _ guarded => guarded) (fun _ _ free => free)
    fun later error free => pay error later free

theorem Pays.ite {condition : Prop} [Decidable condition] {second : Program Op Ans ε α}
    (pays : condition → Pays debt program) (pay : ¬ condition → Pays debt second) :
    Pays debt (if condition then program else second) := by
  by_cases holds : condition
  · rw [if_pos holds]
    exact pays holds
  · rw [if_neg holds]
    exact pay holds

theorem pays_throwIf {condition : Prop} [Decidable condition] (error : ε) :
    Pays debt (throwIf condition error : Program Op Ans ε Unit) :=
  Pays.ite (fun _ => pays_fail error) fun _ => pays_done ()

theorem pays_orThrow (option : Option α) (error : ε) :
    Pays debt (orThrow option error : Program Op Ans ε α) := by
  cases option with
  | none => exact pays_fail error
  | some value => exact pays_done value

/-- Calls that leave no debt can be made while none is owed. -/
theorem Meets.pays {past : Trace Op Ans ε} (free : debt past = none)
    (met : program.Meets (fun _ op => Free debt op) (fun _ _ => True) (fun _ _ => True) past) :
    program.Meets (Owing debt) (fun later _ => debt later = none) (fun later _ => debt later = none)
      past := by
  induction program generalizing past with
  | done value => exact free
  | fail error => exact free
  | await op resume ih =>
      exact ⟨owing_of_none free op, fun answer => ih answer (met.1 past answer) (met.2 answer)⟩

theorem pays_of_free {quiet : Op → Prop} (free : ∀ op, quiet op → Free debt op)
    (met : ∀ past, program.Meets (fun _ op => quiet op) (fun _ _ => True) (fun _ _ => True) past) :
    Pays debt program :=
  fun past none => ((met past).mono (fun _ op => free op) (fun _ _ _ => trivial)
    fun _ _ _ => trivial).pays none

theorem pays_call {op : Op} (free : Free debt op) :
    Pays debt (call op : Program Op Ans ε (Ans op)) := by
  intro past none
  exact Meets.pays none (by simp [call, free])

end Program

/-! ## Debts in a run -/

namespace System

variable {Op : Type} {Ans : Op → Type} {ε World Choice Req Out : Type}
  {system : System Op Ans ε World Choice Req Out} {debt : Program.Debt Op Ans ε} {world : World}
  {state : State Op Ans ε World Req Out}

/-- A thread in debt is about to make the call it owes. -/
theorem Reachable.owed (reached : system.Reachable (.idle world) state)
    {onDone : Req → Trace Op Ans ε → Out → Prop} {onFail : Req → Trace Op Ans ε → ε → Prop}
    (pays : ∀ request, (system.handler request).Meets (Program.Owing debt) (onDone request)
      (onFail request) [])
    {thread : Nat} {request : Req} {op owed : Op} {resume : Except ε (Ans op) → Program Op Ans ε Out}
    (awaiting : state.threads[thread]? = some ⟨request, .await op resume⟩)
    (owes : debt (localTrace thread state.log) = some owed) : op = owed :=
  (reached.guarded pays awaiting).1 owed owes

end System
end IcoDashboard.Async
