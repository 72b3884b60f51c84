import IcoDashboard.Async.Likeness

namespace IcoDashboard.Async

/-! # Programs that stop early

A program shortens another one when it makes the same calls, whatever they are
answered, until it stops.  A system of shortened programs runs as the other
system does: a thread that has stopped is one that is not resumed any more.
-/

variable {Op : Type} {Ans : Op → Type} {ε α β γ World Choice Req Out Req' Out' : Type}

namespace Program

inductive Shortens : Program Op Ans ε α → Program Op Ans ε β → Prop
  | done (value : α) (program : Program Op Ans ε β) : Shortens (.done value) program
  | fail (error : ε) (program : Program Op Ans ε β) : Shortens (.fail error) program
  | await (op : Op) {resume : Except ε (Ans op) → Program Op Ans ε α}
      {resume' : Except ε (Ans op) → Program Op Ans ε β}
      (shortens : ∀ answer, Shortens (resume answer) (resume' answer)) :
      Shortens (.await op resume) (.await op resume')

/-- What is done with the value at the end is no call. -/
theorem shortens_map (convert : α → β) (program : Program Op Ans ε α) :
    (program >>= fun value => return convert value).Shortens program := by
  change (Program.bind program fun value => .done (convert value)).Shortens program
  induction program with
  | done value => exact .done _ _
  | fail error => exact .fail _ _
  | await op resume ih => exact .await op ih

/-- Programs with one and the same beginning. -/
theorem shortens_after {next : α → Program Op Ans ε β} {next' : α → Program Op Ans ε γ}
    (shortens : ∀ value, (next value).Shortens (next' value)) (program : Program Op Ans ε α) :
    (program >>= next).Shortens (program >>= next') := by
  change (Program.bind program next).Shortens (Program.bind program next')
  induction program with
  | done value => exact shortens value
  | fail error => exact .fail _ _
  | await op resume ih => exact .await op ih

end Program

/-! ## Runs -/

structure ThreadShortened (convert : Req → Req') (thread : Thread Op Ans ε Req Out)
    (whole : Thread Op Ans ε Req' Out') : Prop where
  request : whole.request = convert thread.request
  program : thread.program.Shortens whole.program

/-- The second state is one of the same run, had no thread stopped. -/
structure Shortened (convert : Req → Req') (state : State Op Ans ε World Req Out)
    (whole : State Op Ans ε World Req' Out') : Prop where
  world : state.world = whole.world
  log : state.log = whole.log
  threads : List.Forall₂ (ThreadShortened convert) state.threads whole.threads

variable {fine : System Op Ans ε World Choice Req Out}
  {coarse : System Op Ans ε World Choice Req' Out'} {convert : Req → Req'}
  {state : State Op Ans ε World Req Out} {whole : State Op Ans ε World Req' Out'}

/-- The threads of both serve the same requests. -/
theorem Shortened.request (shortened : Shortened convert state whole) {thread : Nat}
    {entry : Thread Op Ans ε Req Out} {entry' : Thread Op Ans ε Req' Out'}
    (found : state.threads[thread]? = some entry) (found' : whole.threads[thread]? = some entry') :
    entry'.request = convert entry.request := by
  have entries := rel_getElem? shortened.threads thread
  rw [found, found'] at entries
  cases entries with
  | some parts => exact parts.request

theorem Shortened.start (shortened : Shortened convert state whole) {request : Req}
    (shortens : (fine.handler request).Shortens (coarse.handler (convert request))) :
    Shortened convert (fine.step state (.start request))
      (coarse.step whole (.start (convert request))) :=
  ⟨shortened.world, shortened.log, List.rel_append shortened.threads (.cons ⟨rfl, shortens⟩ .nil)⟩

theorem Shortened.resume (performs : fine.perform = coarse.perform)
    (shortened : Shortened convert state whole) (thread : Nat) (choice : Choice) :
    ∃ whole', coarse.Reachable whole whole' ∧
      Shortened convert (fine.step state (.resume thread choice)) whole' := by
  have entries := rel_getElem? shortened.threads thread
  generalize found : state.threads[thread]? = entry at entries
  generalize found' : whole.threads[thread]? = entry' at entries
  cases entries with
  | none =>
      simp only [System.step, found]
      exact ⟨whole, .initial, shortened⟩
  | some parts =>
      rename_i entry entry'
      obtain ⟨request, program⟩ := entry
      obtain ⟨request', program'⟩ := entry'
      obtain ⟨rfl, shortens⟩ := parts
      cases shortens with
      | done | fail =>
          simp only [System.step, found]
          exact ⟨whole, .initial, shortened⟩
      | await op resumes =>
          refine ⟨coarse.step whole (.resume thread choice), .step _ .initial, ?_⟩
          simp only [System.step, found, found', performs, shortened.world, shortened.log]
          exact ⟨rfl, rfl, rel_set shortened.threads thread ⟨rfl, resumes _⟩⟩

/-- Every run of shortened programs is a run of the whole ones. -/
theorem System.Reachable.shortened {world : World} (performs : fine.perform = coarse.perform)
    (shortens : ∀ request, (fine.handler request).Shortens (coarse.handler (convert request)))
    (reached : fine.Reachable (.idle world) state) :
    ∃ whole, coarse.Reachable (.idle world) whole ∧ Shortened convert state whole := by
  induction reached with
  | initial => exact ⟨.idle world, .initial, rfl, rfl, .nil⟩
  | step action _ ih =>
      obtain ⟨whole, reached, shortened⟩ := ih
      cases action with
      | start request => exact ⟨_, reached.step _, shortened.start (shortens request)⟩
      | resume thread choice =>
          obtain ⟨whole', onward, shortened'⟩ := shortened.resume performs thread choice
          exact ⟨whole', reached.trans onward, shortened'⟩

end IcoDashboard.Async
