import IcoDashboard.Async.Interleaving
import IcoDashboard.Async.Sequential

namespace IcoDashboard.Async

/-! # Requests in turn

A system that serves one request at a time: each request is run to its end,
normally or by a throw, before the next one starts.  The environment chooses how
every call turns out.
-/

variable {Op : Type} {Ans : Op → Type} {ε α World Choice Req Out : Type}

namespace Executes

variable {perform : Choice → (op : Op) → World → Except ε (Ans op) × World}
  {program : Program Op Ans ε α} {before after : World} {past trace : Trace Op Ans ε}
  {outcome : Except ε α} {guard : Trace Op Ans ε → Op → Prop} {onDone : Trace Op Ans ε → α → Prop}
  {onFail : Trace Op Ans ε → ε → Prop}

/-- What every guarded call preserves holds when the execution ends. -/
theorem invariant {Holds : Trace Op Ans ε → World → Prop}
    (executes : Executes perform program before trace outcome after)
    (met : program.Meets guard onDone onFail past)
    (step : ∀ past op world choice, guard past op → Holds past world →
      Holds (past ++ [⟨op, (perform choice op world).1⟩]) (perform choice op world).2)
    (start : Holds past before) : Holds (past ++ trace) after := by
  induction executes generalizing past with
  | done value world => simpa using start
  | fail error world => simpa using start
  | await choice rest ih =>
      have stepped := ih (met.2 _) (step _ _ _ choice met.1 start)
      simpa using stepped

/-- Every call was made under its guard, in a world that the calls before it had
led to. -/
theorem called {Holds : Trace Op Ans ε → World → Prop} {front later : Trace Op Ans ε}
    {call : Call Op Ans ε} (executes : Executes perform program before trace outcome after)
    (met : program.Meets guard onDone onFail past)
    (step : ∀ past op world choice, guard past op → Holds past world →
      Holds (past ++ [⟨op, (perform choice op world).1⟩]) (perform choice op world).2)
    (start : Holds past before) (split : trace = front ++ call :: later) :
    ∃ choice world, Holds (past ++ front) world ∧ guard (past ++ front) call.1 ∧
      call.2 = (perform choice call.1 world).1 := by
  induction executes generalizing past front with
  | done value world => simp at split
  | fail error world => simp at split
  | @await op resume world after trace outcome choice rest ih =>
      cases front with
      | nil =>
          obtain ⟨same, _⟩ := List.cons.inj split
          subst same
          exact ⟨choice, world, by simpa using start, by simpa using met.1, rfl⟩
      | cons first others =>
          obtain ⟨same, tail⟩ := List.cons.inj split
          subst same
          have found := ih (met.2 _) (step _ _ _ choice met.1 start) tail
          simpa using found

theorem guarded {front later : Trace Op Ans ε} {call : Call Op Ans ε}
    (executes : Executes perform program before trace outcome after)
    (met : program.Meets guard onDone onFail past) (split : trace = front ++ call :: later) :
    guard (past ++ front) call.1 := by
  have step : ∀ past op world choice, guard past op → (fun _ _ => True : Trace Op Ans ε → World → Prop)
      past world → (fun _ _ => True : Trace Op Ans ε → World → Prop)
        (past ++ [⟨op, (perform choice op world).1⟩]) (perform choice op world).2 :=
    fun _ _ _ _ _ _ => trivial
  obtain ⟨_, _, _, guard, _⟩ := executes.called met step trivial split
  exact guard

end Executes

/-- A request that was run to its end. -/
structure Round (Op : Type) (Ans : Op → Type) (ε World Req Out : Type) where
  request : Req
  before : World
  trace : Trace Op Ans ε
  outcome : Except ε Out
  after : World

namespace System

variable (system : System Op Ans ε World Choice Req Out)

def Ran (round : Round Op Ans ε World Req Out) : Prop :=
  Executes system.perform (system.handler round.request) round.before round.trace round.outcome
    round.after

inductive InTurn : World → List (Round Op Ans ε World Req Out) → World → Prop where
  | none (world : World) : InTurn world [] world
  | next {round : Round Op Ans ε World Req Out} {rounds : List (Round Op Ans ε World Req Out)}
      {last : World} (ran : system.Ran round) (rest : InTurn round.after rounds last) :
      InTurn round.before (round :: rounds) last

/-- The rounds of some requests under the choices of a list, when each request
has enough of them. -/
def rounds : World → List (Req × List Choice) → Option (List (Round Op Ans ε World Req Out))
  | _, [] => some []
  | world, (request, choices) :: rest =>
      (execute system.perform choices (system.handler request) world).bind
        fun (trace, outcome, after) =>
          (rounds after rest).map fun others => ⟨request, world, trace, outcome, after⟩ :: others

def lastWorld (world : World) (rounds : List (Round Op Ans ε World Req Out)) : World :=
  (rounds.getLast?.map Round.after).getD world

variable {system} {first last : World} {served : List (Round Op Ans ε World Req Out)}

theorem inTurn_of_rounds {requests : List (Req × List Choice)}
    (ran : system.rounds first requests = some served) :
    system.InTurn first served (lastWorld first served) := by
  induction requests generalizing first served with
  | nil =>
      cases ran
      exact .none first
  | cons entry rest ih =>
      obtain ⟨request, choices⟩ := entry
      obtain ⟨⟨trace, outcome, after⟩, executed, others⟩ := Option.bind_eq_some_iff.mp ran
      obtain ⟨later, laterRan, same⟩ := Option.map_eq_some_iff.mp others
      subst same
      have tail := ih laterRan
      have lasts : lastWorld first (⟨request, first, trace, outcome, after⟩ :: later) =
          lastWorld after later := by
        cases later with
        | nil => rfl
        | cons next more => simp [lastWorld, List.getLast?_cons]
      rw [lasts]
      exact @InTurn.next _ _ _ _ _ _ _ system ⟨request, first, trace, outcome, after⟩ later _
        (executes_of_execute executed) tail

/-- The rounds of requests that have enough choices. -/
def serve (system : System Op Ans ε World Choice Req Out) (world : World)
    (requests : List (Req × List Choice)) : List (Round Op Ans ε World Req Out) :=
  (system.rounds world requests).getD []

theorem inTurn_serve {requests : List (Req × List Choice)}
    (enough : (system.rounds first requests).isSome = true) :
    system.InTurn first (system.serve first requests)
      (lastWorld first (system.serve first requests)) := by
  obtain ⟨rounds, ran⟩ := Option.isSome_iff_exists.mp enough
  have same : system.serve first requests = rounds := by
    rw [serve, ran]
    rfl
  rw [same]
  exact inTurn_of_rounds ran

/-- What every request preserves holds between any two of them. -/
theorem InTurn.invariant {Holds : World → Prop} (run : system.InTurn first served last)
    (start : Holds first)
    (preserved : ∀ round ∈ served, system.Ran round → Holds round.before → Holds round.after) :
    Holds last ∧ ∀ round ∈ served, system.Ran round ∧ Holds round.before ∧ Holds round.after := by
  induction run with
  | none world => exact ⟨start, fun _ member => nomatch member⟩
  | @next round rounds last ran rest ih =>
      have stepped := preserved round List.mem_cons_self ran start
      obtain ⟨ended, each⟩ := ih stepped fun other member =>
        preserved other (List.mem_cons_of_mem _ member)
      refine ⟨ended, fun other member => ?_⟩
      rcases List.mem_cons.mp member with same | later
      · rw [same]
        exact ⟨ran, start, stepped⟩
      · exact each other later

/-- The same for a property that speaks about the requests served so far. -/
theorem InTurn.history {Holds : List (Round Op Ans ε World Req Out) → World → Prop}
    {done : List (Round Op Ans ε World Req Out)} (run : system.InTurn first served last)
    (start : Holds done first)
    (preserved : ∀ earlier round, round ∈ served → system.Ran round → Holds earlier round.before →
      Holds (earlier ++ [round]) round.after) :
    Holds (done ++ served) last ∧ ∀ earlier round later, served = earlier ++ round :: later →
      system.Ran round ∧ Holds (done ++ earlier) round.before ∧
        Holds (done ++ (earlier ++ [round])) round.after := by
  induction run generalizing done with
  | none world =>
      refine ⟨by rw [List.append_nil]; exact start, fun earlier round later split => ?_⟩
      simp at split
  | @next current rounds last ran rest ih =>
      have stepped := preserved done current List.mem_cons_self ran start
      obtain ⟨ended, each⟩ := ih stepped fun earlier round member =>
        preserved earlier round (List.mem_cons_of_mem _ member)
      refine ⟨by rw [← List.append_cons] at ended; exact ended, ?_⟩
      intro earlier round later split
      cases earlier with
      | nil =>
          obtain ⟨same, _⟩ := List.cons.inj split
          subst same
          exact ⟨ran, by rw [List.append_nil]; exact start, stepped⟩
      | cons head others =>
          obtain ⟨same, tail⟩ := List.cons.inj split
          subst same
          have found := each others round later tail
          simpa using found

theorem InTurn.ran (run : system.InTurn first served last)
    {round : Round Op Ans ε World Req Out} (member : round ∈ served) : system.Ran round :=
  ((@InTurn.invariant _ _ _ _ _ _ _ system first last served (fun _ => True) run trivial fun _ _ _ _ => trivial).2 round member).1

/-! ## Requests in turn among the interleavings -/

/-- A started thread can be resumed along its execution. -/
theorem executes_reachable {state : State Op Ans ε World Req Out} {thread : Nat} {request : Req}
    {program : Program Op Ans ε Out} {trace : Trace Op Ans ε} {outcome : Except ε Out} {after : World}
    (executes : Executes system.perform program state.world trace outcome after)
    (found : state.threads[thread]? = some ⟨request, program⟩) :
    ∃ later, system.Reachable state later ∧ later.world = after := by
  generalize start : state.world = world at executes
  induction executes generalizing state with
  | done value world => exact ⟨state, .initial, start⟩
  | fail error world => exact ⟨state, .initial, start⟩
  | @await op resume world after trace outcome choice rest ih =>
      subst start
      obtain ⟨bound, _⟩ := List.getElem?_eq_some_iff.mp found
      have stepped : system.step state (.resume thread choice) =
          { world := (system.perform choice op state.world).2
            threads := state.threads.set thread
              ⟨request, resume (system.perform choice op state.world).1⟩
            log := state.log ++ [⟨thread, ⟨op, (system.perform choice op state.world).1⟩⟩] } := by
        simp [step, found]
      obtain ⟨later, reached, ended⟩ := @ih (system.step state (.resume thread choice))
        (by rw [stepped]; exact List.getElem?_set_self bound) (by rw [stepped])
      exact ⟨later, (Reachable.initial.step _).trans reached, ended⟩

/-- A request run to its end is one way to interleave. -/
theorem Ran.reachable {round : Round Op Ans ε World Req Out} (ran : system.Ran round)
    {state : State Op Ans ε World Req Out} (here : state.world = round.before) :
    ∃ later, system.Reachable state later ∧ later.world = round.after := by
  have started : (system.step state (.start round.request)).threads[state.threads.length]? =
      some ⟨round.request, system.handler round.request⟩ := by
    simp [step]
  have executes : Executes system.perform (system.handler round.request)
      (system.step state (.start round.request)).world round.trace round.outcome round.after := by
    change Executes system.perform (system.handler round.request) state.world round.trace
      round.outcome round.after
    rw [here]
    exact ran
  obtain ⟨later, reached, ended⟩ := executes_reachable executes started
  exact ⟨later, (Reachable.initial.step _).trans reached, ended⟩

end System
end IcoDashboard.Async
