import IcoDashboard.Chain.Recording

namespace IcoDashboard.Chain

open IcoDashboard.Async IcoDashboard.Async.Program IcoDashboard.Data
open TransactionService Web3Handler

/-! # The remembered block

Runs of the job may overlap, abort and read any current block, so the block that
Redis remembers can move back.  Still no block below it, from the first one on,
was left out by all runs: what a run skips, the block it read vouches for.
-/

variable {app : App} {web3 : Web3} {state : ChainState} {world : World}

theorem mem_blockRange {first number : Int} {current : Nat} :
    number ∈ blockRange first current ↔ first ≤ number ∧ number < current := by
  simp only [blockRange, List.mem_map, List.bind_eq_flatMap, List.pure_def, List.mem_flatMap,
    List.mem_range, List.mem_singleton]
  constructor
  · intro shown
    obtain ⟨_, ⟨offset, below, rfl⟩, rfl⟩ := shown
    omega
  · intro bounds
    exact ⟨number - first, ⟨(number - first).toNat, by omega, by omega⟩, by omega⟩

/-- A run of the job has fetched the block and passed its transactions. -/
def CheckedBlock (app : App) (web3 : Web3) (state : ChainState) (number : Int) : Prop :=
  ∃ thread program, state.threads[thread]? = some ⟨.checkAndRestoreTransactions, program⟩ ∧
    Fetched app web3 (.number number) (localTrace thread state.log)

/-- All blocks below, from the first one on, are checked. -/
def CheckedBelow (app : App) (web3 : Web3) (state : ChainState) (block : Nat) : Prop :=
  ∀ number, app.config.startBlock ≤ number → number < block → CheckedBlock app web3 state number

structure CursorInvariant (app : App) (web3 : Web3) (state : ChainState) : Prop where
  remembered : ∀ block, state.world.lastCheckedBlock = some block → CheckedBelow app web3 state block
  read : ∀ thread block, ⟨thread, ⟨.getLastCheckedBlock, .ok (some block)⟩⟩ ∈ state.log →
    CheckedBelow app web3 state block

/-- The remembered block is moved by its own call only. -/
theorem perform_cursor {choice : Choice} {op : Op} {block : Nat}
    (remembered : (perform choice op world).2.lastCheckedBlock = some block) :
    world.lastCheckedBlock = some block ∨ op = .setLastCheckedBlock block := by
  unfold perform at remembered
  split at remembered
  · exact .inl remembered
  · cases op with
    | setLastCheckedBlock moved =>
        cases remembered
        exact .inr rfl
    | insertTransaction tx =>
        simp only [answer] at remembered
        split at remembered <;> exact .inl remembered
    | saveTransaction tx =>
        simp only [answer] at remembered
        split at remembered <;> exact .inl remembered
    | _ => exact .inl remembered

theorem CheckedBlock.step {number : Int} (checked : CheckedBlock app web3 state number)
    (action : Action Choice Request) :
    CheckedBlock app web3 ((handlers app web3).step state action) number := by
  obtain ⟨thread, program, found, fetched⟩ := checked
  obtain ⟨later, foundLater⟩ := (System.Reachable.initial.step action).request_stable found
  have extended : state.log <+: ((handlers app web3).step state action).log :=
    System.step_log_extends _ state action
  obtain ⟨added, longer⟩ := extended
  refine ⟨thread, later, foundLater, fetched.extended ?_⟩
  rw [← longer, localTrace_append]
  exact List.prefix_append _ _

/-- What a run that moves the remembered block knows. -/
theorem checkedBelow_of_range (offset : 0 ≤ app.config.blockOffset) {current thread : Nat}
    {program : Handler Unit} (holds : CursorInvariant app web3 state)
    (found : state.threads[thread]? = some ⟨.checkAndRestoreTransactions, program⟩)
    (range : RangeFetched app web3 (localTrace thread state.log) current) :
    CheckedBelow app web3 state current := by
  obtain ⟨last, member, fetched⟩ := range
  intro number fromStart below
  by_cases looked : firstBlock app last ≤ number
  · exact ⟨thread, program, found, fetched number (mem_blockRange.mpr ⟨looked, below⟩)⟩
  · cases last with
    | none =>
        simp only [firstBlock, Option.map_none, Option.getD_none] at looked
        omega
    | some block =>
        simp only [firstBlock, Option.map_some, Option.getD_some] at looked
        refine holds.read thread block (mem_localTrace.mp member) number fromStart ?_
        change number < Int.ofNat block
        omega

theorem cursorInvariant_step (offset : 0 ≤ app.config.blockOffset)
    (reached : (handlers app web3).Reachable (.idle world) state)
    (holds : CursorInvariant app web3 state) (action : Action Choice Request) :
    CursorInvariant app web3 ((handlers app web3).step state action) := by
  have keeps : ∀ block, CheckedBelow app web3 state block →
      CheckedBelow app web3 ((handlers app web3).step state action) block :=
    fun block checked number fromStart below => (checked number fromStart below).step action
  rcases (handlers app web3).step_cases state action with same | ⟨request, _, started⟩ |
    ⟨thread, choice, request, op, resume, _, awaiting, resumed⟩
  · rw [same]
    exact holds
  · refine ⟨fun block remembered => keeps block (holds.remembered block ?_),
      fun other block read => keeps block (holds.read other block ?_)⟩
    · rwa [started] at remembered
    · rwa [started] at read
  · have guard := (reached.guarded handle_meets awaiting).1
    refine ⟨fun block remembered => keeps block ?_, fun other block read => keeps block ?_⟩
    · rw [resumed] at remembered
      rcases perform_cursor remembered with before | rfl
      · exact holds.remembered block before
      · cases request with
        | checkAndRestoreTransactions => exact checkedBelow_of_range offset holds awaiting guard
        | _ => exact guard.elim
    · rw [resumed] at read
      rcases mem_performed_ok read with before | ⟨rfl, answered⟩
      · exact holds.read other block before
      · exact holds.remembered block (Except.ok.inj answered)

theorem cursorInvariant (offset : 0 ≤ app.config.blockOffset)
    (reached : (handlers app web3).Reachable (.idle { world with lastCheckedBlock := none }) state) :
    CursorInvariant app web3 state := by
  induction reached with
  | initial => exact ⟨fun _ none => (nomatch none), fun _ _ member => nomatch member⟩
  | step action reached ih => exact cursorInvariant_step offset reached ih action

/-- Every block below the remembered one, from the first one on, was fetched by a
run of the job that passed its transactions. -/
theorem remembered_checked (offset : 0 ≤ app.config.blockOffset)
    (reached : (handlers app web3).Reachable (.idle { world with lastCheckedBlock := none }) state)
    {block : Nat} (remembered : state.world.lastCheckedBlock = some block) :
    CheckedBelow app web3 state block :=
  (cursorInvariant offset reached).remembered block remembered

/-- Configured to start at the sample block. -/
def startApp : App :=
  { App.plain with config := { tokenAddress := tokenAddress, startBlock := 1, blockOffset := 0 } }

def restoreActions : List (Action Choice Request) :=
  .start .checkAndRestoreTransactions :: List.replicate 10 (.resume 0 (sampleChoice [payment]))

theorem sampleBlock_checked :
    CheckedBlock startApp .sample ((handlers startApp .sample).run (.idle {}) restoreActions) 1 := by
  have remembered : ((handlers startApp .sample).run (.idle {}) restoreActions).world.lastCheckedBlock =
      some 2 := rfl
  exact remembered_checked (by decide)
    (System.reachable_run (.idle { ({} : World) with lastCheckedBlock := none }) restoreActions)
    remembered 1 (by decide) (by decide)

end IcoDashboard.Chain
