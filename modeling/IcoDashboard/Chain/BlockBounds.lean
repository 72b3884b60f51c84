import IcoDashboard.Chain.Cursor

namespace IcoDashboard.Chain

open IcoDashboard.Async IcoDashboard.Async.Program IcoDashboard.Data
open TransactionService Web3Handler

/-! # Bounds of the checked blocks

The loop of the job starts at the block that Redis remembers, or at the
configured one, less the offset.  Nothing keeps that from being negative.
-/

variable {app : App} {web3 : Web3} {state : ChainState} {world : World} {trace : ChainTrace}
  {last : Option Nat} {current : Nat} {range : List Int}

/-- The block before the offset is taken off. -/
def startBlock (app : App) (lastCheckedBlock : Option Nat) : Int :=
  (lastCheckedBlock.map Int.ofNat).getD app.config.startBlock

theorem firstBlock_eq (app : App) (last : Option Nat) :
    firstBlock app last = startBlock app last - app.config.blockOffset := rfl

/-- The loop of the job and what follows it. -/
def loop (app : App) (web3 : Web3) (last : Option Nat) (current : Nat) : Handler Unit := do
  forEach (blockRange (firstBlock app last) current) fun block =>
    processBlock app web3 (.number block)
  request (.setLastCheckedBlock current)

/-- The blocks that a run in its loop has passed to `getBlock`: those of the calls
since and the one of the call it awaits. -/
def PassesBlock (after : ChainTrace) (program : Handler Unit) (number : Int) : Prop :=
  (∃ answer, ⟨.getBlock (.number number), answer⟩ ∈ after) ∨
    ∃ resume, program = .await (.getBlock (.number number)) resume

/-- All of them exist on the chain that the run has read. -/
def BlocksExist (current : Nat) (after : ChainTrace) (program : Handler Unit) : Prop :=
  ∀ number, PassesBlock after program number → 0 ≤ number ∧ number < current

/-- A run of the job that has read both blocks, and its calls since. -/
structure InLoop (state : ChainState) (thread : Nat) (current : Nat) (last : Option Nat)
    (after : ChainTrace) (program : Handler Unit) : Prop where
  found : state.threads[thread]? = some ⟨.checkAndRestoreTransactions, program⟩
  read : ∃ before, localTrace thread state.log =
    before ++ ⟨.getBlockNumber, .ok current⟩ :: ⟨.getLastCheckedBlock, .ok last⟩ :: after

/-! ## The calls of the parts -/

def NoHeight (op : Op) : Prop := op ≠ .getBlockNumber

/-- In the loop only blocks of its range are fetched. -/
def LoopCall (range : List Int) : Op → Prop
  | .getBlock (.number number) => number ∈ range
  | .getBlockNumber => False
  | _ => True

theorem processTokenTransfer_noHeight (data : TransferEvent) :
    (processTokenTransfer web3 data).Meets (fun _ op => NoHeight op) (fun _ _ => True)
      (fun _ _ => True) trace := by
  simp only [processTokenTransfer, request, call, meets_bind, meets_await, meets_done, meets_fail,
    NoHeight, implies_true, and_true, ne_eq, reduceCtorEq, not_false_eq_true, true_and]
  intro found received
  cases received with
  | none => trivial
  | some receipt => cases found <;> simp

theorem processReferralTransfer_noHeight (data : ReferralTransferEvent) :
    (processReferralTransfer web3 data).Meets (fun _ op => NoHeight op) (fun _ _ => True)
      (fun _ _ => True) trace := by
  simp only [processReferralTransfer, request, call, meets_bind, meets_await, meets_done, meets_fail,
    NoHeight, implies_true, and_true, ne_eq, reduceCtorEq, not_false_eq_true, true_and]
  intro existing
  cases existing with
  | some _ => trivial
  | none =>
      simp only [meets_bind, meets_await, meets_done, meets_fail, implies_true, and_true,
        reduceCtorEq, not_false_eq_true, true_and]
      intro received
      cases received <;> simp

theorem processTransaction_loopCall (blockData : BlockData) (tx : TransactionData) :
    (processTransaction app web3 blockData tx).Meets (fun _ op => LoopCall range op)
      (fun _ _ => True) (fun _ _ => True) trace := by
  simp only [processTransaction, request, call, meets_bind, meets_await, meets_done, meets_fail,
    LoopCall, implies_true, and_true, true_and]
  intro received
  cases received with
  | none => trivial
  | some receipt =>
      simp only [saveConfirmedTransaction, getTxByTxData, request, call, meets_bind, meets_ofExcept,
        meets_await, meets_done, meets_fail, implies_true, and_true, true_and]
      intro addresses _ found
      cases found <;> simp [getUserCountByTxData, createAndSaveTransaction, updateTx, request, call]

theorem processBlock_loopCall {number : Int} (member : number ∈ range) :
    (processBlock app web3 (.number number)).Meets (fun _ op => LoopCall range op)
      (fun _ _ => True) (fun _ _ => True) trace := by
  simp only [processBlock, request, call, meets_bind, meets_await, meets_done, meets_fail,
    meets_orThrow, LoopCall, implies_true, and_true]
  exact ⟨member, fun _ blockData _ =>
    Meets.forEach fun tx _ _ => processTransaction_loopCall blockData tx⟩

theorem loop_loopCall :
    (loop app web3 last current).Meets
      (fun _ op => LoopCall (blockRange (firstBlock app last) current) op) (fun _ _ => True)
      (fun _ _ => True) trace := by
  rw [loop, meets_bind]
  refine (Meets.forEach fun number member _ => processBlock_loopCall member).after fun _ _ _ => ?_
  simp [request, call, LoopCall]

theorem loop_noHeight :
    (loop app web3 last current).Meets (fun _ op => NoHeight op) (fun _ _ => True) (fun _ _ => True)
      trace := by
  refine loop_loopCall.mono (fun _ op fine asks => ?_) (fun _ _ _ => trivial) (fun _ _ _ => trivial)
  rw [asks] at fine
  exact fine

/-! ## A run in its loop -/

/-- After the two reads a run goes through the loop. -/
theorem loop_follows {program : Handler Unit} {before after : ChainTrace}
    (followed : (checkAndRestoreTransactions app web3).Follows
      (before ++ ⟨.getBlockNumber, .ok current⟩ :: ⟨.getLastCheckedBlock, .ok last⟩ :: after) program) :
    (loop app web3 last current).Follows after program := by
  unfold checkAndRestoreTransactions at followed
  have heights : ¬ NoHeight .getBlockNumber := fun height => height rfl
  have reading : ∀ op, NoHeight op →
      (request op).Meets (fun _ op => NoHeight op) (fun _ _ => True) (fun _ _ => True) [] :=
    fun op quiet => by simpa [request, call] using quiet
  obtain ⟨transfers, _, before, _, _, followed⟩ :=
    followed.second (reading .getPastTransfers (by simp [NoHeight])) heights
  obtain ⟨_, _, before, _, _, followed⟩ := followed.second
    (Meets.forEach fun data _ _ => processTokenTransfer_noHeight data) heights
  obtain ⟨referrals, _, before, _, _, followed⟩ :=
    followed.second (reading .getPastReferralTransfers (by simp [NoHeight])) heights
  obtain ⟨_, _, before, _, _, followed⟩ := followed.second
    (Meets.forEach fun data _ _ => processReferralTransfer_noHeight data) heights
  -- the job asks for the height once, so the two reads are its last ones
  obtain ⟨_, followed⟩ := followed.first (fun height => by
    rw [meets_bind]
    exact (reading .getLastCheckedBlock (by simp [NoHeight])).after fun _ _ _ => loop_noHeight) heights
  cases followed with
  | next tail => exact tail

theorem PassesBlock.mem {program : Handler Unit} {after : ChainTrace} {number : Int}
    (passes : PassesBlock after program number) (followed : (loop app web3 last current).Follows after program) :
    number ∈ blockRange (firstBlock app last) current := by
  rcases passes with ⟨answer, member⟩ | ⟨resume, awaits⟩
  · exact (@loop_loopCall app web3 [] last current).calls followed
      ⟨.getBlock (.number number), answer⟩ member
  · have met := (@loop_loopCall app web3 [] last current).follow followed
    rw [awaits] at met
    exact met.1

theorem blockRange_first {first : Int} (below : first < current) :
    ∃ rest, blockRange first current = first :: rest := by
  obtain ⟨count, positive⟩ : ∃ count, (current - first).toNat = count + 1 :=
    ⟨(current - first).toNat - 1, by omega⟩
  refine ⟨(blockRange first current).tail, ?_⟩
  simp only [blockRange, positive, List.range_succ_eq_map, List.bind_eq_flatMap, List.pure_def,
    List.flatMap_cons, List.map_cons, Nat.cast_zero, add_zero, List.singleton_append, List.tail_cons]

/-- The loop does not look at the bound below before it fetches a block. -/
theorem first_passed {program : Handler Unit} {after : ChainTrace}
    (followed : (loop app web3 last current).Follows after program)
    (below : firstBlock app last < current) : PassesBlock after program (firstBlock app last) := by
  obtain ⟨rest, range⟩ := blockRange_first below
  rw [loop, range] at followed
  cases followed with
  | here => exact .inr ⟨_, rfl⟩
  | next tail => exact .inl ⟨_, List.mem_cons_self⟩

/-- In every state that any requests come to, a run of the job has fetched existing
blocks alone exactly if the offset does not reach below the first block. -/
theorem blocksExist_iff {thread : Nat} {after : ChainTrace} {program : Handler Unit}
    (reached : (handlers app web3).Reachable (.idle world) state)
    (inLoop : InLoop state thread current last after program) :
    BlocksExist current after program ↔ app.config.blockOffset ≤ startBlock app last := by
  obtain ⟨before, read⟩ := inLoop.read
  have whole := reached.follows inLoop.found
  rw [read] at whole
  have followed := loop_follows whole
  have first := firstBlock_eq app last
  constructor
  · intro exist
    by_contra beyond
    have passes := first_passed followed (by omega)
    have lower := (exist _ passes).1
    omega
  · intro reaches number passes
    have bounds := mem_blockRange.mp (passes.mem followed)
    exact ⟨by omega, bounds.2⟩

/-! ## A job that never ends -/

/-- The node has no block of a negative number. -/
def NoNegative (_ : ChainState) : Action Choice Request → Prop
  | .start _ => True
  | .resume _ choice => ∀ number < 0, choice.node.getBlock (.number number) = none

structure StuckInvariant (state : ChainState) : Prop where
  unremembered : state.world.lastCheckedBlock = none
  unread : ∀ thread block, ⟨thread, ⟨.getLastCheckedBlock, .ok (some block)⟩⟩ ∉ state.log
  unfetched : ∀ thread number blockData, number < 0 →
    ⟨thread, ⟨.getBlock (.number number), .ok (some blockData)⟩⟩ ∉ state.log

/-- A run that has fetched its whole range has fetched a negative block. -/
theorem StuckInvariant.unfinished (beyond : app.config.startBlock < app.config.blockOffset)
    (holds : StuckInvariant state) (thread current : Nat) :
    ¬ RangeFetched app web3 (localTrace thread state.log) current := by
  rintro ⟨last, member, fetched⟩
  cases last with
  | some block => exact holds.unread thread block (mem_localTrace.mp member)
  | none =>
      have negative : firstBlock app none < 0 := by
        rw [firstBlock_eq]
        change app.config.startBlock - app.config.blockOffset < 0
        omega
      obtain ⟨blockData, before, after, split, _⟩ :=
        fetched _ (mem_blockRange.mpr ⟨Int.le_refl _, by omega⟩)
      refine holds.unfetched thread _ blockData negative (mem_localTrace.mp ?_)
      rw [split]
      exact List.mem_append_right _ List.mem_cons_self

theorem stuckInvariant_step (beyond : app.config.startBlock < app.config.blockOffset)
    (reached : (handlers app web3).Reachable (.idle world) state) (holds : StuckInvariant state)
    {action : Action Choice Request} (allowed : NoNegative state action) :
    StuckInvariant ((handlers app web3).step state action) := by
  rcases (handlers app web3).step_cases state action with same | ⟨request, _, started⟩ |
    ⟨thread, choice, request, op, resume, rfl, awaiting, resumed⟩
  · rw [same]
    exact holds
  · rw [started]
    exact ⟨holds.unremembered, holds.unread, holds.unfetched⟩
  · have guard := (reached.guarded handle_meets awaiting).1
    rw [resumed]
    refine ⟨?_, fun other block member => ?_, fun other number blockData negative member => ?_⟩
    · cases moved : (perform choice op state.world).2.lastCheckedBlock with
      | none => exact moved
      | some block =>
          rcases perform_cursor moved with before | rfl
          · rw [holds.unremembered] at before
            cases before
          · cases request with
            | checkAndRestoreTransactions => exact (holds.unfinished beyond thread block guard).elim
            | _ => exact guard.elim
    · rcases mem_performed_ok member with before | ⟨rfl, answered⟩
      · exact holds.unread other block before
      · have remembered : state.world.lastCheckedBlock = some block := Except.ok.inj answered
        rw [holds.unremembered] at remembered
        cases remembered
    · rcases mem_performed_ok member with before | ⟨rfl, answered⟩
      · exact holds.unfetched other number blockData negative before
      · have shown : choice.node.getBlock (.number number) = some blockData := Except.ok.inj answered
        rw [allowed number negative] at shown
        cases shown

/-- Where the offset reaches below the configured block, no run of the job ever
gets to remember a block. -/
theorem never_remembered (beyond : app.config.startBlock < app.config.blockOffset)
    {actions : List (Action Choice Request)}
    (allowed : (handlers app web3).Along NoNegative (.idle { world with lastCheckedBlock := none })
      actions) :
    ((handlers app web3).run (.idle { world with lastCheckedBlock := none }) actions).world.lastCheckedBlock
      = none := by
  have holds : StuckInvariant
      ((handlers app web3).run (.idle { world with lastCheckedBlock := none }) actions) :=
    System.run_induction (fun _ _ reached holds allowed =>
      stuckInvariant_step beyond reached holds allowed) .initial
      ⟨rfl, fun _ _ member => (nomatch member), fun _ _ _ _ member => nomatch member⟩ allowed
  exact holds.unremembered

/-! ## A late and an early run -/

/-- The job is started and has read the blocks. -/
def readsBlocks (height : Nat) : List (Action Choice Request) :=
  .start .checkAndRestoreTransactions ::
    List.replicate 4 (.resume 0 { node := { blockNumber := height } })

def eventReads : ChainTrace := [⟨.getPastTransfers, .ok []⟩, ⟨.getPastReferralTransfers, .ok []⟩]

/-- With the configuration by default and no remembered block, a first run fetches
block -199. -/
theorem firstRun_negative :
    1 ≤ App.plain.config.startBlock ∧ 1 ≤ App.plain.config.blockOffset ∧
      ∃ program, InLoop ((handlers .plain .sample).run (.idle {}) (readsBlocks 10)) 0 10 none []
          program ∧
        PassesBlock [] program (-199) ∧ ¬ BlocksExist 10 [] program := by
  have passes : PassesBlock [] (loop .plain .sample none 10) (-199) := .inr ⟨_, rfl⟩
  refine ⟨by decide, by decide, _, ⟨rfl, eventReads, rfl⟩, passes, fun exist => ?_⟩
  have lower := (exist _ passes).1
  omega

/-- A run that remembers block 300. -/
theorem laterRun_exists :
    ∃ program, InLoop ((handlers .plain .sample).run (.idle { lastCheckedBlock := some 300 })
        (readsBlocks 310)) 0 310 (some 300) [] program ∧ BlocksExist 310 [] program := by
  have inLoop : InLoop ((handlers .plain .sample).run (.idle { lastCheckedBlock := some 300 })
      (readsBlocks 310)) 0 310 (some 300) [] (loop .plain .sample (some 300) 310) :=
    ⟨rfl, eventReads, rfl⟩
  exact ⟨_, inLoop, (blocksExist_iff (System.reachable_run _ _) inLoop).mpr (by decide)⟩

end IcoDashboard.Chain
