import Mathlib.Algebra.GroupWithZero.Nat
import Mathlib.Data.List.Induction

namespace IcoDashboard.Data.Windows

/-! # Windows of time

A log of batches, each at a time and of a size, oldest first.  A bound on the
size of the log in every window of one length can be checked batch by batch, by
looking back from each.
-/

structure Batch where
  time : Nat
  size : Nat
deriving DecidableEq, Repr

def total (log : List Batch) : Nat := (log.map Batch.size).sum

@[simp] theorem total_nil : total [] = 0 := rfl

@[simp] theorem total_cons (batch : Batch) (log : List Batch) :
    total (batch :: log) = batch.size + total log := by
  simp [total]

@[simp] theorem total_append (first second : List Batch) :
    total (first ++ second) = total first + total second := by
  simp [total]

/-- The size of the log in the window that starts at a moment. -/
def within (length start : Nat) (log : List Batch) : Nat :=
  total (log.filter fun batch => start ≤ batch.time ∧ batch.time < start + length)

/-- The size of the log in the window that ends at a moment. -/
def recent (length now : Nat) (log : List Batch) : Nat :=
  total (log.filter fun batch => now < batch.time + length)

theorem recent_snoc (length now : Nat) (log : List Batch) (batch : Batch) :
    recent length now (log ++ [batch]) =
      recent length now log + if now < batch.time + length then batch.size else 0 := by
  by_cases inside : now < batch.time + length
  · simp [recent, inside]
  · simp [recent, inside]

theorem total_filter_le {log : List Batch} {first second : Batch → Bool}
    (weaker : ∀ batch ∈ log, first batch = true → second batch = true) :
    total (log.filter first) ≤ total (log.filter second) := by
  induction log with
  | nil => exact Nat.le_refl _
  | cons batch rest ih =>
      have tail := ih fun other member => weaker other (List.mem_cons_of_mem _ member)
      by_cases selected : first batch = true
      · have also : second batch = true := weaker batch List.mem_cons_self selected
        rw [List.filter_cons_of_pos selected, List.filter_cons_of_pos also, total_cons, total_cons]
        omega
      · rw [List.filter_cons_of_neg selected]
        by_cases also : second batch = true
        · rw [List.filter_cons_of_pos also, total_cons]
          omega
        · rw [List.filter_cons_of_neg also]
          exact tail

theorem within_append (length start : Nat) (first second : List Batch) :
    within length start (first ++ second) =
      within length start first + within length start second := by
  rw [within, List.filter_append, total_append]
  rfl

theorem within_singleton (length start : Nat) (batch : Batch) :
    within length start [batch] =
      if start ≤ batch.time ∧ batch.time < start + length then batch.size else 0 := by
  unfold within
  by_cases inside : start ≤ batch.time ∧ batch.time < start + length
  · rw [if_pos inside, List.filter_cons_of_pos]
    · rfl
    · exact decide_eq_true inside
  · rw [if_neg inside, List.filter_cons_of_neg]
    · rfl
    · simpa using inside

/-- A batch in the window shares the window that ends with it with every earlier
batch of the window. -/
theorem within_le_recent {length start now : Nat} (inside : now < start + length)
    (log : List Batch) : within length start log ≤ recent length now log := by
  apply total_filter_le
  intro batch _ selected
  simp only [decide_eq_true_eq] at selected ⊢
  omega

variable {length bound : Nat} {log : List Batch}

/-- Looking back from each batch bounds every window. -/
theorem within_bounded (bounded : ∀ earlier batch later, log = earlier ++ batch :: later →
    recent length batch.time earlier + batch.size ≤ bound) (start : Nat) :
    within length start log ≤ bound := by
  induction log using List.reverseRecOn with
  | nil => exact Nat.zero_le _
  | append_singleton front last ih =>
      rw [within_append]
      by_cases inside : start ≤ last.time ∧ last.time < start + length
      · have looking := bounded front last [] rfl
        have shared := within_le_recent inside.2 front
        rw [within_singleton, if_pos inside]
        omega
      · rw [within_singleton, if_neg inside, Nat.add_zero]
        refine ih fun earlier batch later split => ?_
        exact bounded earlier batch (later ++ [last]) (by rw [split]; simp)

/-- A bound on every window bounds what each batch looks back on. -/
theorem recent_bounded (positive : 0 < length)
    (sorted : log.Pairwise fun earlier later => earlier.time ≤ later.time)
    (bounded : ∀ start, within length start log ≤ bound) {earlier later : List Batch}
    {batch : Batch} (split : log = earlier ++ batch :: later) :
    recent length batch.time earlier + batch.size ≤ bound := by
  have start := bounded (batch.time + 1 - length)
  have inside : batch.time + 1 - length ≤ batch.time ∧
      batch.time < batch.time + 1 - length + length := by omega
  rw [split, List.append_cons, within_append, within_append, within_singleton, if_pos inside] at start
  have before : recent length batch.time earlier ≤
      within length (batch.time + 1 - length) earlier := by
    apply total_filter_le
    intro other member selected
    have ordered : other.time ≤ batch.time := by
      rw [split] at sorted
      exact (List.pairwise_append.mp sorted).2.2 other member batch List.mem_cons_self
    simp only [decide_eq_true_eq] at selected ⊢
    omega
  omega

/-- A log with times in order is bounded in every window exactly when each batch
fits in what the window that ends with it leaves. -/
theorem within_bounded_iff (positive : 0 < length)
    (sorted : log.Pairwise fun earlier later => earlier.time ≤ later.time) :
    (∀ start, within length start log ≤ bound) ↔
      ∀ earlier batch later, log = earlier ++ batch :: later →
        recent length batch.time earlier + batch.size ≤ bound :=
  ⟨fun bounded _ _ _ split => recent_bounded positive sorted bounded split, within_bounded⟩

end IcoDashboard.Data.Windows
