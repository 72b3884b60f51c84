import Mathlib.Data.List.Sort

namespace IcoDashboard.Data.StableSort

/-! # Stable sorting by a key

Entries with the same key keep their order, so the first entry of the sorted list
is the earliest of the least and the last one the latest of the greatest.
-/

variable {α κ : Type} [LinearOrder κ] (key : α → κ)

def sortBy (list : List α) : List α :=
  list.insertionSort fun first second => key first ≤ key second

variable {list : List α}

theorem mem_sortBy {entry : α} : entry ∈ sortBy key list ↔ entry ∈ list :=
  List.mem_insertionSort _

variable {key}

theorem sortBy_pairwise (list : List α) :
    (sortBy key list).Pairwise fun first second => key first ≤ key second := by
  have : Std.Total fun first second : α => key first ≤ key second :=
    ⟨fun first second => le_total (key first) (key second)⟩
  have : IsTrans α fun first second : α => key first ≤ key second :=
    ⟨fun _ _ _ below above => below.trans above⟩
  exact List.pairwise_insertionSort _ list

/-- The sort is stable. -/
theorem filter_sortBy (list : List α) (value : κ) :
    (sortBy key list).filter (fun entry => key entry = value) =
      list.filter fun entry => key entry = value := by
  have alike : (list.filter fun entry => key entry = value).Pairwise
      fun first second => key first ≤ key second := by
    refine List.pairwise_of_forall_mem_list fun first isFirst second isSecond => ?_
    have firstKey : key first = value := by simpa using (List.mem_filter.mp isFirst).2
    have secondKey : key second = value := by simpa using (List.mem_filter.mp isSecond).2
    rw [firstKey, secondKey]
  have inside := (List.sublist_insertionSort alike List.filter_sublist).filter
    fun entry => decide (key entry = value)
  rw [List.filter_filter] at inside
  simp only [Bool.and_self] at inside
  have sizes := ((List.perm_insertionSort (fun first second => key first ≤ key second) list).filter
    fun entry => decide (key entry = value)).length_eq
  exact (inside.eq_of_length sizes.symm).symm

/-- The first of a sorted list is the earliest of the least. -/
theorem head_sortBy {first : α} (head : (sortBy key list).head? = some first) :
    (∀ other ∈ list, key first ≤ key other) ∧
      (list.filter fun entry => key entry = key first).head? = some first := by
  obtain ⟨rest, sorted⟩ := List.head?_eq_some_iff.mp head
  refine ⟨fun other member => ?_, ?_⟩
  · have ordered := @sortBy_pairwise α κ _ key list
    have listed := (mem_sortBy key).mpr member
    rw [sorted] at ordered listed
    rcases List.mem_cons.mp listed with same | later
    · rw [same]
    · exact (List.pairwise_cons.mp ordered).1 other later
  · rw [← filter_sortBy, sorted, List.filter_cons_of_pos (by simp)]
    rfl

/-- The last of a sorted list is the latest of the greatest. -/
theorem last_sortBy {last : α} (ending : (sortBy key list).getLast? = some last) :
    (∀ other ∈ list, key other ≤ key last) ∧
      (list.filter fun entry => key entry = key last).getLast? = some last := by
  obtain ⟨front, sorted⟩ := List.getLast?_eq_some_iff.mp ending
  refine ⟨fun other member => ?_, ?_⟩
  · have ordered := @sortBy_pairwise α κ _ key list
    have listed := (mem_sortBy key).mpr member
    rw [sorted] at ordered listed
    rcases List.mem_append.mp listed with earlier | same
    · exact (List.pairwise_append.mp ordered).2.2 other earlier last (List.mem_singleton.mpr rfl)
    · rw [List.mem_singleton.mp same]
  · rw [← filter_sortBy, sorted, List.filter_append, List.filter_cons_of_pos (by simp),
      List.filter_nil, List.getLast?_concat]

end IcoDashboard.Data.StableSort
