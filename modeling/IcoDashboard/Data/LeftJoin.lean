import Mathlib.Data.List.Basic

namespace IcoDashboard.Data

/-! # Left joins

Every row on the left is paired with each of its matches on the right, and stays
alone when it has none.
-/

namespace LeftJoin

variable {α β : Type} (matching : α → List β)

/-- The pairs of one row. -/
def pairs (row : α) : List (α × Option β) :=
  match matching row with
  | [] => [(row, none)]
  | found => found.map fun other => (row, some other)

def leftJoin (rows : List α) : List (α × Option β) := rows.flatMap (pairs matching)

/-- The pairs with a match. -/
def matched (rows : List α) : List (α × β) :=
  rows.flatMap fun row => (matching row).map fun other => (row, other)

def unmatched (rows : List α) : List α := rows.filter fun row => (matching row).isEmpty

variable {matching} {rows : List α} {row : α}

theorem pairs_none (none : matching row = []) : pairs matching row = [(row, .none)] := by
  rw [pairs, none]

theorem pairs_some (some : matching row ≠ []) :
    pairs matching row = (matching row).map fun other => (row, .some other) := by
  unfold pairs
  split
  · contradiction
  · rfl

/-- A left join is made of its matched pairs and its unmatched rows. -/
theorem leftJoin_perm : (leftJoin matching rows).Perm
    ((matched matching rows).map (fun pair => (pair.1, some pair.2)) ++
      (unmatched matching rows).map fun row => (row, none)) := by
  induction rows with
  | nil => exact List.Perm.refl _
  | cons row rest ih =>
      by_cases alone : matching row = []
      · have first : leftJoin matching (row :: rest) = (row, none) :: leftJoin matching rest := by
          rw [leftJoin, List.flatMap_cons, pairs_none alone]
          rfl
        have same : matched matching (row :: rest) = matched matching rest := by
          rw [matched, List.flatMap_cons, alone]
          rfl
        have added : unmatched matching (row :: rest) = row :: unmatched matching rest := by
          simp [unmatched, alone]
        rw [first, same, added, List.map_cons]
        exact (ih.cons _).trans List.perm_middle.symm
      · have first : leftJoin matching (row :: rest) =
            (matching row).map (fun other => (row, some other)) ++ leftJoin matching rest := by
          rw [leftJoin, List.flatMap_cons, pairs_some alone]
          rfl
        have added : matched matching (row :: rest) =
            (matching row).map (fun other => (row, other)) ++ matched matching rest := by
          rw [matched, List.flatMap_cons]
          rfl
        have same : unmatched matching (row :: rest) = unmatched matching rest := by
          simp [unmatched, alone]
        rw [first, added, same, List.map_append, List.map_map, List.append_assoc]
        exact ih.append_left _

end LeftJoin
end IcoDashboard.Data
