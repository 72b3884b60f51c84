import Mathlib.Data.List.Induction
import Mathlib.Tactic.Ring

namespace IcoDashboard.Data.Digits

/-! # Positional notation

Numbers written with the most significant digit first, in a fixed number of
places.
-/

variable {base length number last : Nat} {digits : List Nat}

def value (base : Nat) (digits : List Nat) : Nat :=
  digits.foldl (fun value digit => value * base + digit) 0

/-- The digits of a number in as many places. -/
def digitsOf (base length number : Nat) : List Nat :=
  (List.range length).reverse.map fun place => number / base ^ place % base

@[simp] theorem value_nil : value base [] = 0 := rfl

@[simp] theorem value_concat : value base (digits ++ [last]) = value base digits * base + last := by
  simp [value]

@[simp] theorem length_digitsOf : (digitsOf base length number).length = length := by
  simp [digitsOf]

/-- The last place is the remainder, the others are the digits of the quotient. -/
theorem digitsOf_succ :
    digitsOf base (length + 1) number = digitsOf base length (number / base) ++ [number % base] := by
  have shifted : ∀ place, number / base ^ (place + 1) = number / base / base ^ place := by
    intro place
    rw [Nat.pow_succ', Nat.div_div_eq_div_mul]
  simp [digitsOf, List.range_succ_eq_map, Function.comp_def, shifted]

theorem digitsOf_lt (positive : 0 < base) : ∀ digit ∈ digitsOf base length number, digit < base := by
  intro digit member
  obtain ⟨place, _, rfl⟩ := List.mem_map.mp member
  exact Nat.mod_lt _ positive

theorem value_lt (below : ∀ digit ∈ digits, digit < base) : value base digits < base ^ digits.length := by
  induction digits using List.reverseRecOn with
  | nil => simp
  | append_singleton front last ih =>
      have bounded := ih fun digit member => below digit (List.mem_append_left _ member)
      have lastBelow := below last (by simp)
      rw [value_concat, List.length_append, List.length_singleton, Nat.pow_succ]
      calc value base front * base + last < value base front * base + base := by omega
        _ = (value base front + 1) * base := by ring
        _ ≤ base ^ front.length * base := Nat.mul_le_mul_right _ bounded

/-- A number is written in one way. -/
theorem value_eq_iff (below : ∀ digit ∈ digits, digit < base)
    (fits : number < base ^ digits.length) :
    value base digits = number ↔ digits = digitsOf base digits.length number := by
  induction digits using List.reverseRecOn generalizing number with
  | nil =>
      have zero : number = 0 := by simpa using fits
      simp [zero, digitsOf]
  | append_singleton front last ih =>
      have lastBelow := below last (by simp)
      have positive : 0 < base := by omega
      rw [List.length_append, List.length_singleton, Nat.pow_succ] at fits
      have quotient := @ih (number / base)
        (fun digit member => below digit (List.mem_append_left _ member))
        (Nat.div_lt_of_lt_mul (by rw [Nat.mul_comm]; exact fits))
      rw [value_concat, List.length_append, List.length_singleton, digitsOf_succ]
      constructor
      · intro same
        have high : number / base = value base front := by
          rw [← same, Nat.mul_comm, Nat.mul_add_div positive, Nat.div_eq_of_lt lastBelow, Nat.add_zero]
        have low : number % base = last := by
          rw [← same, Nat.mul_comm, Nat.mul_add_mod, Nat.mod_eq_of_lt lastBelow]
        rw [low, ← quotient.mp high.symm]
      · intro same
        obtain ⟨fronts, lasts⟩ := List.append_inj' same rfl
        rw [quotient.mpr fronts, List.singleton_inj.mp lasts, Nat.mul_comm]
        exact Nat.div_add_mod number base

end IcoDashboard.Data.Digits
