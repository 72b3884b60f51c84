import Mathlib.Data.List.Basic

namespace IcoDashboard.Data.Base64

/-! # Base64

Three bytes are four digits of six bits.  The last group is padded.
-/

def alphabet : List Char :=
  "ABCDEFGHIJKLMNOPQRSTUVWXYZabcdefghijklmnopqrstuvwxyz0123456789+/".toList

def digit (value : Nat) : Char := alphabet.getD value '+'

def encode : List UInt8 → List Char
  | [] => []
  | [a] => [digit (a.toNat / 4), digit (a.toNat % 4 * 16), '=', '=']
  | [a, b] => [digit (a.toNat / 4), digit (a.toNat % 4 * 16 + b.toNat / 16),
      digit (b.toNat % 16 * 4), '=']
  | a :: b :: c :: rest =>
      digit (a.toNat / 4) :: digit (a.toNat % 4 * 16 + b.toNat / 16) ::
        digit (b.toNat % 16 * 4 + c.toNat / 64) :: digit (c.toNat % 64) :: encode rest

/-- The URL-safe alphabet is read too. -/
def value (char : Char) : Option Nat :=
  if char = '-' then some 62 else if char = '_' then some 63 else alphabet.findIdx? (· = char)

def bytes : List Nat → List UInt8
  | a :: b :: c :: d :: rest =>
      .ofNat (a * 4 + b / 16) :: .ofNat (b % 16 * 16 + c / 4) :: .ofNat (c % 4 * 64 + d) ::
        bytes rest
  | [a, b, c] => [.ofNat (a * 4 + b / 16), .ofNat (b % 16 * 16 + c / 4)]
  | [a, b] => [.ofNat (a * 4 + b / 16)]
  | _ => []

/-- Reading stops at the padding and skips what is not in the alphabet. -/
def decode (chars : List Char) : List UInt8 :=
  bytes ((chars.takeWhile (· ≠ '=')).filterMap value)

/-! ## Digits -/

/-- The values of the digits of some bytes. -/
def values : List UInt8 → List Nat
  | [] => []
  | [a] => [a.toNat / 4, a.toNat % 4 * 16]
  | [a, b] => [a.toNat / 4, a.toNat % 4 * 16 + b.toNat / 16, b.toNat % 16 * 4]
  | a :: b :: c :: rest =>
      a.toNat / 4 :: (a.toNat % 4 * 16 + b.toNat / 16) :: (b.toNat % 16 * 4 + c.toNat / 64) ::
        c.toNat % 64 :: values rest

/-- The number of padding characters after some digits. -/
def padding (digits : Nat) : Nat := (4 - digits % 4) % 4

variable {data : List UInt8}

theorem values_lt : ∀ value ∈ values data, value < 64 := by
  induction data using values.induct with
  | case1 => simp [values]
  | case2 a =>
      have byte := a.toNat_lt
      simp only [values, List.forall_mem_cons]
      exact ⟨by omega, by omega, List.forall_mem_nil _⟩
  | case3 a b =>
      have first := a.toNat_lt
      have second := b.toNat_lt
      simp only [values, List.forall_mem_cons]
      exact ⟨by omega, by omega, by omega, List.forall_mem_nil _⟩
  | case4 a b c rest ih =>
      have first := a.toNat_lt
      have second := b.toNat_lt
      have third := c.toNat_lt
      simp only [values, List.forall_mem_cons]
      exact ⟨by omega, by omega, by omega, by omega, ih⟩

theorem encode_eq :
    encode data = (values data).map digit ++ List.replicate (padding (values data).length) '=' := by
  induction data using encode.induct with
  | case1 => rfl
  | case2 a => rfl
  | case3 a b => rfl
  | case4 a b c rest ih =>
      have same : padding ((values rest).length + 1 + 1 + 1 + 1) = padding (values rest).length := by
        unfold padding
        omega
      simp only [encode, values, ih, List.map_cons, List.length_cons, same, List.cons_append]

/-- Of four digits at least two are written. -/
theorem values_length : (values data).length % 4 ≠ 1 := by
  induction data using values.induct with
  | case1 => simp [values]
  | case2 a => simp [values]
  | case3 a b => simp [values]
  | case4 a b c rest ih =>
      simp only [values, List.length_cons]
      omega

theorem bytes_values : bytes (values data) = data := by
  have byte : ∀ (own : UInt8) (number : Nat), number = own.toNat → UInt8.ofNat number = own := by
    intro own number same
    rw [same, UInt8.ofNat_toNat]
  induction data using values.induct with
  | case1 => rfl
  | case2 a =>
      have first := a.toNat_lt
      simp only [values, bytes]
      rw [byte a _ (by omega)]
  | case3 a b =>
      have first := a.toNat_lt
      have second := b.toNat_lt
      simp only [values, bytes]
      rw [byte a _ (by omega), byte b _ (by omega)]
  | case4 a b c rest ih =>
      have first := a.toNat_lt
      have second := b.toNat_lt
      have third := c.toNat_lt
      simp only [values, bytes, ih]
      rw [byte a _ (by omega), byte b _ (by omega), byte c _ (by omega)]

/-! ## Reading back -/

theorem value_digit : ∀ number < 64, value (digit number) = some number := by decide +kernel

theorem digit_ne_padding : ∀ number < 64, digit number ≠ '=' := by decide +kernel

theorem decode_digits {numbers : List Nat} (small : ∀ number ∈ numbers, number < 64) (count : Nat) :
    decode (numbers.map digit ++ List.replicate count '=') = bytes numbers := by
  have digits : (numbers.map digit ++ List.replicate count '=').takeWhile (· ≠ '=') =
      numbers.map digit := by
    have stops : (List.replicate count '=').takeWhile (· ≠ '=') = [] := by
      cases count <;> simp [List.replicate_succ]
    rw [List.takeWhile_append_of_pos, stops, List.append_nil]
    intro char member
    obtain ⟨number, listed, same⟩ := List.mem_map.mp member
    rw [← same]
    exact decide_eq_true (digit_ne_padding number (small number listed))
  have read : (numbers.map digit).filterMap value = numbers := by
    rw [List.filterMap_map]
    have each : ∀ number ∈ numbers, (value ∘ digit) number = some number :=
      fun number listed => value_digit number (small number listed)
    rw [List.filterMap_congr each, List.filterMap_some]
  rw [decode, digits, read]

theorem decode_encode : decode (encode data) = data := by
  rw [encode_eq, decode_digits values_lt, bytes_values]

end IcoDashboard.Data.Base64
