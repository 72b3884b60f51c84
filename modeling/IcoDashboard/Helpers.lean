import IcoDashboard.Data.Base64
import IcoDashboard.Data.Utf8
import IcoDashboard.Platform

namespace IcoDashboard.Helpers

open IcoDashboard.Data

/-! # URL-safe base64

Base64 with `+`, `/` replaced by `-`, `_` and the padding removed, and back.
-/

/-- `Buffer.from(text, 'utf8').toString('base64')` -/
def toBase64 (text : String) : String := String.ofList (Base64.encode text.toUTF8.toList)

/-- `replace(/…/g, …)` of one character by another. -/
def replaceChar (old new : Char) (chars : List Char) : List Char :=
  chars.map fun char => if char = old then new else char

def escape (text : String) : String :=
  String.ofList ((replaceChar '/' '_' (replaceChar '+' '-' text.toList)).filter (· ≠ '='))

def base64encode (text : String) : String := escape (toBase64 text)

/-- Adds the padding that the length asks for. -/
def unescape (text : String) : String :=
  let padding := "===".toList.drop (((utf16 text).length + 3) % 4)
  String.ofList (replaceChar '_' '/' (replaceChar '-' '+' (text.toList ++ padding)))

/-- `Buffer.from(text, 'base64')` -/
def fromBase64 (text : String) : List UInt8 := Base64.decode text.toList

def base64decode (text : String) : String :=
  String.ofList (Utf8.decode (fromBase64 (unescape text)))

/-! ## The escaped digits -/

/-- A digit after `escape`. -/
def urlDigit (number : Nat) : Char :=
  let char := if Base64.digit number = '+' then '-' else Base64.digit number
  if char = '/' then '_' else char

/-- The characters that stand for themselves in a URL. -/
def UrlSafe (char : Char) : Prop := char.isAlphanum = true ∨ char = '-' ∨ char = '_'

instance : DecidablePred UrlSafe := fun _ => inferInstanceAs (Decidable (_ ∨ _))

theorem urlDigit_safe : ∀ number < 64, UrlSafe (urlDigit number) := by decide +kernel

theorem urlDigit_ne_padding : ∀ number < 64, urlDigit number ≠ '=' := by decide +kernel

theorem urlDigit_unit : ∀ number < 64, (codeUnits (urlDigit number)).length = 1 := by decide +kernel

theorem urlDigit_back : ∀ number < 64,
    replaceChar '_' '/' (replaceChar '-' '+' [urlDigit number]) = [Base64.digit number] := by
  decide +kernel

variable {numbers : List Nat} {old new : Char}

@[simp] theorem replaceChar_append (first second : List Char) :
    replaceChar old new (first ++ second) = replaceChar old new first ++ replaceChar old new second :=
  List.map_append

theorem replaceChar_padding (other : '=' ≠ old) (count : Nat) :
    replaceChar old new (List.replicate count '=') = List.replicate count '=' := by
  rw [replaceChar, List.map_replicate, if_neg other]

theorem replaced_digits :
    replaceChar '/' '_' (replaceChar '+' '-' (numbers.map Base64.digit)) = numbers.map urlDigit := by
  rw [replaceChar, replaceChar, List.map_map, List.map_map]
  rfl

theorem restored_digits (small : ∀ number ∈ numbers, number < 64) :
    replaceChar '_' '/' (replaceChar '-' '+' (numbers.map urlDigit)) =
      numbers.map Base64.digit := by
  rw [replaceChar, replaceChar, List.map_map, List.map_map]
  refine List.map_congr_left fun number listed => ?_
  exact List.singleton_inj.mp (urlDigit_back number (small number listed))

/-- The padding is removed, and nothing else. -/
theorem escape_digits (small : ∀ number ∈ numbers, number < 64) (count : Nat) :
    escape (String.ofList (numbers.map Base64.digit ++ List.replicate count '=')) =
      String.ofList (numbers.map urlDigit) := by
  have kept : (numbers.map urlDigit).filter (· ≠ '=') = numbers.map urlDigit := by
    refine List.filter_eq_self.mpr fun char member => ?_
    obtain ⟨number, listed, same⟩ := List.mem_map.mp member
    rw [← same]
    exact decide_eq_true (urlDigit_ne_padding number (small number listed))
  have removed : (List.replicate count '=').filter (· ≠ '=') = [] := by
    rw [List.filter_replicate]
    rfl
  rw [escape, String.toList_ofList, replaceChar_append, replaceChar_append, replaced_digits,
    replaceChar_padding (by decide), replaceChar_padding (by decide), List.filter_append, kept, removed,
    List.append_nil]

theorem utf16_digits (small : ∀ number ∈ numbers, number < 64) :
    (utf16 (String.ofList (numbers.map urlDigit))).length = numbers.length := by
  unfold utf16
  rw [String.toList_ofList]
  induction numbers with
  | nil => rfl
  | cons number rest ih =>
      obtain ⟨first, others⟩ := List.forall_mem_cons.mp small
      rw [List.map_cons, List.flatMap_cons, List.length_append, urlDigit_unit number first, ih others,
        List.length_cons, Nat.add_comm]

/-- The padding is the one that `escape` has removed. -/
theorem unescape_digits (small : ∀ number ∈ numbers, number < 64) (whole : numbers.length % 4 ≠ 1) :
    unescape (String.ofList (numbers.map urlDigit)) =
      String.ofList (numbers.map Base64.digit ++
        List.replicate (Base64.padding numbers.length) '=') := by
  have padding : "===".toList.drop ((numbers.length + 3) % 4) =
      List.replicate (Base64.padding numbers.length) '=' := by
    have residue : numbers.length % 4 = 0 ∨ numbers.length % 4 = 2 ∨ numbers.length % 4 = 3 := by
      omega
    unfold Base64.padding
    rcases residue with none | two | one
    · rw [Nat.add_mod, none]
      rfl
    · rw [Nat.add_mod, two]
      rfl
    · rw [Nat.add_mod, one]
      rfl
  rw [unescape, utf16_digits small, String.toList_ofList, padding, replaceChar_append,
    replaceChar_append, restored_digits small, replaceChar_padding (by decide),
    replaceChar_padding (by decide)]

/-! ## Round trip -/

theorem base64encode_eq (text : String) :
    base64encode text = String.ofList ((Base64.values text.toUTF8.toList).map urlDigit) := by
  rw [base64encode, toBase64, Base64.encode_eq, escape_digits Base64.values_lt]

theorem base64encode_empty : base64encode "" = "" := by
  rw [base64encode_eq, Utf8.toUTF8_toList]
  rfl

theorem unescape_base64encode (text : String) : unescape (base64encode text) = toBase64 text := by
  rw [base64encode_eq, unescape_digits Base64.values_lt Base64.values_length, toBase64,
    Base64.encode_eq]

theorem base64decode_base64encode (text : String) : base64decode (base64encode text) = text := by
  rw [base64decode, unescape_base64encode, fromBase64, toBase64, String.toList_ofList,
    Base64.decode_encode, Utf8.decode_toUTF8, String.ofList_toList]

theorem base64encode_injective : Function.Injective base64encode :=
  Function.LeftInverse.injective base64decode_base64encode

theorem base64encode_safe (text : String) : ∀ char ∈ (base64encode text).toList, UrlSafe char := by
  intro char member
  rw [base64encode_eq, String.toList_ofList] at member
  obtain ⟨number, listed, same⟩ := List.mem_map.mp member
  rw [← same]
  exact urlDigit_safe number (Base64.values_lt number listed)

end IcoDashboard.Helpers
