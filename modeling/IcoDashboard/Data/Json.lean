import Mathlib.Data.List.Basic
import Mathlib.Tactic.IntervalCases

namespace IcoDashboard.Data.Json

/-! # Serialised JSON objects

`JSON.stringify` on an object whose properties are strings, in property order.
Each piece can be read back off the front of the text, so equal texts come from
equal objects.
-/

abbrev Object : Type := List (String × String)

def escapeChar (char : Char) : List Char :=
  if char = '"' then ['\\', '"']
  else if char = '\\' then ['\\', '\\']
  else if char.toNat = 8 then ['\\', 'b']
  else if char.toNat = 9 then ['\\', 't']
  else if char.toNat = 10 then ['\\', 'n']
  else if char.toNat = 12 then ['\\', 'f']
  else if char.toNat = 13 then ['\\', 'r']
  else if char.toNat < 32 then
    ['\\', 'u', '0', '0', Nat.digitChar (char.toNat / 16), Nat.digitChar (char.toNat % 16)]
  else [char]

def quote (text : List Char) : List Char := '"' :: (text.flatMap escapeChar ++ ['"'])

def property (entry : String × String) : List Char :=
  quote entry.1.toList ++ ':' :: quote entry.2.toList

/-- The properties after the first one, and the closing brace. -/
def properties : Object → List Char
  | [] => ['}']
  | entry :: rest => ',' :: (property entry ++ properties rest)

def stringifyChars : Object → List Char
  | [] => ['{', '}']
  | entry :: rest => '{' :: (property entry ++ properties rest)

def stringify (object : Object) : String := String.ofList (stringifyChars object)

/-! ## Reading back -/

/-- The character that an escape starting here stands for, and what follows. -/
def unescape : List Char → Option (Char × List Char)
  | '\\' :: '"' :: rest => some ('"', rest)
  | '\\' :: '\\' :: rest => some ('\\', rest)
  | '\\' :: 'b' :: rest => some (Char.ofNat 8, rest)
  | '\\' :: 't' :: rest => some (Char.ofNat 9, rest)
  | '\\' :: 'n' :: rest => some (Char.ofNat 10, rest)
  | '\\' :: 'f' :: rest => some (Char.ofNat 12, rest)
  | '\\' :: 'r' :: rest => some (Char.ofNat 13, rest)
  | '\\' :: 'u' :: _ :: _ :: high :: low :: rest =>
      let digit (char : Char) : Nat :=
        if char.toNat < 97 then char.toNat - 48 else char.toNat - 87
      some (Char.ofNat (16 * digit high + digit low), rest)
  | char :: rest => if char = '"' then none else some (char, rest)
  | [] => none

theorem unescape_control {code : Nat} (control : code < 32) (rest : List Char) :
    unescape (escapeChar (Char.ofNat code) ++ rest) = some (Char.ofNat code, rest) := by
  interval_cases code <;> rfl

theorem unescape_escapeChar (char : Char) (rest : List Char) :
    unescape (escapeChar char ++ rest) = some (char, rest) := by
  by_cases control : char.toNat < 32
  · have escaped := unescape_control control rest
    rwa [Char.ofNat_toNat] at escaped
  · by_cases isQuote : char = '"'
    · subst isQuote
      rfl
    · by_cases isBackslash : char = '\\'
      · subst isBackslash
        rfl
      · have plain : escapeChar char = [char] := by
          simp only [escapeChar, isQuote, isBackslash, if_false]
          repeat' rw [if_neg (by omega)]
        rw [plain, List.singleton_append]
        unfold unescape
        split <;> simp_all

theorem escapeChar_append_inj {first second : Char} {rest rest' : List Char}
    (same : escapeChar first ++ rest = escapeChar second ++ rest') :
    first = second ∧ rest = rest' := by
  have read := unescape_escapeChar first rest
  rw [same, unescape_escapeChar] at read
  simp only [Option.some.injEq, Prod.mk.injEq] at read
  exact ⟨read.1.symm, read.2.symm⟩

/-- No escape begins with the quotation mark that ends a text. -/
theorem escapeChar_ne_quote {char : Char} {rest rest' : List Char} :
    escapeChar char ++ rest ≠ '"' :: rest' := by
  intro same
  have read := unescape_escapeChar char rest
  rw [same] at read
  simp [unescape] at read

theorem quote_append_inj {first second rest rest' : List Char}
    (same : quote first ++ rest = quote second ++ rest') : first = second ∧ rest = rest' := by
  simp only [quote, List.cons_append, List.append_assoc, List.cons.injEq, true_and] at same
  induction first generalizing second with
  | nil =>
      cases second with
      | nil => exact ⟨rfl, by simpa using same⟩
      | cons char chars =>
          simp only [List.flatMap_nil, List.nil_append, List.flatMap_cons, List.append_assoc] at same
          exact absurd same.symm escapeChar_ne_quote
  | cons char chars ih =>
      cases second with
      | nil =>
          simp only [List.flatMap_nil, List.nil_append, List.flatMap_cons, List.append_assoc] at same
          exact absurd same escapeChar_ne_quote
      | cons char' chars' =>
          simp only [List.flatMap_cons, List.append_assoc] at same
          obtain ⟨charEq, tails⟩ := escapeChar_append_inj same
          obtain ⟨charsEq, restEq⟩ := ih tails
          exact ⟨by rw [charEq, charsEq], restEq⟩

theorem property_append_inj {first second : String × String} {rest rest' : List Char}
    (same : property first ++ rest = property second ++ rest') : first = second ∧ rest = rest' := by
  simp only [property, List.append_assoc, List.cons_append] at same
  obtain ⟨names, values⟩ := quote_append_inj same
  simp only [List.cons.injEq, true_and] at values
  obtain ⟨contents, rests⟩ := quote_append_inj values
  exact ⟨Prod.ext (String.toList_inj.mp names) (String.toList_inj.mp contents), rests⟩

theorem properties_injective : Function.Injective properties := by
  intro first second same
  induction first generalizing second with
  | nil =>
      cases second with
      | nil => rfl
      | cons entry rest => simp [properties] at same
  | cons entry rest ih =>
      cases second with
      | nil => simp [properties] at same
      | cons entry' rest' =>
          simp only [properties, List.cons.injEq, true_and] at same
          obtain ⟨entries, tails⟩ := property_append_inj same
          rw [entries, ih tails]

/-- Objects with the same text have the same properties in the same order. -/
theorem stringify_injective : Function.Injective stringify := by
  intro first second same
  have chars : stringifyChars first = stringifyChars second := String.ofList_injective same
  cases first with
  | nil =>
      cases second with
      | nil => rfl
      | cons entry rest => simp [stringifyChars, property, quote] at chars
  | cons entry rest =>
      cases second with
      | nil => simp [stringifyChars, property, quote] at chars
      | cons entry' rest' =>
          simp only [stringifyChars, List.cons.injEq, true_and] at chars
          obtain ⟨entries, tails⟩ := property_append_inj chars
          rw [entries, properties_injective tails]

example : stringify [("scope", "invest"), ("ethAmount", "1\n")] =
    "\x7b\"scope\":\"invest\",\"ethAmount\":\"1\\n\"\x7d" := by decide

end IcoDashboard.Data.Json
