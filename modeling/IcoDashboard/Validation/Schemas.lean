import IcoDashboard.Data.Pattern
import IcoDashboard.Platform

namespace IcoDashboard.Validation

open IcoDashboard.Data

/-! # Schemas

What the request validators hand to Joi: the body, a schema, and options.  Joi
itself is known by what its documentation says.
-/

/-- A value of a JSON body; a number is known by its text. -/
inductive Value where
  | null
  | boolean (value : Bool)
  | number (literal : String)
  | string (text : String)
  | array (items : List Value)
  | object (entries : List (String × Value))

/-- Texts by their path in the nested object, `string.regex.base`. -/
abbrev Language : Type := List (String × String)

structure StringRules where
  required : Bool := false
  min : Option Nat := none
  email : Bool := false
  isoDate : Bool := false
  regex : Option Pattern := none
  /-- `.options({ language })` -/
  language : Language := []

inductive Schema where
  | string (rules : StringRules)
  | boolean (required : Bool) (only : Option Bool)
  | number (required : Bool) (min : Option String)
  | array (required : Bool) (min max : Option Nat) (items : Schema)
  | object (required : Bool) (keys : List (String × Schema))

structure Options where
  allowUnknown : Bool
  language : Language

structure ErrorDetail where
  message : String

structure ValidationError where
  details : List ErrorDetail
  nonempty : details ≠ []

/-- `result.error.details[0].message` -/
def ValidationError.message (error : ValidationError) : String :=
  (error.details.head error.nonempty).message

/-- `Joi.validate`: the error, if there is one.  A missing key has no value. -/
structure Joi where
  validate : Option Value → Schema → Options → Option ValidationError
  /-- A language words the errors and makes none. -/
  words : ∀ value schema options language,
    (validate value schema { options with language }).isSome = (validate value schema options).isSome
  /-- An object passes if its known keys do. -/
  object_passes : ∀ entries required keys options, options.allowUnknown = true →
    (validate (some (.object entries)) (.object required keys) options = none ↔
      ∀ key ∈ keys, validate (entries.lookup key.1) key.2 options = none)
  /-- The empty string is not allowed by default. -/
  regex_passes : ∀ text pattern language options,
    validate (some (.string text)) (.string { required := true, regex := some pattern, language })
      options = none ↔ text ≠ "" ∧ pattern.accepts (utf16 text) = true

theorem Joi.words_none (joi : Joi) {value : Option Value} {schema : Schema} {allowUnknown : Bool}
    {first : Language} (second : Language) (passes : joi.validate value schema ⟨allowUnknown, first⟩ = none) :
    joi.validate value schema ⟨allowUnknown, second⟩ = none := by
  have same := joi.words value schema ⟨allowUnknown, first⟩ second
  rw [passes, Option.isSome_none] at same
  exact Option.isSome_eq_false_iff.mp same |> Option.isNone_iff_eq_none.mp

/-! ## A validator that stops at the first error -/

namespace FirstError

/-- Where, and what kind of error; the rules may bring texts of their own. -/
structure Failure where
  path : List String
  type : String
  language : Language := []

def Failure.under (key : String) (failure : Failure) : Failure :=
  { failure with path := key :: failure.path }

def missing (required : Bool) : Option Failure :=
  if required then some ⟨[], "any.required", []⟩ else none

def checkText (rules : StringRules) (text : String) : Option Failure :=
  let fails type : Option Failure := some ⟨[], type, rules.language⟩
  if text = "" then fails "any.empty"
  else if rules.min.any fun least => (utf16 text).length < least then fails "string.min"
  else if rules.email ∧ '@' ∉ text.toList then fails "string.email"
  else if rules.isoDate ∧ '-' ∉ text.toList then fails "string.isoDate"
  else if rules.regex.any fun pattern => ¬ pattern.accepts (utf16 text) then fails "string.regex.base"
  else none

mutual

def check : Schema → Option Value → Option Failure
  | .string rules, some (.string text) => checkText rules text
  | .string rules, none => missing rules.required
  | .string _, some _ => some ⟨[], "string.base", []⟩
  | .boolean _ only, some (.boolean value) =>
      if only.any (· ≠ value) then some ⟨[], "any.allowOnly", []⟩ else none
  | .boolean required _, none => missing required
  | .boolean _ _, some _ => some ⟨[], "boolean.base", []⟩
  | .number _ _, some (.number _) => none
  | .number required _, none => missing required
  | .number _ _, some _ => some ⟨[], "number.base", []⟩
  | .array _ least most items, some (.array values) =>
      if least.any (values.length < ·) then some ⟨[], "array.min", []⟩
      else if most.any (· < values.length) then some ⟨[], "array.max", []⟩
      else values.findSome? fun value => check items (some value)
  | .array required _ _ _, none => missing required
  | .array _ _ _ _, some _ => some ⟨[], "array.base", []⟩
  | .object _ keys, some (.object entries) => checkKeys keys entries
  | .object required _, none => missing required
  | .object _ _, some _ => some ⟨[], "object.base", []⟩

def checkKeys : List (String × Schema) → List (String × Value) → Option Failure
  | [], _ => none
  | (key, schema) :: rest, entries =>
      match check schema (entries.lookup key) with
      | some failure => some (failure.under key)
      | none => checkKeys rest entries

end

def english : Language :=
  [("key", "\"{{!label}}\" "), ("any.required", "is required"),
    ("any.empty", "is not allowed to be empty"), ("string.base", "must be a string"),
    ("string.email", "must be a valid email")]

/-- The text of the error after its key, unless that has an empty text. -/
def message (language : Language) (failure : Failure) : String :=
  let texts := failure.language ++ language ++ english
  let label := failure.path.getLast?.getD "value"
  let key := if texts.lookup "key" = some "" then "" else "\"" ++ label ++ "\" "
  key ++ (texts.lookup failure.type).getD failure.type

def validate (value : Option Value) (schema : Schema) (options : Options) : Option ValidationError :=
  (check schema value).map fun failure =>
    { details := [⟨message options.language failure⟩], nonempty := List.cons_ne_nil _ _ }

theorem validate_eq_none {value : Option Value} {schema : Schema} {options : Options} :
    validate value schema options = none ↔ check schema value = none :=
  Option.map_eq_none_iff

theorem checkKeys_eq_none {keys : List (String × Schema)} {entries : List (String × Value)} :
    checkKeys keys entries = none ↔ ∀ key ∈ keys, check key.2 (entries.lookup key.1) = none := by
  induction keys with
  | nil => simp [checkKeys]
  | cons key rest ih =>
      obtain ⟨name, schema⟩ := key
      rw [List.forall_mem_cons, checkKeys]
      cases found : check schema (entries.lookup name) with
      | none => simp only [ih, true_and]
      | some failure => simp

theorem checkText_eq_none {text : String} {pattern : Pattern} {language : Language} :
    checkText { required := true, regex := some pattern, language } text = none ↔
      text ≠ "" ∧ pattern.accepts (utf16 text) = true := by
  by_cases empty : text = ""
  · simp [checkText, empty]
  · cases accepted : pattern.accepts (utf16 text) <;> simp [checkText, empty, accepted]

end FirstError

open FirstError in
def firstError : Joi where
  validate := validate
  words _ _ _ _ := by simp only [validate, Option.isSome_map]
  object_passes _ _ _ _ _ := by
    simp only [validate_eq_none, check]
    exact checkKeys_eq_none
  regex_passes _ _ _ _ := by
    simp only [validate_eq_none, check]
    exact checkText_eq_none

end IcoDashboard.Validation
