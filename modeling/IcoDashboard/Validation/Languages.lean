import IcoDashboard.Validation.Middleware

namespace IcoDashboard.Validation

open IcoDashboard.Data

/-! # Languages of the validation messages

A request whose language has a file of texts leaves them in `options`, where the
next request of a language without a file finds them.
-/

/-- What a route passes to `commonValidate`. -/
structure Passing where
  code : Nat
  schema : Schema
  req : Request

def validation (site : Site) : Server Passing Verdict Options where
  initial := options
  serve passing := commonValidate site passing.code passing.schema passing.req

variable {site : Site} {history : List Passing} {passing : Passing}

/-- The texts in the language of the request. -/
def ownTexts (site : Site) (passing : Passing) : Option Language :=
  site.files (langPath passing.req "validation")

/-- The texts of the last request that had any. -/
def textsLeft (site : Site) (history : List Passing) : Language :=
  (history.filterMap (ownTexts site)).getLast?.getD []

/-- What is wrong with the body, in a language. -/
def words (site : Site) (passing : Passing) (language : Language) : Option String :=
  (site.joi.validate (some passing.req.body) passing.schema ⟨true, language⟩).map
    ValidationError.message

/-- The request has texts of its own, or no error, or one that the texts left
behind word as Joi does without them. -/
def Unspoilt (site : Site) (history : List Passing) (passing : Passing) : Prop :=
  (ownTexts site passing).isSome = true ∨
    site.joi.validate (some passing.req.body) passing.schema options = none ∨
    words site passing (textsLeft site history) = words site passing []

theorem textsLeft_concat (site : Site) (history : List Passing) (passing : Passing) :
    textsLeft site (history ++ [passing]) = (ownTexts site passing).getD (textsLeft site history) := by
  unfold textsLeft
  rw [List.filterMap_append]
  cases found : ownTexts site passing with
  | none => rw [List.filterMap_cons_none found, List.filterMap_nil, List.append_nil, Option.getD_none]
  | some texts =>
      rw [List.filterMap_cons_some found, List.filterMap_nil, List.getLast?_concat, Option.getD_some,
        Option.getD_some]

theorem leftBy_validation (site : Site) (history : List Passing) :
    (validation site).leftBy history = ⟨true, textsLeft site history⟩ := by
  induction history using List.reverseRecOn with
  | nil => rfl
  | append_singleton history passing ih =>
      rw [Server.leftBy_concat, ih, textsLeft_concat]
      exact congrArg Prod.snd (commonValidate_eq _)

/-- The verdict on a body that is worded in a language. -/
def verdict (site : Site) (passing : Passing) (language : Language) : Verdict :=
  match words site passing language with
  | some message => .respond passing.code message
  | none => .next

theorem commonValidate_verdict (left : Language) :
    (commonValidate site passing.code passing.schema passing.req ⟨true, left⟩).1 =
      verdict site passing ((ownTexts site passing).getD left) := by
  rw [commonValidate_eq, verdict, words, wording, ownTexts]
  cases site.joi.validate (some passing.req.body) passing.schema
    ⟨true, (site.files (langPath passing.req "validation")).getD left⟩ <;> rfl

theorem verdict_inj {first second : Language} :
    verdict site passing first = verdict site passing second ↔
      words site passing first = words site passing second := by
  unfold verdict
  cases words site passing first <;> cases words site passing second <;> simp

theorem after_validation :
    (validation site).after history passing =
      verdict site passing ((ownTexts site passing).getD (textsLeft site history)) := by
  rw [Server.after, leftBy_validation]
  exact commonValidate_verdict _

theorem alone_validation :
    (validation site).alone passing = verdict site passing ((ownTexts site passing).getD []) :=
  commonValidate_verdict _

theorem words_none (left : Language)
    (passes : site.joi.validate (some passing.req.body) passing.schema options = none) :
    words site passing left = none :=
  Option.map_eq_none_iff.mpr (site.joi.words_none left passes)

/-- A request is answered as if it were the first exactly if it is unspoilt. -/
theorem after_eq_alone :
    (validation site).after history passing = (validation site).alone passing ↔
      Unspoilt site history passing := by
  rw [after_validation, alone_validation, verdict_inj, Unspoilt]
  cases ownTexts site passing with
  | some texts => simp
  | none =>
      simp only [Option.getD_none, Option.isSome_none, Bool.false_eq_true, false_or]
      refine ⟨.inr, fun either => ?_⟩
      rcases either with passes | same
      · rw [words_none _ passes, words_none _ passes]
      · exact same

/-- The answers to a sequence of requests do not depend on the requests before
exactly if each request in it is unspoilt. -/
theorem commonValidate_forgetful (site : Site) (passings : List Passing) :
    (validation site).Forgetful passings ↔
      ∀ before passing later, passings = before ++ passing :: later →
        Unspoilt site before passing := by
  rw [Server.forgetful_iff]
  simp only [after_eq_alone]

/-- Alone and after any history a request is answered in the same way exactly if it
has texts of its own or no error, or its error reads the same in all languages. -/
theorem after_always_alone :
    (∀ history, (validation site).after history passing = (validation site).alone passing) ↔
      (ownTexts site passing).isSome = true ∨
        site.joi.validate (some passing.req.body) passing.schema options = none ∨
        ∀ other texts, ownTexts site other = some texts →
          words site passing texts = words site passing [] := by
  simp only [after_eq_alone, Unspoilt]
  constructor
  · intro unspoilt
    by_cases own : (ownTexts site passing).isSome = true
    · exact .inl own
    · by_cases passes : site.joi.validate (some passing.req.body) passing.schema options = none
      · exact .inr (.inl passes)
      · refine .inr (.inr fun other texts found => ?_)
        have left : textsLeft site [other] = texts := by
          rw [← List.nil_append [other], textsLeft_concat, found, Option.getD_some]
        rcases unspoilt [other] with own' | passes' | same
        · exact absurd own' own
        · exact absurd passes' passes
        · rwa [left] at same
  · rintro (own | passes | same) history
    · exact .inl own
    · exact .inr (.inl passes)
    · refine .inr (.inr ?_)
      cases last : (history.filterMap (ownTexts site)).getLast? with
      | none => rw [textsLeft, last, Option.getD_none]
      | some texts =>
          obtain ⟨other, _, found⟩ := List.mem_filterMap.mp (List.mem_of_getLast? last)
          rw [textsLeft, last, Option.getD_some]
          exact same other texts found

/-! ## The only language on disk -/

/-- Of `resources/locales/ru/validation.json`. -/
def russian : Language :=
  [("key", "\"\x7b\x7b!label\x7d\x7d\" "), ("any.required", "обязательно"),
    ("any.empty", "не может быть пустым"), ("string.base", "должно быть строкой"),
    ("string.email", "должно быть действительным адресом электронной почты")]

def russianSite : Site where
  joi := firstError
  files path := if path = "/../resources/locales/ru/validation.json" then some russian else none
  translate _ _ message := message
  decodeOther _ := ""
  defaultPhone := none

/-- A request to resend the verification to nobody. -/
def resendsTo (language : String) : Passing where
  code := 422
  schema := .object false resendVerificationSchema
  req := { body := .object [], acceptsLanguages := some [language] }

theorem english_in_russian :
    (validation russianSite).answers [resendsTo "ru", resendsTo "en"] =
        [.respond 422 "\"email\" обязательно", .respond 422 "\"email\" обязательно"] ∧
      (validation russianSite).alone (resendsTo "en") = .respond 422 "\"email\" is required" ∧
      ¬ (validation russianSite).Forgetful [resendsTo "ru", resendsTo "en"] := by
  unfold Server.Forgetful
  decide +kernel

end IcoDashboard.Validation
