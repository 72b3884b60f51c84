import IcoDashboard.Data.Histories
import IcoDashboard.Helpers
import IcoDashboard.Validation.Schemas

namespace IcoDashboard.Validation

open IcoDashboard.Data

/-! # Request validators

The middlewares that check the body of a request before its route sees it.  They
share one `options` object, which lives as long as the process.
-/

structure Request where
  body : Value
  /-- What Express reads from the `Accept-Language` of the request. -/
  acceptsLanguages : Option (List String)

/-- What the validators find around them. -/
structure Site where
  joi : Joi
  /-- The JSON files on disk, by their path from `__dirname`. -/
  files : String → Option Language
  /-- `i18next.t` of a message, once initialised with a language and its texts. -/
  translate : String → Option Language → String → String
  /-- `base64decode` of a value that is no string. -/
  decodeOther : Value → String
  defaultPhone : Option String

inductive Verdict where
  | next
  | respond (status : Nat) (message : String)
deriving DecidableEq, Repr

abbrev Validator : Type := Request → Options → Verdict × Options

def options : Options := { allowUnknown := true, language := [] }

/-- A list in a template is joined by commas. -/
def lang (req : Request) : String := (req.acceptsLanguages.map (",".intercalate ·)).getD "en"

def langPath (req : Request) (file : String) : String :=
  "/../resources/locales/" ++ lang req ++ "/" ++ file ++ ".json"

def commonValidate (site : Site) (code : Nat) (schema : Schema) : Validator := fun req options =>
  let options := match site.files (langPath req "validation") with
    | some language => { options with language }
    | none => options
  match site.joi.validate (some req.body) schema options with
  | some error => (.respond code error.message, options)
  | none => (.next, options)

def translateCustomMessage (site : Site) (message : String) (req : Request) : String :=
  site.translate (lang req) (site.files (langPath req "errors")) message

/-! ## Patterns -/

/-- Between the brackets of the source. -/
def passwordClassText : String := "a-zA-Z0\\d!\"#$%&'()*+,-./:;<=>?@[\\]^_`\x7b|\x7d~"

def passwordClass : CharClass := (CharClass.parse passwordClassText.toList).getD []

/-- `^[…]{8,}$` -/
def passwordRegex : Pattern := .repeated passwordClass 8 none .finish

/-- `^\+[1-9]\d{1,14}$` -/
def phoneNumberRegex : Pattern :=
  .one [CharClass.single '+'] (.one [⟨49, 57, by decide⟩]
    (.repeated [CharClass.digits] 1 (some 14) .finish))

/-! ## Validators -/

/-- `Joi.string().required()` -/
def requiredString : Schema := .string { required := true }

/-- `Joi.string().required().email()` -/
def requiredEmail : Schema := .string { required := true, email := true }

/-- `Joi.string().required().regex(passwordRegex)` -/
def passwordSchema (language : Language) : Schema :=
  .string { required := true, regex := some passwordRegex, language }

def verificationSchema : Schema :=
  .object true [("verificationId", requiredString), ("code", requiredString), ("method", requiredString)]

/-- The schemas of a new user differ in whether the phone is required. -/
def createUserKeys (site : Site) (phoneRequired : Bool) (req : Request) : List (String × Schema) :=
  [("firstName", .string { required := true, min := some 3 }),
    ("lastName", .string { required := true, min := some 3 }),
    ("email", requiredEmail),
    ("phone", .string
      { required := phoneRequired, regex := some phoneNumberRegex, language :=
          [("string.regex.base", translateCustomMessage site
            "must be a valid phone number (+1234567890)" req)] }),
    ("country", .string { required := true, min := some 2 }),
    ("dob", .string { required := true, isoDate := true }),
    ("password", passwordSchema [("string.regex.base", translateCustomMessage site
      "must be at least 8 characters, contain at least one number, 1 small and 1 capital letter" req)]),
    ("agreeTos", .boolean true (some true)),
    ("referral", .string
      { email := true, language :=
          [("key", ""), ("string.email", translateCustomMessage site "Not valid referral code" req)] })]

def schemaWithRequiredPhone (site : Site) : Request → List (String × Schema) :=
  createUserKeys site true

def schemaWithOptionalPhone (site : Site) : Request → List (String × Schema) :=
  createUserKeys site false

def createUserSchema (site : Site) (req : Request) : List (String × Schema) :=
  if site.defaultPhone.any (· ≠ "") then schemaWithOptionalPhone site req
  else schemaWithRequiredPhone site req

def Value.truthy : Value → Bool
  | .null => false
  | .boolean value => value
  | .number literal => literal ≠ "0"
  | .string text => text ≠ ""
  | .array _ | .object _ => true

def base64decode (site : Site) : Value → String
  | .string text => Helpers.base64decode text
  | value => site.decodeOther value

/-- Assigns to a property that is there. -/
def assign (key : String) (value : Value) (entries : List (String × Value)) : List (String × Value) :=
  entries.map fun entry => if entry.1 = key then (key, value) else entry

/-- `if (req.body.referral) req.body.referral = base64decode(req.body.referral);` -/
def decodeReferral (site : Site) (req : Request) : Request :=
  match req.body with
  | .object entries =>
      match entries.lookup "referral" with
      | some referral =>
          if referral.truthy then
            { req with body := .object (assign "referral" (.string (base64decode site referral)) entries) }
          else req
      | none => req
  | _ => req

def createUser (site : Site) : Validator := fun req =>
  commonValidate site 422 (.object false (createUserSchema site req)) (decodeReferral site req)

def activateUser (site : Site) : Validator :=
  commonValidate site 422 (.object false
    [("email", requiredEmail), ("verificationId", requiredString), ("code", requiredString)])

def initiateLogin (site : Site) : Validator :=
  commonValidate site 422 (.object false [("email", requiredEmail), ("password", requiredString)])

def verifyLogin (site : Site) : Validator :=
  commonValidate site 422 (.object false
    [("accessToken", requiredString),
      ("verification", .object false
        [("id", requiredString), ("code", requiredString), ("method", requiredString)])])

def changePasswordSchema : List (String × Schema) :=
  [("oldPassword", requiredString), ("newPassword", passwordSchema [])]

def changePassword (site : Site) : Validator :=
  commonValidate site 422 (.object false changePasswordSchema)

def inviteUser (site : Site) : Validator :=
  commonValidate site 422 (.object false
    [("emails", .array true (some 1) (some 5) (.string { email := true }))])

def resetPasswordInitiate (site : Site) : Validator :=
  commonValidate site 422 (.object false [("email", requiredEmail)])

def resetPasswordVerifySchema : List (String × Schema) :=
  [("email", requiredEmail), ("password", passwordSchema []), ("verification", verificationSchema)]

def resetPasswordVerify (site : Site) : Validator :=
  commonValidate site 422 (.object false resetPasswordVerifySchema)

def verificationRequired (site : Site) : Validator :=
  commonValidate site 422 (.object false [("verification", verificationSchema)])

def invest (site : Site) : Validator :=
  commonValidate site 422 (.object false
    [("ethAmount", .number true (some "0.1")), ("mnemonic", requiredString)])

def resendVerificationSchema : List (String × Schema) := [("email", requiredEmail)]

def resendVerification (site : Site) : Validator :=
  commonValidate site 422 (.object false resendVerificationSchema)

/-- The validators that the container binds. -/
inductive ValidatorName where
  | createUser | activateUser | initiateLogin | verifyLogin | changePassword | inviteUser
  | resetPasswordInitiate | resetPasswordVerify | verificationRequired | invest | resendVerification

def validator (site : Site) : ValidatorName → Validator
  | .createUser => createUser site
  | .activateUser => activateUser site
  | .initiateLogin => initiateLogin site
  | .verifyLogin => verifyLogin site
  | .changePassword => changePassword site
  | .inviteUser => inviteUser site
  | .resetPasswordInitiate => resetPasswordInitiate site
  | .resetPasswordVerify => resetPasswordVerify site
  | .verificationRequired => verificationRequired site
  | .invest => invest site
  | .resendVerification => resendVerification site

/-! ## One validation -/

variable {site : Site} {code : Nat} {schema : Schema} {req : Request}

/-- The texts that a request is worded with when `left` was there before. -/
def wording (site : Site) (req : Request) (left : Language) : Language :=
  (site.files (langPath req "validation")).getD left

theorem commonValidate_eq (left : Language) :
    commonValidate site code schema req ⟨true, left⟩ =
      ((match site.joi.validate (some req.body) schema ⟨true, wording site req left⟩ with
        | some error => .respond code error.message
        | none => .next), ⟨true, wording site req left⟩) := by
  unfold commonValidate wording
  cases found : site.files (langPath req "validation") <;>
    simp only [Option.getD_some, Option.getD_none] <;> split <;> rfl

/-- Whether a body passes is not a matter of the language. -/
theorem commonValidate_next (left : Language) :
    (commonValidate site code schema req ⟨true, left⟩).1 = .next ↔
      site.joi.validate (some req.body) schema options = none := by
  rw [commonValidate_eq]
  cases found : site.joi.validate (some req.body) schema ⟨true, wording site req left⟩ with
  | none => exact ⟨fun _ => site.joi.words_none [] found, fun _ => rfl⟩
  | some error =>
      refine ⟨fun passed => (nomatch passed), fun passes => ?_⟩
      have none := site.joi.words_none (wording site req left) passes
      rw [found] at none
      cases none

/-- Every validator passes the body on to `commonValidate`, at most with its
referral decoded. -/
theorem validator_commonValidate (site : Site) (name : ValidatorName) (req : Request) :
    ∃ schema received, (received = req ∨ received = decodeReferral site req) ∧
      validator site name req = commonValidate site 422 schema received := by
  cases name with
  | createUser => exact ⟨_, _, .inr rfl, rfl⟩
  | _ => exact ⟨_, _, .inl rfl, rfl⟩

/-- Of what a validator answers, requests before can change the message only. -/
theorem validator_next (site : Site) (name : ValidatorName) (req : Request) (first second : Language) :
    (validator site name req ⟨true, first⟩).1 = .next ↔
      (validator site name req ⟨true, second⟩).1 = .next := by
  obtain ⟨schema, received, _, same⟩ := validator_commonValidate site name req
  rw [same, commonValidate_next, commonValidate_next]

theorem validator_status {name : ValidatorName} {left : Language} {status : Nat} {message : String}
    (answered : (validator site name req ⟨true, left⟩).1 = .respond status message) : status = 422 := by
  obtain ⟨schema, received, _, same⟩ := validator_commonValidate site name req
  rw [same, commonValidate_eq] at answered
  cases found : site.joi.validate (some received.body) schema ⟨true, wording site received left⟩ with
  | none => simp only [found, reduceCtorEq] at answered
  | some error =>
      simp only [found, Verdict.respond.injEq] at answered
      exact answered.1.symm

/-! ## Referrals -/

theorem lookup_assign {key other : String} {value : Value} {entries : List (String × Value)}
    (different : other ≠ key) : (assign key value entries).lookup other = entries.lookup other := by
  induction entries with
  | nil => rfl
  | cons entry rest ih =>
      obtain ⟨name, held⟩ := entry
      rw [assign, List.map_cons, ← assign]
      by_cases assigned : name = key
      · subst assigned
        rw [if_pos rfl, List.lookup_cons, List.lookup_cons, beq_false_of_ne different, ih]
      · rw [if_neg assigned, List.lookup_cons, List.lookup_cons, ih]

theorem lookup_assign_self {key : String} {value : Value} {entries : List (String × Value)} :
    (assign key value entries).lookup key = (entries.lookup key).map fun _ => value := by
  induction entries with
  | nil => rfl
  | cons entry rest ih =>
      obtain ⟨name, held⟩ := entry
      rw [assign, List.map_cons, ← assign]
      by_cases assigned : name = key
      · subst assigned
        simp
      · rw [if_neg assigned, List.lookup_cons, List.lookup_cons, ih,
          beq_false_of_ne (Ne.symm assigned)]

/-- Decoding the referral touches no other key. -/
theorem decodeReferral_lookup {entries : List (String × Value)} (body : req.body = .object entries) :
    ∃ decoded, (decodeReferral site req).body = .object decoded ∧
      ∀ key, key ≠ "referral" → decoded.lookup key = entries.lookup key := by
  unfold decodeReferral
  simp only [body]
  cases entries.lookup "referral" with
  | none => exact ⟨entries, body, fun _ _ => rfl⟩
  | some referral =>
      by_cases given : referral.truthy = true
      · refine ⟨assign "referral" (.string (base64decode site referral)) entries, ?_,
          fun _ different => lookup_assign different⟩
        simp only [given, if_true]
      · exact ⟨entries, by simp only [given, if_false, Bool.false_eq_true, body], fun _ _ => rfl⟩

/-- A code is decoded to its text. -/
theorem decodeReferral_code {entries : List (String × Value)} {text : String}
    (body : req.body = .object entries)
    (sent : entries.lookup "referral" = some (.string (Helpers.base64encode text))) :
    ∃ decoded, (decodeReferral site req).body = .object decoded ∧
      decoded.lookup "referral" = some (.string text) := by
  unfold decodeReferral
  simp only [body, sent]
  by_cases given : (Value.string (Helpers.base64encode text)).truthy = true
  · refine ⟨assign "referral" (.string text) entries, ?_, ?_⟩
    · simp only [given, if_true, base64decode, Helpers.base64decode_base64encode]
    · rw [lookup_assign_self, sent, Option.map_some]
  · -- an empty code is not decoded, and is the code of an empty text
    have empty : Helpers.base64encode text = "" := by simpa [Value.truthy] using given
    have same : text = "" :=
      Helpers.base64encode_injective (empty.trans Helpers.base64encode_empty.symm)
    refine ⟨entries, ?_, ?_⟩
    · simp only [given, if_false, Bool.false_eq_true, body]
    · rw [sent, same, Helpers.base64encode_empty]

end IcoDashboard.Validation
