import IcoDashboard.Validation.Languages

namespace IcoDashboard.Validation

open IcoDashboard.Data

/-! # Passwords

The documentation of the routes and the message of the validator ask for a lower
and an upper case letter and a digit; the pattern of the validator does not.
-/

/-! ## The documented words -/

/-- What the documented class has besides letters and digits. -/
def punctuation : List Char := "!\"#$%&'()*+,-./:;<=>?@[]^_`\x7b|\x7d~".toList

def InAlphabet (char : Char) : Prop := char.isAlphanum = true ∨ char ∈ punctuation

instance : DecidablePred InAlphabet := fun _ => inferInstanceAs (Decidable (_ ∨ _))

/-- Eight characters or more, all of the alphabet. -/
structure Spelled (password : String) : Prop where
  long : 8 ≤ password.length
  inAlphabet : ∀ char ∈ password.toList, InAlphabet char

structure Mixed (password : String) : Prop where
  lower : ∃ char ∈ password.toList, char.isLower = true
  upper : ∃ char ∈ password.toList, char.isUpper = true
  digit : ∃ char ∈ password.toList, char.isDigit = true

structure Documented (password : String) : Prop extends Spelled password, Mixed password

/-- `^(?=.*[a-z])(?=.*[A-Z])(?=.*\d)[…]{8,}$`, with the class of the validator. -/
def documentedRegex : Pattern :=
  .ahead (.many .dot (.one [⟨97, 122, by decide⟩] .done))
    (.ahead (.many .dot (.one [⟨65, 90, by decide⟩] .done))
      (.ahead (.many .dot (.one [CharClass.digits] .done)) passwordRegex))

/-! ## Characters -/

variable {char : Char} {unit : Nat} {cls : CharClass} {password : String}

theorem isLower_iff_toNat : char.isLower = true ↔ 97 ≤ char.toNat ∧ char.toNat ≤ 122 := by
  change (decide ('a'.val ≤ char.val) && decide (char.val ≤ 'z'.val)) = true ↔ _
  simp only [Bool.and_eq_true, decide_eq_true_eq, UInt32.le_iff_toNat_le]
  rfl

theorem isUpper_iff_toNat : char.isUpper = true ↔ 65 ≤ char.toNat ∧ char.toNat ≤ 90 := by
  change decide ('A'.val ≤ char.val ∧ char.val ≤ 'Z'.val) = true ↔ _
  simp only [decide_eq_true_eq, UInt32.le_iff_toNat_le]
  rfl

theorem isDigit_iff_units : char.isDigit = true ↔ 48 ≤ char.toNat ∧ char.toNat ≤ 57 :=
  Char.isDigit_iff_toNat

/-- The class has all visible ASCII but the backslash: the one of the source
escapes the bracket after it. -/
theorem has_passwordClass :
    passwordClass.has unit = true ↔ 33 ≤ unit ∧ unit ≤ 126 ∧ unit ≠ 92 := by
  constructor
  · intro holds
    obtain ⟨span, member, lower, upper⟩ := CharClass.has_iff.mp holds
    have bounds : ∀ span ∈ passwordClass, 33 ≤ span.first ∧ span.last ≤ 126 ∧
        (92 < span.first ∨ span.last < 92) := by decide +kernel
    have bound := bounds span member
    omega
  · intro visible
    have table : ∀ unit < 127, 33 ≤ unit → unit ≠ 92 → passwordClass.has unit = true := by
      decide +kernel
    exact table unit (by omega) visible.1 visible.2.2

theorem inAlphabet_iff : InAlphabet char ↔ passwordClass.has char.toNat = true := by
  rw [has_passwordClass]
  constructor
  · rintro (alphanumeric | mark)
    · change ((char.isUpper || char.isLower) || char.isDigit) = true at alphanumeric
      rw [Bool.or_eq_true, Bool.or_eq_true, isUpper_iff_toNat, isLower_iff_toNat,
        isDigit_iff_units] at alphanumeric
      omega
    · have marks : (punctuation.all fun char =>
          33 ≤ char.toNat ∧ char.toNat ≤ 126 ∧ char.toNat ≠ 92) = true := by decide +kernel
      exact of_decide_eq_true (List.all_eq_true.mp marks char mark)
  · intro visible
    have table : ∀ unit < 127, 33 ≤ unit → unit ≠ 92 → InAlphabet (Char.ofNat unit) := by
      decide +kernel
    have known := table char.toNat (by omega) visible.1 visible.2.2
    rwa [Char.ofNat_toNat] at known

/-! ## Units -/

/-- A class below the surrogates sees the characters of a text in its units. -/
theorem all_utf16 (below : ∀ unit, cls.has unit = true → unit < 0xd800) :
    (∀ unit ∈ utf16 password, cls.has unit = true) ↔
      ∀ char ∈ password.toList, cls.has char.toNat = true := by
  simp only [utf16, List.mem_flatMap]
  constructor
  · intro units char member
    by_cases small : char.toNat < 0x10000
    · exact units char.toNat ⟨char, member, by rw [codeUnits, if_pos small]; exact List.mem_cons_self⟩
    · have high := units (0xd800 + (char.toNat - 0x10000) / 0x400)
        ⟨char, member, by rw [codeUnits, if_neg small]; exact List.mem_cons_self⟩
      have low := below _ high
      omega
  · rintro chars unit ⟨char, member, among⟩
    have inClass := chars char member
    have small : char.toNat < 0x10000 := Nat.lt_trans (below _ inClass) (by decide)
    rw [codeUnits, if_pos small, List.mem_singleton] at among
    rwa [among]

theorem utf16_map (small : ∀ char ∈ password.toList, char.toNat < 0x10000) :
    utf16 password = password.toList.map Char.toNat := by
  unfold utf16
  generalize password.toList = chars at small
  induction chars with
  | nil => rfl
  | cons char rest ih =>
      have tail := ih fun other member => small other (List.mem_cons_of_mem _ member)
      rw [List.flatMap_cons, List.map_cons, tail, codeUnits, if_pos (small char List.mem_cons_self),
        List.singleton_append]

theorem Spelled.units (spelled : Spelled password) : utf16 password = password.toList.map Char.toNat := by
  refine utf16_map fun char member => ?_
  have visible := has_passwordClass.mp (inAlphabet_iff.mp (spelled.inAlphabet char member))
  omega

/-! ## Patterns -/

theorem passwordRegex_accepts : passwordRegex.accepts (utf16 password) = true ↔ Spelled password := by
  have below : ∀ unit, passwordClass.has unit = true → unit < 0xd800 := fun unit holds => by
    have visible := has_passwordClass.mp holds
    omega
  rw [passwordRegex, Pattern.accepts_whole]
  constructor
  · intro taken
    have inClass := (all_utf16 below).mp taken.inClass
    have small : ∀ char ∈ password.toList, char.toNat < 0x10000 := fun char member =>
      Nat.lt_trans (below _ (inClass char member)) (by decide)
    have enough := taken.enough
    rw [utf16_map small, List.length_map, String.length_toList] at enough
    exact ⟨enough, fun char member => inAlphabet_iff.mpr (inClass char member)⟩
  · intro spelled
    refine ⟨?_, fun _ bounded => (nomatch bounded), ?_⟩
    · rw [spelled.units, List.length_map, String.length_toList]
      exact spelled.long
    · exact (all_utf16 below).mpr fun char member =>
        inAlphabet_iff.mp (spelled.inAlphabet char member)

theorem Spelled.line (spelled : Spelled password) :
    ∀ unit ∈ utf16 password, CharClass.dot.has unit = true := by
  intro unit member
  have taken := Pattern.accepts_whole.mp (passwordRegex_accepts.mpr spelled)
  have visible := has_passwordClass.mp (taken.inClass unit member)
  have table : ∀ unit < 127, 33 ≤ unit → CharClass.dot.has unit = true := by decide +kernel
  exact table unit (by omega) visible.1

/-- A lookahead of the documented pattern. -/
theorem Spelled.accepts_ahead (spelled : Spelled password) (first last : Nat) (ordered : first ≤ last) :
    (Pattern.many .dot (.one [⟨first, last, ordered⟩] .done)).accepts (utf16 password) = true ↔
      ∃ char ∈ password.toList, first ≤ char.toNat ∧ char.toNat ≤ last := by
  rw [Pattern.accepts_somewhere spelled.line, spelled.units]
  simp only [List.mem_map, CharClass.has_iff, List.mem_singleton, exists_eq_left]
  constructor
  · rintro ⟨_, ⟨char, member, rfl⟩, bounds⟩
    exact ⟨char, member, bounds⟩
  · rintro ⟨char, member, bounds⟩
    exact ⟨char.toNat, ⟨char, member, rfl⟩, bounds⟩

/-- The documented pattern is the documented words. -/
theorem documentedRegex_accepts :
    documentedRegex.accepts (utf16 password) = true ↔ Documented password := by
  simp only [documentedRegex, Pattern.accepts_ahead, passwordRegex_accepts, CharClass.digits]
  constructor
  · rintro ⟨lower, upper, digit, spelled⟩
    rw [spelled.accepts_ahead] at lower upper digit
    simp only [← isLower_iff_toNat, ← isUpper_iff_toNat, ← isDigit_iff_units] at lower upper digit
    exact ⟨spelled, lower, upper, digit⟩
  · intro documented
    have spelled := documented.toSpelled
    rw [spelled.accepts_ahead, spelled.accepts_ahead, spelled.accepts_ahead]
    simp only [← isLower_iff_toNat, ← isUpper_iff_toNat, ← isDigit_iff_units]
    exact ⟨documented.lower, documented.upper, documented.digit, spelled⟩

/-! ## Routes -/

inductive PasswordRoute where
  | createUser | changePassword | resetPasswordVerify

namespace PasswordRoute

def key : PasswordRoute → String
  | createUser => "password"
  | changePassword => "newPassword"
  | resetPasswordVerify => "password"

def keys (site : Site) (req : Request) : PasswordRoute → List (String × Schema)
  | createUser => createUserSchema site req
  | changePassword => changePasswordSchema
  | resetPasswordVerify => resetPasswordVerifySchema

/-- The request as it is validated. -/
def received (site : Site) (req : Request) : PasswordRoute → Request
  | createUser => decodeReferral site req
  | _ => req

def validator (site : Site) : PasswordRoute → Validator
  | createUser => Validation.createUser site
  | changePassword => Validation.changePassword site
  | resetPasswordVerify => Validation.resetPasswordVerify site

end PasswordRoute

/-- The request has the password, and nothing else that does not pass. -/
structure Carries (site : Site) (route : PasswordRoute) (req : Request) (password : String) : Prop where
  sent : ∃ entries, req.body = .object entries ∧
    entries.lookup route.key = some (.string password)
  others : ∀ entries, (route.received site req).body = .object entries →
    ∀ key ∈ route.keys site req, key.1 ≠ route.key →
      site.joi.validate (entries.lookup key.1) key.2 options = none

variable {site : Site} {route : PasswordRoute} {req : Request}

theorem PasswordRoute.validator_eq :
    route.validator site req =
      commonValidate site 422 (.object false (route.keys site req)) (route.received site req) := by
  cases route <;> rfl

theorem PasswordRoute.received_lookup {entries : List (String × Value)}
    (body : req.body = .object entries) :
    ∃ taken, (route.received site req).body = .object taken ∧
      taken.lookup route.key = entries.lookup route.key := by
  cases route with
  | createUser =>
      obtain ⟨decoded, taken, same⟩ := @decodeReferral_lookup site req entries body
      exact ⟨decoded, taken, same "password" (by decide)⟩
  | changePassword => exact ⟨entries, body, rfl⟩
  | resetPasswordVerify => exact ⟨entries, body, rfl⟩

theorem createUserSchema_eq (site : Site) (req : Request) :
    ∃ phoneRequired, createUserSchema site req = createUserKeys site phoneRequired req := by
  by_cases default : site.defaultPhone.any (· ≠ "") = true
  · exact ⟨false, if_pos default⟩
  · exact ⟨true, if_neg default⟩

/-- The key of the password has one schema. -/
theorem PasswordRoute.password_key :
    ∃ language, (route.key, passwordSchema language) ∈ route.keys site req ∧
      ∀ key ∈ route.keys site req, key.1 = route.key → key.2 = passwordSchema language := by
  cases route with
  | createUser =>
      obtain ⟨phoneRequired, same⟩ := createUserSchema_eq site req
      refine ⟨[("string.regex.base", translateCustomMessage site
        "must be at least 8 characters, contain at least one number, 1 small and 1 capital letter"
        req)], ?_⟩
      rw [keys, same]
      simp [key, createUserKeys]
  | changePassword => exact ⟨[], by simp [keys, key, changePasswordSchema]⟩
  | resetPasswordVerify => exact ⟨[], by simp [keys, key, resetPasswordVerifySchema]⟩

/-- The validators let exactly the spelled passwords pass. -/
theorem Carries.next_iff (carries : Carries site route req password) (left : Language) :
    (route.validator site req ⟨true, left⟩).1 = .next ↔ Spelled password := by
  obtain ⟨entries, body, sent⟩ := carries.sent
  obtain ⟨taken, takenBody, same⟩ := @PasswordRoute.received_lookup site route req entries body
  obtain ⟨language, member, only⟩ := @PasswordRoute.password_key site route req
  rw [PasswordRoute.validator_eq, commonValidate_next, takenBody, site.joi.object_passes _ _ _ _ rfl]
  have own : site.joi.validate (taken.lookup route.key) (passwordSchema language) options = none ↔
      Spelled password := by
    rw [same, sent, passwordSchema, site.joi.regex_passes, passwordRegex_accepts]
    refine and_iff_right_of_imp fun spelled empty => ?_
    have long := spelled.long
    rw [empty] at long
    exact absurd long (by decide)
  constructor
  · exact fun passes => own.mp (passes _ member)
  · intro spelled key known
    by_cases password : key.1 = route.key
    · rw [password, only key known password]
      exact own.mpr spelled
    · exact carries.others taken takenBody key known password

/-- The validators accept the documented passwords alone exactly where a spelled
password is mixed. -/
theorem accepted_documented_iff (carries : Carries site route req password) (left : Language) :
    ((route.validator site req ⟨true, left⟩).1 = .next ↔ Documented password) ↔
      (Spelled password → Mixed password) := by
  rw [carries.next_iff left]
  constructor
  · exact fun same spelled => (same.mp spelled).toMixed
  · exact fun mixed => ⟨fun spelled => ⟨spelled, mixed spelled⟩, fun documented => documented.toSpelled⟩

/-! ## Two passwords -/

def changes (password : String) : Request where
  body := .object [("oldPassword", .string "passwordA1"), ("newPassword", .string password)]
  acceptsLanguages := some ["en"]

theorem changes_carries (password : String) :
    Carries russianSite .changePassword (changes password) password where
  sent := ⟨_, rfl, rfl⟩
  others := by
    intro entries body key known different
    cases body
    rcases List.mem_cons.mp known with rfl | last
    · rfl
    · exact absurd (List.mem_singleton.mp last ▸ rfl) different

/-- The new password of the documentation. -/
theorem passwordA6_documented :
    (changePassword russianSite (changes "passwordA6") options).1 = .next ↔ Documented "passwordA6" :=
  (accepted_documented_iff (changes_carries "passwordA6") []).mpr fun _ =>
    ⟨⟨'p', by decide, rfl⟩, ⟨'A', by decide, rfl⟩, ⟨'6', by decide, rfl⟩⟩

/-- A word of one small letter. -/
def weak : String := "aaaaaaaa"

def signsUpWeakly : Request where
  body := .object
    [("firstName", .string "Ann"), ("lastName", .string "Lee"), ("email", .string "ann@example.com"),
      ("phone", .string "+12345678901"), ("country", .string "US"), ("dob", .string "1980-01-01"),
      ("password", .string weak), ("agreeTos", .boolean true)]
  acceptsLanguages := some ["en"]

def resetsWeakly : Request where
  body := .object
    [("email", .string "ann@example.com"), ("password", .string weak),
      ("verification", .object
        [("verificationId", .string "1"), ("code", .string "123456"), ("method", .string "email")])]
  acceptsLanguages := some ["en"]

theorem weak_accepted :
    (createUser russianSite signsUpWeakly options).1 = .next ∧
      (changePassword russianSite (changes weak) options).1 = .next ∧
      (resetPasswordVerify russianSite resetsWeakly options).1 = .next ∧ ¬ Documented weak := by
  refine ⟨by decide +kernel, by decide +kernel, by decide +kernel, fun documented => ?_⟩
  obtain ⟨char, member, upper⟩ := documented.upper
  have small : (weak.toList.all fun char => ¬ char.isUpper = true) = true := by decide
  exact of_decide_eq_true (List.all_eq_true.mp small char member) upper

end IcoDashboard.Validation
