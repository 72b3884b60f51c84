import IcoDashboard.Accounts.Identity
import IcoDashboard.Accounts.PasswordOwners
import IcoDashboard.Async.Stopping
import IcoDashboard.Backend.Bodies
import IcoDashboard.Validation.Passwords

namespace IcoDashboard.Backend

open IcoDashboard.Async IcoDashboard.Async.Program IcoDashboard.Data IcoDashboard.Accounts
open IcoDashboard.Validation (Site Passing Validator ValidatorName Verdict Joi)

/-! # Validated requests

The accounts behind the validators of their routes.  A request that a validator
refuses stops there, so that whatever is stored has passed.
-/

structure Front where
  app : App
  site : Site
  /-- Both are of one configuration. -/
  defaultPhone : site.defaultPhone = app.config.shuftiproDefaultPhone

/-- A request with its body, and the validations that the process has made
before. -/
structure Posted (front : Front) where
  arrival : Arrival
  req : Validation.Request
  before : List Passing := []
  reads : validators arrival.request ≠ [] → ∃ body,
    (received front.site req arrival.request).body = .object body ∧ Body.Reads body arrival.request

/-- The first refusal answers. -/
def validateAll (site : Site) : List ValidatorName → Validator
  | [], _, options => (.next, options)
  | name :: rest, req, options =>
      match Validation.validator site name req options with
      | (.next, left) => validateAll site rest req left
      | refused => refused

inductive Answer where
  | refused (status : Nat) (message : String)
  | answered (response : Response)

variable {front : Front}

def Posted.verdict (posted : Posted front) : Verdict :=
  (validateAll front.site (validators posted.arrival.request) posted.req
    ((Validation.validation front.site).leftBy posted.before)).1

/-- What comes behind the validators. -/
def admitted (verdict : Verdict) (program : Handler Response) : Handler Answer :=
  match verdict with
  | .next => return .answered (← program)
  | .respond status message => return .refused status message

def serve (posted : Posted front) : Handler Answer :=
  match posted.arrival.request with
  | .user authorization userRequest => do
      match ← authenticate authorization with
      | .next user =>
          admitted posted.verdict (handleUser front.app user posted.arrival.draws userRequest)
      | .notAuthorized => return .answered .notAuthorized
      | .notFound => return .answered .notFound
  | request => admitted posted.verdict (handle front.app posted.arrival.draws request)

def served (front : Front) : System Op Ans Exception World Choice (Posted front) Answer where
  handler := serve
  perform := perform

/-! ## One request -/

theorem admitted_shortens (verdict : Verdict) (program : Handler Response) :
    (admitted verdict program).Shortens program := by
  cases verdict with
  | next => exact shortens_map _ _
  | respond => exact .done _ _

theorem serve_shortens (posted : Posted front) :
    (serve posted).Shortens (handle front.app posted.arrival.draws posted.arrival.request) := by
  unfold serve
  cases posted.arrival.request with
  | user authorization userRequest =>
      simp only [handle]
      refine shortens_after (fun result => ?_) _
      cases result with
      | next user => exact admitted_shortens _ _
      | notAuthorized | notFound => exact .done _ _
  | _ => exact admitted_shortens _ _

theorem admitted_passes (verdict : Verdict) (program : Handler Response) (past : AccountTrace) :
    (admitted verdict program).Meets (fun _ op => op.authenticates = true ∨ verdict = .next)
      (fun _ _ => True) (fun _ _ => True) past := by
  cases verdict with
  | next => exact Meets.under fun _ _ _ => .inr rfl
  | respond => trivial

/-- Apart from the authentication, a refused request makes no calls. -/
theorem serve_passes (posted : Posted front) :
    (serve posted).Meets (fun _ op => op.authenticates = true ∨ posted.verdict = .next)
      (fun _ _ => True) (fun _ _ => True) [] := by
  unfold serve
  cases posted.arrival.request with
  | user authorization userRequest =>
      simp only [meets_bind]
      refine (authenticate_acts (fun _ _ => .inl) authorization).mono (fun _ _ guarded => guarded)
        (fun later result _ => ?_) fun _ _ _ => trivial
      cases result with
      | next user => exact admitted_passes _ _ _
      | notAuthorized | notFound => trivial
  | _ => exact admitted_passes _ _ _

/-! ## Runs -/

abbrev ServedState (front : Front) : Type := State Op Ans Exception World (Posted front) Answer

variable {state : ServedState front}

/-- Every run is one of the accounts. -/
theorem served_accounts (reached : (served front).Reachable (.idle {}) state) :
    ∃ whole, (accounts front.app).Reachable (.idle {}) whole ∧
      Shortened Posted.arrival state whole :=
  System.Reachable.shortened rfl serve_shortens reached

/-- A request that has done more than authenticate has passed its validators. -/
theorem served_passed (reached : (served front).Reachable (.idle {}) state)
    {whole : AccountState} (shortened : Shortened Posted.arrival state whole)
    {past : List AccountEvent} {thread : Nat} {op : Op} {answer : Except Exception (Ans op)}
    (occurs : Occurs state.log past ⟨thread, ⟨op, answer⟩⟩) (acts : op.authenticates = false)
    {arrival : Arrival} (serving : Serving whole thread arrival) :
    ∃ posted : Posted front, posted.arrival = arrival ∧ posted.verdict = .next := by
  obtain ⟨origin, choice, posted, resume, before, _, awaiting, _, onward⟩ :=
    reached.event_origin occurs
  obtain ⟨program, found⟩ :=
    ((System.Reachable.initial.step _).trans onward).request_stable awaiting
  obtain ⟨_, found'⟩ := serving
  have same := shortened.request found found'
  refine ⟨posted, same.symm, ?_⟩
  have passes := (before.guarded serve_passes awaiting).1
  rcases passes with authenticates | next
  · rw [acts] at authenticates
    cases authenticates
  · exact next

theorem validateAll_next {site : Site} {names : List ValidatorName} {req : Validation.Request}
    {left : Validation.Language} (next : (validateAll site names req ⟨true, left⟩).1 = .next)
    {name : ValidatorName} (first : names.head? = some name) :
    (Validation.validator site name req ⟨true, left⟩).1 = .next := by
  cases names with
  | nil => cases first
  | cons own rest =>
      cases first
      unfold validateAll at next
      split at next
      · rename_i passed
        rw [passed]
      · exact next

/-- What has passed is what the validator lets pass, whatever texts it finds. -/
theorem Posted.passes {posted : Posted front} (next : posted.verdict = .next) {name : ValidatorName}
    (first : (validators posted.arrival.request).head? = some name) :
    ∃ left, (Validation.validator front.site name posted.req ⟨true, left⟩).1 = .next := by
  unfold Posted.verdict at next
  rw [Validation.leftBy_validation] at next
  exact ⟨_, validateAll_next next first⟩

/-! ## Passwords -/

def routeName : Validation.PasswordRoute → ValidatorName
  | .createUser => .createUser
  | .changePassword => .changePassword
  | .resetPasswordVerify => .resetPasswordVerify

theorem spelled_of_next {site : Site} {route : Validation.PasswordRoute} {req : Validation.Request}
    {body : Body} {password : String} {left : Validation.Language}
    (taken : (route.received site req).body = .object body)
    (sent : body.lookup route.key = some (.string password))
    (next : (Validation.validator site (routeName route) req ⟨true, left⟩).1 = .next) :
    Validation.Spelled password := by
  have same : Validation.validator site (routeName route) = route.validator site := by
    cases route <;> rfl
  obtain ⟨language, member, _⟩ := @Validation.PasswordRoute.password_key site route req
  rw [same, Validation.PasswordRoute.validator_eq, Validation.commonValidate_next, taken,
    site.joi.object_passes _ _ _ _ rfl] at next
  have passes := next _ member
  rw [sent, Validation.passwordSchema, site.joi.regex_passes, Validation.passwordRegex_accepts] at passes
  exact passes.2

/-- A request that sets a password has it from the key that its validator checks. -/
theorem password_read {request : Request} {password : String}
    (sets : request.password = some password) :
    ∃ route, (validators request).head? = some (routeName route) ∧
      (∀ site req, received site req request = route.received site req) ∧
      ∀ body, Body.Reads body request → body.lookup route.key = some (.string password) := by
  unfold Request.password at sets
  split at sets
  · cases sets
    exact ⟨.createUser, rfl, fun _ _ => rfl, fun body reads =>
      Body.text_eq_some.mp (Body.userData_read reads).1⟩
  · cases sets
    exact ⟨.resetPasswordVerify, rfl, fun _ _ => rfl, fun body reads =>
      Body.text_eq_some.mp (Body.resetPasswordInput_read reads)⟩
  · cases sets
    exact ⟨.changePassword, rfl, fun _ _ => rfl, fun body reads =>
      Body.text_eq_some.mp (Body.changePasswordInput_read reads)⟩
  · cases sets

theorem Posted.spelled {posted : Posted front} (next : posted.verdict = .next) {password : String}
    (sets : posted.arrival.request.password = some password) : Validation.Spelled password := by
  obtain ⟨route, first, receives, sent⟩ := password_read sets
  obtain ⟨body, taken, reads⟩ := posted.reads (by rintro none; rw [none] at first; cases first)
  obtain ⟨left, passes⟩ := Posted.passes next first
  rw [receives] at taken
  exact spelled_of_next taken (sent body reads) passes

/-- In every interleaving, whatever the validations left behind, each password that
is stored is the hash of one that has at least eight characters of the documented
alphabet. -/
theorem stored_spelled (reached : (served front).Reachable (.idle {}) state) {id : ObjectID}
    {investor : Investor} (stored : state.world.investors.lookup id = some investor) :
    ∃ password salt, Validation.Spelled password ∧
      investor.passwordHash = front.app.hashSync salt password := by
  obtain ⟨whole, reached', shortened⟩ := served_accounts reached
  rw [shortened.world] at stored
  obtain ⟨past, thread, op, answer, arrival, occurs, acts, serving, password, sets, hash⟩ :=
    stored_password reached' stored
  rw [← shortened.log] at occurs
  obtain ⟨posted, rfl, next⟩ := served_passed reached shortened occurs acts serving
  exact ⟨password, _, Posted.spelled next sets, hash⟩

def annFront : Front where
  app := .plain
  site := Validation.russianSite
  defaultPhone := rfl

/-- Ann's sign-up, with a password of one small letter. -/
def annPosts : Posted annFront where
  arrival :=
    { request := .create
        { email := "ann@example.com", firstName := "Ann", lastName := "Lee", phone := some "+12345678901"
          country := "US", dob := "1980-01-01", agreeTos := true, password := Validation.weak } }
  req := Validation.signsUpWeakly
  reads := fun _ => ⟨_, rfl, rfl⟩

def annServed : ServedState annFront :=
  (served annFront).run (.idle {})
    [.start annPosts, .resume 0 {}, .resume 0 {},
      .resume 0 { verificationId := "v1", code := "123456" }, .resume 0 { id := 1 }, .resume 0 {}]

theorem annServed_stored : ∃ investor, annServed.world.investors.lookup 1 = some investor ∧
    investor.passwordHash = Validation.weak ∧ investor.phone = some "+12345678901" := by
  have columns : (annServed.world.investors.lookup 1).map
      (fun investor => (investor.passwordHash, investor.phone)) =
        some (Validation.weak, some "+12345678901") := by
    decide +kernel
  obtain ⟨investor, stored, same⟩ := Option.map_eq_some_iff.mp columns
  exact ⟨investor, stored, congrArg Prod.fst same, congrArg Prod.snd same⟩

theorem annServed_spelled : ∃ password salt, Validation.Spelled password ∧
    Validation.weak = annFront.app.hashSync salt password := by
  obtain ⟨investor, stored, hash, _⟩ := annServed_stored
  rw [← hash]
  exact stored_spelled (System.reachable_run _ _) stored

/-! ## Phones -/

/-- What Joi documents of texts, required or not. -/
structure ChecksTexts (joi : Joi) : Prop where
  missing : ∀ rules options, rules.required = true → joi.validate none (.string rules) options ≠ none
  regex : ∀ text required pattern language options,
    joi.validate (some (.string text)) (.string { required, regex := some pattern, language }) options =
      none ↔ text ≠ "" ∧ pattern.accepts (utf16 text) = true

theorem firstError_checksTexts : ChecksTexts Validation.firstError where
  missing rules options required passes := by
    have unchecked := Validation.FirstError.validate_eq_none.mp passes
    simp [Validation.FirstError.check, Validation.FirstError.missing, required] at unchecked
  regex text required pattern language options := by
    refine Validation.FirstError.validate_eq_none.trans ?_
    by_cases empty : text = ""
    · simp [Validation.FirstError.check, Validation.FirstError.checkText, empty]
    · cases accepted : pattern.accepts (utf16 text) <;>
        simp [Validation.FirstError.check, Validation.FirstError.checkText, empty, accepted]

theorem createUserSchema_keys (site : Site) (req : Validation.Request) :
    Validation.createUserSchema site req =
      Validation.createUserKeys site (!site.defaultPhone.any (· ≠ "")) req := by
  unfold Validation.createUserSchema
  split
  · rename_i default
    rw [default]
    rfl
  · rename_i default
    rw [Bool.not_eq_true] at default
    rw [default]
    rfl

theorem phone_key (site : Site) (phoneRequired : Bool) (req : Validation.Request) :
    ∃ language, ("phone", .string
      { required := phoneRequired, regex := some Validation.phoneNumberRegex, language }) ∈
        Validation.createUserKeys site phoneRequired req := by
  refine ⟨[("string.regex.base", Validation.translateCustomMessage site
    "must be a valid phone number (+1234567890)" req)], ?_⟩
  simp [Validation.createUserKeys]

def ValidPhone (front : Front) (phone : String) : Prop :=
  Validation.phoneNumberRegex.accepts (utf16 phone) = true ∨
    front.app.config.shuftiproDefaultPhone = some phone ∧ phone ≠ ""

/-- The phone of a new user is one of the pattern, or the default one. -/
theorem created_phone (checks : ChecksTexts front.site.joi) {posted : Posted front}
    (next : posted.verdict = .next) {userData : UserData}
    (own : posted.arrival.request = .create userData) (passwordHash verificationId : String) :
    ∃ phone, (Investor.createInvestor front.app userData passwordHash verificationId).phone =
      some phone ∧ ValidPhone front phone := by
  obtain ⟨body, taken, reads⟩ := posted.reads (by rw [own]; simp [validators])
  obtain ⟨left, passes⟩ := Posted.passes next (by rw [own]; rfl)
  rw [own] at taken reads
  have given := (Body.userData_read reads).2
  change (Validation.commonValidate _ _ _ _ _).1 = _ at passes
  rw [Validation.commonValidate_next, show (Validation.decodeReferral _ _).body = _ from taken,
    front.site.joi.object_passes _ _ _ _ rfl, createUserSchema_keys] at passes
  obtain ⟨language, member⟩ :=
    phone_key front.site (!front.site.defaultPhone.any (· ≠ "")) posted.req
  have phonePasses := passes _ member
  unfold Body.textIfAny at given
  split at given
  · rename_i text sent
    rw [sent, checks.regex] at phonePasses
    refine ⟨text, ?_, .inl phonePasses.2⟩
    rw [Investor.createInvestor, ← Option.some.inj given]
    simp [truthy, phonePasses.1]
  · cases given
  · rename_i absent
    rw [absent] at phonePasses
    have optional : front.site.defaultPhone.any (· ≠ "") = true := by
      by_contra required
      exact checks.missing _ _ (by simpa using required) phonePasses
    rw [front.defaultPhone] at optional
    obtain ⟨phone, default, nonempty⟩ := (Option.any_eq_true _ _).mp optional
    refine ⟨phone, ?_, .inr ⟨default, by simpa using nonempty⟩⟩
    rw [Investor.createInvestor, ← Option.some.inj given]
    simpa [truthy] using default

/-- In every interleaving, each investor that is stored has a phone number that the
validator has checked, or the default one. -/
theorem stored_phone (checks : ChecksTexts front.site.joi)
    (reached : (served front).Reachable (.idle {}) state) {id : ObjectID} {investor : Investor}
    (stored : state.world.investors.lookup id = some investor) :
    ∃ phone, investor.phone = some phone ∧ ValidPhone front phone := by
  obtain ⟨whole, reached', shortened⟩ := served_accounts reached
  rw [shortened.world] at stored
  obtain ⟨past, thread, created, occurs, same⟩ :=
    ((columnInvariant Identity.of reached').stored id investor stored).signedUp reached'
  obtain ⟨_, arrival, _, _, _, _, serving, guard, _⟩ := event_guarded reached' occurs
  obtain ⟨userData, passwordHash, verificationId, own, rfl⟩ := guard
  rw [← shortened.log] at occurs
  obtain ⟨posted, rfl, next⟩ := served_passed reached shortened occurs rfl serving
  have samePhone : _ = investor.phone := congrArg Identity.phone same
  rw [← samePhone]
  exact created_phone checks next own passwordHash verificationId

theorem annServed_phone : ∃ phone, some "+12345678901" = some phone ∧ ValidPhone annFront phone := by
  obtain ⟨investor, stored, _, phone⟩ := annServed_stored
  rw [← phone]
  exact stored_phone firstError_checksTexts (System.reachable_run _ _) stored

end IcoDashboard.Backend
