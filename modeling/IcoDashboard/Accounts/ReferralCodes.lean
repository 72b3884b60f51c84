import IcoDashboard.Accounts.CustomerIds
import IcoDashboard.Accounts.Verifications
import IcoDashboard.Async.Evaluation
import IcoDashboard.Validation.Middleware

namespace IcoDashboard.Accounts

open IcoDashboard.Async IcoDashboard.Async.Program IcoDashboard.Data IcoDashboard.Helpers

/-! # Encoded texts

The two texts that leave the backend in URL-safe base64 and come back: the email in a
referral code, and the hash in the success URL of Jumio.
-/

/-- A sign-up with the code is checked, and then served, with the text as its referral. -/
def SignsUpReferredBy (code text : String) : Prop :=
  ∀ (site : Validation.Site) (req : Validation.Request) entries, req.body = .object entries →
    entries.lookup "referral" = some (.string code) →
    Validation.createUser site req = Validation.commonValidate site 422
      (.object false (Validation.createUserSchema site req)) (Validation.decodeReferral site req) ∧
    ∃ decoded, (Validation.decodeReferral site req).body = .object decoded ∧
      decoded.lookup "referral" = some (.string text) ∧
      ∀ key, key ≠ "referral" → decoded.lookup key = entries.lookup key

/-- The success URL that ends in a hash for `successUpload`. -/
def SuccessUrl (app : App) (investor : ObjectID) (successUrl : String) (base64hash : String) : Prop :=
  successUrl = app.config.apiUrl ++ "/kyc/uploaded/" ++ investor.toHexString ++ "/" ++ base64hash

/-- The investor is pending who was not verified before, and nobody else changes. -/
def SetsPending (id : ObjectID) (before after : World) : Prop :=
  ∀ other, after.investors.lookup other = (before.investors.lookup other).map fun investor =>
    if other = id ∧ investor.kycStatus = .notVerified then { investor with kycStatus := .pending }
    else investor

/-- A call of the success URL is believed. -/
def UploadAccepted (app : App) (id : ObjectID) (base64hash : String) : Prop :=
  ∀ choice world, choice.rejects = none → ∃ after, SetsPending id world after ∧
    (JumioProvider.successUpload app id.toHexString base64hash).evaluate (perform choice) world =
      (.ok (app.config.frontendUrl ++ "/dashboard/verification/success"), after)

/-- Of what a handler for the initiation asks of Jumio, the success URL ends in a code
of the hash, with which its call is believed. -/
def SendsHash (app : App) (investor : Doc ObjectID Investor) (hash : String) (op : Op) : Prop :=
  ∀ options, op = .jumioInit options → ∃ base64hash,
    SuccessUrl app investor.id options.successUrl base64hash ∧
    (∀ char ∈ base64hash.toList, UrlSafe char) ∧
    base64decode base64hash = hash ∧ UploadAccepted app investor.id base64hash

/-- Every text is recovered from its code, which is safe in a URL.  So are the emails
of the investors and the hashes for Jumio. -/
structure TextsRecovered (app : App) (world : World) : Prop where
  decoded : ∀ text, base64decode (base64encode text) = text
  safe : ∀ text, ∀ char ∈ (base64encode text).toList, UrlSafe char
  distinct : ∀ first ∈ world.investors.docs, ∀ second ∈ world.investors.docs,
    first.val.email ≠ second.val.email → first.val.referralCode ≠ second.val.referralCode
  referral : ∀ investor ∈ world.investors.docs,
    SignsUpReferredBy investor.val.referralCode investor.val.email
  hash : ∀ investor draws, (JumioProvider.init app investor draws).Meets
    (fun _ op => SendsHash app investor
      (app.hashSync draws.kycSalt (investor.id.toHexString ++ app.config.jumioApiSecret)) op)
    (fun _ _ => True) (fun _ _ => True) []

variable {app : App} {state : AccountState}

theorem signsUp_code (email : String) : SignsUpReferredBy (base64encode email) email := by
  intro site req entries body sent
  obtain ⟨decoded, taken, recovered⟩ := @Validation.decodeReferral_code site req entries email body sent
  obtain ⟨decoded', taken', others⟩ := @Validation.decodeReferral_lookup site req entries body
  rw [taken] at taken'
  cases taken'
  exact ⟨rfl, decoded, taken, recovered, others⟩

theorem Changes.referralCode {draws : Draws} {loaded saved : Investor} {request : Request}
    (changes : Changes app draws loaded saved request) :
    saved.referralCode = loaded.referralCode := by
  unfold Changes at changes
  split at changes <;> grind

/-- The code of a stored investor is that of its email. -/
theorem referralCode_stored (reached : (accounts app).Reachable (.idle {}) state)
    {investor : Doc ObjectID Investor} (stored : investor ∈ state.world.investors.docs) :
    investor.val.referralCode = base64encode investor.val.email := by
  have all := allInvestors (P := fun investor =>
      investor.referralCode = base64encode investor.email)
    (fun _ _ created => by
      obtain ⟨_, _, _, _, same⟩ := created
      rw [same]
      rfl)
    (fun draws request loaded saved changes own => by
      rw [changes.referralCode, changes.email]
      exact own) reached
  exact all.stored investor.id investor.val (Collection.lookup_eq_some_iff.mpr stored)

theorem SetsPending.decided {id : ObjectID} {world : World}
    (decided : ∀ investor, world.investors.lookup id = some investor →
      investor.kycStatus ≠ .notVerified) : SetsPending id world world := by
  intro other
  cases found : world.investors.lookup other with
  | none => rfl
  | some investor =>
      rw [Option.map_some, if_neg]
      rintro ⟨rfl, unverified⟩
      exact decided investor found unverified

theorem SetsPending.saved {doc : Doc ObjectID Investor} {world : World}
    (stored : world.investors.lookup doc.id = some doc.val)
    (unverified : doc.val.kycStatus = .notVerified) :
    SetsPending doc.id world
      { world with
        investors := world.investors.save Investor.write
          (doc.modify fun investor => { investor with kycStatus := .pending }) } := by
  intro other
  rw [Collection.lookup_save, Doc.modify_id]
  split
  · rename_i same
    subst same
    rw [stored, Option.map_some, Option.map_some, if_pos ⟨rfl, unverified⟩]
    rfl
  · rename_i different
    simp only [different, false_and, if_false, Option.map_id']

theorem setPendingById_evaluate (id : ObjectID) {choice : Choice} (answered : choice.rejects = none)
    (world : World) : ∃ after, SetsPending id world after ∧
      (JumioProvider.setPendingById id.toHexString).evaluate (perform choice) world = (.ok (), after) := by
  have loads : perform choice (.findInvestor (.id (some id))) world =
      (.ok (world.investors.findOneById id), world) := by
    simp only [perform, answered, answer, World.findInvestor]
  simp only [JumioProvider.setPendingById, ObjectID.ofText_toHexString, evaluate_bind,
    evaluate_orThrow, Option.elim_some, request, evaluate_call, loads]
  cases found : world.investors.findOneById id with
  | none =>
      refine ⟨world, .decided fun investor stored => ?_, rfl⟩
      rw [Collection.lookup, found] at stored
      cases stored
  | some doc =>
      obtain ⟨rfl, stored⟩ := Collection.lookup_of_findOneById found
      by_cases unverified : doc.val.kycStatus = .notVerified
      · refine ⟨_, .saved stored unverified, ?_⟩
        simp only [JumioProvider.setPending, unverified, if_true, request, evaluate_call, perform,
          answered, answer]
      · refine ⟨world, .decided fun investor here => ?_, ?_⟩
        · rw [stored] at here
          cases here
          exact unverified
        · simp only [JumioProvider.setPending, unverified, if_false, evaluate_pure]

theorem upload_accepted (id : ObjectID) (salt : String) :
    UploadAccepted app id
      (base64encode (app.hashSync salt (id.toHexString ++ app.config.jumioApiSecret))) := by
  intro choice world answered
  obtain ⟨after, sets, pending⟩ := setPendingById_evaluate id answered world
  refine ⟨after, sets, ?_⟩
  simp only [JumioProvider.successUpload, base64decode_base64encode, app.compareSync_hashSync,
    evaluate_bind, evaluate_orThrow, Option.elim_some, if_true, pending, evaluate_pure]

theorem jumioInit_hash (investor : Doc ObjectID Investor) (draws : Draws) :
    (JumioProvider.init app investor draws).Meets
      (fun _ op => SendsHash app investor
        (app.hashSync draws.kycSalt (investor.id.toHexString ++ app.config.jumioApiSecret)) op)
      (fun _ _ => True) (fun _ _ => True) [] := by
  unfold JumioProvider.init
  split
  · refine ⟨?_, fun answer => by cases answer <;> trivial⟩
    intro options asked
    cases asked
    exact ⟨_, rfl, base64encode_safe _, base64decode_base64encode _, upload_accepted _ _⟩
  · trivial

/-- In every run. -/
theorem textsRecovered (reached : (accounts app).Reachable (.idle {}) state) :
    TextsRecovered app state.world where
  decoded := base64decode_base64encode
  safe := base64encode_safe
  distinct first firstStored second secondStored differ := by
    rw [referralCode_stored reached firstStored, referralCode_stored reached secondStored]
    exact base64encode_injective.ne differ
  referral investor stored := by
    rw [referralCode_stored reached stored]
    exact signsUp_code investor.val.email
  hash := jumioInit_hash

theorem activated_recovered : TextsRecovered .plain activated.world :=
  textsRecovered (System.reachable_run _ _)

end IcoDashboard.Accounts
