import IcoDashboard.Accounts.Alone
import IcoDashboard.Accounts.Web3Queue

namespace IcoDashboard.Accounts

open IcoDashboard.Async IcoDashboard.Async.Program IcoDashboard.Data

/-! # KYC statuses

A status changes only by a save of a copy that was loaded in the same request,
and with the requests run in turn the copy is what is stored.  So what each
handler makes of the status of its copy is what happens to the stored one.
-/

variable {app : App} {arrival : Arrival}

def statusOf (investors : Collection ObjectID Investor) (id : ObjectID) : Option KycStatus :=
  (investors.lookup id).map Investor.kycStatus

/-! ## What a request does to a status -/

/-- The requests that change a status. -/
def Request.changesStatus : Request → Bool
  | .kycCallback _ | .kycUploaded _ _ => true
  | _ => false

def KycCallback.vendor : KycCallback → KycProvider
  | .shuftipro _ => .shuftipro
  | .jumio _ => .jumio

/-- The body reports a successful verification. -/
def KycCallback.Succeeded : KycCallback → Prop
  | .shuftipro result => result.statusCode = some "SP1"
  | .jumio result => result.idScanStatus = "SUCCESS" ∧ result.identityVerification = some (some true)

/-- The configured provider reads the body of a callback. -/
def Request.Addressed (app : App) (request : Request) : Prop :=
  ∀ body, request = .kycCallback body → body.vendor = app.config.kycProvider

def Whitelisted (past : AccountTrace) (address : String) : Prop :=
  ⟨.addAddressToWhiteList address, .ok ()⟩ ∈ past

/-- What becomes of the status of a loaded investor when it is saved. -/
def Moves (app : App) (past : AccountTrace) (loaded saved : Investor) : Request → Prop
  | .kycUploaded _ _ => investorWrites past = [] ∧ loaded.kycStatus = .notVerified ∧
      saved.kycStatus = .pending
  | .kycCallback _ => investorWrites past = [] ∧ loaded.kycStatus ≠ .verified ∧
      (app.config.kycProvider = .jumio → loaded.kycStatus ≠ .failed) ∧
      (saved.kycStatus = loaded.kycStatus ∨ saved.kycStatus = .failed ∨
        saved.kycStatus = .verified ∧ ∃ wallet, loaded.ethWallet = some wallet ∧
          Whitelisted past wallet.address)
  | _ => saved.kycStatus = loaded.kycStatus

/-- The address is that of the wallet of the investor a callback verifies. -/
def Verifies (past : AccountTrace) (request : Request) (address : String) : Prop :=
  ∃ body query user wallet, request = .kycCallback body ∧ body.Succeeded ∧
    investorWrites past = [] ∧ acting past = some (query, user) ∧
    user.val.ethWallet = some wallet ∧ wallet.address = address

def KycGuard (app : App) (request : Request) (past : AccountTrace) : Op → Prop
  | .saveInvestor saved => ∃ query user, acting past = some (query, user) ∧ saved.id = user.id ∧
      Moves app past user.val saved.val request
  | .insertInvestor investor => investor.kycStatus = .notVerified
  | .addAddressToWhiteList address => Verifies past request address
  | _ => True

/-- Only callbacks and uploads change a status. -/
theorem Changes.kycStatus {draws : Draws} {loaded saved : Investor} {request : Request}
    (changes : Changes app draws loaded saved request) (other : request.changesStatus = false) :
    saved.kycStatus = loaded.kycStatus := by
  unfold Changes at changes
  split at changes <;> grind [Request.changesStatus]

theorem moves_of_kept {past : AccountTrace} {loaded saved : Investor} {request : Request}
    (kept : saved.kycStatus = loaded.kycStatus) (other : request.changesStatus = false) :
    Moves app past loaded saved request := by
  cases request with
  | kycCallback body => cases other
  | kycUploaded id base64hash => cases other
  | _ => exact kept

/-- What every other request may do keeps the statuses. -/
theorem Guard.kyc {past : AccountTrace} {op : Op} (enabled : app.config.kycEnabled = true)
    (other : arrival.request.changesStatus = false) (guard : Guard app arrival past op) :
    KycGuard app arrival.request past op := by
  cases op with
  | saveInvestor saved =>
      obtain ⟨query, user, acts, sameId, changes⟩ := guard
      exact ⟨query, user, acts, sameId, moves_of_kept (changes.kycStatus other) other⟩
  | insertInvestor investor =>
      obtain ⟨userData, passwordHash, verificationId, _, created⟩ := guard
      rw [created]
      simp [KycGuard, Investor.createInvestor, enabled]
  | addAddressToWhiteList address =>
      obtain ⟨body, own⟩ := guard
      rw [own] at other
      cases other
  | _ => trivial

/-! ## The callbacks and the upload -/

/-- An address that was put on the whitelist is followed by the save of its
investor as verified. -/
def SavesNext (trace : AccountTrace) : Prop :=
  ∀ front later address, trace = front ++ ⟨.addAddressToWhiteList address, .ok ()⟩ :: later →
    ∃ query user saved result rest, acting front = some (query, user) ∧
      later = ⟨.saveInvestor saved, result⟩ :: rest ∧ saved.id = user.id ∧
      saved.val.kycStatus = .verified

theorem savesNext_of_unlisted {trace : AccountTrace}
    (unlisted : ∀ address, ¬ Whitelisted trace address) : SavesNext trace := by
  intro front later address split
  refine absurd ?_ (unlisted address)
  rw [Whitelisted, split]
  exact List.mem_append_right _ List.mem_cons_self

theorem savesNext_saved {past : AccountTrace} {address : String} {query : InvestorQuery}
    {user saved : Doc ObjectID Investor} {result : Except Exception Unit}
    (unlisted : ∀ address, ¬ Whitelisted past address) (acts : acting past = some (query, user))
    (sameId : saved.id = user.id) (verified : saved.val.kycStatus = .verified) :
    SavesNext (past ++ [⟨.addAddressToWhiteList address, .ok ()⟩, ⟨.saveInvestor saved, result⟩]) := by
  intro front later address' split
  rcases List.append_eq_append_iff.mp split with ⟨between, fronts, rests⟩ | ⟨between, pasts, rests⟩
  · cases between with
    | nil =>
        obtain ⟨_, tail⟩ := List.cons.inj rests
        rw [fronts, List.append_nil]
        exact ⟨query, user, saved, result, [], acts, tail.symm, sameId, verified⟩
    | cons first others =>
        -- the only call after the first is the save
        obtain ⟨_, tail⟩ := List.cons.inj rests
        have member : ⟨.addAddressToWhiteList address', .ok ()⟩ ∈
            ([⟨.saveInvestor saved, result⟩] : AccountTrace) := by
          rw [tail]
          exact List.mem_append_right _ List.mem_cons_self
        simp at member
  · cases between with
    | nil =>
        obtain ⟨_, tail⟩ := List.cons.inj rests
        rw [← List.append_nil front, ← pasts]
        exact ⟨query, user, saved, result, [], acts, tail, sameId, verified⟩
    | cons first others =>
        obtain ⟨same, _⟩ := List.cons.inj rests
        refine absurd ?_ (unlisted address')
        rw [Whitelisted, pasts, same]
        exact List.mem_append_right _ List.mem_cons_self

/-- A callback has loaded the user, whose status its vendor may still change, and
neither saved nor whitelisted anything. -/
structure Deciding (app : App) (query : InvestorQuery) (user : Doc ObjectID Investor)
    (past : AccountTrace) : Prop where
  acts : acting past = some (query, user)
  noWrite : investorWrites past = []
  unlisted : ∀ address, ¬ Whitelisted past address
  unverified : user.val.kycStatus ≠ .verified
  unfailed : app.config.kycProvider = .jumio → user.val.kycStatus ≠ .failed

section Deciding

variable {query : InvestorQuery} {user saved : Doc ObjectID Investor} {past : AccountTrace}
  {body : KycCallback}

theorem Deciding.saved_meets (deciding : Deciding app query user past)
    (own : arrival.request = .kycCallback body) (sameId : saved.id = user.id)
    (status : saved.val.kycStatus = user.val.kycStatus ∨ saved.val.kycStatus = .failed) :
    (request (.saveInvestor saved)).Meets (KycGuard app arrival.request)
      (fun trace _ => SavesNext trace) (fun trace _ => SavesNext trace) past := by
  have moves : Moves app past user.val saved.val arrival.request := by
    rw [own]
    exact ⟨deciding.noWrite, deciding.unverified, deciding.unfailed,
      status.elim .inl fun failed => .inr (.inl failed)⟩
  have saves : ∀ result : Except Exception Unit,
      SavesNext (past ++ [⟨.saveInvestor saved, result⟩]) := by
    intro result
    apply savesNext_of_unlisted
    intro address member
    exact deciding.unlisted address (by simpa [Whitelisted] using member)
  simp only [request, call, meets_await, meets_done, meets_fail]
  exact ⟨⟨query, user, deciding.acts, sameId, moves⟩, fun _ => saves _, fun _ => saves _⟩

/-- The wallet is put on the whitelist, and then the user is saved as verified. -/
theorem Deciding.verified_meets (deciding : Deciding app query user past)
    (own : arrival.request = .kycCallback body) (succeeded : body.Succeeded)
    {verify : Investor → Investor} (verified : (verify user.val).kycStatus = .verified) :
    (do let ethWallet ← orThrow user.val.ethWallet typeError
        request (.addAddressToWhiteList ethWallet.address)
        return user.modify verify : Handler (Doc ObjectID Investor)).Meets
      (KycGuard app arrival.request)
      (fun later saved => (request (.saveInvestor saved)).Meets (KycGuard app arrival.request)
        (fun trace _ => SavesNext trace) (fun trace _ => SavesNext trace) later)
      (fun trace _ => SavesNext trace) past := by
  simp only [request, call, meets_bind, meets_await, meets_done, meets_fail, meets_pure,
    meets_orThrow]
  refine ⟨fun wallet owned => ⟨?_, fun _ => ⟨?_, fun _ => ?_, fun _ => ?_⟩, fun error => ?_⟩,
    fun _ => savesNext_of_unlisted deciding.unlisted⟩
  · exact ⟨body, query, user, wallet, own, succeeded, deciding.noWrite, deciding.acts, owned, rfl⟩
  · refine ⟨query, user, acting_append deciding.acts _, rfl, ?_⟩
    rw [own]
    refine ⟨?_, deciding.unverified, deciding.unfailed, .inr (.inr ⟨verified, wallet, owned, ?_⟩)⟩
    · rw [investorWrites_append, deciding.noWrite]
      rfl
    · exact List.mem_append_right _ List.mem_cons_self
  · rw [List.append_assoc]
    exact savesNext_saved deciding.unlisted deciding.acts rfl verified
  · rw [List.append_assoc]
    exact savesNext_saved deciding.unlisted deciding.acts rfl verified
  · apply savesNext_of_unlisted
    intro address member
    exact deciding.unlisted address (by simpa [Whitelisted] using member)

end Deciding

theorem applyKycResult_kyc {query : InvestorQuery} {user : Doc ObjectID Investor}
    {past : AccountTrace} (deciding : Deciding app query user past) {result : ShuftiproInitResult}
    (own : arrival.request = .kycCallback (.shuftipro result)) (kycResult : ShuftiproKycResult)
    (sameStatus : kycResult.statusCode = result.statusCode) :
    (ShuftiproProvider.applyKycResult user kycResult).Meets (KycGuard app arrival.request)
      (fun later saved => (request (.saveInvestor saved)).Meets (KycGuard app arrival.request)
        (fun trace _ => SavesNext trace) (fun trace _ => SavesNext trace) later)
      (fun trace _ => SavesNext trace) past := by
  simp only [ShuftiproProvider.applyKycResult, meets_ite, meets_pure]
  refine ⟨fun success => ?_, fun _ => ⟨fun _ => ?_, fun _ => ?_⟩⟩
  · exact deciding.verified_meets own (sameStatus.symm.trans success) rfl
  · exact deciding.saved_meets own rfl (.inr rfl)
  · exact deciding.saved_meets own rfl (.inl rfl)

theorem processCallback_kyc (result : ShuftiproInitResult) (timestamp : String)
    (own : arrival.request = .kycCallback (.shuftipro result))
    (addressed : arrival.request.Addressed app) :
    (ShuftiproProvider.processCallback app result timestamp).Meets (KycGuard app arrival.request)
      (fun trace _ => SavesNext trace) (fun trace _ => SavesNext trace) [] := by
  have provider : app.config.kycProvider = .shuftipro := (addressed _ own).symm
  simp only [ShuftiproProvider.processCallback, findInvestor, request, call, meets_bind, meets_await,
    meets_done, meets_fail, meets_pure, meets_ite, meets_throwIf, meets_orThrow, KycGuard, true_and]
  refine ⟨fun stored => ⟨fun found => ⟨fun user same => ⟨fun id => ⟨fun _ => ?_, fun unverified =>
    ⟨fun _ => ?_, fun _ => ?signed⟩⟩, fun error => ?_⟩, fun _ => ?_⟩, fun error => ?_⟩, fun error => ?_⟩
  case signed =>
    subst same
    have deciding : Deciding app (ShuftiproProvider.callbackQuery stored result.reference) user
        ([] ++ [⟨.findKycResult result.reference, .ok stored⟩] ++
          [⟨.findInvestor (ShuftiproProvider.callbackQuery stored result.reference),
            .ok (some user)⟩] ++
          [⟨.insertKycResult { ShuftiproKycResult.createShuftiproKycResult
              { result with timestamp := some timestamp } with user := some user.id }, .ok id⟩]) := by
      refine ⟨rfl, rfl, ?_, unverified, ?_⟩
      · simp [Whitelisted]
      · rw [provider]
        intro other
        cases other
    have applied := applyKycResult_kyc deciding own
      (ShuftiproKycResult.createShuftiproKycResult { result with timestamp := some timestamp }) rfl
    simpa only [request, call, meets_await, meets_done, meets_fail, KycGuard] using applied
  all_goals
    apply savesNext_of_unlisted
    simp [Whitelisted]

theorem applyVerificationResult_kyc {query : InvestorQuery} {user : Doc ObjectID Investor}
    {past : AccountTrace} (deciding : Deciding app query user past) {result : JumioResult}
    (own : arrival.request = .kycCallback (.jumio result)) :
    (JumioProvider.applyVerificationResult user result).Meets (KycGuard app arrival.request)
      (fun later saved => (request (.saveInvestor saved)).Meets (KycGuard app arrival.request)
        (fun trace _ => SavesNext trace) (fun trace _ => SavesNext trace) later)
      (fun trace _ => SavesNext trace) past := by
  simp only [JumioProvider.applyVerificationResult, meets_ite, meets_pure, meets_throw]
  refine ⟨fun success => ?_, fun _ => ⟨fun _ => ?_, fun _ => ?_⟩⟩
  · rw [meets_bind, meets_orThrow]
    refine ⟨fun validity given => ?_, fun _ => savesNext_of_unlisted deciding.unlisted⟩
    rw [meets_ite]
    refine ⟨fun valid => ?_, fun _ => deciding.saved_meets own rfl (.inr rfl)⟩
    exact deciding.verified_meets own ⟨success, by rw [given, valid]⟩ rfl
  · exact deciding.saved_meets own rfl (.inr rfl)
  · exact savesNext_of_unlisted deciding.unlisted

theorem jumioCallback_kyc (result : JumioResult)
    (own : arrival.request = .kycCallback (.jumio result)) :
    (JumioProvider.callback result).Meets (KycGuard app arrival.request)
      (fun trace _ => SavesNext trace) (fun trace _ => SavesNext trace) [] := by
  simp only [JumioProvider.callback, request, call, meets_bind, meets_await, meets_done, meets_fail,
    meets_orThrow, KycGuard, true_and]
  refine ⟨fun _ => ⟨fun id valid => ⟨fun found => ?answered, fun error => ?_⟩, fun _ => ?_⟩,
    fun error => ?_⟩
  case answered =>
    cases found with
    | none =>
        apply savesNext_of_unlisted
        simp [Whitelisted]
    | some user =>
        simp only [meets_ite, meets_pure, meets_bind]
        refine ⟨fun _ => ?_, fun undecided => ?_⟩
        · apply savesNext_of_unlisted
          simp [Whitelisted]
        · have deciding : Deciding app (.id (some id)) user ([] ++ [⟨.insertJumioResult result, .ok ()⟩] ++
              [⟨.findInvestor (.id (some id)), .ok (some user)⟩]) := by
            refine ⟨rfl, rfl, ?_, fun verified => undecided (.inl verified),
              fun _ failed => undecided (.inr failed)⟩
            simp [Whitelisted]
          have applied := applyVerificationResult_kyc deciding own
          simpa only [request, call, meets_await, meets_done, meets_fail, KycGuard] using applied
  all_goals
    apply savesNext_of_unlisted
    simp [Whitelisted]

theorem successUpload_kyc (id base64hash : String)
    (own : arrival.request = .kycUploaded id base64hash) :
    (JumioProvider.successUpload app id base64hash).Meets (KycGuard app arrival.request)
      (fun _ _ => True) (fun _ _ => True) [] := by
  have pending : (JumioProvider.setPendingById id).Meets (KycGuard app arrival.request)
      (fun _ _ => True) (fun _ _ => True) [] := by
    simp only [JumioProvider.setPendingById, request, call, meets_bind, meets_await, meets_done,
      meets_fail, meets_orThrow, KycGuard, implies_true, and_true, true_and]
    intro objectId valid found
    cases found with
    | none => trivial
    | some user =>
        simp only [JumioProvider.setPending, request, call, meets_ite, meets_await, meets_done,
          meets_fail, meets_pure, implies_true, and_true]
        intro unverified
        refine ⟨_, user, rfl, rfl, ?_⟩
        rw [own]
        exact ⟨rfl, unverified, rfl⟩
  simp only [JumioProvider.successUpload, meets_bind, meets_orThrow, meets_ite, meets_pure,
    implies_true, and_true]
  exact fun _ _ _ => pending

/-- Every request keeps the guards; what it whitelists, it saves as verified. -/
theorem handle_kyc (enabled : app.config.kycEnabled = true)
    (addressed : arrival.request.Addressed app) :
    (handle app arrival.draws arrival.request).Meets (KycGuard app arrival.request)
      (fun trace _ => ∀ body, arrival.request = .kycCallback body → SavesNext trace)
      (fun trace _ => ∀ body, arrival.request = .kycCallback body → SavesNext trace) [] := by
  by_cases changing : arrival.request.changesStatus = true
  · cases own : arrival.request with
    | kycCallback body =>
        have called : (KycProvider.callback app body (arrival.draws.clock 0)).Meets
            (KycGuard app arrival.request) (fun trace _ => SavesNext trace)
            (fun trace _ => SavesNext trace) [] := by
          cases body with
          | shuftipro result => exact processCallback_kyc result _ own addressed
          | jumio result => exact jumioCallback_kyc result own
        rw [own] at called
        simp only [handle, meets_bind, meets_pure]
        exact called.mono (fun _ _ guarded => guarded) (fun _ _ saves _ _ => saves)
          (fun _ _ saves _ _ => saves)
    | kycUploaded id base64hash =>
        have uploaded : (KycProvider.successUpload app id base64hash).Meets
            (KycGuard app arrival.request) (fun _ _ => True) (fun _ _ => True) [] := by
          unfold KycProvider.successUpload
          split
          · trivial
          · exact successUpload_kyc id base64hash own
        rw [own] at uploaded
        simp only [handle, meets_bind, meets_pure]
        exact uploaded.mono (fun _ _ guarded => guarded) (fun _ _ _ _ callback => by cases callback)
          (fun _ _ _ _ callback => by cases callback)
    | _ =>
        rw [own] at changing
        cases changing
  · have other : arrival.request.changesStatus = false := by simpa using changing
    have uncalled : ∀ body, arrival.request ≠ .kycCallback body := by
      intro body own
      rw [own] at other
      cases other
    exact (handle_meets app arrival).mono (fun _ _ guard => guard.kyc enabled other)
      (fun _ _ _ body own => absurd own (uncalled body))
      (fun _ _ _ body own => absurd own (uncalled body))

/-! ## The loaded copy is what is stored -/

structure KycInvariant (arrival : Arrival) (before : World) (past : AccountTrace) (world : World) :
    Prop where
  investors : world.investors = storedAfter before past
  unsaved : ∀ query user, acting past = some (query, user) → investorWrites past = [] →
    world.investors.lookup user.id = some user.val
  status : ∀ query user, acting past = some (query, user) →
    arrival.request.changesStatus = false →
    statusOf world.investors user.id = some user.val.kycStatus

theorem statusOf_save {investors : Collection ObjectID Investor} {saved : Doc ObjectID Investor}
    {id : ObjectID} : statusOf (investors.save Investor.write saved) id =
      if id = saved.id then (statusOf investors id).map fun _ => saved.val.kycStatus
      else statusOf investors id := by
  unfold statusOf
  rw [Collection.lookup_save]
  split
  · rw [Option.map_map, Option.map_map]
    rfl
  · rfl

theorem statusOf_insert {before after : Collection ObjectID Investor} {id other : ObjectID}
    {investor : Investor} (inserted : before.insert ⟨id, investor⟩ = some after) :
    statusOf after other =
      if other = id then some investor.kycStatus else statusOf before other :=
  Collection.map_lookup_insert Investor.kycStatus inserted other

theorem KycInvariant.step {before world : World} {past : AccountTrace} {op : Op} {choice : Choice}
    (guard : KycGuard app arrival.request past op)
    (holds : KycInvariant arrival before past world) :
    KycInvariant arrival before (past ++ [⟨op, (perform choice op world).1⟩])
      (perform choice op world).2 := by
  have effect := perform_investors choice op world
  have alone := (AloneInvariant.mk holds.investors holds.unsaved).step op choice
  refine ⟨alone.investors, alone.unsaved, ?_⟩
  · intro query user acts other
    rcases acting_snoc acts with old | loaded
    · have status := holds.status query user old other
      generalize (perform choice op world).1 = result at effect
      generalize (perform choice op world).2.investors = after at effect ⊢
      cases effect with
      | kept => exact status
      | saved investor =>
          obtain ⟨query', user', acts', sameId, moves⟩ := guard
          rw [old] at acts'
          cases acts'
          have kept : investor.val.kycStatus = user.val.kycStatus := by
            cases own : arrival.request with
            | kycCallback body => rw [own] at other; cases other
            | kycUploaded id base64hash => rw [own] at other; cases other
            | _ => rw [own] at moves; exact moves
          rw [statusOf_save, sameId, if_pos rfl, status, Option.map_some, kept]
      | inserted investor id after unused inserted =>
          have different : user.id ≠ id := by
            intro same
            rw [same, statusOf, (Collection.insert_eq_some_iff.mp inserted).1] at status
            cases status
          rw [statusOf_insert inserted, if_neg different]
          exact status
    · rw [statusOf, loaded_stored loaded]
      rfl

/-! ## The law of the statuses -/

/-- The visit is a callback with this body. -/
def Visit.CallsBack (body : KycCallback) : Visit → Prop
  | .request arrival => arrival.request = .kycCallback body
  | .checkWhiteList => False

/-- What one call of a visit does to the stored statuses. -/
structure StatusLaw (app : App) (visit : Visit) (past : AccountTrace)
    (before after : Collection ObjectID Investor) : Prop where
  verified_kept : ∀ id, statusOf before id = some .verified → statusOf after id = some .verified
  failed_kept : app.config.kycProvider = .jumio → ∀ id, statusOf before id = some .failed →
    statusOf after id = some .failed
  pending_entered : ∀ id, statusOf after id = some .pending → statusOf before id ≠ some .pending →
    statusOf before id = some .notVerified
  verified_entered : ∀ id, statusOf after id = some .verified →
    statusOf before id ≠ some .verified →
    ∃ body investor wallet, visit.CallsBack body ∧ before.lookup id = some investor ∧
      investor.ethWallet = some wallet ∧ Whitelisted past wallet.address

theorem statusLaw_refl (visit : Visit) (past : AccountTrace)
    (investors : Collection ObjectID Investor) : StatusLaw app visit past investors investors where
  verified_kept _ verified := verified
  failed_kept _ _ failed := failed
  pending_entered _ pending unpending := absurd pending unpending
  verified_entered _ verified unverified := absurd verified unverified

/-- The status of one investor changes as the law says. -/
theorem statusLaw_moved {visit : Visit} {past : AccountTrace}
    {before after : Collection ObjectID Investor} {id : ObjectID} {investor : Investor}
    {status : KycStatus} (stored : before.lookup id = some investor)
    (moved : statusOf after id = some status)
    (others : ∀ other, other ≠ id → statusOf after other = statusOf before other)
    (verified : investor.kycStatus = .verified → status = .verified)
    (failed : app.config.kycProvider = .jumio → investor.kycStatus = .failed → status = .failed)
    (pending : status = .pending → investor.kycStatus ≠ .pending → investor.kycStatus = .notVerified)
    (entered : status = .verified → investor.kycStatus ≠ .verified →
      ∃ body wallet, visit.CallsBack body ∧ investor.ethWallet = some wallet ∧
        Whitelisted past wallet.address) :
    StatusLaw app visit past before after := by
  have former : statusOf before id = some investor.kycStatus := by
    rw [statusOf, stored]
    rfl
  refine ⟨?_, ?_, ?_, ?_⟩
  · intro other wasVerified
    by_cases same : other = id
    · rw [same, former] at wasVerified
      rw [same, moved, verified (Option.some.inj wasVerified)]
    · rw [others other same]
      exact wasVerified
  · intro jumio other wasFailed
    by_cases same : other = id
    · rw [same, former] at wasFailed
      rw [same, moved, failed jumio (Option.some.inj wasFailed)]
    · rw [others other same]
      exact wasFailed
  · intro other isPending wasNot
    by_cases same : other = id
    · rw [same, moved] at isPending
      rw [same, former] at wasNot ⊢
      rw [pending (Option.some.inj isPending) fun was => wasNot (congrArg some was)]
    · rw [others other same] at isPending
      exact absurd isPending wasNot
  · intro other isVerified wasNot
    by_cases same : other = id
    · rw [same, moved] at isVerified
      rw [same, former] at wasNot
      obtain ⟨body, wallet, own, owned, listed⟩ :=
        entered (Option.some.inj isVerified) fun was => wasNot (congrArg some was)
      exact ⟨body, investor, wallet, own, same ▸ stored, owned, listed⟩
    · rw [others other same] at isVerified
      exact absurd isVerified wasNot

/-- The save of a loaded copy. -/
theorem statusLaw_saved {before world : World} {past : AccountTrace}
    {saved : Doc ObjectID Investor} (holds : KycInvariant arrival before past world)
    (guard : KycGuard app arrival.request past (.saveInvestor saved)) :
    StatusLaw app (.request arrival) past world.investors
      (world.investors.save Investor.write saved) := by
  obtain ⟨query, user, acts, sameId, moves⟩ := guard
  have others : ∀ other, other ≠ user.id →
      statusOf (world.investors.save Investor.write saved) other =
        statusOf world.investors other := by
    intro other different
    rw [statusOf_save, sameId, if_neg different]
  have moved : ∀ status, statusOf world.investors user.id = some status →
      statusOf (world.investors.save Investor.write saved) user.id = some saved.val.kycStatus := by
    intro status stored
    rw [statusOf_save, sameId, if_pos rfl, stored]
    rfl
  have loaded : investorWrites past = [] → world.investors.lookup user.id = some user.val ∧
      statusOf world.investors user.id = some user.val.kycStatus := by
    intro noWrite
    have stored := holds.unsaved query user acts noWrite
    exact ⟨stored, by rw [statusOf, stored]; rfl⟩
  cases own : arrival.request with
  | kycCallback body =>
      rw [own] at moves
      obtain ⟨noWrite, unverified, unfailed, status⟩ := moves
      obtain ⟨stored, former⟩ := loaded noWrite
      refine statusLaw_moved stored (moved _ former) others ?_ ?_ ?_ ?_
      · exact fun verified => absurd verified unverified
      · exact fun jumio failed => absurd failed (unfailed jumio)
      · intro pending wasNot
        rcases status with same | failed | ⟨verified, _⟩
        · exact absurd (same.symm.trans pending) wasNot
        · rw [failed] at pending
          cases pending
        · rw [verified] at pending
          cases pending
      · intro verified wasNot
        rcases status with same | failed | ⟨_, wallet, owned, listed⟩
        · exact absurd (same.symm.trans verified) wasNot
        · rw [failed] at verified
          cases verified
        · exact ⟨body, wallet, own, owned, listed⟩
  | kycUploaded id base64hash =>
      rw [own] at moves
      obtain ⟨noWrite, unverified, pending⟩ := moves
      obtain ⟨stored, former⟩ := loaded noWrite
      refine statusLaw_moved stored (moved _ former) others ?_ ?_ ?_ ?_
      · intro verified
        rw [unverified] at verified
        cases verified
      · intro _ failed
        rw [unverified] at failed
        cases failed
      · exact fun _ _ => unverified
      · intro verified
        rw [pending] at verified
        cases verified
  | _ =>
      have status := holds.status query user acts (by rw [own]; rfl)
      have kept : saved.val.kycStatus = user.val.kycStatus := by
        rw [own] at moves
        exact moves
      obtain ⟨investor, stored, same⟩ := Option.map_eq_some_iff.mp status
      have unmoved : saved.val.kycStatus = investor.kycStatus := kept.trans same.symm
      refine statusLaw_moved stored (moved _ status) others ?_ ?_ ?_ ?_
      · exact fun verified => unmoved.trans verified
      · exact fun _ failed => unmoved.trans failed
      · exact fun pending wasNot => absurd (unmoved.symm.trans pending) wasNot
      · exact fun verified wasNot => absurd (unmoved.symm.trans verified) wasNot

/-- A new investor starts as not verified. -/
theorem statusLaw_inserted {visit : Visit} {past : AccountTrace}
    {before after : Collection ObjectID Investor} {id : ObjectID} {investor : Investor}
    (inserted : before.insert ⟨id, investor⟩ = some after)
    (unverified : investor.kycStatus = .notVerified) :
    StatusLaw app visit past before after := by
  have absent : statusOf before id = none := by
    rw [statusOf, (Collection.insert_eq_some_iff.mp inserted).1]
    rfl
  have kept : ∀ other status, statusOf before other = some status →
      statusOf after other = some status := by
    intro other status stored
    have different : other ≠ id := by
      intro same
      rw [same, absent] at stored
      cases stored
    rw [statusOf_insert inserted, if_neg different]
    exact stored
  have entered : ∀ other status, statusOf after other = some status →
      statusOf before other ≠ some status → status = .notVerified := by
    intro other status stored wasNot
    rw [statusOf_insert inserted] at stored
    by_cases same : other = id
    · rw [if_pos same, unverified] at stored
      exact (Option.some.inj stored).symm
    · rw [if_neg same] at stored
      exact absurd stored wasNot
  refine ⟨fun id => kept id _, fun _ id => kept id _, ?_, ?_⟩
  · intro other pending wasNot
    exact nomatch entered other _ pending wasNot
  · intro other verified wasNot
    exact nomatch entered other _ verified wasNot

/-- One call of a request that runs alone. -/
theorem statusLaw_called {before world : World} {past : AccountTrace} {op : Op} (choice : Choice)
    (guard : KycGuard app arrival.request past op)
    (holds : KycInvariant arrival before past world) :
    StatusLaw app (.request arrival) past (storedAfter before past)
      (storedAfter before (past ++ [⟨op, (perform choice op world).1⟩])) := by
  have effect := perform_investors choice op world
  rw [← holds.investors, ← (@KycInvariant.step _ _ _ _ _ _ choice guard holds).investors]
  generalize (perform choice op world).1 = result at effect
  generalize (perform choice op world).2.investors = after at effect ⊢
  cases effect with
  | kept => exact statusLaw_refl _ _ _
  | saved investor => exact statusLaw_saved holds guard
  | inserted investor id after unused inserted => exact statusLaw_inserted inserted guard

end IcoDashboard.Accounts
