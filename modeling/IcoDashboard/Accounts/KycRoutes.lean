import Mathlib.Data.List.Infix
import IcoDashboard.Accounts.Alone
import IcoDashboard.Accounts.CustomerIds

namespace IcoDashboard.Accounts

open IcoDashboard.Async IcoDashboard.Async.Program IcoDashboard.Data

/-! # Routes of the KYC controller

An HTTP request passes the checks of the server and the middlewares that its
route names before the provider sees it.  The container binds more middlewares
than the routes name.
-/

structure ServerConfig where
  /-- The `ENVIRONMENT` is production. -/
  production : Bool := false
  forceHttps : Bool := false
  httpsPort : Nat := 4000
  clientIpHeader : String := "x-forwarded-for"

structure HttpRequest where
  method : String
  path : String
  hostname : String := ""
  originalUrl : String := ""
  header : String → Option String := fun _ => none
  ip : String
  secure : Bool := false
  /-- The certificate of the client was accepted. -/
  authorized : Bool := false

inductive HttpAnswer where
  | send (status : Nat) (message : Option String)
  | redirect (url : String)
deriving DecidableEq, Repr

/-- A middleware answers the request itself, or calls `next()`. -/
abbrev Filter : Type := HttpRequest → Option HttpAnswer

/-! ## The server -/

def clientCertificate (server : ServerConfig) : Filter := fun http =>
  if server.production = true ∧ http.authorized = false ∧ http.path ≠ "/dashboard/public" then
    some (.send 401 (some "Invalid client certificate"))
  else none

def httpsOnly (server : ServerConfig) : Filter := fun http =>
  if server.forceHttps = true ∧ http.secure = false then
    some (.redirect ("https://" ++ http.hostname ++ ":" ++ toString server.httpsPort ++
      http.originalUrl))
  else none

def unsupportedContentType : HttpAnswer := .send 406 (some "Unsupported \"Content-Type\"")

def postContentType : Filter := fun http =>
  if http.method = "POST" then
    match http.header "Content-Type" with
    | none => some unsupportedContentType
    | some contentType =>
        if contentType = "" ∨ (contentType ≠ "application/json" ∧
            ¬ "application/x-www-form-urlencoded".toList <:+: contentType.toList) then
          some unsupportedContentType
        else none
  else none

def serverFilters (server : ServerConfig) : List Filter :=
  [clientCertificate server, httpsOnly server, postContentType]

/-! ## The middlewares -/

def jumioIps : List String :=
  ["184.106.91.66", "184.106.91.67", "104.130.61.196", "146.20.77.156", "34.202.241.227",
    "34.226.103.119", "34.226.254.127", "52.53.95.123", "52.52.51.178", "54.67.101.173",
    "162.13.228.132", "162.13.228.134", "162.13.229.103", "162.13.229.104", "34.253.41.236",
    "52.209.180.134", "52.48.0.25", "35.157.27.193", "52.57.194.92", "52.58.113.86"]

/-- The address of the client, without the prefix of IPv6. -/
def clientAddress (server : ServerConfig) (http : HttpRequest) : String :=
  let ip := match http.header server.clientIpHeader with
    | some forwarded => if forwarded = "" then http.ip else forwarded
    | none => http.ip
  if ip.toList.take 7 = "::ffff:".toList then String.ofList (ip.toList.drop 7) else ip

def onlyJumioIp (server : ServerConfig) : Filter := fun http =>
  if clientAddress server http ∈ jumioIps then none else some (.send 403 none)

def onlyAcceptApplicationJson : Filter := fun http =>
  if http.method ≠ "OPTIONS" ∧ http.header "Accept" ≠ some "application/json" ∧
      http.header "Content-Type" = some "application/json" then
    some (.send 406 (some "Unsupported \"Accept\" header"))
  else none

inductive Middleware where
  | onlyAcceptApplicationJson | onlyJumioIp

def container (server : ServerConfig) : Middleware → Filter
  | .onlyAcceptApplicationJson => Accounts.onlyAcceptApplicationJson
  | .onlyJumioIp => Accounts.onlyJumioIp server

/-! ## The controller -/

/-- The routes that need no user. -/
inductive KycRoute where
  | successUpload (id base64hash : String)
  | callback (body : KycCallback)

def KycRoute.middlewares : KycRoute → List Middleware
  | .successUpload _ _ => [.onlyAcceptApplicationJson]
  | .callback _ => []

def KycRoute.request : KycRoute → Request
  | .successUpload id base64hash => .kycUploaded id base64hash
  | .callback body => .kycCallback body

/-- The first answer of a middleware, if one does not call `next()`. -/
def firstAnswer (filters : List Filter) (http : HttpRequest) : Option HttpAnswer :=
  filters.findSome? fun filter => filter http

def respond : Response → HttpAnswer
  | .redirect url => .redirect url
  | _ => .send 200 none

def serveKyc (app : App) (server : ServerConfig) (http : HttpRequest) (route : KycRoute)
    (draws : Draws) : Handler HttpAnswer :=
  match firstAnswer (serverFilters server ++ route.middlewares.map (container server)) http with
  | some answer => return answer
  | none => do
      let response ← handle app draws route.request
      return respond response

/-! ## What a callback does -/

/-- The calls that change an investor or its place on the whitelist. -/
def Affects : Op → Prop
  | .saveInvestor _ | .insertInvestor _ | .addAddressToWhiteList _ => True
  | _ => False

/-- The verdict of a callback is taken for the investor. -/
def TakesVerdict (result : JumioResult) (investor : Investor) : Prop :=
  investor.kycStatus ≠ .verified ∧ investor.kycStatus ≠ .failed ∧
    (result.idScanStatus = "ERROR" ∨ (result.idScanStatus = "SUCCESS" ∧
      ∃ validity, result.identityVerification = some validity ∧
        (validity = some true → investor.ethWallet ≠ none)))

variable {app : App} {server : ServerConfig} {http : HttpRequest} {world : World}
  {result : JumioResult}

/-- A callback has an effect only on an investor that it decides about. -/
def VerdictGuard (result : JumioResult) (past : AccountTrace) (op : Op) : Prop :=
  Affects op → ∃ id investor, acting past = some (.id (some id), investor) ∧
    ObjectID.ofText result.customerId = some id ∧ TakesVerdict result investor.val

theorem applyVerificationResult_verdict {past : AccountTrace} {id : ObjectID}
    {investor : Doc ObjectID Investor} (acts : acting past = some (.id (some id), investor))
    (spelled : ObjectID.ofText result.customerId = some id)
    (unverified : investor.val.kycStatus ≠ .verified) (unfailed : investor.val.kycStatus ≠ .failed) :
    (JumioProvider.applyVerificationResult investor result).Meets (VerdictGuard result)
      (fun later _ => past <+: later ∧ TakesVerdict result investor.val) (fun _ _ => True) past := by
  simp only [JumioProvider.applyVerificationResult, request, call, meets_ite, meets_bind,
    meets_orThrow, meets_await, meets_done, meets_fail, meets_pure, meets_throw, implies_true,
    and_true]
  refine ⟨fun success validity given => ⟨fun valid wallet owned => ?_, fun invalid => ?_⟩,
    fun _ failed => ?_⟩
  · have decides : TakesVerdict result investor.val :=
      ⟨unverified, unfailed, .inr ⟨success, validity, given, fun _ none => by
        rw [owned] at none
        cases none⟩⟩
    exact ⟨fun _ => ⟨id, investor, acts, spelled, decides⟩, fun _ =>
      ⟨List.prefix_append _ _, decides⟩⟩
  · exact ⟨List.prefix_refl _, unverified, unfailed, .inr ⟨success, validity, given, fun valid =>
      absurd valid invalid⟩⟩
  · exact ⟨List.prefix_refl _, unverified, unfailed, .inl failed⟩

theorem jumioCallback_verdict (result : JumioResult) :
    (JumioProvider.callback result).Meets (VerdictGuard result) (fun _ _ => True) (fun _ _ => True)
      [] := by
  simp only [JumioProvider.callback, request, call, meets_bind, meets_await, meets_done, meets_fail,
    meets_orThrow, implies_true, and_true]
  refine ⟨fun affects => affects.elim, fun _ id spelled => ⟨fun affects => affects.elim,
    fun found => ?_⟩⟩
  cases found with
  | none => trivial
  | some investor =>
      simp only [meets_ite, meets_pure, implies_true, true_and, meets_bind, meets_await, meets_done,
        meets_fail, and_true]
      intro undecided
      have acts : acting [⟨.insertJumioResult result, .ok ()⟩,
          ⟨.findInvestor (.id (some id)), .ok (some investor)⟩] = some (.id (some id), investor) := rfl
      refine (applyVerificationResult_verdict acts spelled (fun verified => undecided (.inl verified))
        fun failed => undecided (.inr failed)).mono (fun _ _ guarded => guarded)
        (fun later saved ended => ?_) fun _ _ _ => trivial
      exact fun _ => ⟨id, investor, acting_extended ended.1 acts, spelled, ended.2⟩

/-- A verdict that is taken puts the address of the investor on the whitelist or
fails the investor. -/
theorem applyVerificationResult_eq {investor : Doc ObjectID Investor}
    (takes : TakesVerdict result investor.val) :
    (∃ address saved, JumioProvider.applyVerificationResult investor result =
      Program.call (.addAddressToWhiteList address) >>= fun _ => pure saved) ∨
    JumioProvider.applyVerificationResult investor result =
      pure (investor.modify fun investor => { investor with kycStatus := .failed }) := by
  obtain ⟨_, _, failed | ⟨success, validity, given, owned⟩⟩ := takes
  · right
    have notSuccess : result.idScanStatus ≠ "SUCCESS" := by
      rw [failed]
      decide
    rw [JumioProvider.applyVerificationResult, if_neg notSuccess, if_pos failed]
  · rw [JumioProvider.applyVerificationResult, if_pos success, given]
    by_cases valid : validity = some true
    · obtain ⟨wallet, held⟩ := Option.ne_none_iff_exists'.mp (owned valid)
      left
      refine ⟨wallet.address,
        investor.modify fun investor => { investor with kycStatus := .verified }, ?_⟩
      simp only [orThrow, valid, held]
      rfl
    · right
      simp only [orThrow]
      exact if_neg valid

theorem whitelisting_called {address : String} {saved : Doc ObjectID Investor} {trace : AccountTrace}
    {outcome : Except Exception (Doc ObjectID Investor)} {after : World}
    (executes : Executes perform
      (Program.call (.addAddressToWhiteList address) >>= fun _ => pure saved) world trace outcome
      after) : ∃ answer, ⟨.addAddressToWhiteList address, answer⟩ ∈ trace := by
  rcases executes.of_bind with ⟨_, front, rest, _, split, called, _⟩ | ⟨error, called, _⟩
  · obtain ⟨_, one, _⟩ := called.of_call
    rw [split, one]
    exact ⟨_, List.mem_cons_self⟩
  · obtain ⟨_, one, _⟩ := called.of_call
    rw [one]
    exact ⟨_, List.mem_cons_self⟩

theorem saveInvestor_answered {choice : Choice} {saved : Doc ObjectID Investor}
    (answered : (perform choice (.saveInvestor saved) world).1 = .ok ()) :
    (perform choice (.saveInvestor saved) world).2.investors =
      world.investors.save Investor.write saved := by
  rw [perform_eq_ok answered]
  rfl

/-- A verdict that is taken has an effect, unless a call is rejected. -/
theorem callback_takesEffect {id : ObjectID} {investor : Doc ObjectID Investor} {trace : AccountTrace}
    {outcome : Except Exception Unit} {after : World}
    (executes : Executes perform (JumioProvider.callback result) world trace outcome after)
    (answered : Answered trace) (spelled : ObjectID.ofText result.customerId = some id)
    (stored : world.investors.findOneById id = some investor)
    (takes : TakesVerdict result investor.val) :
    (∃ address answer, ⟨.addAddressToWhiteList address, answer⟩ ∈ trace) ∨
      after.investors ≠ world.investors := by
  unfold JumioProvider.callback at executes
  obtain ⟨_, _, rest, _, split, restAnswered, continues⟩ := executes.answered_bind answered
  rw [insertJumioResult_keeps, spelled] at continues
  change Executes perform (Program.call (.findInvestor (.id (some id))) >>= _) _ _ _ _ at continues
  obtain ⟨choice, found, last, loaded, split', lastAnswered, decides⟩ :=
    continues.answered_bind restAnswered
  have same : some investor = found := stored.symm.trans (findInvestor_answered loaded)
  subst same
  rw [findInvestor_keeps] at decides
  change Executes perform (ite _ _ (JumioProvider.applyVerificationResult investor result >>=
    fun saved => Program.call (Op.saveInvestor saved))) _ _ _ _ at decides
  rw [if_neg fun closed => closed.elim takes.1 takes.2.1] at decides
  rw [split, split']
  rcases applyVerificationResult_eq takes with ⟨address, saved, same⟩ | same
  · rw [same] at decides
    have listed : ∃ answer, ⟨.addAddressToWhiteList address, answer⟩ ∈ last := by
      rcases decides.of_bind with ⟨_, front, rest', _, parts, firsts, _⟩ | ⟨error, firsts, _⟩
      · rw [parts]
        exact (whitelisting_called firsts).imp fun _ called => List.mem_append_left _ called
      · exact whitelisting_called firsts
    obtain ⟨answer, called⟩ := listed
    exact .inl ⟨address, answer, List.mem_cons_of_mem _ (List.mem_cons_of_mem _ called)⟩
  · rw [same] at decides
    change Executes perform (Program.call (Op.saveInvestor _)) _ _ _ _ at decides
    obtain ⟨choice', one, _, reached⟩ := decides.of_call
    obtain ⟨_, given⟩ := lastAnswered _ (by rw [one]; exact List.mem_singleton.mpr rfl)
    have saved := saveInvestor_answered given
    right
    intro unchanged
    rw [reached, saved] at unchanged
    obtain ⟨own, held⟩ := Collection.lookup_of_findOneById stored
    have status := congrArg (fun investors => (investors.lookup id).map Investor.kycStatus) unchanged
    simp only [Collection.lookup_save, Doc.modify_id, own, if_true, held, Option.map_some] at status
    exact takes.2.1 (Option.some.inj status).symm

/-! ## Requests from elsewhere -/

/-- However its calls turn out, the program changes no investor and puts no address
on the whitelist. -/
def Harmless {α : Type} (world : World) (program : Handler α) : Prop :=
  ∀ trace outcome after, Executes perform program world trace outcome after →
    after.investors = world.investors ∧
    ∀ address answer, ⟨.addAddressToWhiteList address, answer⟩ ∉ trace

/-- A callback from no address of Jumio is harmless. -/
def KeepsOut (app : App) (server : ServerConfig) (world : World) (http : HttpRequest)
    (result : JumioResult) : Prop :=
  clientAddress server http ∉ jumioIps →
    ∀ draws, Harmless world (serveKyc app server http (.callback (.jumio result)) draws)

/-- The body decides about a stored investor. -/
def DecidesStored (world : World) (result : JumioResult) : Prop :=
  ∃ id investor, ObjectID.SpelledBy id result.customerId ∧
    world.investors.lookup id = some investor ∧ TakesVerdict result investor

theorem findInvestor_congr {first second : World} (same : first.investors = second.investors)
    (query : InvestorQuery) : first.findInvestor query = second.findInvestor query := by
  unfold World.findInvestor
  rw [same]

theorem investors_kept {choice : Choice} {op : Op} (unaffected : ¬ Affects op) :
    (perform choice op world).2.investors = world.investors := by
  have effect := perform_investors choice op world
  generalize (perform choice op world).1 = answer at effect
  generalize (perform choice op world).2.investors = after at effect ⊢
  cases effect with
  | kept => rfl
  | saved => exact absurd trivial unaffected
  | inserted => exact absurd trivial unaffected

/-- While nothing has been decided, the stored investors are those before the
request, and the acting one is one of them. -/
structure Undecided (before : World) (past : AccountTrace) (world : World) : Prop where
  kept : world.investors = before.investors
  acts : ∀ query user, acting past = some (query, user) → before.findInvestor query = some user

theorem Undecided.unaffected {before : World} {past : AccountTrace} (holds : Undecided before past world)
    (undecided : ¬ DecidesStored before result) {op : Op} (guard : VerdictGuard result past op) :
    ¬ Affects op := by
  intro affects
  obtain ⟨id, investor, acts, spelled, takes⟩ := guard affects
  obtain ⟨own, stored⟩ := Collection.lookup_of_findOneById (holds.acts _ _ acts)
  exact undecided ⟨id, investor.val, ObjectID.ofText_eq_some_iff.mp spelled, stored, takes⟩

theorem Undecided.step {before : World} {past : AccountTrace} (holds : Undecided before past world)
    {op : Op} (unaffected : ¬ Affects op) (choice : Choice) :
    Undecided before (past ++ [⟨op, (perform choice op world).1⟩]) (perform choice op world).2 := by
  refine ⟨(investors_kept unaffected).trans holds.kept, fun query user acts => ?_⟩
  rcases acting_snoc acts with old | loaded
  · exact holds.acts query user old
  · obtain rfl : op = .findInvestor query := congrArg Sigma.fst loaded
    have answered : (perform choice (.findInvestor query) world).1 = .ok (some user) := by
      simpa using loaded
    rw [← findInvestor_congr holds.kept]
    exact findInvestor_answered answered

theorem harmless_of_verdict {α : Type} {program : Handler α}
    (met : program.Meets (VerdictGuard result) (fun _ _ => True) (fun _ _ => True) [])
    (undecided : ¬ DecidesStored world result) : Harmless world program := by
  intro trace outcome after executes
  have start : Undecided world [] world := ⟨rfl, fun _ _ acts => nomatch acts⟩
  have step : ∀ past op now choice, VerdictGuard result past op → Undecided world past now →
      Undecided world (past ++ [⟨op, (perform choice op now).1⟩]) (perform choice op now).2 :=
    fun _ _ _ choice guard holds => holds.step (holds.unaffected undecided guard) choice
  refine ⟨(executes.invariant met step start).kept, fun address answer called => ?_⟩
  obtain ⟨front, later, split⟩ := List.mem_iff_append.mp called
  obtain ⟨_, _, holds, guard, _⟩ := executes.called met step start split
  exact holds.unaffected undecided guard trivial

/-- No middleware of the route looks at the address. -/
theorem serveKyc_callback (draws : Draws) :
    serveKyc app server http (.callback (.jumio result)) draws =
      match firstAnswer (serverFilters server) http with
      | some answer => pure answer
      | none => (JumioProvider.callback result >>= fun _ => pure .ok) >>= fun response =>
          pure (respond response) := by
  unfold serveKyc
  rw [KycRoute.middlewares, List.map_nil, List.append_nil]
  rfl

theorem serveKyc_verdict (draws : Draws) :
    (serveKyc app server http (.callback (.jumio result)) draws).Meets (VerdictGuard result)
      (fun _ _ => True) (fun _ _ => True) [] := by
  rw [serveKyc_callback]
  split
  · trivial
  · simp only [meets_bind, meets_pure]
    exact jumioCallback_verdict result

theorem serveKyc_calls (draws : Draws) :
    (serveKyc app server http (.callback (.jumio result)) draws).Meets (fun _ op => CallbackOp op)
      (fun _ _ => True) (fun _ _ => True) [] := by
  rw [serveKyc_callback]
  split
  · trivial
  · simp only [meets_bind, meets_pure]
    exact callback_calls result

/-- A request that the server lets pass runs the callback. -/
theorem serveKyc_executes {draws : Draws} {trace : AccountTrace}
    {outcome : Except Exception HttpAnswer} {after : World}
    (passes : firstAnswer (serverFilters server) http = none)
    (executes : Executes perform (serveKyc app server http (.callback (.jumio result)) draws) world
      trace outcome after) :
    ∃ returned, Executes perform (JumioProvider.callback result) world trace returned after := by
  rw [serveKyc_callback, passes] at executes
  rcases executes.of_bind with ⟨_, front, rest, middle, split, first, ends⟩ | ⟨error, first, _⟩
  · cases ends
    rw [List.append_nil] at split
    subst split
    rcases first.of_bind with ⟨_, front', rest', middle', split', callback, ends'⟩ | ⟨_, callback, _⟩
    · cases ends'
      rw [List.append_nil] at split'
      subst split'
      exact ⟨_, callback⟩
    · exact ⟨_, callback⟩
  · rcases first.of_bind with ⟨_, front', rest', middle', split', callback, ends'⟩ | ⟨_, callback, _⟩
    · cases ends'
    · exact ⟨_, callback⟩

/-- The address is not looked at, so what keeps a callback out is its body or the
checks of the server. -/
theorem keepsOut_iff (app : App) (server : ServerConfig) (world : World) (http : HttpRequest)
    (result : JumioResult) :
    KeepsOut app server world http result ↔
      (clientAddress server http ∈ jumioIps ∨ firstAnswer (serverFilters server) http ≠ none ∨
        ¬ DecidesStored world result) := by
  constructor
  · intro keeps
    by_cases fromJumio : clientAddress server http ∈ jumioIps
    · exact .inl fromJumio
    · refine .inr (Classical.or_iff_not_imp_left.mpr fun passes decides => ?_)
      have passes := Classical.not_not.mp passes
      obtain ⟨id, investor, spelled, stored, takes⟩ := decides
      have held : world.investors.findOneById id = some ⟨id, investor⟩ :=
        Collection.findOneById_eq_some_iff.mpr ⟨Collection.lookup_eq_some_iff.mp stored, rfl⟩
      obtain ⟨trace, outcome, after, executes, answered⟩ :=
        exists_answered ({} : Choice) (@serveKyc_calls app server http result {}) callbackOp_answered
          world
      obtain ⟨unchanged, unlisted⟩ := keeps fromJumio {} trace outcome after executes
      obtain ⟨returned, callback⟩ := serveKyc_executes passes executes
      rcases callback_takesEffect callback answered (ObjectID.ofText_eq_some_iff.mpr spelled) held
        takes with ⟨address, answer, called⟩ | changed
      · exact unlisted address answer called
      · exact changed unchanged
  · intro keeps fromElsewhere draws
    rcases keeps with fromJumio | turned | undecided
    · exact absurd fromJumio fromElsewhere
    · obtain ⟨answer, given⟩ := Option.ne_none_iff_exists'.mp turned
      rw [serveKyc_callback, given]
      intro trace outcome after executes
      cases executes
      exact ⟨rfl, fun _ _ member => nomatch member⟩
    · exact harmless_of_verdict (serveKyc_verdict draws) undecided

end IcoDashboard.Accounts
