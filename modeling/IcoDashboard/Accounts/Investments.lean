import IcoDashboard.Accounts.CodedSaves
import IcoDashboard.Accounts.Guesses
import IcoDashboard.Accounts.TokenLife

namespace IcoDashboard.Accounts

open IcoDashboard.Async IcoDashboard.Async.Program IcoDashboard.Data

/-! # Signed investments

What a request has checked when it lets a transaction be signed, and that one
code signs one transaction.
-/

variable {app : App} {state : AccountState} {past : AccountTrace}

def Sends : Op → Prop
  | .sendTransactionByMnemonic _ _ _ => True
  | _ => False

/-- The referral of the user is the one that the whitelist contract has. -/
def ReferralConfirmed (app : App) (address : String) (referral : Option String)
    (past : AccountTrace) : Prop :=
  ∀ email, referral = some email → email ≠ "" → ∃ referral wallet listed,
    ⟨.findInvestor (.email (app.toLowerCase email)), .ok (some referral)⟩ ∈ past ∧
    referral.val.ethWallet = some wallet ∧ ⟨.getReferralOf address, .ok listed⟩ ∈ past ∧
    app.toLowerCase listed = app.toLowerCase wallet.address

/-- The gas price of the body, or one that was asked for. -/
def Priced (body : InvestBody) (past : AccountTrace) (price : String) : Prop :=
  truthy body.gasPrice = true ∧ body.gasPrice = some price ∨
    ⟨.getCurrentGasPrice, .ok price⟩ ∈ past

/-- All that has been checked when the transaction is signed. -/
structure Authorised (app : App) (user : Investor) (body : InvestBody)
    (verification : VerificationData) (wallet : Wallet) (past : AccountTrace) : Prop where
  owned : user.ethWallet = some wallet
  known : (app.getAccountByMnemonicAndSalt body.mnemonic wallet.salt).2 = wallet.address
  referral : ReferralConfirmed app wallet.address user.referral past
  allowed : ⟨.isAllowed wallet.address, .ok true⟩ ∈ past
  validated : Validated past verification.method verification.verificationId

def GuardSend (app : App) (request : Request) (past : AccountTrace) (input : TransactionInput)
    (mnemonic salt : String) : Prop :=
  ∃ authorization body verification query user wallet price,
    request = .user authorization (.investVerify body verification) ∧
    acting past = some (query, user) ∧ Authorised app user.val body verification wallet past ∧
    Priced body past price ∧
    input = Transformers.transformReqBodyToInvestInput app body price wallet ∧
    mnemonic = body.mnemonic ∧ salt = wallet.salt

/-- Nothing follows the transaction. -/
def InvestGuard (app : App) (arrival : Arrival) (past : AccountTrace) (op : Op) : Prop :=
  (∀ call ∈ past, ¬ Sends call.1) ∧
  ∀ input mnemonic salt, op = .sendTransactionByMnemonic input mnemonic salt →
    GuardSend app arrival.request past input mnemonic salt

/-! ## The parts of an investment -/

variable {user : Doc ObjectID Investor} {arrival : Arrival}

/-- As long as nothing is signed, the guard says nothing more. -/
theorem silent_guarded {α : Type} {program : Handler α} (unsent : ∀ call ∈ past, ¬ Sends call.1)
    (silent : program.Meets (fun _ op => ¬ Sends op) (fun _ _ => True) (fun _ _ => True) past) :
    program.Meets (InvestGuard app arrival) (fun _ _ => True) (fun _ _ => True) past := by
  induction program generalizing past with
  | done value => trivial
  | fail error => trivial
  | await op resume ih =>
      refine ⟨⟨unsent, fun input mnemonic salt same => ?_⟩, fun answer => ih answer ?_ (silent.2 answer)⟩
      · subst same
        exact absurd trivial silent.1
      · intro call member
        rcases List.mem_append.mp member with old | new
        · exact unsent call old
        · rw [List.mem_singleton.mp new]
          exact silent.1

structure Investing (user : Doc ObjectID Investor) (past : AccountTrace) : Prop where
  acts : ∃ query, acting past = some (query, user)
  unsent : ∀ call ∈ past, ¬ Sends call.1

theorem Investing.append {rest : AccountTrace} (investing : Investing user past)
    (silent : ∀ call ∈ rest, ¬ Sends call.1) : Investing user (past ++ rest) := by
  obtain ⟨query, acts⟩ := investing.acts
  refine ⟨⟨query, acting_append acts rest⟩, fun call member => ?_⟩
  rcases List.mem_append.mp member with old | new
  · exact investing.unsent call old
  · exact silent call new

/-- A part that signs nothing, with what it has made sure of. -/
theorem Investing.part {α : Type} {program : Handler α} {fact : AccountTrace → α → Prop}
    (investing : Investing user past)
    (met : program.Meets (fun _ op => ¬ Sends op) fact (fun _ _ => True) past) :
    program.Meets (InvestGuard app arrival)
      (fun later value => (Investing user later ∧ past <+: later) ∧ fact later value)
      (fun _ _ => True) past := by
  have silent := met.mono (fun _ _ silent => silent) (fun _ _ _ => trivial) fun _ _ _ => trivial
  refine (((silent_guarded investing.unsent silent).both silent.adding).both met).mono
    (fun _ _ guards => guards.1.1) (fun later value ended => ⟨?_, ended.2⟩) fun _ _ _ => trivial
  obtain ⟨rest, rfl, none⟩ := ended.1.2
  exact ⟨investing.append none, List.prefix_append _ _⟩

theorem checkMnemonic_checks (user : Investor) (mnemonic : String) :
    (DashboardController.checkMnemonic app user mnemonic).Meets (fun _ op => ¬ Sends op)
      (fun _ wallet => user.ethWallet = some wallet ∧
        (app.getAccountByMnemonicAndSalt mnemonic wallet.salt).2 = wallet.address)
      (fun _ _ => True) past := by
  simp only [DashboardController.checkMnemonic, meets_bind, meets_orThrow, meets_throwIf, meets_pure,
    implies_true, and_true, true_and]
  exact fun wallet owned known => ⟨owned, not_not.mp known⟩

theorem checkReferralOf_checks (address : String) (referral : Option String) :
    (DashboardController.checkReferralOf app address referral).Meets (fun _ op => ¬ Sends op)
      (fun later _ => ReferralConfirmed app address referral later) (fun _ _ => True) past := by
  cases referral with
  | none => exact fun _ same => by cases same
  | some email =>
      simp only [DashboardController.checkReferralOf, request, call, meets_ite, meets_bind,
        meets_await, meets_done, meets_fail, meets_pure, meets_orThrow, meets_throwIf, Sends,
        not_false_eq_true, implies_true, and_true, true_and]
      refine ⟨fun empty other same given => ?_, fun _ found listed wallet owned confirmed => ?_⟩
      · cases same
        exact absurd empty given
      · obtain ⟨referral, rfl, has⟩ := Option.bind_eq_some_iff.mp owned
        intro other same _
        cases same
        exact ⟨referral, wallet, listed, by simp, has, by simp, not_not.mp confirmed⟩

theorem checkAllowed_checks (address : String) :
    (DashboardController.checkAllowed app address).Meets (fun _ op => ¬ Sends op)
      (fun later _ => ⟨.isAllowed address, .ok true⟩ ∈ later) (fun _ _ => True) past := by
  simp +contextual [DashboardController.checkAllowed, request, call, Sends]

theorem check_validates (input : VerificationData) (consumer : String) (payload : Json.Object)
    (removeSecret : Option Bool) :
    (VerificationClient.checkVerificationPayloadAndCode app input consumer payload
      removeSecret).Meets (fun _ op => ¬ Sends op)
      (fun later _ => Validated later input.method input.verificationId) (fun _ _ => True) past := by
  simp only [VerificationClient.checkVerificationPayloadAndCode, VerificationClient.getVerification,
    VerificationClient.validateVerification, VerificationClient.invalidateVerification, request, call,
    meets_bind, meets_tryCatch, meets_await, meets_done, meets_fail, meets_ite, meets_throw,
    meets_throwIf, Sends, not_false_eq_true, implies_true, and_true, true_and]
  exact fun _ _ _ => validated_now

theorem gasPrice_prices (body : InvestBody) :
    (DashboardController.gasPrice body).Meets (fun _ op => ¬ Sends op)
      (fun later price => Priced body later price) (fun _ _ => True) past := by
  unfold DashboardController.gasPrice
  split
  · rename_i price given
    simp +contextual [request, call, Sends, Priced, given, truthy]
  · simp [request, call, Sends, Priced]

theorem investVerify_authorised (investing : Investing user past) {authorization : Option String}
    (body : InvestBody) (verification : VerificationData)
    (own : arrival.request = .user authorization (.investVerify body verification)) :
    (DashboardController.investVerify app user body verification).Meets (InvestGuard app arrival)
      (fun _ _ => True) (fun _ _ => True) past := by
  simp only [DashboardController.investVerify, meets_bind]
  refine (investing.part (checkMnemonic_checks _ _)).mono (fun _ _ guarded => guarded) ?_
    fun _ _ _ => trivial
  rintro first wallet ⟨⟨investing, _⟩, owned, known⟩
  refine (investing.part (checkReferralOf_checks _ _)).mono (fun _ _ guarded => guarded) ?_
    fun _ _ _ => trivial
  rintro second _ ⟨⟨investing, _⟩, confirmed⟩
  refine (investing.part (checkAllowed_checks _)).mono (fun _ _ guarded => guarded) ?_
    fun _ _ _ => trivial
  rintro third _ ⟨⟨investing, longer⟩, allowed⟩
  refine (investing.part (check_validates _ _ _ _)).mono (fun _ _ guarded => guarded) ?_
    fun _ _ _ => trivial
  rintro fourth _ ⟨⟨investing, longer'⟩, validated⟩
  refine (investing.part (gasPrice_prices body)).mono (fun _ _ guarded => guarded) ?_
    fun _ _ _ => trivial
  rintro fifth price ⟨⟨investing, longer''⟩, priced⟩
  simp only [request, call, meets_await, meets_done, meets_fail, meets_pure, implies_true, and_true]
  obtain ⟨query, acts⟩ := investing.acts
  have since := longer'.trans longer''
  refine ⟨investing.unsent, fun input mnemonic salt same => ?_⟩
  cases same
  refine ⟨authorization, body, verification, query, user, wallet, price, own, acts, ?_, priced, rfl,
    rfl, rfl⟩
  refine ⟨owned, known, fun email refers given => ?_, since.subset allowed,
    validated.extended longer''⟩
  obtain ⟨referral, other, listed, found, has, shown, same⟩ := confirmed email refers given
  have all := longer.trans since
  exact ⟨referral, other, listed, all.subset found, has, all.subset shown, same⟩

/-! ## Every request -/

theorem authenticate_silent (_ : AccountTrace) (op : Op) (asks : op.authenticates = true) :
    ¬ Sends op := by
  intro sends
  cases op with
  | sendTransactionByMnemonic input mnemonic salt => cases asks
  | _ => exact sends

theorem handle_invests (app : App) (arrival : Arrival) :
    (handle app arrival.draws arrival.request).Meets (InvestGuard app arrival) (fun _ _ => True)
      (fun _ _ => True) [] := by
  by_cases invests : ∃ authorization body verification,
      arrival.request = .user authorization (.investVerify body verification)
  · obtain ⟨authorization, body, verification, own⟩ := invests
    rw [own]
    have loads := authenticate_acts authenticate_silent authorization
    have silent := loads.mono (fun _ _ silent => silent) (fun _ _ _ => trivial) fun _ _ _ => trivial
    simp only [handle, meets_bind]
    refine (((silent_guarded (by simp) silent).both silent.adding).both loads).mono
      (fun _ _ guards => guards.1.1) (fun later result ended => ?_) fun _ _ _ => trivial
    cases result with
    | next user =>
        obtain ⟨query, acts⟩ := ended.2 user rfl
        obtain ⟨rest, rfl, none⟩ := ended.1.2
        simp only [handleUser, meets_bind, meets_pure]
        exact investVerify_authorised ⟨⟨query, acts⟩, none⟩ body verification own
    | notAuthorized => trivial
    | notFound => trivial
  · refine silent_guarded (by simp) ((handle_meets app arrival).mono (fun past op guard sends => ?_)
      (fun _ _ _ => trivial) fun _ _ _ => trivial)
    cases op with
    | sendTransactionByMnemonic input mnemonic salt =>
        obtain ⟨authorization, body, verification, own, _⟩ := guard
        exact invests ⟨authorization, body, verification, own⟩
    | _ => exact sends

/-- A request signs one transaction at most. -/
theorem sent_once (reached : (accounts app).Reachable (.idle {}) state)
    {before before' : List AccountEvent} {thread : Nat} {input input' : TransactionInput}
    {mnemonic mnemonic' salt salt' : String} {answer answer' : Except Exception String}
    (occurs : Occurs state.log before
      ⟨thread, ⟨.sendTransactionByMnemonic input mnemonic salt, answer⟩⟩)
    (occurs' : Occurs state.log before'
      ⟨thread, ⟨.sendTransactionByMnemonic input' mnemonic' salt', answer'⟩⟩) : before = before' := by
  have none : ∀ {before : List AccountEvent} {call call' : Call Op Ans Exception},
      Occurs state.log before ⟨thread, call⟩ → Sends call'.1 → ⟨thread, call'⟩ ∉ before := by
    intro before call call' occurs sends member
    obtain ⟨origin, _, _, _, earlier, rfl, awaiting, _, _⟩ := reached.event_origin occurs
    exact (earlier.guarded (handle_invests app) awaiting).1.1 _ (mem_localTrace.mpr member) sends
  rcases occurs.compare occurs' with ⟨same, _⟩ | earlier | earlier
  · exact same
  · exact absurd earlier (none occurs' trivial)
  · exact absurd earlier (none occurs trivial)

/-- The transaction that a request signed after the calls of `before`. -/
structure Investment (app : App) (state : AccountState) (before : List AccountEvent) (thread : Nat)
    (input : TransactionInput) (mnemonic salt : String) (body : InvestBody)
    (verification : VerificationData) (user : Investor) (wallet : Wallet) : Prop where
  serving : ∃ arrival authorization, Serving state thread arrival ∧
    arrival.request = .user authorization (.investVerify body verification)
  loaded : ∃ query id, acting (localTrace thread before) = some (query, ⟨id, user⟩)
  authorised : Authorised app user body verification wallet (localTrace thread before)
  sender : input.from = wallet.address ∧ mnemonic = body.mnemonic ∧ salt = wallet.salt
  recipient : input.to = app.config.icoAddress
  amount : input.amount = body.ethAmount
  price : Priced body (localTrace thread before) input.gasPrice

/-- Every transaction that is signed, in whatever interleaving, goes to the ICO
contract, from the wallet of the user whose mnemonic was given and who is
allowed, for the amount that a code of the user was validated for, and no other
transaction is signed for this code. -/
theorem investment_authorised (reached : (accounts app).Reachable (.idle {}) state)
    {before : List AccountEvent} {thread : Nat} {input : TransactionInput} {mnemonic salt : String}
    {answer : Except Exception String}
    (occurs : Occurs state.log before
      ⟨thread, ⟨.sendTransactionByMnemonic input mnemonic salt, answer⟩⟩) :
    ∃ body verification user wallet,
      Investment app state before thread input mnemonic salt body verification user wallet ∧
      CodeValidated app state before thread (.invest input.amount) user.email verification.method
        verification.verificationId ∧
      ∀ before' thread' input' mnemonic' salt' answer' body' verification' user' wallet',
        Occurs state.log before'
          ⟨thread', ⟨.sendTransactionByMnemonic input' mnemonic' salt', answer'⟩⟩ →
        Investment app state before' thread' input' mnemonic' salt' body' verification' user' wallet' →
        verification'.verificationId = verification.verificationId → before' = before := by
  obtain ⟨origin, choice, arrival, resume, earlier, rfl, awaiting, _, onward⟩ :=
    reached.event_origin occurs
  have serving : Serving state thread arrival :=
    Serving.of_reachable ⟨_, awaiting⟩ ((System.Reachable.initial.step _).trans onward)
  obtain ⟨authorization, body, verification, query, user, wallet, price, own, acts, authorised, priced,
    rfl, rfl, rfl⟩ := (earlier.guarded (handle_invests app) awaiting).1.2 _ _ _ rfl
  refine ⟨body, verification, user.val, wallet, ⟨⟨arrival, authorization, serving, own⟩,
    ⟨query, user.id, acts⟩, authorised, ⟨rfl, rfl, rfl⟩, rfl, rfl, priced⟩, ?_, ?_⟩
  · exact codeValidated reached occurs serving (by rw [own]; rfl) acts authorised.validated
  · intro before' thread' input' mnemonic' salt' answer' body' verification' user' wallet' occurs'
      other sameCode
    have validated := authorised.validated.extended (occurs.localTrace_extends thread)
    have validated' := other.authorised.validated.extended (occurs'.localTrace_extends thread')
    rw [sameCode] at validated'
    obtain rfl := validated_by reached validated' validated
    exact sent_once reached occurs' occurs

/-! ## An investment -/

def oneEther : InvestBody := { ethAmount := "1", mnemonic := "pig" }

def invests : List (Action Choice Arrival) :=
  [.start { request := .user (some "Bearer t1") (.investInitiate oneEther) }, .resume 2 {},
    .resume 2 {}, .resume 2 {}, .resume 2 { text := "4" }, .resume 2 {}, .resume 2 {}, .resume 2 {},
    .resume 2 { verificationId := "v2", code := "654321" },
    .start
      { request := .user (some "Bearer t1")
          (.investVerify oneEther { verificationId := "v2", code := "654321", method := "email" }) },
    .resume 3 {}, .resume 3 {}, .resume 3 {}, .resume 3 {}, .resume 3 {}, .resume 3 {},
    .resume 3 { text := "4" }, .resume 3 { text := "0xhash" }]

def invested : AccountState := after .plain (signUp ++ activation 1 ++ invests)

theorem invested_authorised :
    ∃ body verification user wallet,
      Investment .plain invested (invested.log.take 27) 3
        { «from» := "salt", «to» := "", amount := "1", gas := "130000", gasPrice := "4" } "pig" "salt"
        body verification user wallet := by
  have occurs : Occurs invested.log (invested.log.take 27)
      ⟨3, ⟨.sendTransactionByMnemonic
        { «from» := "salt", «to» := "", amount := "1", gas := "130000", gasPrice := "4" } "pig" "salt",
        .ok "0xhash"⟩⟩ := ⟨[], rfl⟩
  obtain ⟨body, verification, user, wallet, investment, _⟩ :=
    investment_authorised (System.reachable_run _ _) occurs
  exact ⟨body, verification, user, wallet, investment⟩

end IcoDashboard.Accounts
