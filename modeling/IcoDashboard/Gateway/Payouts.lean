import IcoDashboard.Gateway.Ipn

namespace IcoDashboard.Gateway

open IcoDashboard.Async IcoDashboard.Async.Program IcoDashboard.Data

/-! # Payouts

A payout is a successful conversion.  What one notification does to a loaded
transaction is stated as a contract of its handler; an invariant over the
interleaved runs then says under which steps a payment is paid out once.
-/

/-- The transaction a request loaded with its first call. -/
def loadedTransaction : Trace Op Ans Exception → Option (Doc ObjectID PaymentGateTransaction)
  | ⟨.findTransaction _, .ok found⟩ :: _ => found
  | _ => none

theorem loadedTransaction_mem {trace : Trace Op Ans Exception}
    {tx : Doc ObjectID PaymentGateTransaction} (loaded : loadedTransaction trace = some tx) :
    ∃ txnId, ⟨.findTransaction txnId, .ok (some tx)⟩ ∈ trace := by
  unfold loadedTransaction at loaded
  split at loaded
  · rename_i txnId found rest
    subst loaded
    exact ⟨txnId, List.mem_cons_self⟩
  · cases loaded

/-- A conversion that succeeded. -/
def isConversion : Call Op Ans Exception → Bool
  | ⟨.convertCoins _, .ok _⟩ => true
  | _ => false

/-- The last call was a conversion that succeeded. -/
abbrev JustConverted (trace : Trace Op Ans Exception) : Prop :=
  trace.getLast?.any isConversion = true

def Request.isComplete : Request → Bool
  | .createTransaction _ _ _ _ => false
  | .ipn body => IPNApiTypeResponse.isComplete body

/-- What a request saves of the transaction it loaded: a complete notification
changes the type only after a conversion, the others change neither the type
nor the conversion data. -/
def SavedFrom (request : Request) (trace : Trace Op Ans Exception)
    (loaded saved : PaymentGateTransaction) : Prop :=
  (JustConverted trace ∧ request.isComplete = true ∧ saved.type = .convert ∧
    ∃ result, saved.convertCoinpaymentsData = .result result) ∨
  (¬ JustConverted trace ∧ request.isComplete = true ∧ saved.type = loaded.type ∧
    ∃ error, saved.convertCoinpaymentsData = .error error) ∨
  (¬ JustConverted trace ∧ request.isComplete = false ∧ saved.type = loaded.type ∧
    saved.convertCoinpaymentsData = loaded.convertCoinpaymentsData)

def Guard (request : Request) (trace : Trace Op Ans Exception) : Op → Prop
  | .saveTransaction tx => ∃ loaded, loadedTransaction trace = some loaded ∧ tx.id = loaded.id ∧
      SavedFrom request trace loaded.val tx.val
  | .insertTransaction tx => ¬ JustConverted trace ∧ tx.type = .buy ∧
      tx.convertCoinpaymentsData = .null
  | .convertCoins _ => ¬ JustConverted trace ∧ request.isComplete = true
  | _ => ¬ JustConverted trace

/-- No request ends between a conversion and the save of its result. -/
def Settled {α : Type} (trace : Trace Op Ans Exception) (_ : α) : Prop := ¬ JustConverted trace

theorem processComplete_meets (app : App) (body : IPNApiTypeResponse)
    (complete : IPNApiTypeResponse.isComplete body = true) :
    (IPNService.processComplete app body).Meets (Guard (.ipn body)) Settled Settled [] := by
  simp only [IPNService.processComplete, IPNService.convert,
    CoinpaymentsClient.convertCoinsTransaction, request, call, meets_bind, meets_await, meets_done,
    meets_fail, meets_pure, meets_tryCatch, meets_throwIf, meets_orThrow, List.nil_append]
  simp +contextual [Guard, Settled, JustConverted, isConversion, SavedFrom, loadedTransaction,
    Request.isComplete, complete]

theorem processStatus_meets (accepted : List PaymentGateTransactionStatus)
    (status : PaymentGateTransactionStatus) (body : IPNApiTypeResponse)
    (incomplete : IPNApiTypeResponse.isComplete body = false) :
    (IPNService.processStatus accepted status body).Meets (Guard (.ipn body)) Settled Settled [] := by
  simp only [IPNService.processStatus, request, call, meets_bind, meets_await, meets_done,
    meets_fail, meets_pure, meets_throwIf, meets_orThrow, List.nil_append]
  simp +contextual [Guard, Settled, JustConverted, isConversion, SavedFrom, loadedTransaction,
    Request.isComplete, incomplete]

theorem createTransaction_meets (app : App) (user : Investor) (amount currency : String)
    (now : Nat) :
    (GatewayController.createTransaction app user amount currency now).Meets
      (Guard (.createTransaction user amount currency now)) Settled Settled [] := by
  simp only [GatewayController.createTransaction, PaymentsService.initiateBuyEths,
    CoinpaymentsClient.createTransaction, request, call, meets_bind, meets_await, meets_done,
    meets_fail, meets_pure, meets_tryCatch, List.nil_append]
  simp [Guard, Settled, JustConverted, isConversion]

theorem handle_meets (app : App) (req : Request) :
    (handle app req).Meets (Guard req) Settled Settled [] := by
  cases req with
  | createTransaction user amount currency now =>
      exact createTransaction_meets app user amount currency now
  | ipn body =>
      simp only [handle, GatewayController.ipn, meets_bind, meets_tryCatch, meets_pure, meets_ite]
      refine ⟨fun complete => ?_, fun incomplete => ⟨fun _ => ?_, fun _ => ?_⟩⟩
      · exact processComplete_meets app body complete
      · exact processStatus_meets _ _ body (by simpa using incomplete)
      · exact processStatus_meets _ _ body (by simpa using incomplete)

/-! ## The payment of one transaction -/

abbrev Log : Type := List (Event Op Ans Exception)

/-- The request loaded this transaction. -/
abbrev Loads (id : ObjectID) (trace : Trace Op Ans Exception) : Prop :=
  (loadedTransaction trace).map Doc.id = some id

/-- After `past`, the log records a successful conversion of the transaction. -/
def Converts (id : ObjectID) (log past : Log) : Prop :=
  ∃ thread call, Occurs log past ⟨thread, call⟩ ∧ isConversion call = true ∧
    Loads id (localTrace thread past)

/-- The calls of a request whose last one converted the transaction. -/
abbrev HasConverted (id : ObjectID) (trace : Trace Op Ans Exception) : Prop :=
  Loads id trace ∧ JustConverted trace

/-- A request has converted the transaction and not saved it since. -/
abbrev Unsaved (id : ObjectID) (log : Log) : Prop :=
  ∃ event ∈ log, HasConverted id (localTrace event.thread log)

abbrev PaidOut (stored : Option PaymentGateTransaction) : Prop :=
  stored.map PaymentGateTransaction.type = some .convert

theorem paidOut_iff {stored : Option PaymentGateTransaction} :
    PaidOut stored ↔ ∃ tx, stored = some tx ∧ tx.type = .convert := Option.map_eq_some_iff

def Coherent (tx : PaymentGateTransaction) : Prop :=
  tx.type = .convert ↔ ∃ result, tx.convertCoinpaymentsData = .result result

/-- The stored value of one transaction against the log. -/
structure PayoutInvariant (id : ObjectID) (stored : Option PaymentGateTransaction) (log : Log) :
    Prop where
  coherent : ∀ tx, stored = some tx → Coherent tx
  copies : ∀ thread txnId tx, ⟨thread, ⟨.findTransaction txnId, .ok (some tx)⟩⟩ ∈ log →
    tx.id = id → Coherent tx.val ∧ ∃ current, stored = some current ∧
      (tx.val.type = .convert → current.type = .convert ∧
        current.convertCoinpaymentsData = tx.val.convertCoinpaymentsData)
  once : ∀ past past', Converts id log past → Converts id log past' → past = past'
  paid : ∀ past, Converts id log past → PaidOut stored ∨ Unsaved id log

theorem converts_append {id : ObjectID} {log past : Log} {thread : Nat}
    {call : Call Op Ans Exception} :
    Converts id (log ++ [⟨thread, call⟩]) past ↔ Converts id log past ∨
      past = log ∧ isConversion call = true ∧ Loads id (localTrace thread log) := by
  constructor
  · intro converts
    obtain ⟨other, otherCall, occurs, isConversion, loads⟩ := converts
    rcases occurs_append.mp occurs with old | ⟨pastEq, eventEq⟩
    · exact .inl ⟨other, otherCall, old, isConversion, loads⟩
    · cases eventEq
      subst pastEq
      exact .inr ⟨rfl, isConversion, loads⟩
  · intro either
    rcases either with ⟨other, otherCall, old, isConversion, loads⟩ | ⟨pastEq, isConversion, loads⟩
    · exact ⟨other, otherCall, occurs_append.mpr (.inl old), isConversion, loads⟩
    · subst pastEq
      exact ⟨thread, call, occurs_append.mpr (.inr ⟨rfl, rfl⟩), isConversion, loads⟩

theorem Loads.append {id : ObjectID} {trace : Trace Op Ans Exception} (loads : Loads id trace)
    (rest : Trace Op Ans Exception) : Loads id (trace ++ rest) := by
  obtain ⟨tx, loaded, idEq⟩ := Option.map_eq_some_iff.mp loads
  unfold loadedTransaction at loaded
  split at loaded
  · exact Option.map_eq_some_iff.mpr ⟨tx, loaded, idEq⟩
  · cases loaded

theorem unsaved_of {id : ObjectID} {log : Log} {thread : Nat}
    (converted : HasConverted id (localTrace thread log)) : Unsaved id log := by
  obtain ⟨tx, loaded, _⟩ := Option.map_eq_some_iff.mp converted.1
  obtain ⟨txnId, inTrace⟩ := loadedTransaction_mem loaded
  exact ⟨_, mem_localTrace.mp inTrace, converted⟩

/-- Only the request that converted can take its own conversion out of the
unsaved ones. -/
theorem Unsaved.append {id : ObjectID} {log : Log} {thread : Nat} (call : Call Op Ans Exception)
    (unsaved : Unsaved id log) (unconverted : ¬ HasConverted id (localTrace thread log)) :
    Unsaved id (log ++ [⟨thread, call⟩]) := by
  obtain ⟨event, member, converted⟩ := unsaved
  have different : thread ≠ event.thread := by
    intro same
    exact unconverted (same ▸ converted)
  refine ⟨event, List.mem_append_left _ member, ?_⟩
  rw [localTrace_other log call different]
  exact converted

/-! ## One call -/

/-- A call that neither stores nor converts the transaction. -/
theorem PayoutInvariant.quiet {id : ObjectID} {stored : Option PaymentGateTransaction} {log : Log}
    {thread : Nat} {call : Call Op Ans Exception} (invariant : PayoutInvariant id stored log)
    (unconverted : ¬ HasConverted id (localTrace thread log))
    (elsewhere : isConversion call = true → ¬ Loads id (localTrace thread log))
    (copy : ∀ txnId tx, call = ⟨.findTransaction txnId, .ok (some tx)⟩ → tx.id = id →
      stored = some tx.val) :
    PayoutInvariant id stored (log ++ [⟨thread, call⟩]) := by
  have earlier : ∀ past, Converts id (log ++ [⟨thread, call⟩]) past → Converts id log past := by
    intro past converts
    rcases converts_append.mp converts with old | ⟨_, isConversion, loads⟩
    · exact old
    · exact absurd loads (elsewhere isConversion)
  refine ⟨invariant.coherent, ?_, ?_, ?_⟩
  · intro other txnId tx member idEq
    rcases List.mem_append.mp member with old | new
    · exact invariant.copies other txnId tx old idEq
    · cases List.mem_singleton.mp new
      have current := copy txnId tx rfl idEq
      exact ⟨invariant.coherent _ current, tx.val, current, fun isConvert => ⟨isConvert, rfl⟩⟩
  · intro past past' converts converts'
    exact invariant.once past past' (earlier past converts) (earlier past' converts')
  · intro past converts
    rcases invariant.paid past (earlier past converts) with paidOut | unsaved
    · exact .inl paidOut
    · exact .inr (unsaved.append call unconverted)

/-- A transaction enters the store unconverted. -/
theorem PayoutInvariant.inserted {id : ObjectID} {log : Log} {tx : PaymentGateTransaction}
    (invariant : PayoutInvariant id none log) (coherent : Coherent tx) :
    PayoutInvariant id (some tx) log where
  coherent := by
    intro current currentEq
    cases currentEq
    exact coherent
  copies := by
    intro thread txnId copy member idEq
    obtain ⟨_, current, impossible, _⟩ := invariant.copies thread txnId copy member idEq
    cases impossible
  once := invariant.once
  paid := by
    intro past converts
    rcases invariant.paid past converts with impossible | unsaved
    · cases impossible
    · exact .inr unsaved

/-- The first conversion of a transaction. -/
theorem PayoutInvariant.converted {id : ObjectID} {stored : Option PaymentGateTransaction}
    {log : Log} {thread : Nat} {options : ConversionOptions} {answer : String}
    (invariant : PayoutInvariant id stored log) (loads : Loads id (localTrace thread log))
    (unpaid : ¬ PaidOut stored) (saved : ¬ Unsaved id log) :
    PayoutInvariant id stored (log ++ [⟨thread, ⟨.convertCoins options, .ok answer⟩⟩]) := by
  have first : ∀ past, ¬ Converts id log past := by
    intro past converts
    rcases invariant.paid past converts with paidOut | unsaved
    · exact unpaid paidOut
    · exact saved unsaved
  have now : HasConverted id
      (localTrace thread (log ++ [⟨thread, ⟨.convertCoins options, .ok answer⟩⟩])) := by
    rw [localTrace_append, localTrace_own]
    refine ⟨loads.append _, ?_⟩
    rw [JustConverted, List.getLast?_concat]
    rfl
  refine ⟨invariant.coherent, ?_, ?_, fun past converts => .inr (unsaved_of now)⟩
  · intro other txnId copy member copyId
    rcases List.mem_append.mp member with old | new
    · exact invariant.copies other txnId copy old copyId
    · cases List.mem_singleton.mp new
  · intro past past' converts converts'
    rcases converts_append.mp converts with old | ⟨pastEq, _⟩
    · exact absurd old (first past)
    · rcases converts_append.mp converts' with old' | ⟨pastEq', _⟩
      · exact absurd old' (first past')
      · rw [pastEq, pastEq']

/-- A save of the transaction.  Over a paid-out one it must come from a fail or
pending notification that loaded it converted. -/
theorem PayoutInvariant.saved {id : ObjectID} {stored : Option PaymentGateTransaction} {log : Log}
    {thread : Nat} {request : Request} {loaded tx : Doc ObjectID PaymentGateTransaction}
    (invariant : PayoutInvariant id stored log)
    (copy : loadedTransaction (localTrace thread log) = some loaded) (loadedId : loaded.id = id)
    (savedFrom : SavedFrom request (localTrace thread log) loaded.val tx.val)
    (safe : PaidOut stored → tx.val.type = .convert ∧ request.isComplete = false) :
    PayoutInvariant id (some tx.val) (log ++ [⟨thread, ⟨.saveTransaction tx, .ok ()⟩⟩]) ∧
      ∀ current, stored = some current → current.type = .convert →
        tx.val.convertCoinpaymentsData = current.convertCoinpaymentsData := by
  obtain ⟨txnId, inTrace⟩ := loadedTransaction_mem copy
  obtain ⟨coherent, current, currentEq, same⟩ :=
    invariant.copies thread txnId loaded (mem_localTrace.mp inTrace) loadedId
  have kept : current.type = .convert → tx.val.type = .convert ∧
      tx.val.convertCoinpaymentsData = current.convertCoinpaymentsData := by
    intro isConvert
    obtain ⟨savedConvert, incomplete⟩ := safe (paidOut_iff.mpr ⟨current, currentEq, isConvert⟩)
    rcases savedFrom with ⟨_, complete, _⟩ | ⟨_, complete, _⟩ | ⟨_, _, typeEq, dataEq⟩
    · rw [complete] at incomplete
      cases incomplete
    · rw [complete] at incomplete
      cases incomplete
    · have loadedConvert : loaded.val.type = .convert := by rw [← typeEq, savedConvert]
      exact ⟨savedConvert, by rw [dataEq, (same loadedConvert).2]⟩
  have earlier : ∀ past, Converts id (log ++ [⟨thread, ⟨.saveTransaction tx, .ok ()⟩⟩]) past →
      Converts id log past := by
    intro past converts
    rcases converts_append.mp converts with old | ⟨_, isConversion, _⟩
    · exact old
    · cases isConversion
  refine ⟨⟨?_, ?_, ?_, ?_⟩, ?_⟩
  · intro saved savedEq
    cases savedEq
    rcases savedFrom with ⟨_, _, isConvert, isResult⟩ | ⟨_, complete, typeEq, error, dataEq⟩ |
      ⟨_, _, typeEq, dataEq⟩
    · exact ⟨fun _ => isResult, fun _ => isConvert⟩
    · have unpaid : ¬ tx.val.type = .convert := by
        intro isConvert
        have loadedConvert : loaded.val.type = .convert := by rw [← typeEq, isConvert]
        have paidOut := paidOut_iff.mpr ⟨current, currentEq, (same loadedConvert).1⟩
        have incomplete := (safe paidOut).2
        rw [complete] at incomplete
        cases incomplete
      simp [Coherent, unpaid, dataEq]
    · unfold Coherent
      rw [typeEq, dataEq]
      exact coherent
  · intro other otherTxnId otherTx member idEq
    rcases List.mem_append.mp member with old | new
    · obtain ⟨otherCoherent, other', otherEq, otherSame⟩ :=
        invariant.copies other otherTxnId otherTx old idEq
      rw [currentEq] at otherEq
      cases otherEq
      refine ⟨otherCoherent, tx.val, rfl, fun isConvert => ?_⟩
      obtain ⟨currentConvert, dataEq⟩ := otherSame isConvert
      obtain ⟨savedConvert, savedData⟩ := kept currentConvert
      exact ⟨savedConvert, by rw [savedData, dataEq]⟩
    · cases List.mem_singleton.mp new
  · intro past past' converts converts'
    exact invariant.once past past' (earlier past converts) (earlier past' converts')
  · intro past converts
    by_cases justConverted : JustConverted (localTrace thread log)
    · rcases savedFrom with ⟨_, _, isConvert, _⟩ | ⟨unconverted, _⟩ | ⟨unconverted, _⟩
      · exact .inl (paidOut_iff.mpr ⟨tx.val, rfl, isConvert⟩)
      · exact absurd justConverted unconverted
      · exact absurd justConverted unconverted
    · rcases invariant.paid past (earlier past converts) with paidOut | unsaved
      · obtain ⟨paid, paidEq, isConvert⟩ := paidOut_iff.mp paidOut
        rw [currentEq] at paidEq
        cases paidEq
        exact .inl (paidOut_iff.mpr ⟨tx.val, rfl, (kept isConvert).1⟩)
      · exact .inr (unsaved.append _ fun converted => justConverted converted.2)
  · intro old oldEq isConvert
    rw [currentEq] at oldEq
    cases oldEq
    exact (kept isConvert).2

/-! ## Safe steps -/

abbrev GatewayState : Type := State Op Ans Exception World Request Response

def stored (id : ObjectID) (state : GatewayState) : Option PaymentGateTransaction :=
  state.world.transactions.lookup id

def CallSafe (id : ObjectID) (state : GatewayState) (thread : Nat) (request : Request)
    (choice : Choice) : Op → Prop
  | .convertCoins _ => Loads id (localTrace thread state.log) →
      ¬ PaidOut (stored id state) ∧ ¬ Unsaved id state.log
  | .saveTransaction tx => tx.id = id →
      (JustConverted (localTrace thread state.log) → choice.rejects = none) ∧
      (PaidOut (stored id state) → tx.val.type = .convert ∧ request.isComplete = false)
  | _ => True

/-- A conversion of the transaction starts only while it is neither paid out nor
converted and unsaved, the save after a conversion reaches the database, and
only a fail or pending notification that loaded it converted saves over a
paid-out transaction. -/
def PayoutSafe (id : ObjectID) (state : GatewayState) : Action Choice Request → Prop
  | .start _ => True
  | .resume thread choice =>
      match state.threads[thread]? with
      | some ⟨request, .await op _⟩ => CallSafe id state thread request choice op
      | _ => True

instance (id : ObjectID) (state : GatewayState) (thread : Nat) (request : Request)
    (choice : Choice) : (op : Op) → Decidable (CallSafe id state thread request choice op)
  | .convertCoins _ => inferInstanceAs (Decidable (_ → _))
  | .saveTransaction _ => inferInstanceAs (Decidable (_ → _))
  | .findTransaction _ => .isTrue trivial
  | .insertTransaction _ => .isTrue trivial
  | .findInvestor _ => .isTrue trivial
  | .createTransaction _ => .isTrue trivial

instance (id : ObjectID) (state : GatewayState) :
    (action : Action Choice Request) → Decidable (PayoutSafe id state action)
  | .start _ => .isTrue trivial
  | .resume thread choice =>
      match found : state.threads[thread]? with
      | some ⟨request, .await op _⟩ =>
          decidable_of_iff (CallSafe id state thread request choice op) (by simp [PayoutSafe, found])
      | some ⟨_, .done _⟩ => .isTrue (by simp [PayoutSafe, found])
      | some ⟨_, .fail _⟩ => .isTrue (by simp [PayoutSafe, found])
      | none => .isTrue (by simp [PayoutSafe, found])

/-- What a stored successful conversion keeps. -/
def KeepsResult (before after : Option PaymentGateTransaction) : Prop :=
  ∀ current, before = some current → current.type = .convert → ∃ next, after = some next ∧
    next.type = .convert ∧ next.convertCoinpaymentsData = current.convertCoinpaymentsData

theorem KeepsResult.refl (stored : Option PaymentGateTransaction) : KeepsResult stored stored :=
  fun current currentEq isConvert => ⟨current, currentEq, isConvert, rfl⟩

theorem KeepsResult.trans {first second third : Option PaymentGateTransaction}
    (left : KeepsResult first second) (right : KeepsResult second third) :
    KeepsResult first third := by
  intro current currentEq isConvert
  obtain ⟨next, nextEq, nextConvert, nextData⟩ := left current currentEq isConvert
  obtain ⟨last, lastEq, lastConvert, lastData⟩ := right next nextEq nextConvert
  exact ⟨last, lastEq, lastConvert, lastData.trans nextData⟩

variable {app : App} {id : ObjectID} {state : GatewayState} {thread : Nat} {request : Request}
  {choice : Choice}

/-- Only a save is issued right after a conversion. -/
theorem Guard.unconverted {trace : Trace Op Ans Exception} {op : Op} (guard : Guard request trace op)
    (notSave : ∀ tx, op ≠ .saveTransaction tx) : ¬ HasConverted id trace := by
  intro converted
  have now := converted.2
  cases op with
  | findTransaction txnId => exact guard now
  | saveTransaction tx => exact notSave tx rfl
  | insertTransaction tx => exact guard.1 now
  | findInvestor email => exact guard now
  | createTransaction options => exact guard now
  | convertCoins options => exact guard.1 now

/-- A save of another transaction does not follow a conversion of this one. -/
theorem unconverted_of_other {trace : Trace Op Ans Exception}
    {tx : Doc ObjectID PaymentGateTransaction} (guard : Guard request trace (.saveTransaction tx))
    (other : tx.id ≠ id) : ¬ HasConverted id trace := by
  intro converted
  obtain ⟨loaded, loadedEq, idEq, _⟩ := guard
  obtain ⟨copy, copyEq, copyId⟩ := Option.map_eq_some_iff.mp converted.1
  rw [loadedEq] at copyEq
  cases copyEq
  exact other (idEq.trans copyId)

theorem rejected_call {op : Op} (error : Exception)
    (invariant : PayoutInvariant id (stored id state) state.log)
    (unconverted : ¬ HasConverted id (localTrace thread state.log)) :
    PayoutInvariant id (stored id state) (state.log ++ [⟨thread, ⟨op, .error error⟩⟩]) := by
  refine invariant.quiet unconverted ?_ ?_
  · intro isConversion
    cases op <;> cases isConversion
  · intro txnId tx callEq
    cases op <;> simp at callEq

theorem inserted_call {tx : PaymentGateTransaction}
    {transactions : Collection ObjectID PaymentGateTransaction}
    (invariant : PayoutInvariant id (stored id state) state.log)
    (guard : Guard request (localTrace thread state.log) (.insertTransaction tx))
    (inserted : state.world.transactions.insert ⟨choice.id, tx⟩ = some transactions) :
    PayoutInvariant id (transactions.lookup id)
      (state.log ++ [⟨thread, ⟨.insertTransaction tx, .ok choice.id⟩⟩]) ∧
    KeepsResult (stored id state) (transactions.lookup id) := by
  have logged : PayoutInvariant id (stored id state)
      (state.log ++ [⟨thread, ⟨.insertTransaction tx, .ok choice.id⟩⟩]) :=
    invariant.quiet (guard.unconverted (by simp)) (by simp [isConversion]) (by simp)
  rw [Collection.lookup_insert inserted]
  by_cases new : id = choice.id
  · subst new
    have absent : stored choice.id state = none := (Collection.insert_eq_some_iff.mp inserted).1
    obtain ⟨_, isBuy, isNull⟩ := guard
    rw [absent] at logged ⊢
    simp only [if_true]
    refine ⟨logged.inserted (by simp [Coherent, isBuy, isNull]), ?_⟩
    intro current impossible
    cases impossible
  · simp only [if_neg new]
    exact ⟨logged, .refl _⟩

theorem saved_call {tx : Doc ObjectID PaymentGateTransaction}
    (invariant : PayoutInvariant id (stored id state) state.log)
    (guard : Guard request (localTrace thread state.log) (.saveTransaction tx))
    (safe : CallSafe id state thread request choice (.saveTransaction tx)) :
    PayoutInvariant id
      ((state.world.transactions.save PaymentGateTransaction.write tx).lookup id)
      (state.log ++ [⟨thread, ⟨.saveTransaction tx, .ok ()⟩⟩]) ∧
    KeepsResult (stored id state)
      ((state.world.transactions.save PaymentGateTransaction.write tx).lookup id) := by
  rw [Collection.lookup_save]
  by_cases own : tx.id = id
  · obtain ⟨_, overwrites⟩ := safe own
    obtain ⟨loaded, loadedEq, idEq, savedFrom⟩ := guard
    obtain ⟨txnId, inTrace⟩ := loadedTransaction_mem loadedEq
    obtain ⟨_, current, currentEq, _⟩ :=
      invariant.copies thread txnId loaded (mem_localTrace.mp inTrace) (idEq ▸ own)
    obtain ⟨kept, same⟩ := invariant.saved loadedEq (idEq ▸ own) savedFrom overwrites
    have after : (state.world.transactions.lookup id).map
        (PaymentGateTransaction.write · tx.val) = some tx.val := by
      rw [show state.world.transactions.lookup id = some current from currentEq]
      rfl
    simp only [own, if_true, after]
    refine ⟨kept, fun old oldEq isConvert => ?_⟩
    have paidOut := paidOut_iff.mpr ⟨old, oldEq, isConvert⟩
    exact ⟨tx.val, rfl, (overwrites paidOut).1, same old oldEq isConvert⟩
  · simp only [if_neg (Ne.symm own)]
    exact ⟨invariant.quiet (unconverted_of_other guard own) (by simp [isConversion]) (by simp), .refl _⟩

/-- What one answered call preserves. -/
theorem call_invariant {op : Op} (invariant : PayoutInvariant id (stored id state) state.log)
    (guard : Guard request (localTrace thread state.log) op)
    (safe : CallSafe id state thread request choice op) :
    PayoutInvariant id ((perform choice op state.world).2.transactions.lookup id)
      (state.log ++ [⟨thread, ⟨op, (perform choice op state.world).1⟩⟩]) ∧
    KeepsResult (stored id state) ((perform choice op state.world).2.transactions.lookup id) := by
  cases rejected : choice.rejects with
  | some error =>
      simp only [perform, rejected]
      refine ⟨rejected_call error invariant ?_, .refl _⟩
      cases op with
      | saveTransaction tx =>
          by_cases own : tx.id = id
          · intro converted
            have reaches := (safe own).1 converted.2
            rw [reaches] at rejected
            cases rejected
          · exact unconverted_of_other guard own
      | _ => exact guard.unconverted (by simp)
  | none =>
      simp only [perform, rejected]
      cases op with
      | findTransaction txnId =>
          refine ⟨invariant.quiet (guard.unconverted (by simp)) (by simp [isConversion]) ?_, .refl _⟩
          intro other tx callEq idEq
          have found : state.world.transactions.findOne
              (fun tx => tx.buyCoinpaymentsData.txnId = txnId) = some tx := by
            simp only [answer, Sigma.mk.injEq, Op.findTransaction.injEq] at callEq
            obtain ⟨rfl, answerEq⟩ := callEq
            simpa using answerEq
          rw [← idEq]
          exact Collection.lookup_of_findOne found
      | saveTransaction tx => exact saved_call invariant guard safe
      | insertTransaction tx =>
          cases inserted : state.world.transactions.insert ⟨choice.id, tx⟩ with
          | none =>
              simp only [answer, inserted]
              exact ⟨rejected_call _ invariant (guard.unconverted (by simp)), .refl _⟩
          | some transactions =>
              simp only [answer, inserted]
              exact inserted_call invariant guard inserted
      | findInvestor email =>
          exact ⟨invariant.quiet (guard.unconverted (by simp)) (by simp [isConversion]) (by simp), .refl _⟩
      | createTransaction options =>
          exact ⟨invariant.quiet (guard.unconverted (by simp)) (by simp [isConversion]) (by simp), .refl _⟩
      | convertCoins options =>
          refine ⟨?_, .refl _⟩
          by_cases own : Loads id (localTrace thread state.log)
          · obtain ⟨unpaid, saved⟩ := safe own
            exact invariant.converted own unpaid saved
          · exact invariant.quiet (guard.unconverted (by simp)) (fun _ => own) (by simp)

/-! ## Runs -/

def Paid (id : ObjectID) (state : GatewayState) : Prop :=
  PayoutInvariant id (stored id state) state.log

theorem paid_idle : Paid id (.idle {}) := by
  refine ⟨?_, ?_, ?_, ?_⟩
  · intro tx impossible
    cases impossible
  · intro thread txnId tx member
    cases member
  · intro past past' converts
    obtain ⟨_, _, occurs, _⟩ := converts
    cases occurs.mem
  · intro past converts
    obtain ⟨_, _, occurs, _⟩ := converts
    cases occurs.mem

theorem step_paid (reached : (gateway app).Reachable (.idle {}) state) (paid : Paid id state)
    {action : Action Choice Request} (safe : PayoutSafe id state action) :
    Paid id ((gateway app).step state action) ∧
      KeepsResult (stored id state) (stored id ((gateway app).step state action)) := by
  rcases (gateway app).step_cases state action with same | ⟨request, _, started⟩ |
    ⟨thread, choice, request, op, resume, actionEq, awaiting, resumed⟩
  · rw [same]
    exact ⟨paid, .refl _⟩
  · rw [started]
    exact ⟨paid, .refl _⟩
  · rw [resumed]
    subst actionEq
    have met := reached.guarded (handle_meets app) awaiting
    have callSafe : CallSafe id state thread request choice op := by
      simpa only [PayoutSafe, awaiting] using safe
    exact call_invariant paid met.1 callSafe

theorem run_paid {before : GatewayState} (reached : (gateway app).Reachable (.idle {}) before)
    (paid : Paid id before) {actions : List (Action Choice Request)}
    (safe : (gateway app).Along (PayoutSafe id) before actions) :
    Paid id ((gateway app).run before actions) ∧
      KeepsResult (stored id before) (stored id ((gateway app).run before actions)) := by
  have preserved : ∀ state action, (gateway app).Reachable (.idle {}) state →
      (Paid id state ∧ KeepsResult (stored id before) (stored id state)) →
      PayoutSafe id state action → Paid id ((gateway app).step state action) ∧
        KeepsResult (stored id before) (stored id ((gateway app).step state action)) := by
    intro state action reached holds safe
    obtain ⟨paid, kept⟩ := step_paid reached holds.1 safe
    exact ⟨paid, holds.2.trans kept⟩
  exact System.run_induction preserved reached ⟨paid, .refl _⟩ safe

/-- The gateway after some actions, from an empty store. -/
def after (app : App) (actions : List (Action Choice Request)) : GatewayState :=
  (gateway app).run (.idle {}) actions

def storedConversion (id : ObjectID) (state : GatewayState) : Option ConvertCoinpaymentsData :=
  (stored id state).map PaymentGateTransaction.convertCoinpaymentsData

/-- The transaction is converted once, and what a successful conversion stored
stays stored. -/
def PaysOutOnce (app : App) (id : ObjectID) (actions : List (Action Choice Request)) : Prop :=
  (∀ past past', Converts id (after app actions).log past →
    Converts id (after app actions).log past' → past = past') ∧
  ∀ earlier later result, actions = earlier ++ later →
    storedConversion id (after app earlier) = some (.result result) →
    storedConversion id (after app actions) = some (.result result)

/-- Along safe steps every payment is paid out once. -/
theorem paysOutOnce_of_safe {actions : List (Action Choice Request)}
    (safe : (gateway app).Along (PayoutSafe id) (.idle {}) actions) :
    PaysOutOnce app id actions := by
  refine ⟨(run_paid .initial paid_idle safe).1.once, ?_⟩
  intro earlier later result split isResult
  subst split
  obtain ⟨safeEarlier, safeLater⟩ := ((gateway app).along_append).mp safe
  have paid := (run_paid .initial paid_idle safeEarlier).1
  obtain ⟨current, currentEq, dataEq⟩ := Option.map_eq_some_iff.mp isResult
  have isConvert := (paid.coherent current currentEq).mpr ⟨result, dataEq⟩
  have kept := (run_paid (System.reachable_run _ earlier) paid safeLater).2
  obtain ⟨next, nextEq, _, nextData⟩ := kept current currentEq isConvert
  rw [after, System.run_append]
  exact Option.map_eq_some_iff.mpr ⟨next, nextEq, nextData.trans dataEq⟩

/-! ## A payment -/

def payer : Investor :=
  (Investor.createInvestor .plain
    { email := "ann@example.com", firstName := "Ann", lastName := "Lee", country := "EE",
      dob := "1990-01-01", agreeTos := true, password := "secret" } "hash" "verification")
    |>.addEthWallet { ticker := "ETH", address := "0x1", balance := "0", salt := "salt" }

def completeIpn : IPNApiTypeResponse := { status := some 100, txnId := "t1", net := "1" }

/-- The payment is created and its complete notification delivered. -/
def paidRun : List (Action Choice Request) :=
  [.start (.createTransaction payer "1" "BTC" 0), .resume 0 { created := { txnId := "t1" } },
    .resume 0 { id := 7 },
    .start (.ipn completeIpn), .resume 1 {}, .resume 1 { investor := some payer },
    .resume 1 { converted := "c1" }, .resume 1 {}]

/-- The notification is delivered once more. -/
def redeliveredRun : List (Action Choice Request) :=
  paidRun ++ [.start (.ipn completeIpn), .resume 2 {}, .resume 2 { investor := some payer },
    .resume 2 { converted := "c2" }, .resume 2 {}]

theorem paysOutOnce_paidRun : PaysOutOnce .plain 7 paidRun :=
  paysOutOnce_of_safe (by decide)

theorem redelivered_paysOutTwice : ¬ PaysOutOnce .plain 7 redeliveredRun := by
  intro once
  have first : storedConversion 7 (after .plain paidRun) =
      some (.result ⟨"c1", { amount := "1", «from» := "BTC", «to» := "ETH", address := "0x1" }⟩) := by
    decide
  have second := once.2 paidRun _ _ rfl first
  revert second
  decide

end IcoDashboard.Gateway
