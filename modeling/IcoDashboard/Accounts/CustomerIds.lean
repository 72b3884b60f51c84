import IcoDashboard.Accounts.KycRuns
import IcoDashboard.Async.Rounds

namespace IcoDashboard

open IcoDashboard.Async IcoDashboard.Async.Program IcoDashboard.Data

/-! # Customer ids

What Jumio is told at the initiation comes back with its callback, which reads it
as a document id.
-/

/-! ## Texts of ids -/

namespace ObjectID

variable {text : String} {id : ObjectID}

/-- The text is the id in hexadecimal digits, or in the low bytes of its code
units. -/
def SpelledBy (id : ObjectID) (text : String) : Prop :=
  text.toList.map hexValue = (Digits.digitsOf 16 24 id.val).map some ∨
    (utf16 text).map (· % 256) = Digits.digitsOf 256 12 id.val

instance : Decidable (id.SpelledBy text) := inferInstanceAs (Decidable (_ ∨ _))

theorem hexValue_lt {char : Char} {digit : Nat} (found : hexValue char = some digit) : digit < 16 := by
  simp only [hexValue, Char.le_def, UInt32.le_iff_toNat_le] at found
  have value : char.val.toNat = char.toNat := rfl
  split at found
  · rename_i bounds
    obtain ⟨_, upper⟩ := bounds
    change char.val.toNat ≤ 57 at upper
    cases found
    omega
  · split at found
    · rename_i bounds
      obtain ⟨_, upper⟩ := bounds
      change char.val.toNat ≤ 102 at upper
      cases found
      omega
    · split at found
      · rename_i bounds
        obtain ⟨_, upper⟩ := bounds
        change char.val.toNat ≤ 70 at upper
        cases found
        omega
      · cases found

theorem hexValue_none_of_large {char : Char} (large : 0x10000 ≤ char.toNat) : hexValue char = none := by
  have above : ∀ bound : Char, bound.toNat < 0x10000 → ¬ char ≤ bound := by
    intro bound small below
    have order : char.toNat ≤ bound.toNat := by
      simpa [Char.le_def, UInt32.le_iff_toNat_le] using below
    omega
  simp [hexValue, above '9' (by decide), above 'f' (by decide), above 'F' (by decide)]

theorem codeUnits_length (char : Char) : 0 < (codeUnits char).length := by
  unfold codeUnits
  split <;> simp

theorem codeUnits_hex {char : Char} {digit : Nat} (found : hexValue char = some digit) :
    (codeUnits char).length = 1 := by
  rcases Nat.lt_or_ge char.toNat 0x10000 with small | large
  · rw [codeUnits, if_pos small]
    rfl
  · rw [hexValue_none_of_large large] at found
    cases found

/-- Every character has at least one code unit, and a hexadecimal digit has one. -/
theorem length_le_utf16 : text.toList.length ≤ (utf16 text).length := by
  unfold utf16
  induction text.toList with
  | nil => simp
  | cons char rest ih =>
      have first := codeUnits_length char
      rw [List.flatMap_cons, List.length_append, List.length_cons]
      omega

theorem utf16_length_of_hex {digits : List Nat} (hex : text.toList.map hexValue = digits.map some) :
    (utf16 text).length = digits.length := by
  unfold utf16
  generalize text.toList = chars at hex ⊢
  induction chars generalizing digits with
  | nil => simpa using congrArg List.length hex
  | cons char rest ih =>
      cases digits with
      | nil => cases hex
      | cons digit digits =>
          obtain ⟨first, others⟩ := List.cons.inj hex
          rw [List.flatMap_cons, List.length_append, codeUnits_hex first, ih others, List.length_cons]
          omega

theorem filterMap_hex {chars : List Char} {digits : List Nat}
    (hex : chars.map hexValue = digits.map some) : chars.filterMap hexValue = digits := by
  induction chars generalizing digits with
  | nil =>
      cases digits with
      | nil => rfl
      | cons digit digits => cases hex
  | cons char rest ih =>
      cases digits with
      | nil => cases hex
      | cons digit digits =>
          obtain ⟨first, others⟩ := List.cons.inj hex
          rw [List.filterMap_cons_some first, ih others]

theorem hex_of_filterMap {chars : List Char}
    (all : (chars.filterMap hexValue).length = chars.length) :
    chars.map hexValue = (chars.filterMap hexValue).map some := by
  have each := List.filterMap_length_eq_length.mp all
  clear all
  induction chars with
  | nil => rfl
  | cons char rest ih =>
      obtain ⟨digit, found⟩ := Option.isSome_iff_exists.mp (each char List.mem_cons_self)
      rw [List.filterMap_cons_some found, List.map_cons, List.map_cons, found,
        ih fun other member => each other (List.mem_cons_of_mem _ member)]

/-- A number below the bound of the ids is an id under its own value. -/
theorem ofNat_eq_iff {number : Nat} (fits : number < 2 ^ 96) :
    (Fin.ofNat (2 ^ 96) number : ObjectID) = id ↔ number = id.val := by
  rw [Fin.ext_iff, Fin.val_ofNat, Nat.mod_eq_of_lt fits]

theorem spells_digits {digits : List Nat} (base : Nat) (length : digits.length = places)
    (below : ∀ digit ∈ digits, digit < base) (bound : base ^ places = 2 ^ 96) :
    (Fin.ofNat (2 ^ 96) (Digits.value base digits) : ObjectID) = id ↔
      digits = Digits.digitsOf base places id.val := by
  subst length
  have fits := Digits.value_lt below
  rw [bound] at fits
  rw [ofNat_eq_iff fits]
  exact Digits.value_eq_iff below (by rw [bound]; exact id.isLt)

/-- The constructor reads just the texts that spell an id. -/
theorem ofText_eq_some_iff : ofText text = some id ↔ id.SpelledBy text := by
  have bytes : ∀ digit ∈ (utf16 text).map (· % 256), digit < 256 := by
    intro digit member
    obtain ⟨unit, _, rfl⟩ := List.mem_map.mp member
    exact Nat.mod_lt _ (by decide)
  have hexDigits : ∀ digit ∈ text.toList.filterMap hexValue, digit < 16 := by
    intro digit member
    obtain ⟨char, _, found⟩ := List.mem_filterMap.mp member
    exact hexValue_lt found
  simp only [ofText, SpelledBy]
  split
  · rename_i lengths
    obtain ⟨units, digits⟩ := lengths
    have all : (text.toList.filterMap hexValue).length = text.toList.length := by
      have fewer := @length_le_utf16 text
      have kept := List.length_filterMap_le hexValue text.toList
      omega
    rw [Option.some.injEq, spells_digits 16 digits hexDigits (by norm_num)]
    constructor
    · intro same
      left
      rw [hex_of_filterMap all, ← same]
    · intro spelled
      rcases spelled with hex | short
      · exact filterMap_hex hex
      · have length := congrArg List.length short
        simp [units] at length
  · rename_i notHex
    have unspelled : text.toList.map hexValue ≠ (Digits.digitsOf 16 24 id.val).map some := by
      intro hex
      refine notHex ⟨?_, ?_⟩
      · rw [utf16_length_of_hex hex, Digits.length_digitsOf]
      · rw [filterMap_hex hex, Digits.length_digitsOf]
    split
    · rename_i units
      rw [Option.some.injEq, spells_digits 256 (by rw [List.length_map, units]) bytes (by norm_num)]
      simp [unspelled]
    · rename_i units
      have short : (utf16 text).map (· % 256) ≠ Digits.digitsOf 256 12 id.val := by
        intro same
        have length := congrArg List.length same
        rw [List.length_map, Digits.length_digitsOf] at length
        exact units length
      simp [unspelled, short]

theorem hexValue_digitChar : ∀ digit < 16, hexValue (Nat.digitChar digit) = some digit := by decide

/-- The digits that the uploaded documents come back under are read as the same id. -/
theorem ofText_toHexString (id : ObjectID) : ofText id.toHexString = some id := by
  refine ofText_eq_some_iff.mpr (.inl ?_)
  have digits : id.toHexString.toList = (Digits.digitsOf 16 24 id.val).map Nat.digitChar := by
    rw [toHexString, String.toList_ofList, Digits.digitsOf, List.map_map]
    rfl
  rw [digits, List.map_map]
  refine List.map_congr_left fun digit member => ?_
  exact hexValue_digitChar digit (Digits.digitsOf_lt (by decide) digit member)

end ObjectID

/-! ## The round trip -/

namespace Accounts

variable {app : App} {world : World} {investor : Doc ObjectID Investor}

/-- `init` sends the text to Jumio as the customer id of the investor. -/
def SendsCustomerId (app : App) (investor : Doc ObjectID Investor) (customerId : String) : Prop :=
  ∃ draws world trace outcome after options answer,
    Executes perform (JumioProvider.init app investor draws) world trace outcome after ∧
    ⟨.jumioInit options, answer⟩ ∈ trace ∧ options.customerId = customerId

/-- The callback finds the investor, unless a call is rejected. -/
def CallbackFinds (world : World) (result : JumioResult) (investor : Doc ObjectID Investor) : Prop :=
  ∀ trace outcome after,
    Executes perform (JumioProvider.callback result) world trace outcome after → Answered trace →
      ∃ query, acting trace = some (query, investor)

/-- Every callback with the customer id of the investor finds the investor. -/
def CustomerIdReturns (app : App) (world : World) (investor : Doc ObjectID Investor) : Prop :=
  ∀ customerId, SendsCustomerId app investor customerId →
    ∀ result : JumioResult, result.customerId = customerId → CallbackFinds world result investor

theorem sendsCustomerId_iff {customerId : String} :
    SendsCustomerId app investor customerId ↔
      app.config.kycEnabled = true ∧ customerId = investor.val.email := by
  constructor
  · intro sends
    obtain ⟨draws, before, trace, outcome, after, options, answer, executes, called, same⟩ := sends
    have sent : (JumioProvider.init app investor draws).Meets
        (fun _ op => ∀ options, op = .jumioInit options →
          app.config.kycEnabled = true ∧ options.customerId = investor.val.email)
        (fun _ _ => True) (fun _ _ => True) [] := by
      unfold JumioProvider.init
      split
      · rename_i enabled
        simp [request, call, enabled]
      · trivial
    obtain ⟨front, later, split⟩ := List.mem_iff_append.mp called
    obtain ⟨enabled, email⟩ := executes.guarded sent split options rfl
    exact ⟨enabled, same.symm.trans email⟩
  · intro both
    obtain ⟨enabled, same⟩ := both
    subst same
    have started : ∃ options : JumioInitOptions, options.customerId = investor.val.email ∧
        JumioProvider.init app investor {} = request (.jumioInit options) := by
      rw [JumioProvider.init, if_pos enabled]
      exact ⟨_, rfl, rfl⟩
    obtain ⟨options, email, called⟩ := started
    have executes : Executes perform (request (.jumioInit options)) ({} : World)
        [⟨.jumioInit options, .ok ⟨"", "", "", ""⟩⟩] (.ok ⟨"", "", "", ""⟩) {} :=
      Executes.await ({} : Choice) (.done _ _)
    rw [← called] at executes
    exact ⟨{}, {}, _, _, _, options, _, executes, List.mem_singleton.mpr rfl, email⟩

theorem insertJumioResult_keeps (choice : Choice) (result : JumioResult) (world : World) :
    (perform choice (.insertJumioResult result) world).2 = world := by
  unfold perform
  split <;> rfl

/-- What an unrejected callback looks for, and finds. -/
theorem callback_lookup {result : JumioResult} {trace : AccountTrace} {outcome : Except Exception Unit}
    {after : World} (executes : Executes perform (JumioProvider.callback result) world trace outcome after)
    (answered : Answered trace) :
    acting trace = (ObjectID.ofText result.customerId).bind fun id =>
      (world.investors.findOneById id).map fun investor => (.id (some id), investor) := by
  unfold JumioProvider.callback at executes
  obtain ⟨choice, _, rest, recorded, split, restAnswered, continues⟩ := executes.answered_bind answered
  rw [insertJumioResult_keeps] at continues
  rw [split]
  cases spelled : ObjectID.ofText result.customerId with
  | none =>
      rw [spelled] at continues
      cases continues
      rfl
  | some id =>
      rw [spelled] at continues
      change Executes perform (Program.call (.findInvestor (.id (some id))) >>= _) _ _ _ _ at continues
      obtain ⟨choice', found, last, loaded, split', _, ends⟩ := continues.answered_bind restAnswered
      have looked : world.investors.findOneById id = found := findInvestor_answered loaded
      rw [split', Option.bind_some, looked]
      cases found with
      | some investor => rfl
      | none =>
          cases ends
          rfl

/-- The calls of a callback. -/
def CallbackOp : Op → Prop
  | .insertJumioResult _ | .findInvestor _ | .addAddressToWhiteList _ | .saveInvestor _ => True
  | _ => False

theorem callback_calls (result : JumioResult) :
    (JumioProvider.callback result).Meets (fun _ op => CallbackOp op) (fun _ _ => True)
      (fun _ _ => True) [] := by
  simp only [JumioProvider.callback, request, call, meets_bind, meets_await, meets_done, meets_fail,
    meets_orThrow, CallbackOp, implies_true, and_true, true_and]
  intro _ id _ found
  split <;> simp [JumioProvider.applyVerificationResult, request, call]

theorem callbackOp_answered (op : Op) (world : World) (asked : CallbackOp op) :
    ∃ value, (perform {} op world).1 = .ok value := by
  cases op <;> first | exact asked.elim | exact ⟨_, rfl⟩

theorem callback_answered (result : JumioResult) (world : World) : ∃ trace outcome after,
    Executes perform (JumioProvider.callback result) world trace outcome after ∧ Answered trace :=
  exists_answered {} (callback_calls result) callbackOp_answered world

/-- Jumio echoes the email, so the investor is found just when the email happens to
spell the id. -/
theorem customerId_returns_iff (stored : world.investors.lookup investor.id = some investor.val) :
    CustomerIdReturns app world investor ↔
      (app.config.kycEnabled = true → investor.id.SpelledBy investor.val.email) := by
  have held : world.investors.findOneById investor.id = some investor :=
    Collection.findOneById_eq_some_iff.mpr ⟨Collection.lookup_eq_some_iff.mp stored, rfl⟩
  constructor
  · intro returns enabled
    let result : JumioResult := ⟨investor.val.email, "SUCCESS", none⟩
    obtain ⟨trace, outcome, after, executes, answered⟩ := callback_answered result world
    obtain ⟨query, acts⟩ := returns investor.val.email (sendsCustomerId_iff.mpr ⟨enabled, rfl⟩) result
      rfl trace outcome after executes answered
    have looked := callback_lookup executes answered
    rw [acts] at looked
    obtain ⟨id, spelled, found⟩ := Option.bind_eq_some_iff.mp looked.symm
    obtain ⟨_, here, same⟩ := Option.map_eq_some_iff.mp found
    obtain ⟨own, _⟩ := Collection.lookup_of_findOneById here
    cases same
    rw [← own] at spelled
    exact ObjectID.ofText_eq_some_iff.mp spelled
  · intro spelled customerId sends result echoed trace outcome after executes answered
    obtain ⟨enabled, email⟩ := sendsCustomerId_iff.mp sends
    have read : ObjectID.ofText result.customerId = some investor.id := by
      rw [echoed, email]
      exact ObjectID.ofText_eq_some_iff.mpr (spelled enabled)
    have looked := callback_lookup executes answered
    rw [read, Option.bind_some, held] at looked
    exact ⟨_, looked⟩

/-- The twelve bytes of this email are an id. -/
def annLee : Doc ObjectID Investor :=
  ⟨(ObjectID.ofText "ann@lee.info").getD 0,
    Investor.createInvestor .plain { newcomer with email := "ann@lee.info" } "secret" "v1"⟩

theorem annLee_returns :
    CustomerIdReturns kycApp { investors := ⟨[annLee], List.nodup_singleton _⟩ } annLee :=
  (customerId_returns_iff (by decide +kernel)).mpr fun _ => by decide +kernel

/-- The callback for Ann, who has just signed up, throws at her email. -/
theorem annCustomerId_unread : ∃ ann,
    (after kycApp signUp).world.investors.lookup 1 = some ann ∧
    ¬ CustomerIdReturns kycApp (after kycApp signUp).world ⟨1, ann⟩ := by
  have stored : ∃ ann, (after kycApp signUp).world.investors.lookup 1 = some ann ∧
      ann.email = "ann@example.com" := ⟨_, rfl, rfl⟩
  obtain ⟨ann, found, email⟩ := stored
  refine ⟨ann, found, fun returns => ?_⟩
  have sends : SendsCustomerId kycApp ⟨1, ann⟩ "ann@example.com" :=
    sendsCustomerId_iff.mpr ⟨rfl, email.symm⟩
  let result : JumioResult := ⟨"ann@example.com", "SUCCESS", some (some true)⟩
  have unread : ObjectID.ofText result.customerId = none := by decide +kernel
  obtain ⟨trace, outcome, last, executes, answered⟩ :=
    callback_answered result (after kycApp signUp).world
  obtain ⟨query, acts⟩ := returns _ sends result rfl trace outcome last executes answered
  rw [callback_lookup executes answered, unread] at acts
  cases acts

end Accounts
end IcoDashboard
