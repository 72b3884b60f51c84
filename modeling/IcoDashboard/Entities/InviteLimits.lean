import IcoDashboard.Entities.Invitations

namespace IcoDashboard.Investor

open IcoDashboard.Data

/-! # Limits of an address

The code finds the entry of an address by its lowered spelling.  While the lists
of a call spell the known addresses so, each address keeps one entry, and the
entry carries its count and its last moment.
-/

variable {app : App} {now : Nat}

def address (app : App) (invitee : Invitee) : String := app.toLowerCase invitee.email

/-- No address is listed twice, and those with an entry are in lower case. -/
structure PlainList (app : App) (invitees : List Invitee) (emails : List String) : Prop where
  distinct : (emails.map app.toLowerCase).Nodup
  lowered : ∀ email ∈ emails, app.toLowerCase email ∈ invitees.map (address app) →
    app.toLowerCase email = email

/-- The invitations of an address among some entries. -/
def sentTo (app : App) (target : String) (sent : List Invitee) : Nat :=
  (sent.filter fun entry => address app entry = target).length

def attemptsTo (app : App) (target : String) (invitees : List Invitee) : Nat :=
  ((invitees.filter fun invitee => address app invitee = target).map Invitee.attempts).sum

/-- Two invitations of one address are a day apart. -/
def Spaced (app : App) (sent : List Invitee) : Prop :=
  sent.Pairwise fun earlier later =>
    address app earlier = address app later → earlier.lastSentAt + day ≤ later.lastSentAt

structure Limited (app : App) (sent invitees : List Invitee) : Prop where
  distinct : (invitees.map (address app)).Nodup
  counted : ∀ target, sentTo app target sent = attemptsTo app target invitees
  covered : ∀ entry ∈ sent, ∃ invitee ∈ invitees, address app invitee = address app entry ∧
    entry.lastSentAt ≤ invitee.lastSentAt
  few : ∀ invitee ∈ invitees, invitee.attempts ≤ 5
  spaced : Spaced app sent

section Updates

variable {invitees updated added : List Invitee} {emails left : List String}

theorem Updates.addresses (updates : Updates app now invitees emails updated left) :
    updated.map (address app) = invitees.map (address app) := by
  induction updates with
  | none => rfl
  | kept absent tail ih => rw [List.map_cons, List.map_cons, ih]
  | again listed rested allowed tail ih =>
      rw [List.map_cons, List.map_cons, ih]
      rfl

theorem Updates.sublist (updates : Updates app now invitees emails updated left) :
    left.Sublist emails := by
  induction updates with
  | none => exact List.Sublist.refl _
  | kept absent tail ih => exact ih
  | again listed rested allowed tail ih => exact ih.trans List.erase_sublist

theorem PlainList.sublist {fewer : List String} (plain : PlainList app invitees emails)
    (sublist : fewer.Sublist emails) : PlainList app invitees fewer where
  distinct := plain.distinct.sublist (sublist.map _)
  lowered email member := plain.lowered email (sublist.subset member)

theorem PlainList.tail {invitee : Invitee} (plain : PlainList app (invitee :: invitees) emails) :
    PlainList app invitees emails where
  distinct := plain.distinct
  lowered email member known := plain.lowered email member (List.mem_cons_of_mem _ known)

/-- The emails that are left have no entry. -/
theorem Updates.left_new (updates : Updates app now invitees emails updated left)
    (plain : PlainList app invitees emails) {email : String} (member : email ∈ left) :
    app.toLowerCase email ∉ invitees.map (address app) := by
  induction updates with
  | none => simp
  | @kept invitee rest updated emails left absent tail ih =>
      intro known
      rcases List.mem_cons.mp known with same | other
      · have listed := tail.sublist.subset member
        have lowered := plain.lowered email listed (by rw [same]; exact List.mem_cons_self)
        rw [lowered] at same
        rw [same] at listed
        exact absent listed
      · exact ih plain.tail member other
  | @again invitee rest updated emails left listed rested allowed tail ih =>
      intro known
      have remains := tail.sublist.subset member
      rcases List.mem_cons.mp known with same | other
      · have lowered := plain.lowered email (List.mem_of_mem_erase remains)
          (by rw [same]; exact List.mem_cons_self)
        rw [lowered] at same
        have nodup : emails.Nodup := List.Nodup.of_map _ plain.distinct
        exact (nodup.mem_erase_iff.mp remains).1 same
      · exact ih (plain.tail.sublist List.erase_sublist) member other

theorem attemptsTo_cons (target : String) (invitee : Invitee) (others : List Invitee) :
    attemptsTo app target (invitee :: others) =
      (if address app invitee = target then invitee.attempts else 0) + attemptsTo app target others := by
  unfold attemptsTo
  by_cases own : address app invitee = target
  · simp [own]
  · simp [own]

theorem sentTo_cons (target : String) (entry : Invitee) (others : List Invitee) :
    sentTo app target (entry :: others) =
      (if address app entry = target then 1 else 0) + sentTo app target others := by
  unfold sentTo
  by_cases own : address app entry = target
  · simp [own, Nat.add_comm]
  · simp [own]

theorem attemptsTo_new (target : String) (emails : List String) :
    attemptsTo app target (emails.map (Invitee.firstTimeInvitee now)) =
      sentTo app target (emails.map (Invitee.firstTimeInvitee now)) := by
  induction emails with
  | nil => rfl
  | cons email rest ih =>
      rw [List.map_cons, attemptsTo_cons, sentTo_cons, ih]
      rfl

/-- Each recorded entry is counted in the attempts of its address. -/
theorem Updates.attempts (updates : Updates app now invitees emails updated left) (target : String)
    (more : List String) :
    attemptsTo app target (updated ++ more.map (Invitee.firstTimeInvitee now)) =
      attemptsTo app target invitees + sentTo app target
        (recordedIn invitees (updated ++ more.map (Invitee.firstTimeInvitee now))) := by
  induction updates with
  | none =>
      rw [List.nil_append, recordedIn, attemptsTo_new]
      exact (Nat.zero_add _).symm
  | kept absent tail ih =>
      rw [List.cons_append, recordedIn, if_pos rfl, attemptsTo_cons, attemptsTo_cons, ih]
      omega
  | @again invitee rest updated emails left listed rested allowed tail ih =>
      have same : address app (invitee.invitedAgain now) = address app invitee := rfl
      rw [List.cons_append, recordedIn, if_neg (invitedAgain_ne _), attemptsTo_cons, attemptsTo_cons,
        sentTo_cons, ih, same]
      by_cases own : address app invitee = target
      · simp only [own, if_true, Invitee.invitedAgain]
        omega
      · simp only [own, if_false]
        omega

/-- A recorded entry is new, or of an invitee that has rested for a day. -/
theorem Updates.mem_recorded (updates : Updates app now invitees emails updated left)
    {entry : Invitee} (member : entry ∈ recordedIn invitees (updated ++ added)) :
    entry ∈ added ∨ ∃ invitee ∈ invitees, invitee.invitedDuringLast24Hours now = false ∧
      entry = invitee.invitedAgain now := by
  induction updates with
  | none => exact .inl member
  | kept absent tail ih =>
      rw [List.cons_append, recordedIn, if_pos rfl] at member
      rcases ih member with new | ⟨invitee, known, rested, same⟩
      · exact .inl new
      · exact .inr ⟨invitee, List.mem_cons_of_mem _ known, rested, same⟩
  | @again invitee rest updated emails left listed rested allowed tail ih =>
      rw [List.cons_append, recordedIn, if_neg (invitedAgain_ne _)] at member
      rcases List.mem_cons.mp member with own | other
      · exact .inr ⟨invitee, List.mem_cons_self, rested, own⟩
      · rcases ih other with new | ⟨former, known, rested, same⟩
        · exact .inl new
        · exact .inr ⟨former, List.mem_cons_of_mem _ known, rested, same⟩

theorem recordedIn_sublist (before after : List Invitee) : (recordedIn before after).Sublist after := by
  induction before generalizing after with
  | nil => exact List.Sublist.refl _
  | cons old rest ih =>
      cases after with
      | nil => exact List.nil_sublist _
      | cons new others =>
          unfold recordedIn
          split
          · exact (ih others).cons _
          · exact (ih others).cons_cons _

/-- An entry is not stamped back. -/
theorem Updates.later (updates : Updates app now invitees emails updated left) {invitee : Invitee}
    (known : invitee ∈ invitees) : ∃ after ∈ updated, address app after = address app invitee ∧
      invitee.lastSentAt ≤ after.lastSentAt := by
  induction updates with
  | none => cases known
  | kept absent tail ih =>
      rcases List.mem_cons.mp known with same | other
      · exact ⟨_, List.mem_cons_self, by rw [same], Nat.le_of_eq (by rw [same])⟩
      · obtain ⟨after, member, found⟩ := ih other
        exact ⟨after, List.mem_cons_of_mem _ member, found⟩
  | @again first rest updated emails left listed rested allowed tail ih =>
      rcases List.mem_cons.mp known with same | other
      · have waited : first.lastSentAt ≤ now := by
          by_contra early
          have sent : first.invitedDuringLast24Hours now = true :=
            invitedDuringLast24Hours_iff.mpr (by omega)
          rw [rested] at sent
          cases sent
        exact ⟨_, List.mem_cons_self, by rw [same]; rfl, by rw [same]; exact waited⟩
      · obtain ⟨after, member, found⟩ := ih other
        exact ⟨after, List.mem_cons_of_mem _ member, found⟩

theorem Updates.few (updates : Updates app now invitees emails updated left)
    (few : ∀ invitee ∈ invitees, invitee.attempts ≤ 5) : ∀ invitee ∈ updated, invitee.attempts ≤ 5 := by
  induction updates with
  | none => exact few
  | kept absent tail ih =>
      intro invitee member
      rcases List.mem_cons.mp member with same | other
      · rw [same]
        exact few _ List.mem_cons_self
      · exact ih (fun former known => few former (List.mem_cons_of_mem _ known)) invitee other
  | again listed rested allowed tail ih =>
      intro invitee member
      rcases List.mem_cons.mp member with same | other
      · have reached := of_decide_eq_false allowed
        rw [same]
        simp only [Invitee.invitedAgain]
        omega
      · exact ih (fun former known => few former (List.mem_cons_of_mem _ known)) invitee other

/-- One entry an address, so the attempts of an address are those of the entry. -/
theorem attemptsTo_le {invitees : List Invitee} (distinct : (invitees.map (address app)).Nodup)
    (few : ∀ invitee ∈ invitees, invitee.attempts ≤ 5) (target : String) :
    attemptsTo app target invitees ≤ 5 := by
  induction invitees with
  | nil => exact Nat.zero_le _
  | cons invitee rest ih =>
      obtain ⟨other, distinctRest⟩ := List.nodup_cons.mp distinct
      rw [attemptsTo_cons]
      by_cases own : address app invitee = target
      · have none : attemptsTo app target rest = 0 := by
          unfold attemptsTo
          rw [List.filter_eq_nil_iff.mpr]
          · rfl
          · intro another member same
            refine other (List.mem_map.mpr ⟨another, member, ?_⟩)
            rw [own]
            exact of_decide_eq_true same
        have bound := few invitee List.mem_cons_self
        rw [if_pos own, none]
        omega
      · rw [if_neg own, Nat.zero_add]
        exact ih distinctRest fun another member => few another (List.mem_cons_of_mem _ member)

theorem sentTo_append (target : String) (first second : List Invitee) :
    sentTo app target (first ++ second) = sentTo app target first + sentTo app target second := by
  rw [sentTo, List.filter_append, List.length_append]
  rfl

theorem pairwise_of_distinct {entries : List Invitee} (distinct : (entries.map (address app)).Nodup) :
    Spaced app entries := by
  refine (List.pairwise_map.mp distinct).imp fun different same => ?_
  exact absurd same different

/-- What a call records of an address comes a day after all that was sent to it. -/
theorem Limited.rested {sent : List Invitee} (limited : Limited app sent invitees)
    (updates : Updates app now invitees emails updated left) (plain : PlainList app invitees emails)
    {former entry : Invitee} (before : former ∈ sent)
    (recorded : entry ∈ recordedIn invitees (updated ++ left.map (Invitee.firstTimeInvitee now)))
    (same : address app former = address app entry) :
    former.lastSentAt + day ≤ entry.lastSentAt := by
  obtain ⟨covering, known, sameAddress, latest⟩ := limited.covered former before
  rcases updates.mem_recorded recorded with new | ⟨invitee, listed, rested, again⟩
  · obtain ⟨email, member, made⟩ := List.mem_map.mp new
    refine absurd (List.mem_map.mpr ⟨covering, known, ?_⟩) (updates.left_new plain member)
    rw [sameAddress, same, ← made]
    rfl
  · have own : covering = invitee := by
      apply List.inj_on_of_nodup_map limited.distinct known listed
      rw [sameAddress, same, again]
      rfl
    have waited : ¬ now < invitee.lastSentAt + day := by
      rw [← invitedDuringLast24Hours_iff, rested]
      simp
    rw [own] at latest
    rw [again]
    change former.lastSentAt + day ≤ now
    omega

/-- A call with a plain list keeps the limits. -/
theorem Limited.step {investor : Investor} {sent : List Invitee}
    (limited : Limited app sent investor.invitees) (plain : PlainList app investor.invitees emails)
    (returned : (investor.checkAndUpdateInvitees app now emails).result = .ok ()) :
    Limited app (sent ++ recordedIn investor.invitees
        (investor.checkAndUpdateInvitees app now emails).invitees)
      (investor.checkAndUpdateInvitees app now emails).invitees := by
  obtain ⟨updated, left, updates, same, _, _⟩ := checkAndUpdate_ok returned
  rw [same]
  have addresses : (updated ++ left.map (Invitee.firstTimeInvitee now)).map (address app) =
      investor.invitees.map (address app) ++ left.map app.toLowerCase := by
    rw [List.map_append, updates.addresses, List.map_map]
    rfl
  have distinct : ((updated ++ left.map (Invitee.firstTimeInvitee now)).map (address app)).Nodup := by
    rw [addresses, List.nodup_append]
    refine ⟨limited.distinct, (plain.sublist updates.sublist).distinct, ?_⟩
    intro known member new added equal
    obtain ⟨email, listed, lowered⟩ := List.mem_map.mp added
    rw [equal, ← lowered] at member
    exact updates.left_new plain listed member
  apply Limited.mk
  · exact distinct
  · intro target
    rw [sentTo_append, limited.counted, updates.attempts]
  · intro entry member
    rcases List.mem_append.mp member with old | recorded
    · obtain ⟨invitee, known, sameAddress, latest⟩ := limited.covered entry old
      obtain ⟨after, kept, stays, later⟩ := updates.later known
      exact ⟨after, List.mem_append_left _ kept, stays.trans sameAddress, by omega⟩
    · exact ⟨entry, (recordedIn_sublist _ _).subset recorded, rfl, Nat.le_refl _⟩
  · intro invitee member
    rcases List.mem_append.mp member with kept | new
    · exact updates.few limited.few invitee kept
    · obtain ⟨email, _, made⟩ := List.mem_map.mp new
      rw [← made]
      exact Nat.le_of_ble_eq_true rfl
  · refine List.pairwise_append.mpr ⟨limited.spaced, ?_, ?_⟩
    · exact pairwise_of_distinct (distinct.sublist ((recordedIn_sublist _ _).map _))
    · intro former before entry recorded sameAddress
      exact limited.rested updates plain before recorded sameAddress

end Updates

/-! ## The limits -/

/-- No address is invited again within a day or more than five times, and none has
two entries. -/
structure InvitationLimits (app : App) (sent invitees : List Invitee) : Prop where
  spaced : Spaced app sent
  few : ∀ target, sentTo app target sent ≤ 5
  single : (invitees.map (address app)).Nodup

theorem Limited.limits {sent invitees : List Invitee} (limited : Limited app sent invitees) :
    InvitationLimits app sent invitees where
  spaced := limited.spaced
  few target := by
    rw [limited.counted]
    exact attemptsTo_le limited.distinct limited.few target
  single := limited.distinct

theorem limited_nil : Limited app [] [] where
  distinct := List.nodup_nil
  counted _ := rfl
  covered _ member := nomatch member
  few _ member := nomatch member
  spaced := List.Pairwise.nil

end IcoDashboard.Investor
