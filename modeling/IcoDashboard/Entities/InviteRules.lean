import IcoDashboard.Entities.InviteLimits

namespace IcoDashboard.Investor

/-! # The invite rules

`checkAndUpdateInvitees` counts, searches and updates in one loop.  The rules here
look at the whole lists, at the entries in front of one and not at the state of
the loop.
-/

variable {app : App} {now : Nat}

/-- The entry is the fiftieth of the last 24 hours. -/
def Full (now : Nat) (front : List Invitee) (invitee : Invitee) : Prop :=
  invitee.invitedDuringLast24Hours now = true ∧ sentWithinDay now front = 49

/-- The emails still list the address when those in front have taken theirs. -/
def Met (app : App) (emails : List String) (front : List Invitee) (invitee : Invitee) : Prop :=
  (front.map (address app)).count (address app invitee) < emails.count (address app invitee)

def Unready (now : Nat) (invitee : Invitee) : Prop :=
  invitee.invitedDuringLast24Hours now = true ∨ 5 ≤ invitee.attempts

def Stops (app : App) (now : Nat) (emails : List String) (front : List Invitee)
    (invitee : Invitee) : Prop :=
  Full now front invitee ∨ (Met app emails front invitee ∧ Unready now invitee)

/-! ## The loop in parts -/

theorem Updates.split {front rest updated : List Invitee} {emails left : List String}
    (updates : Updates app now (front ++ rest) emails updated left) :
    ∃ first middle second, Updates app now front emails first middle ∧
      Updates app now rest middle second left ∧ updated = first ++ second := by
  induction front generalizing emails updated with
  | nil => exact ⟨[], emails, updated, .none emails, updates, rfl⟩
  | cons invitee front ih =>
      cases updates with
      | kept absent tail =>
          obtain ⟨first, middle, second, before, after, same⟩ := ih tail
          exact ⟨_, middle, second, .kept absent before, after, by rw [same, List.cons_append]⟩
      | again listed rested allowed tail =>
          obtain ⟨first, middle, second, before, after, same⟩ := ih tail
          exact ⟨_, middle, second, .again listed rested allowed before, after,
            by rw [same, List.cons_append]⟩

/-- Each entry takes one occurrence of its address, while there is one. -/
theorem Updates.count {invitees updated : List Invitee} {emails left : List String}
    (updates : Updates app now invitees emails updated left) (target : String) :
    left.count target = emails.count target - (invitees.map (address app)).count target := by
  induction updates with
  | none => rw [List.map_nil, List.count_nil, Nat.sub_zero]
  | @kept invitee rest updated emails left absent tail ih =>
      rw [ih, List.map_cons, List.count_cons]
      by_cases own : address app invitee = target
      · have zero : emails.count target = 0 := by
          rw [← own]
          exact List.count_eq_zero.mpr absent
        omega
      · simp only [beq_iff_eq, own, if_false, Nat.add_zero]
  | @again invitee rest updated emails left listed rested allowed tail ih =>
      rw [ih, List.count_erase, List.map_cons, List.count_cons]
      change _ - (if (address app invitee == target) = true then 1 else 0) - _ = _
      omega

theorem Updates.met_iff {front updated : List Invitee} {emails left : List String}
    (updates : Updates app now front emails updated left) (invitee : Invitee) :
    Met app emails front invitee ↔ address app invitee ∈ left := by
  have remaining := updates.count (address app invitee)
  rw [← List.count_pos_iff, remaining, Met]
  omega

section Loop

variable {invitee : Invitee} {rest passed : List Invitee} {emails : List String} {count : Nat}

theorem updateInvitees_kept (absent : app.toLowerCase invitee.email ∉ emails)
    (room : ¬ (invitee.invitedDuringLast24Hours now = true ∧ 49 ≤ count)) :
    updateInvitees app now (invitee :: rest) emails count passed =
      updateInvitees app now rest emails
        (count + if invitee.invitedDuringLast24Hours now then 1 else 0) (passed ++ [invitee]) := by
  by_cases sent : invitee.invitedDuringLast24Hours now = true
  · have free : ¬ 50 ≤ count + 1 := fun full => room ⟨sent, by omega⟩
    simp [updateInvitees, sent, free, absent]
  · simp [updateInvitees, sent, absent]

theorem updateInvitees_again (listed : app.toLowerCase invitee.email ∈ emails)
    (rested : invitee.invitedDuringLast24Hours now = false)
    (allowed : invitee.reachedMaxAttemptsCount = false) :
    updateInvitees app now (invitee :: rest) emails count passed =
      updateInvitees app now rest (emails.erase (app.toLowerCase invitee.email)) count
        (passed ++ [invitee.invitedAgain now]) := by
  simp [updateInvitees, rested, listed, allowed]

theorem updateInvitees_full (sent : invitee.invitedDuringLast24Hours now = true) (full : 49 ≤ count) :
    ∃ error, updateInvitees app now (invitee :: rest) emails count passed =
      ⟨.error error, passed ++ invitee :: rest, emails⟩ := by
  have reached : 50 ≤ count + 1 := by omega
  exact ⟨_, by simp [updateInvitees, sent, reached]; rfl⟩

theorem updateInvitees_unready (listed : app.toLowerCase invitee.email ∈ emails)
    (room : ¬ (invitee.invitedDuringLast24Hours now = true ∧ 49 ≤ count))
    (unready : Unready now invitee) :
    ∃ error, updateInvitees app now (invitee :: rest) emails count passed =
      ⟨.error error, passed ++ invitee :: rest, emails.erase (app.toLowerCase invitee.email)⟩ := by
  by_cases sent : invitee.invitedDuringLast24Hours now = true
  · have free : ¬ 50 ≤ count + 1 := fun full => room ⟨sent, by omega⟩
    exact ⟨_, by simp [updateInvitees, sent, free, listed]; rfl⟩
  · have reached : invitee.reachedMaxAttemptsCount = true :=
      decide_eq_true (unready.resolve_left sent)
    exact ⟨_, by simp [updateInvitees, sent, listed, reached]; rfl⟩

end Loop

/-- What a loop that throws has done: the entries in front are updated, and the
email of the entry it throws at is removed unless the day is full. -/
theorem updates_of_error {invitees passed : List Invitee} {emails : List String} {count : Nat}
    {error : Exception} (few : count < 50)
    (threw : (updateInvitees app now invitees emails count passed).result = .error error) :
    ∃ front invitee back updated left, invitees = front ++ invitee :: back ∧
      Updates app now front emails updated left ∧
      ((invitee.invitedDuringLast24Hours now = true ∧ count + sentWithinDay now front = 49 ∧
          (updateInvitees app now invitees emails count passed).emails = left) ∨
        (address app invitee ∈ left ∧ Unready now invitee ∧
          (updateInvitees app now invitees emails count passed).emails =
            left.erase (address app invitee))) := by
  induction invitees generalizing passed emails count with
  | nil => cases threw
  | cons invitee rest ih =>
      by_cases full : invitee.invitedDuringLast24Hours now = true ∧ 49 ≤ count
      · obtain ⟨_, same⟩ := @updateInvitees_full app now invitee rest passed emails count full.1 full.2
        have none : count + sentWithinDay now [] = 49 := Nat.le_antisymm (Nat.le_of_lt_succ few) full.2
        exact ⟨[], invitee, rest, [], emails, rfl, .none emails, .inl ⟨full.1, none, by rw [same]⟩⟩
      · by_cases listed : app.toLowerCase invitee.email ∈ emails
        · by_cases unready : Unready now invitee
          · obtain ⟨_, same⟩ :=
              @updateInvitees_unready app now invitee rest passed emails count listed full unready
            exact ⟨[], invitee, rest, [], emails, rfl, .none emails,
              .inr ⟨listed, unready, by rw [same]; rfl⟩⟩
          · obtain ⟨rested, below⟩ := not_or.mp unready
            have rested : invitee.invitedDuringLast24Hours now = false := by simpa using rested
            have allowed : invitee.reachedMaxAttemptsCount = false := decide_eq_false below
            rw [updateInvitees_again listed rested allowed] at threw ⊢
            obtain ⟨front, stop, back, updated, left, split, before, why⟩ := ih few threw
            refine ⟨invitee :: front, stop, back, _, left, ?_, .again listed rested allowed before, ?_⟩
            · rw [split, List.cons_append]
            · rw [sentWithinDay_cons, rested]
              simpa using why
        · rw [updateInvitees_kept listed full] at threw ⊢
          have room : count + (if invitee.invitedDuringLast24Hours now then 1 else 0) < 50 := by
            by_cases sent : invitee.invitedDuringLast24Hours now = true
            · have below : ¬ 49 ≤ count := fun reached => full ⟨sent, reached⟩
              rw [if_pos sent]
              omega
            · rw [if_neg sent]
              exact few
          obtain ⟨front, stop, back, updated, left, split, before, why⟩ := ih room threw
          refine ⟨invitee :: front, stop, back, _, left, ?_, .kept listed before, ?_⟩
          · rw [split, List.cons_append]
          · rw [sentWithinDay_cons, ← Nat.add_assoc]
            exact why

/-- While nothing is listed and the day is not full, the loop passes on. -/
theorem updateInvitees_passes {front rest passed : List Invitee} {emails : List String} {count : Nat}
    (absent : ∀ earlier ∈ front, address app earlier ∉ emails)
    (room : count + sentWithinDay now front < 50) :
    updateInvitees app now (front ++ rest) emails count passed =
      updateInvitees app now rest emails (count + sentWithinDay now front) (passed ++ front) := by
  induction front generalizing passed count with
  | nil =>
      rw [List.nil_append, List.append_nil]
      rfl
  | cons invitee front ih =>
      rw [sentWithinDay_cons] at room ⊢
      have free : ¬ (invitee.invitedDuringLast24Hours now = true ∧ 49 ≤ count) := by
        rintro ⟨sent, full⟩
        rw [if_pos sent] at room
        omega
      rw [List.cons_append, updateInvitees_kept (absent _ List.mem_cons_self) free,
        ih (fun earlier member => absent earlier (List.mem_cons_of_mem _ member)) (by omega),
        Nat.add_assoc, List.append_assoc]
      rfl

/-! ## When the call throws -/

def Throws (app : App) (now : Nat) (investor : Investor) (emails : List String) : Prop :=
  ∃ error, (investor.checkAndUpdateInvitees app now emails).result = .error error

/-- Some entry stops the loop. -/
def Stopped (app : App) (now : Nat) (emails : List String) (invitees : List Invitee) : Prop :=
  ∃ front invitee back, invitees = front ++ invitee :: back ∧ Stops app now emails front invitee

theorem Updates.not_stopped {invitees updated : List Invitee} {emails left : List String}
    (updates : Updates app now invitees emails updated left)
    (few : Investor.sentWithinDay now invitees < 50) :
    ¬ Stopped app now emails invitees := by
  rintro ⟨front, invitee, back, split, stops⟩
  rw [split] at updates few
  rcases stops with ⟨sent, full⟩ | ⟨met, unready⟩
  · rw [sentWithinDay_append, sentWithinDay_cons, if_pos sent] at few
    omega
  · obtain ⟨first, middle, second, before, after, _⟩ := updates.split
    have listed := (before.met_iff invitee).mp met
    cases after with
    | kept absent tail => exact absent listed
    | again listed rested allowed tail =>
        rcases unready with sent | reached
        · rw [rested] at sent
          cases sent
        · exact of_decide_eq_false allowed reached

theorem checkAndUpdate_error {investor : Investor} {emails : List String} {error : Exception}
    (own : app.toLowerCase investor.email ∉ emails) (many : ¬ 5 < emails.length)
    (threw : (investor.checkAndUpdateInvitees app now emails).result = .error error) :
    (updateInvitees app now investor.invitees emails 0 []).result = .error error ∧
      investor.checkAndUpdateInvitees app now emails =
        updateInvitees app now investor.invitees emails 0 [] := by
  rw [checkAndUpdateInvitees, if_neg own, if_neg many] at threw ⊢
  cases result : (updateInvitees app now investor.invitees emails 0 []).result with
  | ok value => simp [result] at threw
  | error other =>
      simp only [result] at threw ⊢
      exact ⟨threw, trivial⟩

/-- The call throws for the investor's own address, for more than five emails, and
when an entry stops the loop. -/
theorem throws_iff (investor : Investor) (emails : List String) :
    Throws app now investor emails ↔
      app.toLowerCase investor.email ∈ emails ∨ 5 < emails.length ∨
        Stopped app now emails investor.invitees := by
  by_cases own : app.toLowerCase investor.email ∈ emails
  · exact iff_of_true ⟨_, by rw [checkAndUpdateInvitees, if_pos own]⟩ (.inl own)
  by_cases many : 5 < emails.length
  · exact iff_of_true ⟨_, by rw [checkAndUpdateInvitees, if_neg own, if_pos many]⟩ (.inr (.inl many))
  simp only [own, many, false_or]
  constructor
  · rintro ⟨error, threw⟩
    obtain ⟨looped, _⟩ := checkAndUpdate_error own many threw
    obtain ⟨front, invitee, back, updated, left, split, before, why⟩ := updates_of_error (by decide) looped
    refine ⟨front, invitee, back, split, ?_⟩
    rcases why with ⟨sent, full, _⟩ | ⟨listed, unready, _⟩
    · exact .inl ⟨sent, by omega⟩
    · exact .inr ⟨(before.met_iff invitee).mpr listed, unready⟩
  · intro stopped
    cases returned : (investor.checkAndUpdateInvitees app now emails).result with
    | error error => exact ⟨error, returned⟩
    | ok value =>
        obtain ⟨updated, left, updates, _, few, _⟩ := checkAndUpdate_ok returned
        exact absurd stopped (updates.not_stopped few)

/-! ## What a call that throws leaves behind -/

/-- The checks that come before every change: the own address, the length of the
list, and a full day before any entry that the list names. -/
def StopsEarly (app : App) (now : Nat) (investor : Investor) (emails : List String) : Prop :=
  app.toLowerCase investor.email ∈ emails ∨ 5 < emails.length ∨
    ∃ front invitee back, investor.invitees = front ++ invitee :: back ∧ Full now front invitee ∧
      ∀ earlier ∈ front, address app earlier ∉ emails

theorem Updates.shorter {invitees updated : List Invitee} {emails left : List String}
    (updates : Updates app now invitees emails updated left) {invitee : Invitee}
    (known : invitee ∈ invitees) (listed : address app invitee ∈ emails) :
    left.length < emails.length := by
  induction updates with
  | none => cases known
  | kept absent tail ih =>
      rcases List.mem_cons.mp known with same | other
      · rw [same] at listed
        exact absurd listed absent
      · exact ih other listed
  | again first rested allowed tail ih =>
      have fewer := tail.sublist.length_le
      have some := List.length_pos_of_mem first
      rw [List.length_erase_of_mem first] at fewer
      omega

theorem Updates.unmet {invitees updated : List Invitee} {emails left : List String}
    (updates : Updates app now invitees emails updated left)
    (absent : ∀ invitee ∈ invitees, address app invitee ∉ emails) : left = emails := by
  induction updates with
  | none => rfl
  | kept first tail ih => exact ih fun invitee member => absent invitee (List.mem_cons_of_mem _ member)
  | again listed rested allowed tail ih => exact absurd listed (absent _ List.mem_cons_self)

theorem checkAndUpdate_early {investor : Investor} {emails : List String}
    (early : StopsEarly app now investor emails) :
    ∃ error, investor.checkAndUpdateInvitees app now emails =
      ⟨.error error, investor.invitees, emails⟩ := by
  by_cases own : app.toLowerCase investor.email ∈ emails
  · exact ⟨_, by rw [checkAndUpdateInvitees, if_pos own]⟩
  by_cases many : 5 < emails.length
  · exact ⟨_, by rw [checkAndUpdateInvitees, if_neg own, if_pos many]⟩
  obtain ⟨front, invitee, back, split, ⟨sent, count⟩, absent⟩ := (early.resolve_left own).resolve_left many
  obtain ⟨error, stopped⟩ := @updateInvitees_full app now invitee back ([] ++ front) emails
    (0 + sentWithinDay now front) sent (by omega)
  have looped : updateInvitees app now investor.invitees emails 0 [] =
      ⟨.error error, investor.invitees, emails⟩ := by
    rw [split, updateInvitees_passes absent (by omega), stopped]
    rfl
  exact ⟨error, by rw [checkAndUpdateInvitees, if_neg own, if_neg many, looped]⟩

def Unchanged (app : App) (now : Nat) (investor : Investor) (emails : List String) : Prop :=
  (investor.checkAndUpdateInvitees app now emails).invitees = investor.invitees ∧
    (investor.checkAndUpdateInvitees app now emails).emails = emails

theorem early_of_unchanged {investor : Investor} {emails : List String}
    (threw : Throws app now investor emails) (unchanged : Unchanged app now investor emails) :
    StopsEarly app now investor emails := by
  by_cases own : app.toLowerCase investor.email ∈ emails
  · exact .inl own
  by_cases many : 5 < emails.length
  · exact .inr (.inl many)
  obtain ⟨error, threw⟩ := threw
  obtain ⟨looped, result⟩ := checkAndUpdate_error own many threw
  obtain ⟨_, same⟩ := unchanged
  rw [result] at same
  obtain ⟨front, invitee, back, updated, left, split, before, why⟩ :=
    updates_of_error (by decide) looped
  rcases why with ⟨sent, count, kept⟩ | ⟨listed, _, removed⟩
  · rw [Nat.zero_add] at count
    refine .inr (.inr ⟨front, invitee, back, split, ⟨sent, count⟩, fun earlier member listed => ?_⟩)
    have shorter := before.shorter member listed
    rw [← kept, same] at shorter
    omega
  · have fewer := before.sublist.length_le
    have some := List.length_pos_of_mem listed
    have lengths : emails.length = left.length - 1 := by
      rw [← List.length_erase_of_mem listed, ← removed, same]
    omega

/-- A call that throws has changed nothing exactly when it stops at one of the
early checks. -/
theorem throws_unchanged_iff (investor : Investor) (emails : List String) :
    (Throws app now investor emails → Unchanged app now investor emails) ↔
      StopsEarly app now investor emails ∨ ¬ Stopped app now emails investor.invitees := by
  constructor
  · intro kept
    by_cases threw : Throws app now investor emails
    · exact .inl (early_of_unchanged threw (kept threw))
    · exact .inr fun stopped => threw ((throws_iff investor emails).mpr (.inr (.inr stopped)))
  · intro condition threw
    have early : StopsEarly app now investor emails := by
      rcases condition with early | free
      · exact early
      · rcases (throws_iff investor emails).mp threw with own | many | stopped
        · exact .inl own
        · exact .inr (.inl many)
        · exact absurd stopped free
    obtain ⟨error, same⟩ := checkAndUpdate_early early
    rw [Unchanged, same]
    exact ⟨rfl, rfl⟩

/-- Bob has rested, Eve has not. -/
def host : Investor :=
  { inviter with
    invitees := [{ email := "bob@example.com", lastSentAt := 0, attempts := 1 },
      { email := "eve@example.com", lastSentAt := 50000, attempts := 1 }] }

theorem host_changed :
    Throws .plain 100000 host ["bob@example.com", "eve@example.com"] ∧
      host.checkAndUpdateInvitees .plain 100000 ["bob@example.com", "eve@example.com"] =
        ⟨.error { constructor := .inviteIsNotAllowed
                  message := "You have already invited \x7b\x7bemail\x7d\x7d during last 24 hours"
                  fields := [("email", "eve@example.com")] },
          [{ email := "bob@example.com", lastSentAt := 100000, attempts := 2 },
            { email := "eve@example.com", lastSentAt := 50000, attempts := 1 }], []⟩ ∧
      ¬ Unchanged .plain 100000 host ["bob@example.com", "eve@example.com"] :=
  ⟨⟨_, rfl⟩, by decide, fun unchanged => absurd unchanged.2 (by decide)⟩

/-! ## Distinct emails in lower case -/

structure Lowered (app : App) (texts : List String) : Prop where
  distinct : texts.Nodup
  lowered : ∀ text ∈ texts, app.toLowerCase text = text

/-- The rule for which a call throws. -/
def Refused (app : App) (now : Nat) (investor : Investor) (emails : List String) : Prop :=
  app.toLowerCase investor.email ∈ emails ∨ 5 < emails.length ∨
    50 ≤ sentWithinDay now investor.invitees ∨
    ∃ invitee ∈ investor.invitees, invitee.email ∈ emails ∧ Unready now invitee

/-- The entries stay in place, those requested are stamped again, and the other
requested emails get an entry each. -/
def invited (now : Nat) (invitees : List Invitee) (emails : List String) : List Invitee :=
  (invitees.map fun invitee =>
      if invitee.email ∈ emails then invitee.invitedAgain now else invitee) ++
    (emails.filter fun email => email ∉ invitees.map Invitee.email).map
      (Invitee.firstTimeInvitee now)

theorem Lowered.addresses {invitees : List Invitee}
    (listed : Lowered app (invitees.map Invitee.email)) :
    invitees.map (address app) = invitees.map Invitee.email := by
  refine List.map_congr_left fun invitee member => ?_
  exact listed.lowered _ (List.mem_map_of_mem member)

theorem exists_full {invitees : List Invitee} {count : Nat}
    (more : count < sentWithinDay now invitees) :
    ∃ front invitee back, invitees = front ++ invitee :: back ∧
      invitee.invitedDuringLast24Hours now = true ∧ sentWithinDay now front = count := by
  induction invitees generalizing count with
  | nil => cases more
  | cons first rest ih =>
      rw [sentWithinDay_cons] at more
      by_cases sent : first.invitedDuringLast24Hours now = true
      · rw [if_pos sent] at more
        cases count with
        | zero => exact ⟨[], first, rest, rfl, sent, rfl⟩
        | succ count =>
            obtain ⟨front, invitee, back, split, recent, size⟩ := ih (by omega : count < _)
            refine ⟨first :: front, invitee, back, by rw [split, List.cons_append], recent, ?_⟩
            rw [sentWithinDay_cons, if_pos sent, size, Nat.add_comm]
      · rw [if_neg sent, Nat.zero_add] at more
        obtain ⟨front, invitee, back, split, recent, size⟩ := ih more
        refine ⟨first :: front, invitee, back, by rw [split, List.cons_append], recent, ?_⟩
        rw [sentWithinDay_cons, if_neg sent, size, Nat.zero_add]

/-- No entry in front has the address, so an entry is met when its email is
requested. -/
theorem Lowered.met_iff {front back : List Invitee} {invitee : Invitee}
    (listed : Lowered app ((front ++ invitee :: back).map Invitee.email)) (emails : List String) :
    Met app emails front invitee ↔ invitee.email ∈ emails := by
  have same : address app invitee = invitee.email :=
    listed.lowered _ (List.mem_map_of_mem (List.mem_append_right _ List.mem_cons_self))
  have distinct := listed.distinct
  rw [← listed.addresses, List.map_append, List.map_cons] at distinct
  have none : (front.map (address app)).count (address app invitee) = 0 := by
    refine List.count_eq_zero.mpr fun earlier => ?_
    exact (List.nodup_append.mp distinct).2.2 _ earlier _ List.mem_cons_self rfl
  rw [Met, none, List.count_pos_iff, same]

theorem Lowered.stopped_iff {invitees : List Invitee}
    (listed : Lowered app (invitees.map Invitee.email)) (emails : List String) :
    Stopped app now emails invitees ↔ 50 ≤ sentWithinDay now invitees ∨
      ∃ invitee ∈ invitees, invitee.email ∈ emails ∧ Unready now invitee := by
  constructor
  · rintro ⟨front, invitee, back, split, stops⟩
    rcases stops with ⟨sent, count⟩ | ⟨met, unready⟩
    · refine .inl ?_
      rw [split, sentWithinDay_append, sentWithinDay_cons, if_pos sent]
      omega
    · rw [split] at listed ⊢
      exact .inr ⟨invitee, List.mem_append_right _ List.mem_cons_self,
        (listed.met_iff emails).mp met, unready⟩
  · rintro (full | ⟨invitee, member, requested, unready⟩)
    · obtain ⟨front, invitee, back, split, sent, count⟩ := exists_full full
      exact ⟨front, invitee, back, split, .inl ⟨sent, count⟩⟩
    · obtain ⟨front, back, split⟩ := List.mem_iff_append.mp member
      rw [split] at listed
      exact ⟨front, invitee, back, split, .inr ⟨(listed.met_iff emails).mpr requested, unready⟩⟩

/-- An erased email belongs to no later entry. -/
theorem Updates.invited {invitees updated : List Invitee} {emails left : List String}
    (updates : Updates app now invitees emails updated left) (distinct : emails.Nodup)
    (listed : Lowered app (invitees.map Invitee.email)) :
    updated ++ left.map (Invitee.firstTimeInvitee now) = Investor.invited now invitees emails := by
  induction updates with
  | none emails =>
      have all : emails.filter (fun email => email ∉ [].map Invitee.email) = emails :=
        List.filter_eq_self.mpr (by simp)
      rw [Investor.invited, all]
      rfl
  | @kept invitee rest updated emails left absent tail ih =>
      have own : app.toLowerCase invitee.email = invitee.email := listed.lowered _ List.mem_cons_self
      rw [own] at absent
      have others : Lowered app (rest.map Invitee.email) :=
        ⟨(List.nodup_cons.mp listed.distinct).2,
          fun text member => listed.lowered text (List.mem_cons_of_mem _ member)⟩
      have news : emails.filter (fun email => email ∉ (invitee :: rest).map Invitee.email) =
          emails.filter fun email => email ∉ rest.map Invitee.email := by
        refine List.filter_congr fun email member => ?_
        have different : email ≠ invitee.email := fun same => absent (same ▸ member)
        simp [different]
      rw [List.cons_append, ih distinct others, Investor.invited, Investor.invited, List.map_cons,
        if_neg absent, news]
      rfl
  | @again invitee rest updated emails left first rested allowed tail ih =>
      have own : app.toLowerCase invitee.email = invitee.email := listed.lowered _ List.mem_cons_self
      rw [own] at first ih
      obtain ⟨unlike, apart⟩ := List.nodup_cons.mp listed.distinct
      have others : Lowered app (rest.map Invitee.email) :=
        ⟨apart, fun text member => listed.lowered text (List.mem_cons_of_mem _ member)⟩
      have news : emails.filter (fun email => email ∉ (invitee :: rest).map Invitee.email) =
          (emails.erase invitee.email).filter fun email => email ∉ rest.map Invitee.email := by
        rw [distinct.erase_eq_filter, List.filter_filter]
        refine List.filter_congr fun email _ => ?_
        by_cases same : email = invitee.email
        · simp [same]
        · simp [same]
      have stamps : (rest.map fun invitee =>
            if invitee.email ∈ emails then invitee.invitedAgain now else invitee) =
          rest.map fun later => if later.email ∈ emails.erase invitee.email
            then later.invitedAgain now else later := by
        refine List.map_congr_left fun later member => ?_
        have different : later.email ≠ invitee.email := fun same =>
          unlike (same ▸ List.mem_map_of_mem member)
        simp only [distinct.mem_erase_iff, different, ne_eq, not_false_eq_true, true_and]
      rw [List.cons_append, ih (distinct.erase _) others, Investor.invited, Investor.invited,
        List.map_cons, if_pos first, news, stamps]
      rfl

theorem invited_emails (invitees : List Invitee) (emails : List String) :
    (invited now invitees emails).map Invitee.email =
      invitees.map Invitee.email ++ emails.filter fun email => email ∉ invitees.map Invitee.email := by
  rw [invited, List.map_append, List.map_map, List.map_map]
  have kept : (Invitee.email ∘ fun invitee =>
      if invitee.email ∈ emails then invitee.invitedAgain now else invitee) = Invitee.email := by
    funext invitee
    by_cases requested : invitee.email ∈ emails
    · simp [requested, Invitee.invitedAgain]
    · simp [requested]
  have fresh : Invitee.email ∘ Invitee.firstTimeInvitee now = id := rfl
  rw [kept, fresh, List.map_id]

theorem invited_distinct {invitees : List Invitee} {emails : List String}
    (listed : (invitees.map Invitee.email).Nodup) (requested : emails.Nodup) :
    ((invited now invitees emails).map Invitee.email).Nodup := by
  rw [invited_emails, List.nodup_append]
  refine ⟨listed, requested.filter _, fun known member new fresh same => ?_⟩
  have absent := (List.mem_filter.mp fresh).2
  rw [← same] at absent
  exact of_decide_eq_true absent member

/-- The call throws by the rule, and otherwise leaves the invited list. -/
theorem checkAndUpdateInvitees_rule (now : Nat) (investor : Investor) (emails : List String)
    (requested : Lowered app emails) (listed : Lowered app (investor.invitees.map Invitee.email)) :
    let update := investor.checkAndUpdateInvitees app now emails
    ((∃ error, update.result = .error error) ↔ Refused app now investor emails) ∧
      (update.result = .ok () →
        update.invitees = invited now investor.invitees emails ∧
          (update.invitees.map Invitee.email).Nodup ∧
          ((∀ invitee ∈ investor.invitees, invitee.attempts ≤ 5) →
            ∀ invitee ∈ update.invitees, invitee.attempts ≤ 5)) := by
  intro update
  refine ⟨?_, fun returned => ?_⟩
  · have throws := @throws_iff app now investor emails
    rw [listed.stopped_iff] at throws
    exact throws
  · obtain ⟨updated, left, updates, same, _, _⟩ := checkAndUpdate_ok returned
    have after : update.invitees = invited now investor.invitees emails := by
      rw [← updates.invited requested.distinct listed]
      exact congrArg InviteesUpdate.invitees same
    refine ⟨after, ?_, fun few invitee member => ?_⟩
    · rw [after]
      exact invited_distinct listed.distinct requested.distinct
    · rw [after, ← updates.invited requested.distinct listed] at member
      rcases List.mem_append.mp member with kept | new
      · exact updates.few few invitee kept
      · obtain ⟨email, _, made⟩ := List.mem_map.mp new
        rw [← made]
        exact Nat.le_of_ble_eq_true rfl

theorem host_rule :
    let update := host.checkAndUpdateInvitees .plain 100000 ["bob@example.com", "joe@example.com"]
    update.result = .ok () ∧
      update.invitees = invited 100000 host.invitees ["bob@example.com", "joe@example.com"] ∧
      ¬ Refused .plain 100000 host ["bob@example.com", "joe@example.com"] := by
  have rule := @checkAndUpdateInvitees_rule .plain 100000 host
    ["bob@example.com", "joe@example.com"] ⟨by decide, fun _ _ => rfl⟩ ⟨by decide, fun _ _ => rfl⟩
  have returned : (host.checkAndUpdateInvitees .plain 100000
      ["bob@example.com", "joe@example.com"]).result = .ok () := rfl
  refine ⟨returned, (rule.2 returned).1, fun refused => ?_⟩
  obtain ⟨error, threw⟩ := rule.1.mpr refused
  rw [returned] at threw
  cases threw

end IcoDashboard.Investor
