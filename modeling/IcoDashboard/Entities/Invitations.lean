import IcoDashboard.Data.Windows
import IcoDashboard.Entities.Investor

namespace IcoDashboard.Investor

open IcoDashboard.Data

/-! # Invitations

What a call of `checkAndUpdateInvitees` that does not throw makes of the
invitees: each entry stays or is stamped again, and the emails that met no entry
get one.
-/

variable {app : App} {now : Nat}

/-- The loop that does not throw: the invitees and emails it is given, and those
it leaves. -/
inductive Updates (app : App) (now : Nat) :
    List Invitee → List String → List Invitee → List String → Prop where
  | none (emails : List String) : Updates app now [] emails [] emails
  | kept {invitee : Invitee} {rest updated : List Invitee} {emails left : List String}
      (absent : app.toLowerCase invitee.email ∉ emails)
      (tail : Updates app now rest emails updated left) :
      Updates app now (invitee :: rest) emails (invitee :: updated) left
  | again {invitee : Invitee} {rest updated : List Invitee} {emails left : List String}
      (listed : app.toLowerCase invitee.email ∈ emails)
      (rested : invitee.invitedDuringLast24Hours now = false)
      (allowed : invitee.reachedMaxAttemptsCount = false)
      (tail : Updates app now rest (emails.erase (app.toLowerCase invitee.email)) updated left) :
      Updates app now (invitee :: rest) emails (invitee.invitedAgain now :: updated) left

/-- The invitees that a moment counts as invited during the last 24 hours. -/
def sentWithinDay (now : Nat) (invitees : List Invitee) : Nat :=
  (invitees.filter (Invitee.invitedDuringLast24Hours now)).length

theorem sentWithinDay_cons (now : Nat) (invitee : Invitee) (invitees : List Invitee) :
    sentWithinDay now (invitee :: invitees) =
      (if invitee.invitedDuringLast24Hours now then 1 else 0) + sentWithinDay now invitees := by
  unfold sentWithinDay
  by_cases sent : invitee.invitedDuringLast24Hours now = true
  · rw [List.filter_cons_of_pos sent, if_pos sent, List.length_cons, Nat.add_comm]
  · rw [List.filter_cons_of_neg sent, if_neg sent, Nat.zero_add]

/-- A loop that does not throw has met the limit at no entry. -/
theorem updates_of_ok {invitees passed : List Invitee} {emails : List String} {count : Nat}
    (returned : (updateInvitees app now invitees emails count passed).result = .ok ()) :
    ∃ updated left, Updates app now invitees emails updated left ∧
      updateInvitees app now invitees emails count passed = ⟨.ok (), passed ++ updated, left⟩ ∧
      (sentWithinDay now invitees = 0 ∨ count + sentWithinDay now invitees < 50) := by
  induction invitees generalizing passed emails count with
  | nil => exact ⟨[], emails, .none emails, by simp [updateInvitees], .inl rfl⟩
  | cons invitee rest ih =>
      rw [sentWithinDay_cons]
      unfold updateInvitees at returned ⊢
      by_cases sent : invitee.invitedDuringLast24Hours now = true
      · simp only [sent, if_true, Bool.true_and, decide_eq_true_eq] at returned ⊢
        by_cases full : 50 ≤ count + 1
        · simp [full] at returned
        · simp only [full, if_false] at returned ⊢
          by_cases listed : app.toLowerCase invitee.email ∈ emails
          · simp [listed] at returned
          · simp only [listed, if_false] at returned ⊢
            obtain ⟨updated, left, tail, same, few⟩ := ih returned
            exact ⟨invitee :: updated, left, .kept listed tail, by simp [same], by omega⟩
      · have rested : invitee.invitedDuringLast24Hours now = false := by simpa using sent
        simp only [rested, Bool.false_and, Bool.false_eq_true, if_false] at returned ⊢
        by_cases listed : app.toLowerCase invitee.email ∈ emails
        · simp only [listed, if_true] at returned ⊢
          by_cases reached : invitee.reachedMaxAttemptsCount = true
          · simp [reached] at returned
          · have allowed : invitee.reachedMaxAttemptsCount = false := by simpa using reached
            simp only [allowed, Bool.false_eq_true, if_false] at returned ⊢
            obtain ⟨updated, left, tail, same, few⟩ := ih returned
            exact ⟨invitee.invitedAgain now :: updated, left, .again listed rested allowed tail,
              by simp [same], by omega⟩
        · simp only [listed, if_false] at returned ⊢
          obtain ⟨updated, left, tail, same, few⟩ := ih returned
          exact ⟨invitee :: updated, left, .kept listed tail, by simp [same], by omega⟩

/-- What a call that does not throw leaves behind. -/
theorem checkAndUpdate_ok {investor : Investor} {emails : List String}
    (returned : (investor.checkAndUpdateInvitees app now emails).result = .ok ()) :
    ∃ updated left, Updates app now investor.invitees emails updated left ∧
      investor.checkAndUpdateInvitees app now emails =
        ⟨.ok (), updated ++ left.map (Invitee.firstTimeInvitee now), left⟩ ∧
      sentWithinDay now investor.invitees < 50 ∧ emails.length ≤ 5 := by
  unfold checkAndUpdateInvitees at returned ⊢
  by_cases own : app.toLowerCase investor.email ∈ emails
  · simp [own] at returned
  · simp only [own, if_false] at returned ⊢
    by_cases many : emails.length > 5
    · simp [many] at returned
    · simp only [many, if_false] at returned ⊢
      have looped : (updateInvitees app now investor.invitees emails 0 []).result = .ok () := by
        cases result : (updateInvitees app now investor.invitees emails 0 []).result with
        | ok value => rfl
        | error error => rw [result] at returned; simp [result] at returned
      obtain ⟨updated, left, updates, same, few⟩ := updates_of_ok looped
      exact ⟨updated, left, updates, by simp [same], by omega, by omega⟩

/-! ## Recorded invitations -/

/-- The entries that are new or stamped again. -/
def recordedIn : List Invitee → List Invitee → List Invitee
  | [], after => after
  | old :: before, new :: after =>
      if new = old then recordedIn before after else new :: recordedIn before after
  | _ :: _, [] => []

theorem invitedAgain_ne (invitee : Invitee) : invitee.invitedAgain now ≠ invitee := by
  intro same
  have attempts := congrArg Invitee.attempts same
  simp [Invitee.invitedAgain] at attempts

/-- Each email of the list is recorded once. -/
theorem Updates.recorded {invitees updated added : List Invitee} {emails left : List String}
    (updates : Updates app now invitees emails updated left) :
    (recordedIn invitees (updated ++ added)).length + left.length = emails.length + added.length := by
  induction updates with
  | none emails => simp [recordedIn, Nat.add_comm]
  | kept absent tail ih =>
      rw [List.cons_append, recordedIn, if_pos rfl]
      exact ih
  | again listed rested allowed tail ih =>
      have some := List.length_pos_of_mem listed
      rw [List.length_erase_of_mem listed] at ih
      rw [List.cons_append, recordedIn, if_neg (invitedAgain_ne _), List.length_cons]
      omega

/-- Seconds of a day. -/
def day : Nat := 3600 * 24

theorem invitedDuringLast24Hours_iff {moment : Nat} {invitee : Invitee} :
    invitee.invitedDuringLast24Hours moment = true ↔ moment < invitee.lastSentAt + day := by
  simp only [Invitee.invitedDuringLast24Hours, decide_eq_true_eq, day]
  omega

theorem rested_later {moment : Nat} {invitee : Invitee}
    (rested : invitee.invitedDuringLast24Hours now = false) (later : now ≤ moment) :
    ¬ invitee.invitedDuringLast24Hours moment = true := by
  intro sent
  have before : ¬ now < invitee.lastSentAt + day := by
    rw [← invitedDuringLast24Hours_iff, rested]
    simp
  have within := invitedDuringLast24Hours_iff.mp sent
  omega

/-- As long as the day of a call lasts, its emails count. -/
theorem Updates.sentWithinDay {invitees updated : List Invitee} {emails left : List String}
    (updates : Updates app now invitees emails updated left) {moment : Nat} (later : now ≤ moment) :
    Investor.sentWithinDay moment updated + (if moment < now + day then left.length else 0) =
      Investor.sentWithinDay moment invitees + if moment < now + day then emails.length else 0 := by
  induction updates with
  | none emails => rfl
  | kept absent tail ih =>
      rw [sentWithinDay_cons, sentWithinDay_cons]
      omega
  | again listed rested allowed tail ih =>
      have some := List.length_pos_of_mem listed
      rw [List.length_erase_of_mem listed] at ih
      rw [sentWithinDay_cons, sentWithinDay_cons, if_neg (rested_later rested later)]
      by_cases lasts : moment < now + day
      · rw [if_pos (invitedDuringLast24Hours_iff.mpr lasts)]
        simp only [lasts, if_true] at ih ⊢
        omega
      · rw [if_neg (mt invitedDuringLast24Hours_iff.mp lasts)]
        simp only [lasts, if_false] at ih ⊢
        omega

theorem sentWithinDay_new {moment : Nat} (emails : List String) :
    sentWithinDay moment (emails.map (Invitee.firstTimeInvitee now)) =
      if moment < now + day then emails.length else 0 := by
  induction emails with
  | nil => simp [sentWithinDay]
  | cons email rest ih =>
      rw [List.map_cons, sentWithinDay_cons, ih]
      by_cases lasts : moment < now + day
      · have sent : (Invitee.firstTimeInvitee now email).invitedDuringLast24Hours moment = true :=
          invitedDuringLast24Hours_iff.mpr lasts
        rw [if_pos sent, if_pos lasts, if_pos lasts, List.length_cons, Nat.add_comm]
      · have rested : ¬ (Invitee.firstTimeInvitee now email).invitedDuringLast24Hours moment = true :=
          mt invitedDuringLast24Hours_iff.mp lasts
        rw [if_neg rested, if_neg lasts, if_neg lasts]

theorem sentWithinDay_append (moment : Nat) (first second : List Invitee) :
    sentWithinDay moment (first ++ second) =
      sentWithinDay moment first + sentWithinDay moment second := by
  rw [sentWithinDay, List.filter_append, List.length_append]
  rfl

/-! ## Runs of calls -/

structure InviteCall where
  now : Nat
  emails : List String

/-- A call that has not thrown, with the invitees before and after it. -/
structure InviteStep where
  call : InviteCall
  before : List Invitee
  after : List Invitee

/-- The steps of some calls on one investor, when none of them throws. -/
def inviteSteps (app : App) (investor : Investor) : List InviteCall → Option (List InviteStep)
  | [] => some []
  | call :: rest =>
      let update := investor.checkAndUpdateInvitees app call.now call.emails
      match update.result with
      | .ok _ =>
          (inviteSteps app { investor with invitees := update.invitees } rest).map fun steps =>
            ⟨call, investor.invitees, update.invitees⟩ :: steps
      | .error _ => none

/-- The invitations that a step records. -/
def InviteStep.batch (step : InviteStep) : Windows.Batch :=
  ⟨step.call.now, (recordedIn step.before step.after).length⟩

/-- What a step does, and what has been recorded before it counts as sent. -/
structure InviteStep.Recorded (step : InviteStep) (earlier : List InviteStep) : Prop where
  size : step.batch.size = step.call.emails.length
  recent : Windows.recent day step.call.now (earlier.map InviteStep.batch) =
    sentWithinDay step.call.now step.before

/-- From the last call on, the entries of the last day are those recorded then. -/
def CountsRecent (invitees : List Invitee) (done : List InviteStep) (last : Nat) : Prop :=
  ∀ moment, last ≤ moment →
    Windows.recent day moment (done.map InviteStep.batch) = sentWithinDay moment invitees

theorem CountsRecent.step {investor : Investor} {done : List InviteStep} {last : Nat}
    {call : InviteCall} (counts : CountsRecent investor.invitees done last) (later : last ≤ call.now)
    (returned : (investor.checkAndUpdateInvitees app call.now call.emails).result = .ok ()) :
    let after := (investor.checkAndUpdateInvitees app call.now call.emails).invitees
    InviteStep.Recorded ⟨call, investor.invitees, after⟩ done ∧
      CountsRecent after (done ++ [⟨call, investor.invitees, after⟩]) call.now := by
  obtain ⟨updated, left, updates, same, _, _⟩ := checkAndUpdate_ok returned
  have size : (recordedIn investor.invitees
      (updated ++ left.map (Invitee.firstTimeInvitee call.now))).length = call.emails.length := by
    have recorded := @Updates.recorded _ _ _ _ (left.map (Invitee.firstTimeInvitee call.now)) _ _
      updates
    rw [List.length_map] at recorded
    omega
  simp only [same]
  refine ⟨⟨size, counts _ later⟩, fun moment after => ?_⟩
  have earlier := counts moment (by omega)
  have stays := updates.sentWithinDay after
  rw [List.map_append, List.map_singleton, Windows.recent_snoc, sentWithinDay_append,
    sentWithinDay_new, earlier]
  simp only [InviteStep.batch, size]
  omega

theorem steps_recorded {calls : List InviteCall} {investor : Investor} {done steps : List InviteStep}
    {last : Nat} (ran : inviteSteps app investor calls = some steps)
    (clock : calls.Pairwise fun earlier later => earlier.now ≤ later.now)
    (after : ∀ call ∈ calls, last ≤ call.now) (counts : CountsRecent investor.invitees done last) :
    ∀ earlier step later, steps = earlier ++ step :: later → step.Recorded (done ++ earlier) := by
  induction calls generalizing investor done steps last with
  | nil =>
      cases ran
      intro earlier step later split
      simp at split
  | cons call rest ih =>
      rw [inviteSteps] at ran
      split at ran
      · rename_i returned
        obtain ⟨others, laterRan, same⟩ := Option.map_eq_some_iff.mp ran
        obtain ⟨ordered, clockRest⟩ := List.pairwise_cons.mp clock
        obtain ⟨recorded, countsNext⟩ := counts.step (after call List.mem_cons_self) returned
        intro earlier step later split
        rw [← same] at split
        cases earlier with
        | nil =>
            obtain ⟨first, _⟩ := List.cons.inj split
            rw [← first, List.append_nil]
            exact recorded
        | cons head front =>
            obtain ⟨first, tail⟩ := List.cons.inj split
            have found := ih laterRan clockRest ordered countsNext front step later tail
            rw [← first, List.append_cons]
            exact found
      · cases ran

theorem steps_calls {calls : List InviteCall} {investor : Investor} {steps : List InviteStep}
    (ran : inviteSteps app investor calls = some steps) : steps.map InviteStep.call = calls := by
  induction calls generalizing investor steps with
  | nil =>
      cases ran
      rfl
  | cons call rest ih =>
      rw [inviteSteps] at ran
      split at ran
      · obtain ⟨others, laterRan, same⟩ := Option.map_eq_some_iff.mp ran
        rw [← same, List.map_cons, ih laterRan]
      · cases ran

/-- The invitations of a new investor stay within 50 in every window of 24 hours
exactly when each call fits in what the last day has left of the 50. -/
theorem invitesPerDay_iff {data : UserData} {passwordHash verificationId : String}
    {calls : List InviteCall} {steps : List InviteStep}
    (ran : inviteSteps app (createInvestor app data passwordHash verificationId) calls = some steps)
    (clock : calls.Pairwise fun earlier later => earlier.now ≤ later.now) :
    (∀ start, Windows.within day start (steps.map InviteStep.batch) ≤ 50) ↔
      ∀ step ∈ steps, sentWithinDay step.call.now step.before + step.call.emails.length ≤ 50 := by
  have start : CountsRecent (createInvestor app data passwordHash verificationId).invitees [] 0 :=
    fun _ _ => rfl
  have recorded := steps_recorded ran clock (fun _ _ => Nat.zero_le _) start
  have sorted : (steps.map InviteStep.batch).Pairwise fun earlier later =>
      earlier.time ≤ later.time := by
    rw [← steps_calls ran, List.pairwise_map] at clock
    exact List.pairwise_map.mpr clock
  have fits : ∀ {earlier step later}, steps = earlier ++ step :: later →
      (Windows.recent day step.batch.time (earlier.map InviteStep.batch) + step.batch.size ≤ 50 ↔
        sentWithinDay step.call.now step.before + step.call.emails.length ≤ 50) := by
    intro earlier step later split
    obtain ⟨size, recent⟩ := recorded earlier step later split
    rw [size, ← recent]
    rfl
  rw [Windows.within_bounded_iff (by decide) sorted]
  constructor
  · intro bounded step member
    obtain ⟨earlier, later, split⟩ := List.mem_iff_append.mp member
    refine (fits split).mp (bounded _ _ (later.map InviteStep.batch) ?_)
    rw [split, List.map_append, List.map_cons]
  · intro bounded front batch back split
    obtain ⟨earlier, others, own, fronts, backs⟩ := List.map_eq_append_iff.mp split
    obtain ⟨step, later, rest, same, _⟩ := List.map_eq_cons_iff.mp backs
    rw [rest] at own
    rw [← fronts, ← same]
    exact (fits own).mpr (bounded step (by rw [own]; simp))

/-! ## A last batch over the limit -/

def newcomer : UserData :=
  { email := "ann@example.com", firstName := "Ann", lastName := "Lee", country := "EE"
    dob := "1990-01-01", agreeTos := true, password := "secret" }

def inviter : Investor := createInvestor .plain newcomer "hash" "v1"

theorem twoCalls_perDay : ∃ steps,
    inviteSteps .plain inviter [⟨1000, ["bob@example.com"]⟩, ⟨2000, ["eve@example.com"]⟩] = some steps ∧
      ∀ start, Windows.within day start (steps.map InviteStep.batch) ≤ 50 := by
  have ran : ∃ steps, inviteSteps .plain inviter
      [⟨1000, ["bob@example.com"]⟩, ⟨2000, ["eve@example.com"]⟩] = some steps ∧
      ∀ step ∈ steps, sentWithinDay step.call.now step.before + step.call.emails.length ≤ 50 :=
    ⟨_, rfl, by decide⟩
  obtain ⟨steps, ran, fits⟩ := ran
  exact ⟨steps, ran, (invitesPerDay_iff ran (by decide)).mpr fits⟩

/-- Addresses that differ from one another. -/
def addresses (first count : Nat) : List String :=
  (List.range count).map fun place => String.singleton (Char.ofNat (first + place))

/-- The last call finds 49 invitations of the day, and records five more. -/
def fullDay : List InviteCall :=
  (List.range 9).map (fun batch => ⟨1000, addresses (100 + 5 * batch) 5⟩) ++
    [⟨1000, addresses 145 4⟩, ⟨1000, addresses 149 5⟩]

theorem fullDay_exceeds : ∃ steps, inviteSteps .plain inviter fullDay = some steps ∧
    fullDay.Pairwise (fun earlier later => earlier.now ≤ later.now) ∧
    (∀ call ∈ fullDay, call.emails.length ≤ 5) ∧
    ¬ ∀ start, Windows.within day start (steps.map InviteStep.batch) ≤ 50 := by
  have recorded : (inviteSteps .plain inviter fullDay).map (fun steps =>
      Windows.within day 0 (steps.map InviteStep.batch)) = some 54 := by
    decide +kernel
  obtain ⟨steps, ran, size⟩ := Option.map_eq_some_iff.mp recorded
  refine ⟨steps, ran, by decide +kernel, by decide +kernel, fun bounded => ?_⟩
  have first := bounded 0
  omega

end IcoDashboard.Investor
