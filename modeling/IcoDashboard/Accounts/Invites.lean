import IcoDashboard.Accounts.Authentication
import IcoDashboard.Accounts.AuthRecords
import IcoDashboard.Entities.InviteLimits

namespace IcoDashboard.Accounts

open IcoDashboard.Async IcoDashboard.Async.Program IcoDashboard.Data

/-! # Invites of the accounts

With the requests run in turn, an invite updates the stored invitees and no other
request touches them.  So what the entity makes of its invitees is what happens
in the store.
-/

variable {app : App}

/-- The stored invitees of an investor. -/
def inviteesOf (world : World) (id : ObjectID) : List Invitee :=
  (viewOf Investor.invitees world.investors id).getD []

/-- The invitations of an investor that a request records. -/
def recordedFor (id : ObjectID) (round : AccountRound) : List Invitee :=
  Investor.recordedIn (inviteesOf round.before id) (inviteesOf round.after id)

/-- What an invite makes of the user it has loaded. -/
def inviting (app : App) (draws : Draws) (emails : List String) (user : Doc ObjectID Investor) :
    Doc ObjectID Investor :=
  user.modify fun investor =>
    { investor with invitees := (user.val.checkAndUpdateInvitees app draws.now emails).invitees }

/-! ## The calls of an invite -/

/-- An invite saves the updated invitees, once. -/
def InviteGuard (app : App) (draws : Draws) (emails : List String) (past : AccountTrace) : Op → Prop
  | .saveInvestor saved => investorWrites past = [] ∧ ∃ query user,
      acting past = some (query, user) ∧
      (user.val.checkAndUpdateInvitees app draws.now emails).result = .ok () ∧
      saved = inviting app draws emails user
  | .insertInvestor _ => False
  | _ => True

variable {draws : Draws} {emails : List String} {past : AccountTrace}

theorem Aside.invite {op : Op} (aside : Aside op) : InviteGuard app draws emails past op := by
  cases op <;> trivial

theorem Reads.aside {op : Op} (reads : Reads op) : Aside op := by
  cases op <;> trivial

theorem investorWrites_aside {added : AccountTrace} (aside : ∀ call ∈ added, Aside call.1)
    (noWrite : investorWrites past = []) : investorWrites (past ++ added) = [] := by
  rw [investorWrites_append, noWrite, (hasDone_aside aside).writes]
  rfl

theorem checkNotRegistered_calls {allowed : Op → Prop} (emails : List String)
    (finds : ∀ query, allowed (.findInvestor query)) :
    (UserService.checkNotRegistered app emails).Meets (fun _ op => allowed op) (fun _ _ => True)
      (fun _ _ => True) past := by
  induction emails generalizing past with
  | nil => trivial
  | cons email rest ih =>
      simp only [UserService.checkNotRegistered, request, call, meets_bind, meets_await, meets_done,
        meets_fail, meets_throwIf, implies_true, and_true, true_and]
      exact ⟨finds _, fun _ _ => ih⟩

theorem sendInvites_aside (user : Investor) (emails : List String) :
    (UserService.sendInvites app user emails).Meets (fun _ op => Aside op) (fun _ _ => True)
      (fun _ _ => True) past := by
  induction emails generalizing past with
  | nil => trivial
  | cons email rest ih =>
      simp only [UserService.sendInvites, EmailTemplateService.getRenderedTemplate, request, call,
        fire, meets_bind, meets_tryCatch, meets_ite, meets_await, meets_done, meets_fail, meets_pure,
        meets_throw, implies_true, true_and]
      exact ⟨trivial, fun _ => ⟨trivial, fun _ => ih, fun _ => ih⟩,
        fun _ _ => ⟨trivial, fun _ => ih, fun _ => ih⟩⟩

theorem invite_saves {query : InvestorQuery} {user : Doc ObjectID Investor}
    (acts : acting past = some (query, user)) (noWrite : investorWrites past = []) :
    (UserService.invite app user emails draws).Meets (InviteGuard app draws emails)
      (fun _ _ => True) (fun _ _ => True) past := by
  simp only [UserService.invite, meets_bind]
  have checks := @checkNotRegistered_calls app past Aside emails fun _ => trivial
  refine checks.through (fun _ _ aside => aside.invite)
    (fun added _ aside => ?_) fun _ _ _ => trivial
  split
  · trivial
  · rename_i returned
    simp only [meets_bind]
    refine (sendInvites_aside _ _).through (fun _ _ aside => aside.invite)
      (fun sent _ asideSent => ?_) fun _ _ _ => trivial
    simp only [request, call, meets_await, meets_done, meets_fail, meets_pure, implies_true, and_true]
    refine ⟨?_, query, user, acting_append (acting_append acts _) _, returned, rfl⟩
    exact investorWrites_aside asideSent (investorWrites_aside aside noWrite)

theorem inviteRoute_saves (authorization : Option String) :
    (handle app draws (.user authorization (.invite emails))).Meets (InviteGuard app draws emails)
      (fun _ _ => True) (fun _ _ => True) [] := by
  refine userRoute_meets (fun _ _ _ reads => reads.aside.invite) (fun query token login user _ => ?_)
    (fun _ _ => ⟨trivial, trivial⟩) fun _ _ _ => trivial
  simp only [handleUser, meets_bind, meets_pure]
  exact invite_saves (acting_authTrace query token login user) rfl

/-! ## What a request does to the invitees -/

/-- An invite has saved nothing so far, or the updated invitees. -/
inductive Invited (app : App) (draws : Draws) (emails : List String) (before : World)
    (past : AccountTrace) : Prop where
  | unsaved (noWrite : investorWrites past = [])
  | saved {query : InvestorQuery} {user : Doc ObjectID Investor}
      (acts : acting past = some (query, user))
      (stored : before.investors.lookup user.id = some user.val)
      (returned : (user.val.checkAndUpdateInvitees app draws.now emails).result = .ok ())
      (writes : investorWrites past = [.save (inviting app draws emails user)])

theorem Invited.quiet {before : World} {call : Call Op Ans Exception}
    (invited : Invited app draws emails before past) (noWrite : investorWrite call = none) :
    Invited app draws emails before (past ++ [call]) := by
  have same : investorWrites (past ++ [call]) = investorWrites past := investorWrites_quiet noWrite
  cases invited with
  | unsaved none => exact .unsaved (same.trans none)
  | saved acts stored returned writes =>
      exact .saved (acting_append acts _) stored returned (same.trans writes)

theorem Invited.step {before world : World} {op : Op} (choice : Choice)
    (guard : InviteGuard app draws emails past op) (alone : AloneInvariant before past world)
    (invited : Invited app draws emails before past) :
    Invited app draws emails before (past ++ [⟨op, (perform choice op world).1⟩]) := by
  cases op with
  | saveInvestor saved =>
      obtain ⟨noWrite, query, user, acts, returned, same⟩ := guard
      have unchanged : world.investors = before.investors := by
        rw [alone.investors, storedAfter, noWrite]
        rfl
      cases answered : (perform choice (.saveInvestor saved) world).1 with
      | error error => exact invited.quiet rfl
      | ok value =>
          refine .saved (acting_append acts _) ?_ returned ?_
          · rw [← unchanged]
            exact alone.unsaved query user acts noWrite
          · rw [investorWrites_append, noWrite, same]
            rfl
  | insertInvestor investor => exact guard.elim
  | _ => exact invited.quiet rfl

/-- An invite leaves the investors as they are, or saves the updated invitees over
those it was given. -/
theorem invite_round {round : AccountRound} (ran : (accounts app).Ran round)
    {authorization : Option String}
    (asked : round.request.request = .user authorization (.invite emails)) :
    round.after.investors = round.before.investors ∨
    ∃ query user, acting round.trace = some (query, user) ∧
      round.before.investors.lookup user.id = some user.val ∧
      (user.val.checkAndUpdateInvitees app round.request.draws.now emails).result = .ok () ∧
      round.after.investors = round.before.investors.save Investor.write
        (inviting app round.request.draws emails user) := by
  have saves : (handle app round.request.draws round.request.request).Meets
      (InviteGuard app round.request.draws emails) (fun _ _ => True) (fun _ _ => True) [] := by
    rw [asked]
    exact inviteRoute_saves authorization
  have step : ∀ past op world choice, InviteGuard app round.request.draws emails past op →
      AloneInvariant round.before past world ∧ Invited app round.request.draws emails round.before past →
      AloneInvariant round.before (past ++ [⟨op, (perform choice op world).1⟩])
          (perform choice op world).2 ∧
        Invited app round.request.draws emails round.before
          (past ++ [⟨op, (perform choice op world).1⟩]) :=
    fun past op world choice guard holds => ⟨holds.1.step op choice, holds.2.step choice guard holds.1⟩
  have ended := Executes.invariant ran saves step ⟨AloneInvariant.start round.before, .unsaved rfl⟩
  rw [List.nil_append] at ended
  obtain ⟨alone, invited⟩ := ended
  have stored := alone.investors
  rw [storedAfter] at stored
  cases invited with
  | unsaved noWrite =>
      rw [noWrite] at stored
      exact .inl stored
  | @saved query user acts loaded returned writes =>
      rw [writes] at stored
      exact .inr ⟨query, user, acts, loaded, returned, stored⟩

theorem Changes.invitees {loaded saved : Investor} {asked : Request}
    (changes : Changes app draws loaded saved asked)
    (other : ∀ authorization emails, asked ≠ .user authorization (.invite emails)) :
    saved.invitees = loaded.invitees := by
  unfold Changes at changes
  split at changes <;> grind

/-- The other requests keep the invitees. -/
theorem inviteesOf_kept {round : AccountRound} (ran : (accounts app).Ran round)
    (other : ∀ authorization emails, round.request.request ≠ .user authorization (.invite emails))
    (id : ObjectID) : inviteesOf round.after id = inviteesOf round.before id := by
  have preserves : round.request.request.Preserves app Investor.invitees :=
    fun _ _ _ changes => changes.invitees other
  have kept := viewKept ran preserves
  unfold inviteesOf
  cases before : viewOf Investor.invitees round.before.investors id with
  | some invitees => rw [kept.kept id invitees before]
  | none =>
      cases after : viewOf Investor.invitees round.after.investors id with
      | none => rfl
      | some invitees =>
          obtain ⟨investor, created, same⟩ := kept.created id invitees before after
          obtain ⟨userData, passwordHash, verificationId, _, made⟩ := created
          rw [← same, made]
          rfl

/-! ## Runs -/

/-- The investor invites with a plain list. -/
def InvitesPlainly (app : App) (id : ObjectID) (round : AccountRound) : Prop :=
  ∀ authorization emails query user,
    round.request.request = .user authorization (.invite emails) →
    acting round.trace = some (query, user) → user.id = id →
    Investor.PlainList app user.val.invitees emails

theorem recordedIn_self (invitees : List Invitee) : Investor.recordedIn invitees invitees = [] := by
  induction invitees with
  | nil => rfl
  | cons invitee rest ih => rw [Investor.recordedIn, if_pos rfl, ih]

theorem limited_round {round : AccountRound} (ran : (accounts app).Ran round) {id : ObjectID}
    (plain : InvitesPlainly app id round) {sent : List Invitee}
    (limited : Investor.Limited app sent (inviteesOf round.before id)) :
    Investor.Limited app (sent ++ recordedFor id round) (inviteesOf round.after id) := by
  have kept : inviteesOf round.after id = inviteesOf round.before id →
      Investor.Limited app (sent ++ recordedFor id round) (inviteesOf round.after id) := by
    intro same
    rw [recordedFor, same, recordedIn_self, List.append_nil]
    exact limited
  by_cases invites : ∃ authorization emails,
      round.request.request = .user authorization (.invite emails)
  · obtain ⟨authorization, emails, asked⟩ := invites
    rcases invite_round ran asked with same | ⟨query, user, acts, stored, returned, saved⟩
    · apply kept
      rw [inviteesOf, same]
      rfl
    · by_cases own : user.id = id
      · have before : inviteesOf round.before id = user.val.invitees := by
          rw [inviteesOf, viewOf, ← own, stored]
          rfl
        have after : inviteesOf round.after id =
            (user.val.checkAndUpdateInvitees app round.request.draws.now emails).invitees := by
          have sameId : id = (inviting app round.request.draws emails user).id := own.symm
          rw [inviteesOf, viewOf, saved, Collection.lookup_save, if_pos sameId, ← own, stored]
          rfl
        rw [before] at limited
        rw [recordedFor, before, after]
        exact limited.step (plain authorization emails query user asked acts own) returned
      · apply kept
        have different : id ≠ (inviting app round.request.draws emails user).id := Ne.symm own
        rw [inviteesOf, viewOf, saved, Collection.lookup_save, if_neg different]
        rfl
  · exact kept (inviteesOf_kept ran (fun authorization emails asked =>
      invites ⟨authorization, emails, asked⟩) id)

/-- In every run whose invites of an investor are plain lists, the invitations of
that investor keep the limits after each request. -/
theorem invitations_limited {rounds : List AccountRound} {last : World}
    (run : (accounts app).InTurn {} rounds last) (id : ObjectID)
    (plain : ∀ round ∈ rounds, InvitesPlainly app id round)
    {earlier later : List AccountRound} {round : AccountRound}
    (split : rounds = earlier ++ round :: later) :
    Investor.InvitationLimits app ((earlier ++ [round]).flatMap (recordedFor id))
      (inviteesOf round.after id) := by
  have preserved : ∀ earlier round, round ∈ rounds → (accounts app).Ran round →
      Investor.Limited app (earlier.flatMap (recordedFor id)) (inviteesOf round.before id) →
      Investor.Limited app ((earlier ++ [round]).flatMap (recordedFor id))
        (inviteesOf round.after id) := by
    intro earlier round member ran limited
    have stepped := limited_round ran (plain round member) limited
    simpa using stepped
  have history := @System.InTurn.history _ _ _ _ _ _ _ (accounts app) {} last rounds
    (fun done world => Investor.Limited app (done.flatMap (recordedFor id)) (inviteesOf world id)) []
    run Investor.limited_nil preserved
  obtain ⟨_, _, after⟩ := history.2 earlier round later split
  exact after.limits

/-! ## An invite, and an address listed twice -/

/-- Ann signs up, is activated and invites some emails. -/
def inviteRequests (emails : List String) : List (Arrival × List Choice) :=
  annRequests.take 2 ++
    [({ request := .user (some "Bearer t1") (.invite emails) },
      List.replicate (3 + 3 * emails.length + 1) ({} : Choice))]

def invitesBob : List AccountRound := servedRounds (inviteRequests ["bob@example.com"])

def invitesBobTwice : List AccountRound :=
  servedRounds (inviteRequests ["bob@example.com", "bob@example.com"])

theorem plainList_single (invitees : List Invitee) (email : String) :
    Investor.PlainList .plain invitees [email] where
  distinct := List.nodup_singleton _
  lowered _ _ _ := rfl

theorem invitesBob_limited : ∃ signUp activation invite, invitesBob = [signUp, activation, invite] ∧
    Investor.InvitationLimits .plain ([signUp, activation, invite].flatMap (recordedFor 1))
      (inviteesOf invite.after 1) ∧
    recordedFor 1 invite = [{ email := "bob@example.com", lastSentAt := 0, attempts := 1 }] := by
  have run := @served_inTurn (inviteRequests ["bob@example.com"]) rfl
  have asked : invitesBob.map (fun round => round.request.request) =
      (inviteRequests ["bob@example.com"]).map fun request => request.1.request := rfl
  have plain : ∀ round ∈ invitesBob, InvitesPlainly .plain 1 round := by
    intro round member authorization emails query user invites _ _
    have listed := List.mem_map_of_mem (f := fun round : AccountRound => round.request.request) member
    rw [asked, invites] at listed
    have single : authorization = some "Bearer t1" ∧ emails = ["bob@example.com"] := by
      simpa [inviteRequests, annRequests] using listed
    rw [single.2]
    exact plainList_single _ _
  have three : ∃ signUp activation invite, invitesBob = [signUp, activation, invite] :=
    ⟨_, _, _, rfl⟩
  have recorded : (invitesBob.getLast?).map (recordedFor 1) =
      some [{ email := "bob@example.com", lastSentAt := 0, attempts := 1 }] := by decide +kernel
  obtain ⟨signUp, activation, invite, served⟩ := three
  change (accounts .plain).InTurn {} invitesBob _ at run
  rw [served] at run plain recorded
  exact ⟨signUp, activation, invite, served,
    @invitations_limited _ _ _ run 1 plain [signUp, activation] [] invite rfl,
    Option.some.inj recorded⟩

/-- Both spellings are new, so both are recorded. -/
theorem invitesBobTwice_exceeds : ∃ earlier round later last,
    (accounts .plain).InTurn {} (earlier ++ round :: later) last ∧
    ¬ Investor.InvitationLimits .plain ((earlier ++ [round]).flatMap (recordedFor 1))
      (inviteesOf round.after 1) := by
  have run := @served_inTurn (inviteRequests ["bob@example.com", "bob@example.com"]) rfl
  have three : ∃ signUp activation invite, invitesBobTwice = [signUp, activation, invite] :=
    ⟨_, _, _, rfl⟩
  have stored : (invitesBobTwice.getLast?).map (fun round =>
      (inviteesOf round.after 1).map (Investor.address .plain)) =
      some ["bob@example.com", "bob@example.com"] := by decide +kernel
  obtain ⟨signUp, activation, invite, served⟩ := three
  change (accounts .plain).InTurn {} invitesBobTwice _ at run
  rw [served] at run stored
  refine ⟨[signUp, activation], invite, [], _, run, fun limits => ?_⟩
  have both : (inviteesOf invite.after 1).map (Investor.address .plain) =
      ["bob@example.com", "bob@example.com"] := Option.some.inj stored
  have single := limits.single
  rw [both] at single
  exact absurd single (by decide)

end IcoDashboard.Accounts
