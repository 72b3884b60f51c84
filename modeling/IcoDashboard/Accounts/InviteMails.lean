import IcoDashboard.Accounts.Activation
import IcoDashboard.Accounts.Invites
import IcoDashboard.Entities.InviteRules

namespace IcoDashboard.Accounts

open IcoDashboard.Async IcoDashboard.Async.Program IcoDashboard.Data

/-! # Mails of an invite

The emails that meet an invitee are removed from the array that the mails are then
sent to, so an address that is invited again gets no mail.
-/

variable {app : App} {draws : Draws} {past : AccountTrace}

def recipient : Call Op Ans Exception → Option String
  | ⟨.addJob mail, _⟩ => some mail.recipient
  | _ => none

/-- The addresses of the queued mails, in order. -/
def recipients (trace : AccountTrace) : List String := trace.filterMap recipient

def Unmailed : Op → Prop
  | .addJob _ => False
  | _ => True

theorem recipients_append (first second : AccountTrace) :
    recipients (first ++ second) = recipients first ++ recipients second :=
  List.filterMap_append

theorem recipients_unmailed {trace : AccountTrace} (unmailed : ∀ call ∈ trace, Unmailed call.1) :
    recipients trace = [] := by
  refine List.filterMap_eq_nil_iff.mpr fun call member => ?_
  have quiet := unmailed call member
  obtain ⟨op, answer⟩ := call
  cases op with
  | addJob mail => exact quiet.elim
  | _ => rfl

theorem recipients_after {added : AccountTrace} (unmailed : ∀ call ∈ added, Unmailed call.1) :
    recipients (past ++ added) = recipients past := by
  rw [recipients_append, recipients_unmailed unmailed, List.append_nil]

theorem recipients_saved (saved : Doc ObjectID Investor)
    (answer : Except Exception (Ans (.saveInvestor saved))) :
    recipients (past ++ [⟨.saveInvestor saved, answer⟩]) = recipients past :=
  recipients_after (List.forall_mem_singleton.mpr trivial)

/-- One mail for each email it is given, in order. -/
theorem sendInvites_mails (user : Investor) (emails : List String) :
    (UserService.sendInvites app user emails).Meets (fun _ _ => True)
      (fun later _ => recipients later = recipients past ++ emails) (fun _ _ => True) past := by
  induction emails generalizing past with
  | nil => exact (List.append_nil _).symm
  | cons email rest ih =>
      simp only [UserService.sendInvites, meets_bind]
      have renders := @getRenderedTemplate_calls app past Unmailed "invite"
        [("name", user.name), ("link", app.config.frontendUrl ++ "/auth/signup/" ++ user.referralCode)]
        fun _ _ => trivial
      refine renders.through (fun _ _ _ => trivial) (fun added text unmailed => ?_)
        fun _ _ _ => trivial
      refine ⟨trivial, fun answer => ?_⟩
      refine ih.mono (fun _ _ _ => trivial) (fun later _ sent => ?_) fun _ _ _ => trivial
      rw [sent, recipients_append, recipients_after unmailed, List.append_assoc]
      rfl

/-- An invite that returns has mailed to the emails that met no invitee. -/
theorem invite_mails (user : Doc ObjectID Investor) (emails : List String) :
    (UserService.invite app user emails draws).Meets (fun _ _ => True)
      (fun later returned => ∃ updated left,
        Investor.Updates app draws.now user.val.invitees emails updated left ∧
        recipients later = recipients past ++ left ∧ returned = left.map app.toLowerCase)
      (fun _ _ => True) past := by
  simp only [UserService.invite, meets_bind]
  refine (@checkNotRegistered_calls app past Unmailed emails fun _ => trivial).through
    (fun _ _ _ => trivial) (fun added _ unmailed => ?_) fun _ _ _ => trivial
  split
  · trivial
  · rename_i returned
    obtain ⟨updated, left, updates, same, _, _⟩ := Investor.checkAndUpdate_ok returned
    have emailsLeft := congrArg Investor.InviteesUpdate.emails same
    simp only [meets_bind]
    refine (sendInvites_mails _ _).mono (fun _ _ _ => trivial) (fun sent _ mailed => ?_)
      fun _ _ _ => trivial
    simp only [request, call, meets_await, meets_done, meets_fail, meets_pure, implies_true, and_true,
      true_and]
    intro _
    refine ⟨updated, left, updates, ?_, by rw [emailsLeft]⟩
    rw [recipients_saved, mailed, recipients_after unmailed, emailsLeft]

/-- Each address of the request gets one mail, and the answer lists each once, in
lower case and in the order of the request. -/
structure Delivers (app : App) (emails : List String) (trace : AccountTrace)
    (returned : List String) : Prop where
  mailed : ∀ email ∈ emails, (recipients trace).count email = 1
  listed : returned = emails.map app.toLowerCase
  once : returned.Nodup

/-- An invite that returns delivers exactly when no address is listed twice or
belongs to an invitee. -/
theorem invite_delivers_iff {user : Doc ObjectID Investor} {emails returned : List String}
    {trace : AccountTrace}
    (ran : (UserService.invite app user emails draws).Follows trace (.done returned)) :
    Delivers app emails trace returned ↔ (emails.map app.toLowerCase).Nodup ∧
      ∀ invitee ∈ user.val.invitees, app.toLowerCase invitee.email ∉ emails := by
  obtain ⟨updated, left, updates, mailed, listed⟩ := (@invite_mails app draws [] user emails).follow ran
  change recipients trace = left at mailed
  constructor
  · intro delivers
    have same : left.map app.toLowerCase = emails.map app.toLowerCase := by
      rw [← listed]
      exact delivers.listed
    refine ⟨delivers.listed ▸ delivers.once, fun invitee member known => ?_⟩
    have shorter := updates.shorter member known
    have lengths := congrArg List.length same
    rw [List.length_map, List.length_map] at lengths
    omega
  · rintro ⟨distinct, absent⟩
    have same : left = emails := updates.unmet absent
    rw [same] at mailed listed
    refine ⟨fun email member => ?_, listed, listed ▸ distinct⟩
    rw [mailed]
    exact List.count_eq_one_of_mem (List.Nodup.of_map _ distinct) member

/-! ## A first invitation, and one after a day -/

def hostDoc (invitees : List Invitee) : Doc ObjectID Investor :=
  ⟨1, { Investor.inviter with invitees }⟩

/-- The run in which nobody has an account, the template is rendered and the
investor is saved. -/
def inviteTrace (emails : List String) (mailed : List String) (saved : Doc ObjectID Investor) :
    AccountTrace :=
  emails.map (fun email => ⟨.findInvestor (.email email), .ok none⟩) ++
    mailed.flatMap (fun email =>
      [⟨.renderTemplate "invite" [("name", "Ann Lee"),
          ("link", App.plain.config.frontendUrl ++ "/auth/signup/" ++
            Investor.inviter.referralCode)], .ok "text"⟩,
        ⟨.addJob
          { sender := App.plain.config.emailFromReferral
            recipient := email
            subject := "Ann Lee thinks you will like this project…"
            text := "text" }, .ok ()⟩]) ++
    [⟨.saveInvestor saved, .ok ()⟩]

def bobInvited (lastSentAt attempts : Nat) : List Invitee :=
  [{ email := "bob@example.com", lastSentAt, attempts }]

theorem inviteBob_follows :
    (UserService.invite .plain (hostDoc []) ["bob@example.com"] { now := 100000 }).Follows
      (inviteTrace ["bob@example.com"] ["bob@example.com"] (hostDoc (bobInvited 100000 1)))
      (.done ["bob@example.com"]) :=
  .next (.next (.next (.next (.here _))))

theorem inviteBobAgain_follows :
    (UserService.invite .plain (hostDoc (bobInvited 0 1)) ["bob@example.com"]
        { now := 100000 }).Follows
      (inviteTrace ["bob@example.com"] [] (hostDoc (bobInvited 100000 2))) (.done []) :=
  .next (.next (.here _))

theorem inviteBob_delivers :
    Delivers .plain ["bob@example.com"]
      (inviteTrace ["bob@example.com"] ["bob@example.com"] (hostDoc (bobInvited 100000 1)))
      ["bob@example.com"] :=
  (invite_delivers_iff inviteBob_follows).mpr ⟨by decide, fun _ member => nomatch member⟩

/-- The investor may invite Bob again, and Bob gets no mail. -/
theorem inviteBobAgain_undelivered :
    (UserService.invite .plain (hostDoc (bobInvited 0 1)) ["bob@example.com"]
        { now := 100000 }).Follows
      (inviteTrace ["bob@example.com"] [] (hostDoc (bobInvited 100000 2))) (.done []) ∧
    ¬ Delivers .plain ["bob@example.com"]
      (inviteTrace ["bob@example.com"] [] (hostDoc (bobInvited 100000 2))) [] := by
  refine ⟨inviteBobAgain_follows, fun delivers => ?_⟩
  have listed := delivers.listed
  cases listed

end IcoDashboard.Accounts
