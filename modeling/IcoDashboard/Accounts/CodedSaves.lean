import IcoDashboard.Accounts.Tokens

namespace IcoDashboard.Accounts

open IcoDashboard.Async IcoDashboard.Async.Program IcoDashboard.Data

/-! # Saves after a code

A request that completes a verification saves its investor only after the code
was validated, and a password is changed only for somebody who knows the old one.
-/

variable {app : App} {arrival : Arrival} {past : AccountTrace}

/-- The verification of the request body. -/
def Request.code : Request → Option VerificationData
  | .activate activationData => some
      { verificationId := activationData.verificationId, code := activationData.code
        method := emailVerification }
  | .verifyResetPassword params => some params.verification
  | .user _ (.verifyChangePassword params) => params.verification
  | .user _ (.enable2faVerify verification) => some verification
  | .user _ (.disable2faVerify verification) => some verification
  | _ => none

def Coded (request : Request) (past : AccountTrace) : Prop :=
  ∃ code, request.code = some code ∧ Validated past code.method code.verificationId

theorem Coded.extended {request : Request} {later : AccountTrace} (coded : Coded request past)
    (extended : past <+: later) : Coded request later := by
  obtain ⟨code, own, validated⟩ := coded
  exact ⟨code, own, validated.extended extended⟩

def SavesCoded (request : Request) (past : AccountTrace) (op : Op) : Prop :=
  ∀ saved, op = .saveInvestor saved → request.completes ≠ none → Coded request past

/-- Once the code was validated, whatever follows is fine. -/
theorem coded_under {α : Type} {program : Handler α} (coded : Coded arrival.request past) :
    program.Meets (SavesCoded arrival.request) (fun _ _ => True) (fun _ _ => True) past :=
  Meets.under fun _ _ extended _ _ _ => coded.extended extended

theorem check_codes {verification : VerificationData} (own : arrival.request.code = some verification)
    (consumer : String) (payload : Json.Object) (removeSecret : Option Bool)
    {onDone : AccountTrace → ValidationResult → Prop}
    (rest : ∀ later result, Coded arrival.request later → onDone later result) :
    (VerificationClient.checkVerificationPayloadAndCode app verification consumer payload
      removeSecret).Meets (SavesCoded arrival.request) onDone (fun _ _ => True) past := by
  simp only [VerificationClient.checkVerificationPayloadAndCode, VerificationClient.getVerification,
    VerificationClient.validateVerification, VerificationClient.invalidateVerification, request, call,
    meets_bind, meets_tryCatch, meets_await, meets_done, meets_fail, meets_ite, meets_throw,
    meets_throwIf, SavesCoded, reduceCtorEq, IsEmpty.forall_iff, implies_true, and_true, true_and]
  exact fun _ _ result => rest _ result ⟨verification, own, validated_now⟩

theorem findUser_codes {email : String} {onDone : AccountTrace → Doc ObjectID Investor → Prop}
    (rest : ∀ later user, onDone later user) :
    (UserService.findUser email).Meets (SavesCoded arrival.request) onDone (fun _ _ => True) past := by
  simp only [UserService.findUser, findInvestor, request, call, meets_bind, meets_await, meets_done,
    meets_fail, meets_orThrow, SavesCoded, reduceCtorEq, IsEmpty.forall_iff, implies_true, and_true,
    true_and]
  exact fun _ user _ => rest _ user

theorem activate_codes {activationData : ActivationUserData}
    (own : arrival.request = .activate activationData) :
    (UserService.activate app activationData arrival.draws).Meets (SavesCoded arrival.request)
      (fun _ _ => True) (fun _ _ => True) [] := by
  simp only [UserService.activate, meets_bind]
  refine findUser_codes fun later user => ?_
  simp only [meets_throwIf, implies_true, true_and]
  intro _
  refine check_codes (by rw [own]; rfl) _ _ _ fun later result coded => ?_
  simp only [← meets_bind]
  exact coded_under coded

theorem verifyResetPassword_codes {params : ResetPasswordInput}
    (own : arrival.request = .verifyResetPassword params) :
    (UserService.verifyResetPassword app params arrival.draws).Meets (SavesCoded arrival.request)
      (fun _ _ => True) (fun _ _ => True) [] := by
  simp only [UserService.verifyResetPassword, meets_bind]
  refine findUser_codes fun later user => ?_
  refine check_codes (by rw [own]; rfl) _ _ _ fun later result coded => ?_
  simp only [← meets_bind]
  exact coded_under coded

theorem verifyChangePassword_codes {authorization : Option String} {params : ChangePasswordInput}
    (own : arrival.request = .user authorization (.verifyChangePassword params))
    (user : Doc ObjectID Investor) :
    (UserService.verifyChangePassword app user params arrival.draws).Meets (SavesCoded arrival.request)
      (fun _ _ => True) (fun _ _ => True) past := by
  simp only [UserService.verifyChangePassword, meets_bind, meets_throwIf, meets_orThrow, implies_true,
    true_and, and_true]
  intro _ _ _ verification given
  refine check_codes (by rw [own]; exact given) _ _ _ fun later result coded => ?_
  simp only [← meets_bind]
  exact coded_under coded

theorem verify2fa_codes {verification : VerificationData}
    (own : arrival.request.code = some verification) (user : Doc ObjectID Investor) :
    (UserService.verifyEnable2fa app user verification).Meets (SavesCoded arrival.request)
        (fun _ _ => True) (fun _ _ => True) past ∧
      (UserService.verifyDisable2fa app user verification).Meets (SavesCoded arrival.request)
        (fun _ _ => True) (fun _ _ => True) past := by
  simp only [UserService.verifyEnable2fa, UserService.verifyDisable2fa, meets_bind, meets_throwIf,
    implies_true, true_and]
  refine ⟨fun _ => ?_, fun _ => ?_⟩ <;>
    · refine check_codes own _ _ _ fun later result coded => ?_
      simp only [← meets_bind]
      exact coded_under coded

/-! ## Every request -/

/-- The calls of the authentication. -/
def Op.authenticates : Op → Bool
  | .findToken _ | .verifyUserToken _ | .findInvestor _ => true
  | _ => false

/-- The authentication loads the user that it lets through. -/
theorem authenticate_acts {guard : AccountTrace → Op → Prop}
    (allows : ∀ past op, op.authenticates = true → guard past op) (authorization : Option String) :
    (authenticate authorization).Meets guard
      (fun trace result => ∀ user, result = .next user → ∃ query, acting trace = some (query, user))
      (fun _ _ => True) [] := by
  have tokens : ∀ past token, guard past (.findToken token) := fun _ _ => allows _ _ rfl
  have logins : ∀ past token, guard past (.verifyUserToken token) := fun _ _ => allows _ _ rfl
  have users : ∀ past query, guard past (.findInvestor query) := fun _ _ => allows _ _ rfl
  unfold authenticate
  split
  · simp
  · simp only [authenticateToken, request, call, meets_bind, meets_await, meets_done, meets_fail,
      tokens, implies_true, and_true, true_and]
    intro found
    split
    · simp only [meets_ite, meets_pure, loadUser, request, call, meets_bind, meets_await, meets_done,
        meets_fail, meets_tryCatch, logins, users, reduceCtorEq, IsEmpty.forall_iff, implies_true, and_true,
        true_and]
      intro verified login answer
      split
      · intro user same
        cases same
        exact ⟨_, rfl⟩
      · simp
    · simp

/-- A request whose kind changes no investor saves none. -/
theorem unchanging_codes (unchanging : ∀ loaded saved, ¬ Changes app arrival.draws loaded saved
      arrival.request) :
    (handle app arrival.draws arrival.request).Meets (SavesCoded arrival.request) (fun _ _ => True)
      (fun _ _ => True) [] := by
  refine (handle_meets app arrival).mono (fun past op guard saved same => ?_) (fun _ _ _ => trivial)
    fun _ _ _ => trivial
  subst same
  obtain ⟨_, user, _, _, changes⟩ := guard
  exact absurd changes (unchanging _ _)

theorem handle_savesCoded (app : App) (arrival : Arrival) :
    (handle app arrival.draws arrival.request).Meets (SavesCoded arrival.request) (fun _ _ => True)
      (fun _ _ => True) [] := by
  have incomplete : arrival.request.completes = none →
      (handle app arrival.draws arrival.request).Meets (SavesCoded arrival.request) (fun _ _ => True)
        (fun _ _ => True) [] :=
    fun none => Meets.under fun _ _ _ _ _ completes => absurd none completes
  have unchanging := @unchanging_codes app arrival
  have saves : ∀ {past op}, op.authenticates = true → SavesCoded arrival.request past op := by
    rintro past op asks saved rfl
    cases asks
  cases own : arrival.request with
  | create | resendVerification | initiateLogin | initiateResetPassword | kycCallback | kycUploaded =>
      rw [own] at incomplete
      exact incomplete rfl
  | verifyLogin inputData =>
      rw [own] at unchanging
      exact unchanging fun _ _ changes => changes
  | activate activationData =>
      have codes := @activate_codes app arrival activationData own
      rw [own] at codes
      simpa [handle] using codes
  | verifyResetPassword params =>
      have codes := @verifyResetPassword_codes app arrival params own
      rw [own] at codes
      simpa [handle] using codes
  | user authorization userRequest =>
      have routes : (∀ user past, (handleUser app user arrival.draws userRequest).Meets
            (SavesCoded arrival.request) (fun _ _ => True) (fun _ _ => True) past) →
          (handle app arrival.draws arrival.request).Meets (SavesCoded arrival.request)
            (fun _ _ => True) (fun _ _ => True) [] := by
        intro codes
        rw [own] at codes saves ⊢
        simp only [handle, meets_bind]
        refine (authenticate_acts (fun _ _ => saves) authorization).mono (fun _ _ guarded => guarded)
          (fun later result _ => ?_) fun _ _ _ => trivial
        cases result with
        | next user => exact codes user later
        | notAuthorized | notFound => trivial
      rw [own] at incomplete unchanging routes
      cases userRequest with
      | investVerify body verification => exact unchanging fun _ _ changes => changes
      | verifyChangePassword params =>
          refine routes fun user past => ?_
          have codes := @verifyChangePassword_codes app arrival past authorization params own user
          rw [own] at codes
          simpa [handleUser] using codes
      | enable2faVerify verification =>
          refine routes fun user past => ?_
          have codes := (@verify2fa_codes app arrival past verification (by rw [own]; rfl) user).1
          rw [own] at codes
          simpa [handleUser] using codes
      | disable2faVerify verification =>
          refine routes fun user past => ?_
          have codes := (@verify2fa_codes app arrival past verification (by rw [own]; rfl) user).2
          rw [own] at codes
          simpa [handleUser] using codes
      | _ => exact incomplete rfl

/-! ## The old password -/

/-- A password change saves only for somebody who knows the old password. -/
def SavesKnown (app : App) (request : Request) (past : AccountTrace) (op : Op) : Prop :=
  ∀ saved authorization params, op = .saveInvestor saved →
    request = .user authorization (.verifyChangePassword params) →
    ∃ query user, acting past = some (query, user) ∧
      app.compareSync params.oldPassword user.val.passwordHash = some true

theorem handle_savesKnown (app : App) (arrival : Arrival) :
    (handle app arrival.draws arrival.request).Meets (SavesKnown app arrival.request) (fun _ _ => True)
      (fun _ _ => True) [] := by
  by_cases changing : ∃ authorization params,
      arrival.request = .user authorization (.verifyChangePassword params)
  · obtain ⟨authorization, params, own⟩ := changing
    have saves : ∀ past op, op.authenticates = true → SavesKnown app arrival.request past op := by
      rintro past op asks saved _ _ rfl
      cases asks
    rw [own] at saves ⊢
    simp only [handle, meets_bind]
    refine (authenticate_acts saves authorization).mono (fun _ _ guarded => guarded)
      (fun later result loads => ?_) fun _ _ _ => trivial
    cases result with
    | next user =>
        obtain ⟨query, acts⟩ := loads user rfl
        simp only [handleUser, UserService.verifyChangePassword, meets_bind, meets_orThrow,
          meets_throwIf, implies_true, true_and, and_true]
        intro passwordMatch compared accepted verification _
        simp only [← meets_bind]
        refine Meets.under fun last op extended saved _ _ _ same => ?_
        cases same
        refine ⟨query, user, acting_extended extended acts, ?_⟩
        rw [compared, Bool.eq_true_of_not_eq_false accepted]
    | notAuthorized | notFound => trivial
  · exact Meets.under fun _ _ _ _ authorization params _ own => absurd ⟨authorization, params, own⟩ changing

end IcoDashboard.Accounts
