import IcoDashboard.Accounts.Guards

namespace IcoDashboard.Accounts

open IcoDashboard.Async IcoDashboard.Async.Program IcoDashboard.Data

/-! # The authentication middleware

A route of a user runs behind three lookups: the token, its login, the user.
The rule below takes a property of the route through them.
-/

/-- The calls of the middleware. -/
def Reads : Op → Prop
  | .findToken _ | .verifyUserToken _ => True
  | .findInvestor (.email _) => True
  | _ => False

/-- The calls after which the middleware lets the user through. -/
def authTrace (query : Option String) (token : Doc ObjectID VerifiedToken) (login : String)
    (user : Doc ObjectID Investor) : AccountTrace :=
  [⟨.findToken query, .ok (some token)⟩, ⟨.verifyUserToken token.val.token, .ok login⟩,
    ⟨.findInvestor (.email login), .ok (some user)⟩]

theorem acting_authTrace (query : Option String) (token : Doc ObjectID VerifiedToken)
    (login : String) (user : Doc ObjectID Investor) :
    acting (authTrace query token login user) = some (.email login, user) := rfl

section Middleware

variable {guard : AccountTrace → Op → Prop} {onFail : AccountTrace → Exception → Prop}

theorem authenticate_meets {onDone : AccountTrace → AuthResult → Prop}
    (authorization : Option String) (reads : ∀ past op, acting past = none → Reads op → guard past op)
    (next : ∀ query token login user, bearerToken authorization = some query →
      onDone (authTrace query token login user) (.next user))
    (refused : ∀ past, (∀ call ∈ past, Reads call.1) →
      onDone past .notAuthorized ∧ onDone past .notFound)
    (thrown : ∀ past error, (∀ call ∈ past, Reads call.1) → onFail past error) :
    (authenticate authorization).Meets guard onDone onFail [] := by
  unfold authenticate
  split
  · exact (refused [] (by simp)).1
  · rename_i query given
    simp only [authenticateToken, request, call, meets_bind, meets_await, meets_done, meets_fail]
    refine ⟨reads _ _ rfl trivial, fun found => ?_, fun error => thrown _ _ (by simp [Reads])⟩
    cases found with
    | none => exact (refused _ (by simp [Reads])).1
    | some token =>
        simp only [loadUser, request, call, meets_ite, meets_tryCatch, meets_bind, meets_await,
          meets_done, meets_fail, meets_pure]
        refine ⟨fun _ => ⟨reads _ _ rfl trivial, fun login => ⟨reads _ _ rfl trivial, fun user => ?_,
          fun error => ?_⟩, fun error => ?_⟩, fun _ => ?_⟩
        · cases user with
          | none => exact (refused _ (by simp [Reads])).2
          | some user => exact next query token login user given
        · exact (refused _ (by simp [Reads])).1
        · exact (refused _ (by simp [Reads])).1
        · exact (refused _ (by simp [Reads])).1

/-- A route of a user is run with the user that the middleware has loaded. -/
theorem userRoute_meets {app : App} {draws : Draws} {onDone : AccountTrace → Response → Prop}
    {authorization : Option String} {userRequest : UserRequest}
    (reads : ∀ past op, acting past = none → Reads op → guard past op)
    (route : ∀ query token login user, bearerToken authorization = some query →
      (handleUser app user draws userRequest).Meets guard onDone onFail
        (authTrace query token login user))
    (refused : ∀ past, (∀ call ∈ past, Reads call.1) →
      onDone past .notAuthorized ∧ onDone past .notFound)
    (thrown : ∀ past error, (∀ call ∈ past, Reads call.1) → onFail past error) :
    (handle app draws (.user authorization userRequest)).Meets guard onDone onFail [] := by
  rw [handle, meets_bind]
  exact authenticate_meets authorization reads route refused thrown

end Middleware
end IcoDashboard.Accounts
