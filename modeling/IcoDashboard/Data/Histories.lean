import Mathlib.Data.List.Basic

namespace IcoDashboard.Data

/-! # Histories

A server answers requests one after another and keeps a state between them.
What it answers may depend on the requests before, only through that state.
-/

structure Server (Req Resp State : Type) where
  initial : State
  serve : Req → State → Resp × State

namespace Server

variable {Req Resp State : Type} (server : Server Req Resp State)

def answersFrom : State → List Req → List Resp
  | _, [] => []
  | state, req :: rest => (server.serve req state).1 :: answersFrom (server.serve req state).2 rest

def leftFrom (state : State) (history : List Req) : State :=
  history.foldl (fun state req => (server.serve req state).2) state

def answers (requests : List Req) : List Resp := server.answersFrom server.initial requests

/-- The state after a history. -/
def leftBy (history : List Req) : State := server.leftFrom server.initial history

/-- The answer to a request after a history. -/
def after (history : List Req) (req : Req) : Resp := (server.serve req (server.leftBy history)).1

/-- The answer to a request that is the first. -/
def alone (req : Req) : Resp := (server.serve req server.initial).1

/-- Every request is answered as if it were the first. -/
def Forgetful (requests : List Req) : Prop := server.answers requests = requests.map server.alone

theorem answersFrom_eq_map {fresh : Req → Resp} (state : State) (requests : List Req) :
    server.answersFrom state requests = requests.map fresh ↔
      ∀ before req later, requests = before ++ req :: later →
        (server.serve req (server.leftFrom state before)).1 = fresh req := by
  induction requests generalizing state with
  | nil =>
      constructor
      · intro _ before req later split
        cases before <;> cases split
      · exact fun _ => rfl
  | cons first rest ih =>
      simp only [answersFrom, List.map_cons, List.cons.injEq, ih]
      constructor
      · rintro ⟨head, tail⟩ before req later split
        cases before with
        | nil =>
            obtain ⟨rfl, rfl⟩ := List.cons.inj split
            exact head
        | cons earlier before =>
            obtain ⟨rfl, rests⟩ := List.cons.inj split
            exact tail before req later rests
      · intro each
        exact ⟨each [] first rest rfl, fun before req later split =>
          each (first :: before) req later (by rw [split, List.cons_append])⟩

/-- Each request of a sequence is answered as if it were the first, if each is
after those before it. -/
theorem forgetful_iff {requests : List Req} :
    server.Forgetful requests ↔ ∀ before req later, requests = before ++ req :: later →
      server.after before req = server.alone req :=
  server.answersFrom_eq_map server.initial requests

theorem leftBy_concat (history : List Req) (req : Req) :
    server.leftBy (history ++ [req]) = (server.serve req (server.leftBy history)).2 := by
  simp only [leftBy, leftFrom, List.foldl_append, List.foldl_cons, List.foldl_nil]

end Server
end IcoDashboard.Data
