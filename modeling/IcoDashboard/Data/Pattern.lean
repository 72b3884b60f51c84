import Mathlib.Data.List.Basic

namespace IcoDashboard.Data

/-! # Anchored patterns

Regular expressions over code units that start with `^`: repeated character
classes, lookaheads and `$`, matched with backtracking.
-/

/-- An item of a character class. -/
structure Span where
  first : Nat
  last : Nat
  ordered : first ≤ last
deriving DecidableEq, Repr

abbrev CharClass : Type := List Span

namespace CharClass

def has (cls : CharClass) (unit : Nat) : Bool :=
  cls.any fun span => span.first ≤ unit ∧ unit ≤ span.last

def single (char : Char) : Span := ⟨char.toNat, char.toNat, Nat.le_refl _⟩

/-- A range out of order is a syntax error. -/
def range? (first last : Char) : Option Span :=
  if ordered : first.toNat ≤ last.toNat then some ⟨first.toNat, last.toNat, ordered⟩ else none

def digits : Span := ⟨48, 57, by decide⟩

/-- The text between the brackets of a class.  Of the escapes, `\d` and those of
punctuation; none may bound a range. -/
def parse : List Char → Option CharClass
  | [] => some []
  | '\\' :: 'd' :: rest => (parse rest).map (digits :: ·)
  | '\\' :: char :: rest =>
      if char.isAlphanum then none else (parse rest).map (single char :: ·)
  | ['\\'] => none
  | first :: '-' :: last :: rest =>
      if last = '\\' then none
      else match range? first last with
        | some span => (parse rest).map (span :: ·)
        | none => none
  | char :: rest => (parse rest).map (single char :: ·)

/-- `.` stops at a line terminator. -/
def dot : CharClass :=
  [⟨0, 9, by decide⟩, ⟨11, 12, by decide⟩, ⟨14, 0x2027, by decide⟩, ⟨0x202a, 0xffff, by decide⟩]

theorem has_iff {cls : CharClass} {unit : Nat} :
    cls.has unit = true ↔ ∃ span ∈ cls, span.first ≤ unit ∧ unit ≤ span.last := by
  simp [has]

end CharClass

/-- A pattern, each part with what follows it. -/
inductive Pattern where
  /-- The end of the pattern, anywhere in the text. -/
  | done
  /-- `$` -/
  | finish
  /-- `[…]{least,most}`; no `most` is `{least,}`. -/
  | repeated (cls : CharClass) (least : Nat) (most : Option Nat) (next : Pattern)
  /-- `(?=…)` -/
  | ahead (body next : Pattern)
deriving DecidableEq, Repr

namespace Pattern

/-- Takes as many units as it can, and gives them back one by one until what
follows matches. -/
def repeats (cls : CharClass) (next : List Nat → Bool) : List Nat → Nat → Option Nat → Bool
  | [], least, _ => least = 0 && next []
  | unit :: rest, least, most =>
      (most ≠ some 0 && cls.has unit && repeats cls next rest (least - 1) (most.map (· - 1))) ||
        (least = 0 && next (unit :: rest))

/-- Whether the pattern matches from the start of the units on. -/
def accepts : Pattern → List Nat → Bool
  | done, _ => true
  | finish, units => units.isEmpty
  | repeated cls least most next, units => repeats cls next.accepts units least most
  | ahead body next, units => body.accepts units && next.accepts units

/-- `[…]` -/
def one (cls : CharClass) (next : Pattern) : Pattern := repeated cls 1 (some 1) next

/-- `[…]*` -/
def many (cls : CharClass) (next : Pattern) : Pattern := repeated cls 0 none next

variable {cls : CharClass} {units : List Nat} {least : Nat} {most : Option Nat}

@[simp] theorem accepts_done : done.accepts units = true := rfl

@[simp] theorem accepts_finish : finish.accepts units = true ↔ units = [] := by
  simp [accepts]

@[simp] theorem accepts_ahead {body next : Pattern} :
    (ahead body next).accepts units = true ↔ body.accepts units = true ∧ next.accepts units = true := by
  simp [accepts]

/-- What a repeated class may take. -/
structure Taken (cls : CharClass) (least : Nat) (most : Option Nat) (taken : List Nat) : Prop where
  enough : least ≤ taken.length
  bounded : ∀ bound, most = some bound → taken.length ≤ bound
  inClass : ∀ unit ∈ taken, cls.has unit = true

theorem Taken.cons {taken : List Nat} {unit : Nat} (holds : cls.has unit = true) (room : most ≠ some 0)
    (tail : Taken cls (least - 1) (most.map (· - 1)) taken) : Taken cls least most (unit :: taken) where
  enough := by
    have enough := tail.enough
    rw [List.length_cons]
    omega
  bounded := by
    intro bound bounded
    subst bounded
    have short := tail.bounded (bound - 1) rfl
    have positive : bound ≠ 0 := fun zero => room (by rw [zero])
    rw [List.length_cons]
    omega
  inClass := by
    intro other member
    rcases List.mem_cons.mp member with rfl | member
    · exact holds
    · exact tail.inClass other member

theorem Taken.tail {taken : List Nat} {unit : Nat} (holds : Taken cls least most (unit :: taken)) :
    cls.has unit = true ∧ most ≠ some 0 ∧ Taken cls (least - 1) (most.map (· - 1)) taken := by
  refine ⟨holds.inClass unit List.mem_cons_self, ?_, ?_, ?_, ?_⟩
  · intro none
    have short := holds.bounded 0 none
    rw [List.length_cons] at short
    omega
  · have enough := holds.enough
    rw [List.length_cons] at enough
    omega
  · intro bound bounded
    obtain ⟨former, found, rfl⟩ := Option.map_eq_some_iff.mp bounded
    have short := holds.bounded former found
    rw [List.length_cons] at short
    omega
  · exact fun other member => holds.inClass other (List.mem_cons_of_mem _ member)

theorem repeats_iff {next : List Nat → Bool} :
    repeats cls next units least most = true ↔
      ∃ taken rest, units = taken ++ rest ∧ Taken cls least most taken ∧ next rest = true := by
  induction units generalizing least most with
  | nil =>
      simp only [repeats, Bool.and_eq_true, decide_eq_true_eq]
      constructor
      · rintro ⟨rfl, follows⟩
        exact ⟨[], [], rfl, ⟨Nat.le_refl _, fun _ _ => Nat.zero_le _, fun _ member => nomatch member⟩,
          follows⟩
      · rintro ⟨taken, rest, split, holds, follows⟩
        obtain ⟨rfl, rfl⟩ := List.append_eq_nil_iff.mp split.symm
        exact ⟨Nat.le_zero.mp holds.enough, follows⟩
  | cons unit units ih =>
      simp only [repeats, Bool.or_eq_true, Bool.and_eq_true, decide_eq_true_eq, ih]
      constructor
      · rintro (⟨⟨room, holds⟩, taken, rest, split, taken', follows⟩ | ⟨rfl, follows⟩)
        · exact ⟨unit :: taken, rest, by rw [split, List.cons_append], taken'.cons holds room, follows⟩
        · exact ⟨[], unit :: units, rfl,
            ⟨Nat.le_refl _, fun _ _ => Nat.zero_le _, fun _ member => nomatch member⟩, follows⟩
      · rintro ⟨taken, rest, split, holds, follows⟩
        cases taken with
        | nil =>
            rw [List.nil_append] at split
            subst split
            exact .inr ⟨Nat.le_zero.mp holds.enough, follows⟩
        | cons first taken =>
            obtain ⟨rfl, rfl⟩ := List.cons.inj split
            obtain ⟨inClass, room, tail⟩ := holds.tail
            exact .inl ⟨⟨room, inClass⟩, taken, rest, rfl, tail, follows⟩

theorem accepts_repeated {next : Pattern} :
    (repeated cls least most next).accepts units = true ↔
      ∃ taken rest, units = taken ++ rest ∧ Taken cls least most taken ∧ next.accepts rest = true :=
  repeats_iff

/-- `^[…]{least,most}$` -/
theorem accepts_whole :
    (repeated cls least most finish).accepts units = true ↔ Taken cls least most units := by
  rw [accepts_repeated]
  constructor
  · rintro ⟨taken, rest, rfl, holds, follows⟩
    rw [accepts_finish] at follows
    rwa [follows, List.append_nil]
  · exact fun holds => ⟨units, [], (List.append_nil _).symm, holds, rfl⟩

theorem accepts_one {next : Pattern} :
    (one cls next).accepts units = true ↔
      ∃ unit rest, units = unit :: rest ∧ cls.has unit = true ∧ next.accepts rest = true := by
  rw [one, accepts_repeated]
  constructor
  · rintro ⟨taken, rest, rfl, holds, follows⟩
    obtain ⟨unit, rfl⟩ := List.length_eq_one_iff.mp
      (Nat.le_antisymm (holds.bounded 1 rfl) holds.enough)
    exact ⟨unit, rest, rfl, holds.inClass unit List.mem_cons_self, follows⟩
  · rintro ⟨unit, rest, rfl, holds, follows⟩
    refine ⟨[unit], rest, rfl, ⟨Nat.le_refl _, ?_, ?_⟩, follows⟩
    · rintro bound ⟨⟩
      exact Nat.le_refl _
    · intro other member
      rwa [List.mem_singleton.mp member]

/-- `^.*[…]` on a text of one line. -/
theorem accepts_somewhere (line : ∀ unit ∈ units, CharClass.dot.has unit = true) :
    (many .dot (one cls done)).accepts units = true ↔ ∃ unit ∈ units, cls.has unit = true := by
  rw [many, accepts_repeated]
  constructor
  · rintro ⟨taken, rest, rfl, _, follows⟩
    obtain ⟨unit, _, rfl, holds, _⟩ := accepts_one.mp follows
    exact ⟨unit, by simp, holds⟩
  · rintro ⟨unit, member, holds⟩
    obtain ⟨before, after, rfl⟩ := List.mem_iff_append.mp member
    have unbounded : Taken .dot 0 none before :=
      ⟨Nat.zero_le _, fun _ bounded => (nomatch bounded),
        fun other earlier => line other (List.mem_append_left _ earlier)⟩
    exact ⟨before, unit :: after, rfl, unbounded, accepts_one.mpr ⟨unit, after, rfl, holds, accepts_done⟩⟩

end Pattern
end IcoDashboard.Data
