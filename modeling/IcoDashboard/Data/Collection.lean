import Mathlib.Data.List.Nodup
import Mathlib.Logic.Relation

namespace IcoDashboard.Data

/-! # Document collections

A collection is the list of its documents in natural order, no two under one
id.  Saving a loaded document writes it over the stored one; which columns a
save writes is the `write` argument, from the stored and the loaded value.
-/

structure Doc (Id α : Type) where
  id : Id
  val : α
deriving DecidableEq, Repr

def Doc.modify {Id α : Type} (doc : Doc Id α) (change : α → α) : Doc Id α :=
  { doc with val := change doc.val }

@[simp] theorem Doc.modify_id {Id α : Type} (doc : Doc Id α) (change : α → α) :
    (doc.modify change).id = doc.id := rfl

@[simp] theorem Doc.modify_val {Id α : Type} (doc : Doc Id α) (change : α → α) :
    (doc.modify change).val = change doc.val := rfl

structure Collection (Id α : Type) where
  docs : List (Doc Id α)
  distinct : (docs.map Doc.id).Nodup

namespace Collection

variable {Id α : Type}

theorem eq_of_docs {first second : Collection Id α} (same : first.docs = second.docs) :
    first = second := by
  cases first
  cases second
  cases same
  rfl

def empty : Collection Id α := ⟨[], List.nodup_nil⟩

def findOne (collection : Collection Id α) (matching : α → Bool) : Option (Doc Id α) :=
  collection.docs.find? (fun doc => matching doc.val)

theorem matching_of_findOne {collection : Collection Id α} {matching : α → Bool} {doc : Doc Id α}
    (found : collection.findOne matching = some doc) : matching doc.val = true := by
  have accepted := @List.find?_some _ (fun doc : Doc Id α => matching doc.val) _ _ found
  exact accepted

variable [DecidableEq Id]

def findOneById (collection : Collection Id α) (id : Id) : Option (Doc Id α) :=
  collection.docs.find? (fun doc => doc.id = id)

/-- The stored value under an id. -/
def lookup (collection : Collection Id α) (id : Id) : Option α :=
  (collection.findOneById id).map Doc.val

/-- A new document under an id that is not taken. -/
def insert (collection : Collection Id α) (doc : Doc Id α) : Option (Collection Id α) :=
  if free : doc.id ∈ collection.docs.map Doc.id then none
  else some ⟨collection.docs ++ [doc], by
    rw [List.map_append, List.nodup_append]
    refine ⟨collection.distinct, List.nodup_singleton _, ?_⟩
    rintro id member _ new rfl
    exact free (List.mem_singleton.mp new ▸ member)⟩

def save (collection : Collection Id α) (write : α → α → α) (doc : Doc Id α) : Collection Id α :=
  ⟨collection.docs.map fun stored =>
      if stored.id = doc.id then { stored with val := write stored.val doc.val } else stored, by
    rw [List.map_map]
    convert collection.distinct using 2
    funext stored
    simp only [Function.comp_apply]
    split <;> rfl⟩

variable {collection : Collection Id α} {matching : α → Bool} {doc : Doc Id α} {id : Id}

theorem findOneById_eq_some_iff :
    collection.findOneById id = some doc ↔ doc ∈ collection.docs ∧ doc.id = id := by
  constructor
  · intro found
    exact ⟨List.mem_of_find?_eq_some found, by simpa using List.find?_some found⟩
  · rintro ⟨member, rfl⟩
    cases found : collection.findOneById doc.id with
    | none => simpa using List.find?_eq_none.mp found doc member
    | some other =>
        have otherMember := List.mem_of_find?_eq_some found
        have same : other.id = doc.id := by simpa using List.find?_some found
        rw [List.inj_on_of_nodup_map collection.distinct otherMember member same]

theorem lookup_eq_some_iff {val : α} :
    collection.lookup id = some val ↔ ⟨id, val⟩ ∈ collection.docs := by
  simp only [lookup, Option.map_eq_some_iff, findOneById_eq_some_iff]
  constructor
  · rintro ⟨doc, ⟨member, rfl⟩, rfl⟩
    exact member
  · exact fun member => ⟨_, ⟨member, rfl⟩, rfl⟩

/-- A query answers with a document as it is stored. -/
theorem lookup_of_findOne (found : collection.findOne matching = some doc) :
    collection.lookup doc.id = some doc.val :=
  lookup_eq_some_iff.mpr (List.mem_of_find?_eq_some found)

theorem lookup_of_findOneById (found : collection.findOneById id = some doc) :
    doc.id = id ∧ collection.lookup id = some doc.val := by
  obtain ⟨member, rfl⟩ := findOneById_eq_some_iff.mp found
  exact ⟨rfl, lookup_eq_some_iff.mpr member⟩

theorem lookup_save (write : α → α → α) :
    (collection.save write doc).lookup id =
      if id = doc.id then (collection.lookup id).map (write · doc.val)
      else collection.lookup id := by
  have sameId : (fun stored : Doc Id α => decide (stored.id = id)) ∘ (fun stored =>
      if stored.id = doc.id then { stored with val := write stored.val doc.val } else stored) =
      fun stored => decide (stored.id = id) := by
    funext stored
    simp only [Function.comp_apply]
    split <;> rfl
  simp only [lookup, findOneById, save, List.find?_map, sameId, Option.map_map]
  cases found : collection.docs.find? (fun stored => decide (stored.id = id)) with
  | none => simp
  | some stored =>
      obtain rfl : stored.id = id := by simpa using List.find?_some found
      by_cases same : stored.id = doc.id <;> simp [same]

theorem insert_eq_some_iff {after : Collection Id α} :
    collection.insert doc = some after ↔
      collection.lookup doc.id = none ∧ after.docs = collection.docs ++ [doc] := by
  have free : doc.id ∈ collection.docs.map Doc.id ↔ ¬ collection.lookup doc.id = none := by
    simp [lookup, findOneById]
  unfold insert
  split
  · simp_all
  · rename_i absent
    cases after
    simp_all [eq_comm]

theorem exists_insert (doc : Doc Id α) (unused : collection.lookup doc.id = none) :
    ∃ after, collection.insert doc = some after := by
  cases inserted : collection.insert doc with
  | some after => exact ⟨after, rfl⟩
  | none =>
      have free : doc.id ∉ collection.docs.map Doc.id := by
        simpa [lookup, findOneById] using unused
      simp [insert, free] at inserted

theorem lookup_insert {after : Collection Id α} (inserted : collection.insert doc = some after) :
    after.lookup id = if id = doc.id then some doc.val else collection.lookup id := by
  obtain ⟨absent, docs⟩ := insert_eq_some_iff.mp inserted
  simp only [lookup, findOneById, docs, List.find?_append, Option.map_or] at absent ⊢
  by_cases same : id = doc.id
  · subst same
    rw [absent]
    simp
  · simp [same, Ne.symm same]

/-- A part of the documents after an insertion. -/
theorem map_lookup_insert {β : Type} {after : Collection Id α} (view : α → β)
    (inserted : collection.insert doc = some after) (id : Id) :
    (after.lookup id).map view =
      if id = doc.id then some (view doc.val) else (collection.lookup id).map view := by
  rw [lookup_insert inserted]
  split <;> rfl

/-! ## The order of creation -/

def ids (collection : Collection Id α) : List Id := collection.docs.map Doc.id

theorem mem_ids {val : α} (found : collection.lookup id = some val) : id ∈ collection.ids :=
  List.mem_map_of_mem (lookup_eq_some_iff.mp found)

theorem lookup_of_mem_ids (member : id ∈ collection.ids) :
    ∃ val, collection.lookup id = some val := by
  obtain ⟨doc, stored, rfl⟩ := List.mem_map.mp member
  exact ⟨doc.val, lookup_eq_some_iff.mpr stored⟩

@[simp] theorem ids_save (write : α → α → α) : (collection.save write doc).ids = collection.ids := by
  simp only [ids, save, List.map_map]
  apply List.map_congr_left
  intro stored _
  simp only [Function.comp_apply]
  split <;> rfl

theorem ids_insert {after : Collection Id α} (inserted : collection.insert doc = some after) :
    after.ids = collection.ids ++ [doc.id] := by
  rw [ids, (insert_eq_some_iff.mp inserted).2, List.map_append]
  rfl

/-- Documents are listed in the order of their creation. -/
def CreatedBefore (collection : Collection Id α) (first second : Id) : Prop :=
  collection.ids.idxOf first < collection.ids.idxOf second

/-- A grown collection has listed the former documents first. -/
theorem createdBefore_grown {after : Collection Id α} (grown : collection.ids <+: after.ids)
    {first second : Id} (former : first ∈ collection.ids) :
    (second ∈ collection.ids → collection.CreatedBefore first second →
      after.CreatedBefore first second) ∧
    (second ∉ collection.ids → after.CreatedBefore first second) := by
  obtain ⟨added, grew⟩ := grown
  have place := List.idxOf_lt_length_of_mem former
  unfold CreatedBefore
  rw [← grew, List.idxOf_append_of_mem former]
  constructor
  · intro also earlier
    rw [List.idxOf_append_of_mem also]
    exact earlier
  · intro new
    rw [List.idxOf_append_of_notMem new]
    omega

/-- A relation to earlier documents has no cycle. -/
theorem acyclic_of_createdBefore {Related : Id → Id → Prop}
    (earlier : ∀ first second, Related first second → collection.CreatedBefore second first) :
    ∀ id, ¬ Relation.TransGen Related id id := by
  have descends : ∀ first second, Relation.TransGen Related first second →
      collection.CreatedBefore second first := by
    intro first second path
    induction path with
    | single related => exact earlier _ _ related
    | tail _ related ih => exact Nat.lt_trans (earlier _ _ related) ih
  exact fun id cycle => Nat.lt_irrefl _ (descends id id cycle)

end Collection
end IcoDashboard.Data
