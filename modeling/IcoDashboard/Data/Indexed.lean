import IcoDashboard.Data.Collection
import Mathlib.Algebra.BigOperators.Group.List.Basic

namespace IcoDashboard.Data

/-! # Collections with a unique index

No two documents have the same key.  An insert under a key that is taken is
refused, and so is a save that would take one.  The collection numbers its
documents.
-/

structure Indexed {α Key : Type} (key : α → Key) where
  collection : Collection Nat α
  unique : (collection.docs.map fun doc => key doc.val).Nodup

namespace Indexed

variable {α Key : Type} {key : α → Key} [DecidableEq Key]

def empty : Indexed key := ⟨.empty, List.nodup_nil⟩

def find (indexed : Indexed key) (wanted : Key) : Option (Doc Nat α) :=
  indexed.collection.findOne fun val => key val = wanted

/-- The stored value that has the key. -/
def record (indexed : Indexed key) (wanted : Key) : Option α :=
  (indexed.find wanted).map Doc.val

def nextId (indexed : Indexed key) : Nat :=
  (indexed.collection.docs.map Doc.id).foldr max 0 + 1

/-- The collection, when its keys are unique. -/
def index (collection : Collection Nat α) : Option (Indexed key) :=
  if unique : (collection.docs.map fun doc => key doc.val).Nodup then some ⟨collection, unique⟩
  else none

def insert (indexed : Indexed key) (val : α) : Option (Indexed key) :=
  (indexed.collection.insert ⟨indexed.nextId, val⟩).bind index

def save (indexed : Indexed key) (write : α → α → α) (doc : Doc Nat α) : Option (Indexed key) :=
  index (indexed.collection.save write doc)

variable {indexed : Indexed key} {wanted : Key} {val : α} {doc : Doc Nat α}

theorem find_eq_some_iff :
    indexed.find wanted = some doc ↔ doc ∈ indexed.collection.docs ∧ key doc.val = wanted := by
  constructor
  · intro found
    exact ⟨List.mem_of_find?_eq_some found, by simpa using Collection.matching_of_findOne found⟩
  · intro stored
    obtain ⟨member, rfl⟩ := stored
    cases found : indexed.find (key doc.val) with
    | none => simpa using List.find?_eq_none.mp found doc member
    | some other =>
        have sameKey : key other.val = key doc.val := by
          simpa using Collection.matching_of_findOne found
        rw [List.inj_on_of_nodup_map indexed.unique (List.mem_of_find?_eq_some found) member sameKey]

theorem record_eq_some_iff :
    indexed.record wanted = some val ↔
      ∃ id, indexed.collection.lookup id = some val ∧ key val = wanted := by
  simp only [record, Option.map_eq_some_iff, find_eq_some_iff, Collection.lookup_eq_some_iff]
  constructor
  · intro found
    obtain ⟨doc, stored, rfl⟩ := found
    exact ⟨doc.id, stored⟩
  · intro stored
    obtain ⟨id, member, sameKey⟩ := stored
    exact ⟨⟨id, val⟩, ⟨member, sameKey⟩, rfl⟩

omit [DecidableEq Key] in
theorem id_unique {first second : Nat} {left right : α}
    (storedLeft : indexed.collection.lookup first = some left)
    (storedRight : indexed.collection.lookup second = some right) (sameKey : key left = key right) :
    first = second := by
  have same := List.inj_on_of_nodup_map indexed.unique (Collection.lookup_eq_some_iff.mp storedLeft)
    (Collection.lookup_eq_some_iff.mp storedRight) sameKey
  exact congrArg Doc.id same

theorem record_eq_none_iff :
    indexed.record wanted = none ↔ ∀ doc ∈ indexed.collection.docs, key doc.val ≠ wanted := by
  simp [record, find, Collection.findOne]

theorem find_none_iff : indexed.find wanted = none ↔ indexed.record wanted = none := by
  simp [record]

theorem key_of_record (stored : indexed.record wanted = some val) : key val = wanted := by
  obtain ⟨_, _, sameKey⟩ := record_eq_some_iff.mp stored
  exact sameKey

theorem lookup_of_find (found : indexed.find wanted = some doc) :
    indexed.collection.lookup doc.id = some doc.val :=
  Collection.lookup_of_findOne found

omit [DecidableEq Key] in
theorem lt_nextId (member : doc ∈ indexed.collection.docs) : doc.id < indexed.nextId := by
  have bounded : ∀ (ids : List Nat) (id : Nat), id ∈ ids → id ≤ ids.foldr max 0 := by
    intro ids id belongs
    induction ids with
    | nil => cases belongs
    | cons first rest ih =>
        simp only [List.foldr_cons]
        rcases List.mem_cons.mp belongs with rfl | later
        · omega
        · have := ih later
          omega
  have := bounded _ doc.id (List.mem_map_of_mem member)
  unfold nextId
  omega

theorem index_eq_some {collection : Collection Nat α}
    (unique : (collection.docs.map fun doc => key doc.val).Nodup) :
    index collection = some (⟨collection, unique⟩ : Indexed key) := by
  simp [index, unique]

/-- A value with a free key is inserted. -/
theorem insert_free (free : indexed.record (key val) = none) :
    ∃ after : Indexed key, indexed.insert val = some after ∧
      ∀ wanted, after.record wanted = if wanted = key val then some val
        else indexed.record wanted := by
  have unused : indexed.collection.lookup indexed.nextId = none := by
    cases stored : indexed.collection.lookup indexed.nextId with
    | none => rfl
    | some other =>
        have below := lt_nextId (Collection.lookup_eq_some_iff.mp stored)
        simp at below
  have fresh : indexed.nextId ∉ indexed.collection.docs.map Doc.id := by
    intro belongs
    obtain ⟨doc, member, same⟩ := List.mem_map.mp belongs
    have below := lt_nextId member
    omega
  obtain ⟨collection, inserted⟩ : ∃ collection,
      indexed.collection.insert ⟨indexed.nextId, val⟩ = some collection := by
    simp [Collection.insert, fresh]
  have docs := (Collection.insert_eq_some_iff.mp inserted).2
  have unique : (collection.docs.map fun doc => key doc.val).Nodup := by
    rw [docs, List.map_append, List.nodup_append]
    refine ⟨indexed.unique, List.nodup_singleton _, ?_⟩
    intro first belongs second last same
    obtain ⟨doc, member, rfl⟩ := List.mem_map.mp belongs
    rw [List.map_singleton, List.mem_singleton] at last
    exact record_eq_none_iff.mp free doc member (same.trans last)
  refine ⟨⟨collection, unique⟩, by simp [insert, inserted, index_eq_some unique], ?_⟩
  intro wanted
  have foundIn : (⟨collection, unique⟩ : Indexed key).record wanted =
      (indexed.record wanted).or (if key val = wanted then some val else none) := by
    simp only [record, find, Collection.findOne, docs, List.find?_append, Option.map_or]
    by_cases own : key val = wanted <;> simp [own]
  rw [foundIn]
  by_cases own : wanted = key val
  · rw [own, free]
    simp
  · simp [own, Ne.symm own]

theorem insert_taken (taken : indexed.record (key val) ≠ none) : indexed.insert val = none := by
  cases inserted : indexed.collection.insert ⟨indexed.nextId, val⟩ with
  | none => simp [insert, inserted]
  | some collection =>
      obtain ⟨other, stored⟩ := Option.ne_none_iff_exists'.mp taken
      obtain ⟨id, present, sameKey⟩ := record_eq_some_iff.mp stored
      have member := Collection.lookup_eq_some_iff.mp present
      have docs := (Collection.insert_eq_some_iff.mp inserted).2
      have clash : ¬ (collection.docs.map fun doc => key doc.val).Nodup := by
        rw [docs, List.map_append, List.nodup_append]
        intro distinct
        exact distinct.2.2 (key other) (List.mem_map_of_mem member) (key val) (by simp) sameKey
      simp [insert, inserted, index, clash]

/-- Only a value with a free key is inserted. -/
theorem record_insert {after : Indexed key} (inserted : indexed.insert val = some after) :
    indexed.record (key val) = none ∧
      ∀ wanted, after.record wanted = if wanted = key val then some val
        else indexed.record wanted := by
  cases free : indexed.record (key val) with
  | some other =>
      rw [insert_taken (by simp [free])] at inserted
      cases inserted
  | none =>
      obtain ⟨after', inserted', records⟩ := insert_free free
      rw [inserted] at inserted'
      cases inserted'
      exact ⟨rfl, records⟩

theorem record_of_insert {after : Indexed key} (inserted : indexed.insert val = some after)
    {found : α} (stored : after.record wanted = some found) :
    indexed.record wanted = some found ∨ (found = val ∧ wanted = key val) := by
  rw [(record_insert inserted).2] at stored
  split at stored
  · rename_i own
    exact .inr ⟨(Option.some.inj stored).symm, own⟩
  · exact .inl stored

/-- The documents that were there stay. -/
theorem lookup_insert {after : Indexed key} (inserted : indexed.insert val = some after) {id : Nat}
    {stored : α} (present : indexed.collection.lookup id = some stored) :
    after.collection.lookup id = some stored := by
  obtain ⟨collection, added, indexes⟩ := Option.bind_eq_some_iff.mp inserted
  unfold index at indexes
  split at indexes
  · cases indexes
    have fresh := (Collection.insert_eq_some_iff.mp added).1
    rw [Collection.lookup_insert added]
    split
    · rename_i same
      rw [same, fresh] at present
      cases present
    · exact present
  · cases indexes

/-- A document is there after an insertion because it was before, or it is new. -/
theorem lookup_of_insert {after : Indexed key} (inserted : indexed.insert val = some after) {id : Nat}
    {found : α} (present : after.collection.lookup id = some found) :
    indexed.collection.lookup id = some found ∨ found = val := by
  obtain ⟨collection, added, indexes⟩ := Option.bind_eq_some_iff.mp inserted
  unfold index at indexes
  split at indexes
  · cases indexes
    rw [Collection.lookup_insert added] at present
    split at present
    · exact .inr (Option.some.inj present).symm
    · exact .inl present
  · cases indexes

/-- Whatever is saved, the other records stay. -/
theorem record_of_save {write : α → α → α} {after : Indexed key}
    (saved : indexed.save write doc = some after) {found : α}
    (stored : after.record wanted = some found) :
    indexed.record wanted = some found ∨ ∃ before, found = write before doc.val := by
  unfold save index at saved
  split at saved
  · cases saved
    obtain ⟨id, present, sameKey⟩ := record_eq_some_iff.mp stored
    rw [Collection.lookup_save] at present
    split at present
    · obtain ⟨before, _, same⟩ := Option.map_eq_some_iff.mp present
      exact .inr ⟨before, same.symm⟩
    · exact .inl (record_eq_some_iff.mpr ⟨id, present, sameKey⟩)
  · cases saved

theorem lookup_save {write : α → α → α} {after : Indexed key}
    (saved : indexed.save write doc = some after) (id : Nat) :
    after.collection.lookup id =
      if id = doc.id then (indexed.collection.lookup id).map (write · doc.val)
      else indexed.collection.lookup id := by
  unfold save index at saved
  split at saved
  · cases saved
    exact Collection.lookup_save write
  · cases saved

/-- A save that keeps the key of the stored value is made. -/
theorem save_keeping {write : α → α → α} {stored : α}
    (present : indexed.collection.lookup doc.id = some stored)
    (sameKey : key (write stored doc.val) = key stored) :
    ∃ after : Indexed key, indexed.save write doc = some after ∧
      ∀ wanted, after.record wanted = if wanted = key stored then some (write stored doc.val)
        else indexed.record wanted := by
  have member := Collection.lookup_eq_some_iff.mp present
  have keys : ((indexed.collection.save write doc).docs.map fun doc => key doc.val) =
      indexed.collection.docs.map fun doc => key doc.val := by
    simp only [Collection.save, List.map_map]
    refine List.map_congr_left fun other belongs => ?_
    simp only [Function.comp_apply]
    split
    · rename_i sameId
      rw [List.inj_on_of_nodup_map indexed.collection.distinct belongs member sameId]
      exact sameKey
    · rfl
  have unique : ((indexed.collection.save write doc).docs.map fun doc => key doc.val).Nodup := by
    rw [keys]
    exact indexed.unique
  refine ⟨⟨_, unique⟩, index_eq_some unique, ?_⟩
  intro wanted
  refine Option.ext fun found => ?_
  rw [record_eq_some_iff]
  simp only [Collection.lookup_save]
  by_cases own : wanted = key stored
  · subst own
    rw [if_pos rfl, Option.some_inj]
    constructor
    · intro written
      obtain ⟨id, here, foundKey⟩ := written
      split at here
      · rename_i sameId
        rw [sameId, present] at here
        exact Option.some.inj here
      · rename_i otherId
        exact absurd (id_unique here present foundKey) otherId
    · intro written
      subst written
      exact ⟨doc.id, by simp [present], sameKey⟩
  · rw [if_neg own, record_eq_some_iff]
    constructor
    · intro written
      obtain ⟨id, here, foundKey⟩ := written
      split at here
      · rename_i sameId
        rw [sameId, present] at here
        obtain rfl := Option.some.inj here
        exact absurd (foundKey.symm.trans sameKey) own
      · exact ⟨id, here, foundKey⟩
    · intro before
      obtain ⟨id, here, foundKey⟩ := before
      have otherId : id ≠ doc.id := by
        intro sameId
        rw [sameId, present] at here
        obtain rfl := Option.some.inj here
        exact own foundKey.symm
      exact ⟨id, by rw [if_neg otherId]; exact here, foundKey⟩

/-! ### Writes that change no record -/

theorem insert_changes {after : Indexed key} (inserted : indexed.insert val = some after) :
    after.record ≠ indexed.record := by
  obtain ⟨free, records⟩ := record_insert inserted
  intro same
  have stored := records (key val)
  rw [if_pos rfl, same, free] at stored
  cases stored

/-- A save that leaves every record leaves every document. -/
theorem save_unchanged {write : α → α → α} {after : Indexed key}
    (saved : indexed.save write doc = some after) (same : after.record = indexed.record) :
    after = indexed := by
  unfold save index at saved
  split at saved
  · rename_i unique
    cases saved
    have docs : (indexed.collection.save write doc).docs = indexed.collection.docs := by
      change indexed.collection.docs.map _ = _
      refine (List.map_congr_left fun stored member => ?_).trans (List.map_id' _)
      split
      · rename_i own
        let written := write stored.val doc.val
        have present : indexed.collection.lookup doc.id = some stored.val :=
          Collection.lookup_eq_some_iff.mpr (own ▸ member)
        have presentAfter : (indexed.collection.save write doc).lookup doc.id = some written := by
          rw [Collection.lookup_save, if_pos rfl, present]
          rfl
        have recorded : (⟨_, unique⟩ : Indexed key).record (key written) = some written :=
          record_eq_some_iff.mpr ⟨doc.id, presentAfter, rfl⟩
        rw [same] at recorded
        obtain ⟨id, before, _⟩ := record_eq_some_iff.mp recorded
        have sameId : id = doc.id := by
          by_contra other
          have kept : (indexed.collection.save write doc).lookup id = some written := by
            rw [Collection.lookup_save, if_neg other]
            exact before
          exact other (@id_unique _ _ key ⟨_, unique⟩ _ _ _ _ kept presentAfter rfl)
        rw [sameId, present] at before
        have unwritten : written = stored.val := (Option.some.inj before).symm
        rw [show write stored.val doc.val = stored.val from unwritten]
      · rfl
    have collection := Collection.eq_of_docs docs
    cases indexed
    simpa using collection
  · cases saved

/-! ### Sums over the stored values -/

def vals (indexed : Indexed key) : List α := indexed.collection.docs.map Doc.val

omit [DecidableEq Key] in
theorem vals_distinct (indexed : Indexed key) : (indexed.vals.map key).Nodup := by
  rw [vals, List.map_map]
  exact indexed.unique

theorem record_eq_some_iff_vals : indexed.record wanted = some val ↔ val ∈ indexed.vals ∧
    key val = wanted := by
  rw [record_eq_some_iff]
  simp only [vals, List.mem_map, Collection.lookup_eq_some_iff]
  constructor
  · intro stored
    obtain ⟨id, member, same⟩ := stored
    exact ⟨⟨_, member, rfl⟩, same⟩
  · intro stored
    obtain ⟨⟨doc, member, rfl⟩, same⟩ := stored
    exact ⟨doc.id, member, same⟩

/-- The values under some keys sum up key by key. -/
theorem sum_under {M : Type} [AddCommMonoid M] {keys : List Key} (distinct : keys.Nodup)
    (stored : ∀ wanted ∈ keys, (indexed.record wanted).isSome = true) (amount : α → M) :
    ((indexed.vals.filter fun val => key val ∈ keys).map amount).sum =
      (keys.map fun wanted => ((indexed.record wanted).map amount).getD 0).sum := by
  have byKey : (indexed.vals.filter fun val => key val ∈ keys).map amount =
      ((indexed.vals.filter fun val => key val ∈ keys).map key).map fun wanted =>
        ((indexed.record wanted).map amount).getD 0 := by
    rw [List.map_map]
    refine List.map_congr_left fun val member => ?_
    have found : indexed.record (key val) = some val :=
      record_eq_some_iff_vals.mpr ⟨List.mem_of_mem_filter member, rfl⟩
    simp [found]
  have sameKeys : ((indexed.vals.filter fun val => key val ∈ keys).map key).Perm keys := by
    refine (List.perm_ext_iff_of_nodup ?_ distinct).mpr fun wanted => ?_
    · exact indexed.vals_distinct.sublist ((List.filter_sublist).map key)
    · simp only [List.mem_map, List.mem_filter, decide_eq_true_eq]
      constructor
      · intro shown
        obtain ⟨val, ⟨_, member⟩, rfl⟩ := shown
        exact member
      · intro member
        obtain ⟨val, found⟩ := Option.isSome_iff_exists.mp (stored wanted member)
        obtain ⟨inStore, same⟩ := record_eq_some_iff_vals.mp found
        exact ⟨val, ⟨inStore, same ▸ member⟩, same⟩
  rw [byKey]
  exact (sameKeys.map _).sum_eq

end Indexed
end IcoDashboard.Data
