/-
**Finite maps with an iteration order.**

A hash table is read by lookups and by loops: `Table κ ν` is a partial function and the set of its
keys. A loop is over `t.visit keys` for a `Traversal t`, which may rearrange its argument in any
way.
-/

import Blackadder.ListSet

universe u v

structure Table (κ : Type u) (ν : Type v) where
  keys : ListSet κ
  get : κ → Option ν
  mem_keys : ∀ k, k ∈ keys ↔ (get k).isSome = true

namespace Table

open ListSet
open Option
open List

variable {κ : Type u} {ν : Type v} {t : Table κ ν} {k k' : κ} {v : ν}

instance : EmptyCollection (Table κ ν) := ⟨⟨∅, fun _ => none, by simp⟩⟩

instance : Membership κ (Table κ ν) := ⟨fun t k => k ∈ t.keys⟩

def size (t : Table κ ν) : ℕ := t.keys.size

@[simp] theorem mem_keys_iff : k ∈ t.keys ↔ k ∈ t := Iff.rfl

theorem mem_iff : k ∈ t ↔ ∃ v, t.get k = some v := by
  rw [← mem_keys_iff, t.mem_keys, isSome_iff_exists]

theorem mem_of_get (h : t.get k = some v) : k ∈ t := mem_iff.2 ⟨v, h⟩

theorem get_eq_none_iff : t.get k = none ↔ k ∉ t := by
  rw [mem_iff, eq_none_iff_forall_ne_some, not_exists]

@[simp] theorem get_empty (k : κ) : (∅ : Table κ ν).get k = none := rfl

@[simp] theorem not_mem_empty (k : κ) : k ∉ (∅ : Table κ ν) := ListSet.not_mem_empty k

theorem size_eq_zero_iff : t.size = 0 ↔ ∀ k, k ∉ t := ListSet.size_eq_zero_iff

instance [DecidableEq κ] (k : κ) (t : Table κ ν) : Decidable (k ∈ t) :=
  inferInstanceAs (Decidable (k ∈ t.keys))

def mapValues (t : Table κ ν) (f : κ → ν → ν) : Table κ ν where
  keys := t.keys
  get := fun k => (t.get k).map (f k)
  mem_keys := fun k => by rw [isSome_map, t.mem_keys]

@[simp] theorem get_mapValues (f : κ → ν → ν) (k : κ) :
    (t.mapValues f).get k = (t.get k).map (f k) := rfl

section
variable [DecidableEq κ]

section
variable (t : Table κ ν) (k : κ)

def set (v : ν) : Table κ ν where
  keys := t.keys.insert k
  get := fun k' => if k' = k then some v else t.get k'
  mem_keys := fun k' => by
    rw [mem_insert, t.mem_keys]
    split <;> simp_all

def findInsert (v : ν) : Table κ ν := if k ∈ t then t else t.set k v

protected def erase : Table κ ν where
  keys := t.keys.erase k
  get := fun k' => if k' = k then none else t.get k'
  mem_keys := fun k' => by
    rw [ListSet.mem_erase, t.mem_keys]
    split <;> simp_all

def modify (f : ν → ν) : Table κ ν :=
  t.mapValues fun k' v => if k' = k then f v else v

end

@[simp] theorem get_set (k k' : κ) (v : ν) :
    (t.set k v).get k' = if k' = k then some v else t.get k' := rfl

@[simp] theorem mem_set : k' ∈ t.set k v ↔ k' = k ∨ k' ∈ t := mem_insert

theorem set_set (k : κ) (v v' : ν) : (t.set k v).set k v' = t.set k v' := by
  have hkeys : (t.keys.insert k).insert k = t.keys.insert k :=
    insert_eq_self (mem_insert.2 (.inl rfl))
  rw [mk.injEq]
  refine ⟨hkeys, ?_⟩
  funext k'
  by_cases hk : k' = k
  · simp [hk]
  · simp [hk]

@[simp] theorem get_erase (k k' : κ) : (t.erase k).get k' = if k' = k then none else t.get k' := rfl

@[simp] theorem mem_erase : k' ∈ t.erase k ↔ k' ≠ k ∧ k' ∈ t := ListSet.mem_erase

theorem get_findInsert (k k' : κ) (v : ν) :
    (t.findInsert k v).get k' = if k' = k ∧ k ∉ t then some v else t.get k' := by
  by_cases hk : k ∈ t
  · simp [findInsert, hk]
  · simp [findInsert, hk]

@[simp] theorem mem_findInsert : k' ∈ t.findInsert k v ↔ k' = k ∨ k' ∈ t := by
  rw [findInsert]
  split
  case isTrue hk =>
    constructor
    · exact .inr
    · intro h
      obtain rfl | h := h
      · exact hk
      · exact h
  · exact mem_set

theorem get_modify (k k' : κ) (f : ν → ν) :
    (t.modify k f).get k' = if k' = k then (t.get k').map f else t.get k' := by
  rw [modify]
  by_cases hk : k' = k
  · simp [hk]
  · simp [hk]

theorem get_foldl_set (l : List κ) (k : κ) (v : ν) :
    (l.foldl (fun t k => t.set k v) t).get k = if k ∈ l then some v else t.get k := by
  induction l generalizing t with
  | nil => simp
  | cons a l ih =>
    rw [foldl_cons, ih]
    by_cases hl : k ∈ l
    · simp [hl]
    · simp [hl]

theorem mem_foldl_findInsert (l : List κ) (k : κ) (v : ν) :
    k ∈ l.foldl (fun t k => t.findInsert k v) t ↔ k ∈ l ∨ k ∈ t := by
  induction l generalizing t with
  | nil => simp
  | cons a l ih =>
    rw [foldl_cons, ih, mem_findInsert, mem_cons]
    tauto

theorem get_foldl_findInsert (l : List κ) (k : κ) (v : ν) :
    (l.foldl (fun t k => t.findInsert k v) t).get k =
      if k ∈ l ∧ k ∉ t then some v else t.get k := by
  induction l generalizing t with
  | nil => simp
  | cons a l ih =>
    rw [foldl_cons, ih, get_findInsert]
    by_cases hk : k = a
    · subst hk
      simp
    · simp [hk]

end

end Table

structure Traversal (α : Type u) where
  visit : List α → List α
  perm : ∀ l, (visit l).Perm l

namespace Traversal

variable {α : Type u} (tr : Traversal α) {l : List α} {a : α}

def inListOrder : Traversal α := ⟨id, fun _ => List.Perm.refl _⟩

@[simp] theorem mem_visit : a ∈ tr.visit l ↔ a ∈ l := (tr.perm l).mem_iff

theorem nodup_visit (hl : l.Nodup) : (tr.visit l).Nodup := (tr.perm l).nodup_iff.2 hl

def first (l : List α) : Option α := (tr.visit l).head?

theorem first_mem (h : tr.first l = some a) : a ∈ l := tr.mem_visit.1 (List.mem_of_head? h)

theorem first_eq_none_iff : tr.first l = none ↔ l = [] := by
  rw [first, List.head?_eq_none_iff, List.eq_nil_iff_forall_not_mem, List.eq_nil_iff_forall_not_mem]
  simp [mem_visit]

end Traversal
