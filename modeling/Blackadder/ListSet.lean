/-
**Finite sets with an iteration order.**

A hash table used as a set is read by membership and by a loop: `ListSet α` is a list without
repetitions.
-/

import Mathlib.Data.List.Dedup

universe u v

/-- A finite set with an iteration order: a list without repetitions. -/
structure ListSet (α : Type u) where
  toList : List α
  nodup : toList.Nodup
deriving DecidableEq

namespace ListSet

open List

variable {α : Type u}

instance : Membership α (ListSet α) := ⟨fun s a => a ∈ s.toList⟩

instance : EmptyCollection (ListSet α) := ⟨⟨[], nodup_nil⟩⟩

instance : Inhabited (ListSet α) := ⟨∅⟩

instance [DecidableEq α] (a : α) (s : ListSet α) : Decidable (a ∈ s) :=
  inferInstanceAs (Decidable (a ∈ s.toList))

variable {a : α} {s : ListSet α}

@[simp] theorem mem_toList : a ∈ s.toList ↔ a ∈ s := Iff.rfl

@[simp] theorem not_mem_empty (a : α) : a ∉ (∅ : ListSet α) := not_mem_nil

theorem forall_of_all {P : α → Prop} [DecidablePred P]
    (h : s.toList.all (fun a => decide (P a)) = true) : ∀ a ∈ s, P a := fun a ha =>
  of_decide_eq_true (all_eq_true.1 h a ha)

def size (s : ListSet α) : ℕ := s.toList.length

def isEmpty (s : ListSet α) : Bool := s.toList.isEmpty

theorem isEmpty_iff : s.isEmpty = true ↔ ∀ a, a ∉ s := by
  rw [isEmpty, List.isEmpty_iff, eq_nil_iff_forall_not_mem]
  exact Iff.rfl

theorem isEmpty_eq_false_iff : s.isEmpty = false ↔ ∃ a, a ∈ s := by
  rw [← Bool.not_eq_true, isEmpty_iff, not_forall_not]

theorem size_eq_zero_iff : s.size = 0 ↔ ∀ a, a ∉ s := by
  rw [size, length_eq_zero_iff, eq_nil_iff_forall_not_mem]
  exact Iff.rfl

theorem eq_empty_of_forall_not_mem (h : ∀ a, a ∉ s) : s = ∅ := by
  obtain ⟨l, hl⟩ := s
  obtain rfl : l = [] := eq_nil_iff_forall_not_mem.2 h
  rfl

theorem toList_ne_nil (h : a ∈ s) : s.toList ≠ [] := ne_nil_of_mem h

theorem eq_of_size_eq_one (h : s.size = 1) {b : α} (ha : a ∈ s) (hb : b ∈ s) : a = b := by
  obtain ⟨c, hc⟩ := length_eq_one_iff.1 h
  have ha' : a ∈ s.toList := ha
  have hb' : b ∈ s.toList := hb
  rw [hc, mem_singleton] at ha' hb'
  rw [ha', hb']

theorem exists_ne_of_size_ne_one (h : s.size ≠ 1) (ha : a ∈ s) : ∃ b ∈ s, b ≠ a := by
  by_contra hne
  push Not at hne
  have hrep : s.toList = replicate s.size a := eq_replicate_iff.2 ⟨rfl, hne⟩
  have hnd := s.nodup
  rw [hrep, nodup_replicate] at hnd
  have hpos : s.size ≠ 0 := fun h0 => size_eq_zero_iff.1 h0 a ha
  omega

section
variable [DecidableEq α]

def ofList (l : List α) : ListSet α := ⟨l.dedup, l.nodup_dedup⟩

protected def insert (a : α) (s : ListSet α) : ListSet α := ⟨s.toList.insert a, s.nodup.insert⟩

protected def erase (s : ListSet α) (a : α) : ListSet α := ⟨s.toList.erase a, s.nodup.erase a⟩

protected def filter (p : α → Bool) (s : ListSet α) : ListSet α :=
  ⟨s.toList.filter p, s.nodup.filter p⟩

protected def union (s t : ListSet α) : ListSet α := ⟨s.toList ∪ t.toList, t.nodup.union s.toList⟩

def biUnion {β : Type v} (l : List β) (f : β → ListSet α) : ListSet α :=
  l.foldl (fun acc b => acc.union (f b)) ∅

variable {a : α} {s : ListSet α}

@[simp] theorem mem_insert {b : α} : b ∈ s.insert a ↔ b = a ∨ b ∈ s := mem_insert_iff

theorem insert_eq_self (h : a ∈ s) : s.insert a = s := by
  rw [mk.injEq]
  exact insert_of_mem h

@[simp] theorem mem_erase {b : α} : b ∈ s.erase a ↔ b ≠ a ∧ b ∈ s := s.nodup.mem_erase_iff

omit [DecidableEq α] in
@[simp] theorem mem_filter {p : α → Bool} {a : α} {s : ListSet α} :
    a ∈ s.filter p ↔ a ∈ s ∧ p a = true :=
  List.mem_filter

@[simp] theorem mem_union {t : ListSet α} : a ∈ s.union t ↔ a ∈ s ∨ a ∈ t := mem_union_iff

theorem mem_foldl_union {β : Type v} (f : β → ListSet α) (a : α) (l : List β) (s : ListSet α) :
    a ∈ l.foldl (fun acc b => acc.union (f b)) s ↔ a ∈ s ∨ ∃ b ∈ l, a ∈ f b := by
  induction l generalizing s with
  | nil => simp
  | cons b l ih => rw [foldl_cons, ih, mem_union, exists_mem_cons_iff, or_assoc]

@[simp] theorem mem_biUnion {β : Type v} {l : List β} {f : β → ListSet α} :
    a ∈ biUnion l f ↔ ∃ b ∈ l, a ∈ f b := by
  rw [biUnion, mem_foldl_union]
  simp

end

end ListSet
