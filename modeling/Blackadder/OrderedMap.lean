/-
**Ordered maps.**

A map of the standard library of C++, as the list of its entries with strictly increasing keys. A
map is determined by its lookups: what is proved about `get` carries over to the loops. All
operations are instances of `OrderedMap.alter`.
-/

import Mathlib.Order.Lattice

universe u v

structure OrderedMap (κ : Type u) [LinearOrder κ] (ν : Type v) where
  entries : List (κ × ν)
  sorted : entries.Pairwise fun a b => a.1 < b.1

namespace OrderedMap

open Option
open List

variable {κ : Type u} [LinearOrder κ] {ν : Type v} {m m' : OrderedMap κ ν} {k k' : κ} {v : ν}

instance : EmptyCollection (OrderedMap κ ν) := ⟨⟨[], List.Pairwise.nil⟩⟩

instance [DecidableEq ν] : DecidableEq (OrderedMap κ ν) := fun a b =>
  decidable_of_iff (a.entries = b.entries) (by cases a; cases b; simp)

/-! ### Lookups -/

def lookup (k : κ) : List (κ × ν) → Option ν
  | [] => none
  | e :: l => if e.1 = k then some e.2 else lookup k l

def get (m : OrderedMap κ ν) (k : κ) : Option ν := lookup k m.entries

@[simp] theorem entries_empty : (∅ : OrderedMap κ ν).entries = [] := rfl

@[simp] theorem get_empty (k : κ) : (∅ : OrderedMap κ ν).get k = none := rfl

variable {l : List (κ × ν)} {f : Option ν → Option ν}

theorem mem_of_lookup (h : lookup k l = some v) : (k, v) ∈ l := by
  induction l with
  | nil => simp [lookup] at h
  | cons e l ih =>
    rw [lookup] at h
    split at h
    case isTrue he =>
      obtain rfl := some.inj h
      simp [← he]
    · exact mem_cons_of_mem _ (ih h)

theorem lookup_of_mem (hl : l.Pairwise fun a b => a.1 < b.1) (h : (k, v) ∈ l) :
    lookup k l = some v := by
  induction l with
  | nil => simp at h
  | cons e l ih =>
    rw [pairwise_cons] at hl
    rw [lookup]
    obtain rfl | h := mem_cons.1 h
    · simp
    · rw [if_neg (hl.1 _ h).ne, ih hl.2 h]

theorem mem_entries_iff : (k, v) ∈ m.entries ↔ m.get k = some v :=
  ⟨lookup_of_mem m.sorted, mem_of_lookup⟩

theorem get_eq_none_iff : m.get k = none ↔ ∀ e ∈ m.entries, e.1 ≠ k := by
  rw [eq_none_iff_forall_ne_some]
  constructor
  · intro h e he hk
    exact h e.2 (mem_entries_iff.1 (hk ▸ he))
  · intro h v hv
    exact h _ (mem_entries_iff.2 hv) rfl

theorem mem_keys_iff : k ∈ m.entries.map Prod.fst ↔ m.get k ≠ none := by
  rw [Ne, get_eq_none_iff, List.mem_map]
  push Not
  rfl

theorem nodup_entries (m : OrderedMap κ ν) : m.entries.Nodup := by
  refine m.sorted.imp ?_
  intro a b h hab
  exact h.ne (congrArg Prod.fst hab)

theorem le_of_find_reverse {q : κ × ν → Bool} {e e' : κ × ν}
    (h : m.entries.reverse.find? q = some e) (he' : e' ∈ m.entries) (hq : q e' = true) :
    e'.1 ≤ e.1 := by
  obtain ⟨-, before, after, hsplit, hbef⟩ := find?_eq_some_iff_append.1 h
  have hsor := pairwise_reverse.2 m.sorted
  rw [hsplit, pairwise_append, pairwise_cons] at hsor
  rw [← mem_reverse, hsplit, mem_append, mem_cons] at he'
  obtain he' | rfl | he' := he'
  · have hnot := hbef e' he'
    rw [hq] at hnot
    cases hnot
  · exact le_rfl
  · exact (hsor.2.1.1 e' he').le

theorem entries_eq_of_get (hl : l.Pairwise fun a b => a.1 < b.1)
    (h : ∀ k v, m.get k = some v ↔ (k, v) ∈ l) : m.entries = l := by
  have hnodup : l.Nodup := by
    refine hl.imp ?_
    intro a b hlt hab
    exact hlt.ne (congrArg Prod.fst hab)
  have hperm : m.entries.Perm l := by
    refine (perm_ext_iff_of_nodup m.nodup_entries hnodup).2 ?_
    intro e
    rw [← h e.1 e.2, ← mem_entries_iff]
  refine hperm.eq_of_pairwise ?_ m.sorted hl
  intro a b _ _ hab hba
  exact absurd hab hba.not_gt

theorem ext_get (h : ∀ k, m.get k = m'.get k) : m = m' := by
  have hent : m.entries = m'.entries := by
    refine entries_eq_of_get m'.sorted ?_
    intro k v
    rw [h, mem_entries_iff]
  cases m
  cases m'
  simpa using hent

theorem eq_empty_iff : m = ∅ ↔ ∀ k, m.get k = none := by
  constructor
  · intro h k
    rw [h, get_empty]
  · intro h
    refine ext_get ?_
    intro k
    rw [h, get_empty]

theorem ne_empty_iff : m ≠ ∅ ↔ ∃ k v, m.get k = some v := by
  rw [Ne, eq_empty_iff]
  simp [ne_none_iff_exists']

theorem ne_empty_of_get (h : m.get k = some v) : m ≠ ∅ := ne_empty_iff.2 ⟨k, v, h⟩

theorem entries_eq_nil_iff : m.entries = [] ↔ m = ∅ := by
  constructor
  · intro h
    refine ext_get ?_
    intro k
    rw [get, h, get_empty, lookup]
  · intro h
    rw [h, entries_empty]

/-! ### The general operation -/

def alterEntries (k : κ) (f : Option ν → Option ν) : List (κ × ν) → List (κ × ν)
  | [] => ((f none).map (k, ·)).toList
  | e :: l =>
    if k < e.1 then ((f none).map (k, ·)).toList ++ e :: l
    else if k = e.1 then ((f (some e.2)).map (k, ·)).toList ++ l
    else e :: alterEntries k f l

theorem key_mem_alterEntries {e : κ × ν} (h : e ∈ alterEntries k f l) : e.1 = k ∨ e ∈ l := by
  have hnew {o : Option ν} (ho : e ∈ (o.map (k, ·)).toList) : e.1 = k := by
    obtain ⟨v, -, rfl⟩ := map_eq_some_iff.1 (mem_toList.1 ho)
    rfl
  induction l with
  | nil => exact .inl (hnew h)
  | cons a l ih =>
    rw [alterEntries] at h
    split_ifs at h
    · exact (mem_append.1 h).imp_left hnew
    · exact (mem_append.1 h).imp hnew (mem_cons_of_mem _)
    · obtain rfl | h := mem_cons.1 h
      · exact .inr mem_cons_self
      · exact (ih h).imp_right (mem_cons_of_mem _)

theorem sorted_toList_append {o : Option ν} (hl : l.Pairwise fun a b => a.1 < b.1)
    (hk : ∀ e ∈ l, k < e.1) : ((o.map (k, ·)).toList ++ l).Pairwise fun a b => a.1 < b.1 := by
  cases o with
  | none => simpa using hl
  | some v => simpa using ⟨fun a b h => hk _ h, hl⟩

theorem sorted_alterEntries (hl : l.Pairwise fun a b => a.1 < b.1) :
    (alterEntries k f l).Pairwise fun a b => a.1 < b.1 := by
  induction l with
  | nil => cases h : f none <;> simp [alterEntries]
  | cons e l ih =>
    have hcons := pairwise_cons.1 hl
    rw [alterEntries]
    split_ifs with hlt heq
    · refine sorted_toList_append hl ?_
      intro a ha
      obtain rfl | ha := mem_cons.1 ha
      · exact hlt
      · exact hlt.trans (hcons.1 a ha)
    · exact sorted_toList_append hcons.2 fun a ha => heq ▸ hcons.1 a ha
    · refine pairwise_cons.2 ⟨?_, ih hcons.2⟩
      intro a ha
      obtain hk | ha := key_mem_alterEntries ha
      · rw [hk]
        exact lt_of_le_of_ne (not_lt.1 hlt) (Ne.symm heq)
      · exact hcons.1 a ha

def alter (m : OrderedMap κ ν) (k : κ) (f : Option ν → Option ν) : OrderedMap κ ν :=
  ⟨alterEntries k f m.entries, sorted_alterEntries m.sorted⟩

theorem lookup_toList_append {o : Option ν} : lookup k' ((o.map (k, ·)).toList ++ l) =
      if k' = k ∧ o.isSome then o else lookup k' l := by
  cases o with
  | none => simp
  | some v => simp [lookup, eq_comm]

theorem lookup_eq_none_of_lt (h : ∀ e ∈ l, k < e.1) : lookup k l = none := by
  rw [eq_none_iff_forall_ne_some]
  intro v hv
  exact (h _ (mem_of_lookup hv)).false

theorem lookup_alterEntries (hl : l.Pairwise fun a b => a.1 < b.1) :
    lookup k' (alterEntries k f l) = if k' = k then f (lookup k l) else lookup k' l := by
  induction l with
  | nil =>
    rw [alterEntries, ← append_nil (toList _), lookup_toList_append]
    by_cases hk : k' = k
    · cases ho : f none <;> simp [lookup, ho]
    · simp [hk]
  | cons e l ih =>
    have hcons := pairwise_cons.1 hl
    rw [alterEntries]
    split_ifs with hlt hk heq hk hk
    · -- the key is new and in front of all others
      have hnone : lookup k (e :: l) = none := by
        refine lookup_eq_none_of_lt ?_
        intro a ha
        obtain rfl | ha := mem_cons.1 ha
        · exact hlt
        · exact hlt.trans (hcons.1 a ha)
      rw [lookup_toList_append, hk, hnone]
      cases ho : f none <;> simp
    · simp [lookup_toList_append, hk]
    · -- the key is that of the first entry
      have hnone : lookup k l = none := lookup_eq_none_of_lt fun a ha => heq ▸ hcons.1 a ha
      rw [lookup_toList_append, hk, lookup, if_pos heq.symm]
      cases ho : f (some e.2) <;> simp [hnone]
    · rw [lookup_toList_append, if_neg (by simp [hk]), lookup, if_neg]
      exact fun h => hk (h.symm.trans heq.symm)
    · have hne : e.1 ≠ k' := fun h => heq (hk.symm.trans h.symm)
      rw [lookup, if_neg hne, ih hcons.2, if_pos hk, lookup, if_neg (Ne.symm heq)]
    · rw [lookup, lookup, ih hcons.2, if_neg hk]

section
variable (m : OrderedMap κ ν) (k : κ)

theorem get_alter (k' : κ) (f : Option ν → Option ν) :
    (m.alter k f).get k' = if k' = k then f (m.get k) else m.get k' :=
  lookup_alterEntries m.sorted

theorem get_alter_self (f : Option ν → Option ν) : (m.alter k f).get k = f (m.get k) := by
  rw [get_alter, if_pos rfl]

/-! ### The operations -/

def insert (v : ν) : OrderedMap κ ν :=
  m.alter k fun o => some (o.getD v)

def set (v : ν) : OrderedMap κ ν := m.alter k fun _ => some v

def erase : OrderedMap κ ν := m.alter k fun _ => none

theorem get_insert (k' : κ) (v : ν) :
    (m.insert k v).get k' = if k' = k then some ((m.get k).getD v) else m.get k' :=
  get_alter m k k' _

theorem get_set (k' : κ) (v : ν) : (m.set k v).get k' = if k' = k then some v else m.get k' :=
  get_alter m k k' _

theorem get_erase (k' : κ) : (m.erase k).get k' = if k' = k then none else m.get k' :=
  get_alter m k k' _

end

theorem get_of_erase_eq_empty (h : m.erase k = ∅) {k' : κ} (hk : k' ≠ k) : m.get k' = none := by
  have := eq_empty_iff.1 h k'
  rwa [get_erase, if_neg hk] at this

theorem exists_get_of_erase_ne (h : m.erase k ≠ ∅) : ∃ k' v, k' ≠ k ∧ m.get k' = some v := by
  obtain ⟨k', v, hv⟩ := ne_empty_iff.1 h
  rw [get_erase] at hv
  split at hv
  · simp at hv
  · next hk => exact ⟨k', v, hk, hv⟩

theorem set_set (m : OrderedMap κ ν) (k : κ) (v v' : ν) : (m.set k v).set k v' = m.set k v' := by
  refine ext_get ?_
  intro k'
  simp only [get_set]
  split <;> rfl

theorem erase_set (h : m.get k = none) (v : ν) : (m.set k v).erase k = m := by
  refine ext_get ?_
  intro k'
  simp only [get_set, get_erase]
  split
  · next hk => rw [hk, h]
  · rfl

/-! ### Loops over all entries -/

def mapVal (m : OrderedMap κ ν) (f : ν → ν) : OrderedMap κ ν :=
  ⟨m.entries.map fun e => (e.1, f e.2), pairwise_map.2 m.sorted⟩

theorem get_mapVal (m : OrderedMap κ ν) (f : ν → ν) (k : κ) :
    (m.mapVal f).get k = (m.get k).map f := by
  rw [get, get]
  change lookup k (m.entries.map fun e => (e.1, f e.2)) = _
  induction m.entries with
  | nil => rfl
  | cons e l ih =>
    rw [map_cons, lookup, lookup, ih]
    split <;> rfl

def restrict (m : OrderedMap κ ν) (l : List (κ × ν)) (h : l.Sublist m.entries) : OrderedMap κ ν :=
  ⟨l, m.sorted.sublist h⟩

theorem get_restrict_iff {p : κ × ν → Bool} {h : l.Sublist m.entries} :
    (∀ k, (m.restrict l h).get k = (m.get k).filter fun v => p (k, v)) ↔ l = m.entries.filter p := by
  have hfil (k : κ) : (m.restrict (m.entries.filter p) filter_sublist).get k =
      (m.get k).filter fun v => p (k, v) := by
    refine ext fun v => ?_
    rw [← mem_entries_iff, restrict, mem_filter, mem_entries_iff, filter_eq_some_iff]
  constructor
  · intro hget
    have heq : m.restrict l h = m.restrict (m.entries.filter p) filter_sublist :=
      ext_get fun k => (hget k).trans (hfil k).symm
    exact congrArg entries heq
  · rintro rfl
    exact hfil

/-! ### Maps of maps

An operation on an inner map is carried to the outer one in three ways: the inner map is made if it
is not there, it is left alone if it is not there, or it goes when nothing is left in it. All three
are the same operation by lookup. -/

def modify (m : OrderedMap κ ν) (k : κ) (f : ν → ν) : OrderedMap κ ν := m.alter k (Option.map f)

theorem get_modify (m : OrderedMap κ ν) (k k' : κ) (f : ν → ν) :
    (m.modify k f).get k' = if k' = k then (m.get k).map f else m.get k' :=
  get_alter m k k' _

section
variable {β : Type*} {g g' : ν → Option β} {f : ν → ν} {u : Option β → Option β} {q : Prop}
  [Decidable q]

theorem bind_get_alter {a : Option β} {φ : Option ν → Option ν}
    (h : ((m.alter k φ).get k).bind g = if q then a else (m.get k).bind g) :
    ((m.alter k φ).get k').bind g = if k' = k ∧ q then a else (m.get k').bind g := by
  by_cases hk : k' = k
  · subst hk
    simpa only [true_and] using h
  · rw [get_alter, if_neg hk, if_neg (fun h => hk h.1)]

variable (h : ∀ x, g' (f x) = if q then u (g x) else g' x)
include h

theorem bind_get_modify_self (hu : u none = none) :
    ((m.modify k f).get k).bind g' = if q then u ((m.get k).bind g) else (m.get k).bind g' := by
  rw [get_modify]
  cases m.get k with
  | none => simp [hu]
  | some x => simp [h]

theorem bind_get_modify (hu : u none = none) : ((m.modify k f).get k').bind g' =
      if k' = k ∧ q then u ((m.get k).bind g) else (m.get k').bind g' :=
  bind_get_alter (bind_get_modify_self h hu)

variable [EmptyCollection ν]

section

omit h

variable (m : OrderedMap κ ν) (k : κ)

/-- Change the value at a key; a key that is not there gets the empty value first. -/
def upsert (f : ν → ν) : OrderedMap κ ν :=
  m.alter k fun o => some (f (o.getD ∅))

theorem get_upsert (k' : κ) (f : ν → ν) :
    (m.upsert k f).get k' = if k' = k then some (f ((m.get k).getD ∅)) else m.get k' :=
  get_alter m k k' _

theorem upsert_eq_set (f : ν → ν) : m.upsert k f = m.set k (f ((m.get k).getD ∅)) := by
  refine ext_get ?_
  intro k'
  rw [get_upsert, get_set]

theorem upsert_ne_empty (f : ν → ν) : m.upsert k f ≠ ∅ := ne_empty_of_get (get_alter_self m k _)

end

theorem bind_get_upsert_self (hg : g ∅ = none) (hg' : g' ∅ = none) :
    ((m.upsert k f).get k).bind g' = if q then u ((m.get k).bind g) else (m.get k).bind g' := by
  rw [get_upsert, if_pos rfl, bind_some, h]
  cases m.get k with
  | none => simp [hg, hg']
  | some x => rfl

theorem bind_get_upsert (hg : g ∅ = none) (hg' : g' ∅ = none) : ((m.upsert k f).get k').bind g' =
      if k' = k ∧ q then u ((m.get k).bind g) else (m.get k').bind g' :=
  bind_get_alter (bind_get_upsert_self h hg hg')

end

section
variable {ι : Type u} [LinearOrder ι] {n : OrderedMap ι (OrderedMap κ ν)} {i i' : ι} {β : Type v}
  {g g' : OrderedMap κ ν → Option β} {f : OrderedMap κ ν → OrderedMap κ ν}
  {u : Option β → Option β} {q : Prop} [Decidable q]

/-- Change the inner map at a key that is there, and take the key out if it is empty then. -/
def prune (n : OrderedMap ι (OrderedMap κ ν)) (i : ι) (f : OrderedMap κ ν → OrderedMap κ ν) :
    OrderedMap ι (OrderedMap κ ν) :=
  n.alter i fun o => o.bind fun x => if (f x).entries.length = 0 then none else some (f x)

theorem get_prune_eq_some {x : OrderedMap κ ν} (h : (n.prune i f).get i' = some x) :
    (i' ≠ i ∧ n.get i' = some x) ∨ x ≠ ∅ ∧ ∃ x', n.get i = some x' ∧ x = f x' := by
  rw [prune, get_alter] at h
  split at h
  case isFalse hi => exact .inl ⟨hi, h⟩
  case isTrue =>
    obtain ⟨x', hx', hx⟩ := bind_eq_some_iff.1 h
    split at hx
    · simp at hx
    case isFalse hne =>
      obtain rfl := some.inj hx
      rw [length_eq_zero_iff, entries_eq_nil_iff] at hne
      exact .inr ⟨hne, x', hx', rfl⟩

variable (h : ∀ x, g' (f x) = if q then u (g x) else g' x) (hg' : g' ∅ = none) (hu : u none = none)
include h hg' hu

theorem bind_get_prune_self :
    ((n.prune i f).get i).bind g' = if q then u ((n.get i).bind g) else (n.get i).bind g' := by
  rw [prune, get_alter_self]
  cases n.get i with
  | none => simp [hu]
  | some x =>
    rw [bind_some, bind_some, bind_some, ← h]
    split
    case isTrue hempty =>
      rw [length_eq_zero_iff, entries_eq_nil_iff] at hempty
      rw [hempty, hg', bind_none]
    · rfl

theorem bind_get_prune : ((n.prune i f).get i').bind g' =
      if i' = i ∧ q then u ((n.get i).bind g) else (n.get i').bind g' :=
  bind_get_alter (bind_get_prune_self h hg' hu)

end

theorem bind_get_prune_erase {ν : Type} (n : OrderedMap ℕ (OrderedMap ℕ (OrderedMap ℕ ν)))
    (i i' j j' k k' : ℕ) : (((n.prune i fun x => x.prune j fun y => y.erase k).get i').bind
        fun x => (x.get j').bind fun y => y.get k') =
      if i' = i ∧ j' = j ∧ k' = k then none
      else (n.get i').bind fun x => (x.get j').bind fun y => y.get k' := by
  refine bind_get_prune (g := fun _ => none) (u := fun _ => none) (fun x => ?_) rfl rfl
  refine bind_get_prune (g := fun _ => none) (u := fun _ => none) (fun y => ?_) rfl rfl
  exact get_erase _ _ _

end OrderedMap
