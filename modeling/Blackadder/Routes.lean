/-
**Routes in a directed graph.**

A graph is the list of its labelled arcs; a walk is a list of arcs. A shortest walk visits no
vertex twice; a search through all walks of at most that length finds it, and decides reachability.
-/

import Mathlib.Data.List.Nodup
import Mathlib.Data.List.Perm.Subperm
import Mathlib.Data.Nat.Find

universe u v

namespace Routes

open List

structure Arc (V : Type u) (L : Type v) where
  src : V
  dst : V
  label : L
deriving DecidableEq

variable {V : Type u} {L : Type v} {E E' : List (Arc V L)} {s t w : V} {l l' : List (Arc V L)}
  {a : Arc V L}

/-! ### Walks -/

inductive Walk (E : List (Arc V L)) : V → V → List (Arc V L) → Prop
  | nil (s : V) : Walk E s s []
  | cons {a : Arc V L} {t : V} {l : List (Arc V L)} (ha : a ∈ E) (rest : Walk E a.dst t l) :
    Walk E a.src t (a :: l)

def Reach (E : List (Arc V L)) (s t : V) : Prop := ∃ l, Walk E s t l

def vertices (s : V) (l : List (Arc V L)) : List V := s :: l.map Arc.dst

@[simp] theorem vertices_nil : vertices (L := L) s [] = [s] := rfl

@[simp] theorem vertices_cons : vertices s (a :: l) = s :: vertices a.dst l := rfl

theorem walk_nil_iff : Walk E s t [] ↔ s = t := by
  constructor
  · intro h
    cases h
    rfl
  · rintro rfl
    exact .nil _

theorem walk_cons_iff : Walk E s t (a :: l) ↔ a ∈ E ∧ a.src = s ∧ Walk E a.dst t l := by
  constructor
  · intro h
    cases h with
    | cons ha rest => exact ⟨ha, rfl, rest⟩
  · rintro ⟨ha, rfl, rest⟩
    exact .cons ha rest

theorem Walk.mem (h : Walk E s t l) (ha : a ∈ l) : a ∈ E := by
  induction h with
  | nil => cases ha
  | cons hb _ ih =>
    rcases mem_cons.1 ha with rfl | ha
    · exact hb
    · exact ih ha

theorem Walk.mono (h : Walk E s t l) (hl : ∀ a ∈ l, a ∈ E') : Walk E' s t l := by
  induction h with
  | nil => exact .nil _
  | cons _ _ ih =>
    exact .cons (hl _ mem_cons_self) (ih fun b hb => hl b (mem_cons_of_mem _ hb))

theorem Walk.append (h : Walk E s t l) (h' : Walk E t w l') : Walk E s w (l ++ l') := by
  induction h with
  | nil => exact h'
  | cons ha _ ih => exact .cons ha (ih h')

theorem walk_append_iff : Walk E s w (l ++ l') ↔ ∃ t, Walk E s t l ∧ Walk E t w l' := by
  constructor
  · intro h
    induction l generalizing s with
    | nil => exact ⟨s, .nil s, h⟩
    | cons a l ih =>
      obtain ⟨ha, rfl, rest⟩ := walk_cons_iff.1 h
      obtain ⟨t, hl, hl'⟩ := ih rest
      exact ⟨t, .cons ha hl, hl'⟩
  · rintro ⟨t, hl, hl'⟩
    exact hl.append hl'

theorem Walk.end_unique {t' : V} (h : Walk E s t l) (h' : Walk E' s t' l) : t = t' := by
  induction h with
  | nil => exact walk_nil_iff.1 h'
  | cons _ _ ih => exact ih (walk_cons_iff.1 h').2.2

theorem Walk.exists_suffix (h : Walk E s t l) (hw : w ∈ vertices s l) :
    ∃ l', Walk E w t l' ∧ l'.length ≤ l.length := by
  induction h with
  | nil s =>
    obtain rfl : w = s := by simpa using hw
    exact ⟨[], .nil _, le_rfl⟩
  | @cons a t l ha rest ih =>
    rcases mem_cons.1 hw with rfl | hw
    · exact ⟨a :: l, .cons ha rest, le_rfl⟩
    · obtain ⟨l', hl', hlen⟩ := ih hw
      exact ⟨l', hl', Nat.le_succ_of_le hlen⟩

theorem Reach.mono (h : Reach E s t) (hE : ∀ a ∈ E, a ∈ E') : Reach E' s t := by
  obtain ⟨l, hl⟩ := h
  exact ⟨l, hl.mono fun a ha => hE a (hl.mem ha)⟩

/-! ### Walks that visit no vertex twice -/

section
variable (h : Walk E s t l)
include h

theorem Walk.end_mem : t ∈ vertices s l := by
  induction h with
  | nil => exact mem_cons_self
  | cons _ _ ih => exact mem_cons_of_mem _ ih

theorem Walk.src_mem (ha : a ∈ l) : a.src ∈ vertices s l := by
  induction h with
  | nil => cases ha
  | cons _ _ ih =>
    rcases mem_cons.1 ha with rfl | ha
    · exact mem_cons_self
    · exact mem_cons_of_mem _ (ih ha)

theorem Walk.src_ne_end (hn : (vertices s l).Nodup) (ha : a ∈ l) : a.src ≠ t := by
  induction h with
  | nil => cases ha
  | cons _ rest ih =>
    rw [vertices_cons, nodup_cons] at hn
    rcases mem_cons.1 ha with rfl | ha
    · exact fun heq => hn.1 (heq ▸ rest.end_mem)
    · exact ih hn.2 ha

theorem Walk.nodup_src (hn : (vertices s l).Nodup) : (l.map Arc.src).Nodup := by
  induction h with
  | nil => exact nodup_nil
  | cons _ rest ih =>
    rw [vertices_cons, nodup_cons] at hn
    rw [map_cons, nodup_cons]
    refine ⟨fun hin => ?_, ih hn.2⟩
    obtain ⟨b, hb, hsrc⟩ := mem_map.1 hin
    exact hn.1 (hsrc ▸ rest.src_mem hb)

end

theorem Walk.nodup_consecutive {b : Arc V L} (h : Walk E s t (l ++ a :: b :: l'))
    (hn : (vertices s (l ++ a :: b :: l')).Nodup) : [a.src, a.dst, b.dst].Nodup := by
  induction l generalizing s with
  | nil =>
    rw [nil_append, ← (walk_cons_iff.1 h).2.1] at hn
    exact hn.sublist (.cons_cons _ (.cons_cons _ (.cons_cons _ (nil_sublist _))))
  | cons c l ih => exact ih (walk_cons_iff.1 h).2.2 (nodup_cons.1 hn).2

/-! ### Shortest walks -/

structure IsShortest (E : List (Arc V L)) (s t : V) (l : List (Arc V L)) : Prop where
  walk : Walk E s t l
  le : ∀ l', Walk E s t l' → l.length ≤ l'.length

theorem IsShortest.tail (h : IsShortest E s t (a :: l)) : IsShortest E a.dst t l := by
  obtain ⟨ha, rfl, rest⟩ := walk_cons_iff.1 h.walk
  refine ⟨rest, fun l' hl' => ?_⟩
  have hle := h.le _ (.cons ha hl')
  simpa using hle

section
variable (h : IsShortest E s t l)
include h

/-- **A shortest walk visits no vertex twice.** -/
theorem IsShortest.nodup : (vertices s l).Nodup := by
  induction l generalizing s with
  | nil => simp
  | cons a l ih =>
    rw [vertices_cons, nodup_cons]
    refine ⟨fun hs => ?_, ih h.tail⟩
    -- from its second visit of `s` on, the walk would be shorter
    obtain ⟨l', hl', hlen⟩ := h.tail.walk.exists_suffix hs
    have hle := h.le l' hl'
    rw [length_cons] at hle
    omega

theorem IsShortest.length_le : l.length ≤ E.length := by
  have hnodup : l.Nodup := ((nodup_cons.1 h.nodup).2).of_map _
  exact (hnodup.subperm fun a ha => h.walk.mem ha).length_le

theorem IsShortest.of_length_eq (hl' : Walk E s t l')
    (hlen : l'.length = l.length) : IsShortest E s t l' :=
  ⟨hl', fun m hm => hlen ▸ h.le m hm⟩

end

theorem exists_isShortest (h : Reach E s t) : ∃ l, IsShortest E s t l := by
  classical
  have hex : ∃ n, ∃ l, Walk E s t l ∧ l.length = n := by
    obtain ⟨l, hl⟩ := h
    exact ⟨l.length, l, hl, rfl⟩
  obtain ⟨l, hl, hlen⟩ := Nat.find_spec hex
  refine ⟨l, hl, fun l' hl' => ?_⟩
  rw [hlen]
  exact Nat.find_min' hex ⟨l', hl', rfl⟩

/-! ### Search -/

def endOf (s : V) : List (Arc V L) → V
  | [] => s
  | a :: l => endOf a.dst l

theorem Walk.endOf_eq (h : Walk E s t l) : endOf s l = t := by
  induction h with
  | nil => rfl
  | cons _ _ ih => exact ih

variable [DecidableEq V]

def walks (E : List (Arc V L)) : ℕ → V → List (List (Arc V L))
  | 0, _ => [[]]
  | n + 1, s => (E.filter fun a => a.src = s).flatMap fun a => (walks E n a.dst).map (a :: ·)

theorem mem_walks {n : ℕ} : l ∈ walks E n s ↔ l.length = n ∧ Walk E s (endOf s l) l := by
  induction n generalizing s l with
  | zero =>
    rw [walks, mem_singleton]
    constructor
    · rintro rfl
      exact ⟨rfl, .nil s⟩
    · intro h
      exact length_eq_zero_iff.1 h.1
  | succ n ih =>
    rw [walks, mem_flatMap]
    constructor
    · rintro ⟨a, ha, hl⟩
      obtain ⟨m, hm, rfl⟩ := mem_map.1 hl
      obtain ⟨hE, hs⟩ := mem_filter.1 ha
      obtain ⟨hlen, hwalk⟩ := ih.1 hm
      refine ⟨by rw [length_cons, hlen], ?_⟩
      exact walk_cons_iff.2 ⟨hE, of_decide_eq_true hs, hwalk⟩
    · rintro ⟨hlen, hwalk⟩
      obtain ⟨a, m, rfl⟩ := exists_cons_of_length_eq_add_one hlen
      obtain ⟨hE, hs, rest⟩ := walk_cons_iff.1 hwalk
      refine ⟨a, mem_filter.2 ⟨hE, decide_eq_true hs⟩, mem_map.2 ⟨m, ih.2 ⟨?_, rest⟩, rfl⟩⟩
      simpa using hlen

def search (E : List (Arc V L)) (s t : V) : Option (List (Arc V L)) :=
  (List.range (E.length + 1)).findSome? fun n => (walks E n s).find? fun l => endOf s l = t

theorem search_eq_some (h : search E s t = some l) : IsShortest E s t l := by
  obtain ⟨before, n, after, hrange, hn, hbef⟩ := findSome?_eq_some_iff.1 h
  obtain ⟨hlen, hwalk⟩ := mem_walks.1 (mem_of_find?_eq_some hn)
  have hend : endOf s l = t := by simpa using find?_some hn
  rw [hend] at hwalk
  refine ⟨hwalk, fun l' hl' => ?_⟩
  by_contra hlt
  -- a shorter walk would have been found before
  have hmem : l'.length ∈ before := by
    have hsor : (before ++ n :: after).Pairwise (· < ·) := hrange ▸ pairwise_lt_range
    have hafter := (pairwise_cons.1 (pairwise_append.1 hsor).2.1).1
    have hn : n < E.length + 1 := mem_range.1 (hrange ▸ by simp)
    have hran' : l'.length ∈ before ++ n :: after := hrange ▸ mem_range.2 (by omega)
    rcases mem_append.1 hran' with hmem | hmem
    · exact hmem
    rcases mem_cons.1 hmem with hmem | hmem
    · omega
    · have := hafter _ hmem
      omega
  have hnone := hbef _ hmem
  rw [find?_eq_none] at hnone
  refine hnone l' (mem_walks.2 ⟨rfl, ?_⟩) (decide_eq_true hl'.endOf_eq)
  rwa [hl'.endOf_eq]

theorem search_eq_none : search E s t = none ↔ ¬ Reach E s t := by
  rw [search, findSome?_eq_none_iff]
  constructor
  · intro hnone hreach
    obtain ⟨l, hl⟩ := exists_isShortest hreach
    have hlen := hnone l.length (mem_range.2 (Nat.lt_succ_of_le hl.length_le))
    rw [find?_eq_none] at hlen
    refine hlen l (mem_walks.2 ⟨rfl, ?_⟩) (decide_eq_true hl.walk.endOf_eq)
    rw [hl.walk.endOf_eq]
    exact hl.walk
  · intro hnot n _
    rw [find?_eq_none]
    intro l hl hend
    refine hnot ⟨l, ?_⟩
    rw [← of_decide_eq_true hend]
    exact (mem_walks.1 hl).2

instance : Decidable (Reach E s t) :=
  match h : search E s t with
  | some l => isTrue ⟨l, (search_eq_some h).walk⟩
  | none => isFalse (search_eq_none.1 h)

end Routes
