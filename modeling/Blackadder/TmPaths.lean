/-
**Paths and the nearest subscriber.**

`calculateFID` gives the union of the link identifiers along a shortest path and the internal one of
the destination, with the vertices and their number. `UcalculateFID` keeps the nearest subscriber:
its running minimum starts where no path is.
-/

import Blackadder.TmUpdates

namespace Blackadder.TMIgraph

open Table Except List

variable {tm : TMIgraph} {ig : Igraph} {u w : NodeID} {l : List Link}

/-! ### One path -/

structure PathLinks (tm : TMIgraph) (ig : Igraph) (u w : NodeID) (l : List Link) : Prop where
  shortest : Routes.IsShortest tm.edges u w l
  vertices : ig.shortestPath tm.edges u w = Routes.vertices u l

def pathFID (tm : TMIgraph) (w : NodeID) (l : List Link) : FID :=
  Bits.or (Bits.orAll (Bits.zeros fidLen) (l.map Routes.Arc.label)) (tm.iLID w)

theorem contains_pathFID_iff {fid : FID} : Bits.Contains fid (tm.pathFID w l) ↔
    (∀ a ∈ l, Bits.Contains fid a.label) ∧ Bits.Contains fid (tm.iLID w) := by
  simp only [Bits.contains_iff, pathFID, Bits.bit_or, Bool.or_eq_true, Bits.bit_orAll,
    Bits.bit_zeros, Bool.false_eq_true, false_or, mem_map]
  constructor
  · intro h
    exact ⟨fun a ha i hi => h i (.inl ⟨a.label, ⟨a, ha, rfl⟩, hi⟩), fun i hi => h i (.inr hi)⟩
  · rintro ⟨hlab, hself⟩ i (⟨_, ⟨a, ha, rfl⟩, hi⟩ | hi)
    · exact hlab a ha i hi
    · exact hself i hi

theorem vertex_of_mem (hu : u ∈ tm.nodes) : tm.vertex u = .ok u := if_pos hu

/-- **One path**: no walk is shorter than the hops, and unless they are the sentinel there is a path
of them, with its forwarding identifier. -/
theorem calculateFIDHops_spec (ig : Igraph) (hidx : tm.Indexed) (hu : u ∈ tm.nodes)
    (hw : w ∈ tm.nodes) :
    ∃ x, tm.calculateFIDHops ig u w (Bits.zeros fidLen) = .ok x ∧
      (∀ l, Routes.Walk tm.edges u w l → x.hops ≤ WithTop.some (l.length + 1)) ∧
      (x.hops = ⊤ ∨ ∃ l, tm.PathLinks ig u w l ∧
        x = ⟨tm.pathFID w l, WithTop.some (l.length + 1), pathString (Routes.vertices u l)⟩) := by
  rw [calculateFIDHops, vertex_of_mem hu, vertex_of_mem hw]
  simp only [ok_bind]
  obtain ⟨l, hl, hpath, hor⟩ | ⟨hnot, hpath⟩ := ig.path_cases hidx (Bits.zeros fidLen)
  · refine ⟨⟨tm.pathFID w l, WithTop.some (l.length + 1), pathString (Routes.vertices u l)⟩, ?_, ?_,
      .inr ⟨l, ⟨hl, hpath⟩, rfl⟩⟩
    · rw [hor, hpath]
      simp [Routes.vertices, pathFID]
    · intro l₁ hl₁
      exact WithTop.coe_le_coe.2 (Nat.succ_le_succ (hl.le l₁ hl₁))
  · rw [hpath]
    refine ⟨_, rfl, ?_, .inl rfl⟩
    intro l hl
    exact absurd ⟨l, hl⟩ hnot

/-! ### The nearest subscriber -/

/-- Each visited subscriber has an entry, and the nearest reachable one is remembered with its path.
-/
structure NearestSoFar (tm : TMIgraph) (ig : Igraph) (publisher : NodeID) (visited : List NodeID)
    (st : Nearest) : Prop where
  result : ∀ s, st.result.get s = if s ∈ visited then some none else none
  paths : ∀ s, st.paths.get s = if s ∈ visited then some [] else none
  best : (st.subscriber = none ∧ st.minimum = ⊤ ∧
      ∀ s ∈ visited, ¬ Routes.Reach tm.edges publisher s) ∨
    ∃ s ∈ visited, ∃ l, tm.PathLinks ig publisher s l ∧
      (∀ s' ∈ visited, ∀ l', Routes.Walk tm.edges publisher s' l' → l.length ≤ l'.length) ∧
      st.subscriber = some s ∧ st.minimum = WithTop.some (l.length + 1) ∧ st.fid = tm.pathFID s l ∧
      st.path = pathString (Routes.vertices publisher l)

variable {pub sub : NodeID} {visited : List NodeID} {st : Nearest}

theorem get_findInsert_visited {β : Type} {t : Table NodeID β} {b : β}
    (ht : ∀ s, t.get s = if s ∈ visited then some b else none) (s : NodeID) :
    (t.findInsert sub b).get s = if s ∈ visited ++ [sub] then some b else none := by
  have hmem : sub ∉ t ↔ sub ∉ visited := by
    rw [← get_eq_none_iff, ht sub]
    simp
  rw [get_findInsert, ht s]
  simp only [hmem]
  by_cases hs : s = sub
  · subst hs
    by_cases hv : s ∈ visited <;> simp [hv]
  · simp [hs]

theorem NearestSoFar.keep {x : PathFID} (h : tm.NearestSoFar ig pub visited st)
    (hx : tm.calculateFIDHops ig pub sub (Bits.zeros fidLen) = .ok x) (hle : ¬ x.hops < st.minimum)
    (hfar : ∀ l', Routes.Walk tm.edges pub sub l' → x.hops ≤ WithTop.some (l'.length + 1)) :
    ∃ st', tm.nearestStep ig pub st sub = .ok st' ∧
      tm.NearestSoFar ig pub (visited ++ [sub]) st' := by
  refine ⟨_, by rw [nearestStep, hx, ok_bind, if_neg hle]; rfl,
    get_findInsert_visited h.result, get_findInsert_visited h.paths, ?_⟩
  rcases h.best with ⟨hnone, htop, hunr⟩ | ⟨s, hs, l, hl, hmin, hsome, hhops, hfid, hpath⟩
  · refine .inl ⟨hnone, htop, ?_⟩
    intro s hs
    rcases mem_append.1 hs with hs | hs
    · exact hunr s hs
    · rintro ⟨l', hl'⟩
      obtain rfl := mem_singleton.1 hs
      rw [htop, not_lt_top_iff] at hle
      exact WithTop.coe_ne_top (top_le_iff.1 (hle ▸ hfar l' hl'))
  · refine .inr ⟨s, mem_append_left _ hs, l, hl, ?_, hsome, hhops, hfid, hpath⟩
    intro s' hs' l' hl'
    rcases mem_append.1 hs' with hs' | hs'
    · exact hmin s' hs' l' hl'
    · obtain rfl := mem_singleton.1 hs'
      have hnat := (not_lt.1 hle).trans (hfar l' hl')
      rw [hhops, WithTop.coe_le_coe] at hnat
      exact Nat.le_of_succ_le_succ hnat

theorem NearestSoFar.replace (h : tm.NearestSoFar ig pub visited st)
    (hl : tm.PathLinks ig pub sub l)
    (hx : tm.calculateFIDHops ig pub sub (Bits.zeros fidLen) =
      .ok ⟨tm.pathFID sub l, WithTop.some (l.length + 1), pathString (Routes.vertices pub l)⟩)
    (hlt : WithTop.some (l.length + 1) < st.minimum) :
    ∃ st', tm.nearestStep ig pub st sub = .ok st' ∧
      tm.NearestSoFar ig pub (visited ++ [sub]) st' := by
  refine ⟨_, by rw [nearestStep, hx, ok_bind, if_pos hlt]; rfl,
    get_findInsert_visited h.result, get_findInsert_visited h.paths, Or.inr
      ⟨sub, mem_append_right _ (mem_singleton_self _), l, hl, ?_, rfl, rfl, rfl, rfl⟩⟩
  intro s' hs' l' hl'
  rcases mem_append.1 hs' with hs' | hs'
  · rcases h.best with ⟨-, -, hunr⟩ | ⟨s, _, l₀, hl₀, hmin, -, hhops, -, -⟩
    · exact absurd ⟨l', hl'⟩ (hunr s' hs')
    · rw [hhops, WithTop.coe_lt_coe] at hlt
      have := hmin s' hs' l' hl'
      omega
  · obtain rfl := mem_singleton.1 hs'
    exact hl.shortest.le l' hl'

theorem NearestSoFar.step (hidx : tm.Indexed) (hpub : pub ∈ tm.nodes)
    (hsub : sub ∈ tm.nodes) (h : tm.NearestSoFar ig pub visited st) :
    ∃ st', tm.nearestStep ig pub st sub = .ok st' ∧
      tm.NearestSoFar ig pub (visited ++ [sub]) st' := by
  obtain ⟨x, hx, hfar, hpath⟩ := calculateFIDHops_spec ig hidx hpub hsub
  by_cases hlt : x.hops < st.minimum
  · rcases hpath with htop | ⟨l, hl, rfl⟩
    · exact absurd (htop ▸ hlt) not_top_lt
    · exact h.replace hl hx hlt
  · exact h.keep hx hlt hfar

/-- An entry for each subscriber; a forwarding identifier and a path for a nearest one only. -/
structure SelectsNearest (tm : TMIgraph) (ig : Igraph) (publisher : NodeID)
    (subscribers : ListSet NodeID) (result : Table NodeID (Option FID))
    (paths : Table NodeID (List UInt8)) : Prop where
  keys : ∀ s, s ∈ result ↔ s ∈ subscribers
  unreachable : (∀ s ∈ subscribers, ¬ Routes.Reach tm.edges publisher s) →
    ∀ s ∈ subscribers, result.get s = some none
  nearest : (∃ s ∈ subscribers, Routes.Reach tm.edges publisher s) →
    ∃ s ∈ subscribers, ∃ l, tm.PathLinks ig publisher s l ∧
      (∀ s' ∈ subscribers, ∀ l', Routes.Walk tm.edges publisher s' l' → l.length ≤ l'.length) ∧
      result.get s = some (some (tm.pathFID s l)) ∧
      paths.get s = some (pathString (Routes.vertices publisher l)) ∧
      ∀ s' ∈ subscribers, s' ≠ s → result.get s' = some none

theorem nearestSoFar_foldlM (hidx : tm.Indexed) (hpub : pub ∈ tm.nodes) {subscribers : List NodeID}
    (hsubs : ∀ s ∈ subscribers, s ∈ tm.nodes) (h : tm.NearestSoFar ig pub visited st) :
    ∃ st', subscribers.foldlM (tm.nearestStep ig pub) st = .ok st' ∧
      tm.NearestSoFar ig pub (visited ++ subscribers) st' := by
  induction subscribers generalizing visited st with
  | nil => exact ⟨st, rfl, by simpa using h⟩
  | cons s rest ih =>
    obtain ⟨st₁, hstep, h₁⟩ := h.step hidx hpub (hsubs s mem_cons_self)
    obtain ⟨st₂, hrest, h₂⟩ := ih (fun s' hs' => hsubs s' (mem_cons_of_mem s hs')) h₁
    refine ⟨st₂, ?_, by simpa using h₂⟩
    rw [foldlM_cons, hstep, ok_bind, hrest]

/-- **The nearest subscriber**, and no other, gets a forwarding identifier: the links of its
shortest path, which is recorded, and its internal link. -/
theorem ucalculateFID_selectsNearest (tm : TMIgraph) (ig : Igraph) (hidx : tm.Indexed)
    (publisher : NodeID) (hpub : publisher ∈ tm.nodes) (subscribers : ListSet NodeID)
    (hsubs : ∀ s ∈ subscribers, s ∈ tm.nodes) :
    ∃ result paths, tm.ucalculateFID ig publisher subscribers = .ok (result, paths) ∧
      tm.SelectsNearest ig publisher subscribers result paths := by
  have hinit : tm.NearestSoFar ig publisher [] ⟨∅, ∅, ⊤, none, Bits.zeros fidLen, []⟩ :=
    ⟨by simp, by simp, .inl ⟨rfl, rfl, by simp⟩⟩
  obtain ⟨st, hloop, hst⟩ := nearestSoFar_foldlM hidx hpub
    (fun s hs => hsubs s (ListSet.mem_toList.1 hs)) hinit
  have hres : ∀ s, st.result.get s = if s ∈ subscribers then some none else none := hst.result
  have hmem : ∀ s, s ∈ st.result ↔ s ∈ subscribers := by
    intro s
    rw [← not_iff_not, ← get_eq_none_iff, hres s]
    simp
  rcases hst.best with ⟨hnone, -, hunr⟩ | ⟨s, hs, l, hl, hmin, hsome, -, hfid, hpath⟩
  · refine ⟨st.result, st.paths, ?_, hmem, ?_, ?_⟩
    · rw [ucalculateFID, hloop, ok_bind, hnone]
      rfl
    · intro _ s hs
      rw [hres s, if_pos hs]
    · rintro ⟨s, hs, hreach⟩
      exact absurd hreach (hunr s hs)
  · refine ⟨st.result.set s (some st.fid), st.paths.set s st.path, ?_, ?_, ?_, ?_⟩
    · rw [ucalculateFID, hloop, ok_bind, hsome]
      rfl
    · intro s'
      rw [Table.mem_set, hmem s']
      exact or_iff_right_of_imp fun h => h ▸ hs
    · intro hnot
      exact absurd ⟨l, hl.shortest.walk⟩ (hnot s hs)
    · intro _
      refine ⟨s, hs, l, hl, hmin, ?_, ?_, ?_⟩
      · rw [get_set, if_pos rfl, hfid]
      · rw [get_set, if_pos rfl, hpath]
      · intro s' hs' hne
        rw [get_set, if_neg hne, hres s', if_pos hs']

def exampleLineTM : TMIgraph :=
  readTopology ⟨[.ofByte 1, .ofByte 2, .ofByte 3, .ofByte 4], by decide⟩
    (fun n => Bits.single fidLen (if n = .ofByte 2 then 2 else 3))
    [⟨.ofByte 1, .ofByte 2, Bits.single fidLen 0⟩, ⟨.ofByte 2, .ofByte 3, Bits.single fidLen 1⟩]
    (.ofByte 1) (.ofByte 1) false

/-- The nearest of two subscribers on a line, with one that cannot be reached. -/
theorem ucalculateFID_selectsNearest_line :
    ∃ result paths, exampleLineTM.ucalculateFID .search (.ofByte 1)
        ⟨[.ofByte 3, .ofByte 4, .ofByte 2], by decide⟩ = .ok (result, paths) ∧
      exampleLineTM.SelectsNearest .search (.ofByte 1)
        ⟨[.ofByte 3, .ofByte 4, .ofByte 2], by decide⟩ result paths :=
  ucalculateFID_selectsNearest exampleLineTM .search updateTMStates_indexed (.ofByte 1) (by decide)
    ⟨[.ofByte 3, .ofByte 4, .ofByte 2], by decide⟩
    (ListSet.forall_of_all (by decide +kernel))

end Blackadder.TMIgraph
