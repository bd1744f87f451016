/-
**Links that fail and come back.**

A link that fails is deleted and its identifier kept in `freedLIDs` until it comes back.
`updateGraph` looks at one direction of a link, and then deletes or adds both: if one direction has
failed before, it looks up an edge that is not there, or a link that was never freed.
-/

import Blackadder.TmGraph

namespace Blackadder

open Function Table List
open Except (bind_eq_ok)

variable {ig : Igraph} {E : List Link} {a : Link} {v : NodeID × NodeID} {i : ℕ}

/-! ### Edges by their ends -/

def Link.ends (a : Link) : NodeID × NodeID := (a.src, a.dst)

open Link (ends)

def HasEdge (E : List Link) (v : NodeID × NodeID) : Prop := ∃ a ∈ E, ends a = v

instance (E : List Link) (v : NodeID × NodeID) : Decidable (HasEdge E v) :=
  inferInstanceAs (Decidable (∃ a ∈ E, ends a = v))

theorem eid_isSome_iff (ig : Igraph) : (ig.eid E v.1 v.2).isSome = true ↔ HasEdge E v := by
  constructor
  · intro hsome
    obtain ⟨i, hi⟩ := Option.isSome_iff_exists.1 hsome
    obtain ⟨a, ha, hsrc, hdst⟩ := ig.eid_spec E v.1 v.2 i hi
    exact ⟨a, mem_of_getElem? ha, Prod.ext hsrc hdst⟩
  · rintro ⟨a, ha, rfl⟩
    exact ig.eid_isSome E a.src a.dst ⟨a, ha, rfl, rfl⟩

theorem ends_of_eid (hi : ig.eid E v.1 v.2 = some i) : ∃ a, E[i]? = some a ∧ ends a = v := by
  obtain ⟨a, ha, hsrc, hdst⟩ := ig.eid_spec E v.1 v.2 i hi
  exact ⟨a, ha, Prod.ext hsrc hdst⟩

section
variable (hE : (E.map ends).Nodup)
include hE

theorem index_unique {j : ℕ} {b : Link} (hi : E[i]? = some a)
    (hj : E[j]? = some b) (hab : ends a = ends b) : i = j := by
  have hi' : (E.map ends)[i]? = some (ends a) := by rw [getElem?_map, hi]; rfl
  have hj' : (E.map ends)[j]? = some (ends a) := by rw [getElem?_map, hj, hab]; rfl
  have hlt : i < (E.map ends).length := (List.getElem?_eq_some_iff.1 hi').1
  exact (getElem?_inj hlt hE).1 (hi'.trans hj'.symm)

theorem eq_of_ends_eq {b : Link} (ha : a ∈ E) (hb : b ∈ E) (hab : ends a = ends b) : a = b := by
  obtain ⟨i, hi⟩ := mem_iff_getElem?.1 ha
  obtain ⟨j, hj⟩ := mem_iff_getElem?.1 hb
  rw [index_unique hE hi hj hab, hj] at hi
  exact (Option.some.inj hi).symm

theorem modify_eq_map (hi : E[i]? = some a) (f : Link → Link) :
    E.modify i f = E.map fun b => if ends b = ends a then f b else b := by
  refine ext_getElem? fun j => ?_
  rw [getElem?_modify, getElem?_map]
  cases hj : E[j]? with
  | none => rfl
  | some b =>
    by_cases hij : i = j
    · subst hij
      rw [hi] at hj
      cases hj
      simp
    · have hne : ends b ≠ ends a := fun hab => hij (index_unique hE hi hj hab.symm)
      simp [hij, hne]

end

theorem deleteEdges_eq_filter {ids : List ℕ} {vs : List (NodeID × NodeID)}
    (h : ∀ i a, E[i]? = some a → (i ∈ ids ↔ ends a ∈ vs)) :
    TMIgraph.deleteEdges E ids = E.filter fun a => ends a ∉ vs := by
  have hcongr : (E.zipIdx.filter fun x => decide (x.2 ∉ ids)) =
      E.zipIdx.filter ((fun a => decide (ends a ∉ vs)) ∘ Prod.fst) := by
    refine filter_congr fun x hx => ?_
    have hx' : E[x.2]? = some x.1 := mem_zipIdx_iff_getElem?.1 hx
    exact decide_eq_decide.2 (not_congr (h x.2 x.1 hx'))
  rw [TMIgraph.deleteEdges, hcongr, ← filter_map, zipIdx_map_fst]

namespace TMIgraph

variable {tm tm' : TMIgraph} {vs : List (NodeID × NodeID)} {lid : FID}

def Indexed (tm : TMIgraph) : Prop := ∀ i, tm.edgeLID i = tm.edges[i]?.map Routes.Arc.label

theorem updateTMStates_indexed : tm.updateTMStates.Indexed := fun _ => rfl

/-! ### Removing links -/

theorem exists_lidOf_iff (ig : Igraph) (hidx : tm.Indexed) :
    (∃ lid, tm.lidOf (ig.eid tm.edges v.1 v.2) = .ok lid) ↔ HasEdge tm.edges v := by
  rw [← eid_isSome_iff ig]
  cases hi : ig.eid tm.edges v.1 v.2 with
  | none => simp [lidOf]
  | some i =>
    obtain ⟨a, ha, -⟩ := ends_of_eid hi
    simp [lidOf, hidx i, ha]

theorem mem_of_lidOf (hidx : tm.Indexed) (h : tm.lidOf (ig.eid tm.edges v.1 v.2) = .ok lid) :
    ⟨v.1, v.2, lid⟩ ∈ tm.edges := by
  cases hi : ig.eid tm.edges v.1 v.2 with
  | none =>
    rw [hi] at h
    cases h
  | some i =>
    obtain ⟨a, ha, rfl⟩ := ends_of_eid hi
    rw [hi] at h
    simp only [lidOf, Option.bind_some, hidx i, ha, Option.map_some, Except.ok.injEq] at h
    subst h
    exact mem_of_getElem? ha

theorem lidOf_eq_ok_iff (ig : Igraph) (hidx : tm.Indexed) (hE : (tm.edges.map ends).Nodup) :
    tm.lidOf (ig.eid tm.edges v.1 v.2) = .ok lid ↔ ⟨v.1, v.2, lid⟩ ∈ tm.edges := by
  refine ⟨mem_of_lidOf hidx, fun hmem => ?_⟩
  have hedge : HasEdge tm.edges v := ⟨_, hmem, rfl⟩
  obtain ⟨lid', hlid'⟩ := (exists_lidOf_iff ig hidx).2 hedge
  have hsame := eq_of_ends_eq hE (mem_of_lidOf hidx hlid') hmem rfl
  rw [hlid', (Routes.Arc.mk.inj hsame).2.2]

theorem exists_keepLID_iff (ig : Igraph) (hidx : tm.Indexed) (t : Table (NodeID × NodeID) FID) :
    (∃ t', vs.foldlM (tm.keepLID ig) t = .ok t') ↔ ∀ v ∈ vs, HasEdge tm.edges v := by
  refine Except.exists_foldlM_eq_ok (fun v t => ?_) vs t
  rw [← exists_lidOf_iff ig hidx]
  constructor
  · rintro ⟨t', h⟩
    obtain ⟨lid, hlid, -⟩ := bind_eq_ok.1 h
    exact ⟨lid, hlid⟩
  · rintro ⟨lid, hlid⟩
    exact ⟨t.findInsert v lid, bind_eq_ok.2 ⟨lid, hlid, rfl⟩⟩

theorem get_keepLID (hidx : tm.Indexed) (hE : (tm.edges.map ends).Nodup)
    {t t' : Table (NodeID × NodeID) FID} (h : vs.foldlM (tm.keepLID ig) t = .ok t') :
    t'.get v = some lid ↔ t.get v = some lid ∨ v ∉ t ∧ v ∈ vs ∧ ⟨v.1, v.2, lid⟩ ∈ tm.edges := by
  induction vs generalizing t with
  | nil =>
    cases h
    simp
  | cons u vs ih =>
    obtain ⟨t₁, h₁, h₂⟩ := bind_eq_ok.1 h
    obtain ⟨lid₁, hlid₁, hret⟩ := bind_eq_ok.1 h₁
    cases hret
    rw [ih h₂, get_findInsert]
    rw [lidOf_eq_ok_iff ig hidx hE] at hlid₁
    by_cases huv : v = u
    · subst huv
      have hone : ⟨v.1, v.2, lid⟩ ∈ tm.edges ↔ lid₁ = lid := by
        constructor
        · intro hmem
          exact (Routes.Arc.mk.inj (eq_of_ends_eq hE hlid₁ hmem rfl)).2.2
        · rintro rfl
          exact hlid₁
      by_cases ht : v ∈ t
      · simp [ht]
      · have hnone : t.get v = none := get_eq_none_iff.2 ht
        simp [hnone, hone]
    · simp [huv]

/-- **What is removed**: exactly the links with the given ends. -/
theorem removeEdges_spec (hE : (tm.edges.map ends).Nodup) (h : tm.removeEdges ig vs = .ok tm') :
    ∃ t, vs.foldlM (tm.keepLID ig) tm.freedLIDs = .ok t ∧ tm' = updateTMStates { tm with
        freedLIDs := t
        edges := tm.edges.filter fun a => ends a ∉ vs } := by
  obtain ⟨t, ht, hret⟩ := bind_eq_ok.1 h
  refine ⟨t, ht, ?_⟩
  have hdel : deleteEdges tm.edges ((vs.map fun v => ig.eid tm.edges v.1 v.2).filterMap id) =
      tm.edges.filter fun a => ends a ∉ vs := by
    refine deleteEdges_eq_filter fun i a hi => ?_
    rw [filterMap_map, mem_filterMap]
    constructor
    · rintro ⟨v, hv, hid⟩
      obtain ⟨b, hb, rfl⟩ := ends_of_eid hid
      rw [hi] at hb
      cases hb
      exact hv
    · intro hv
      have hsome : (ig.eid tm.edges (ends a).1 (ends a).2).isSome = true :=
        (eid_isSome_iff ig).2 ⟨a, mem_of_getElem? hi, rfl⟩
      obtain ⟨j, hj⟩ := Option.isSome_iff_exists.1 hsome
      obtain ⟨b, hb, hab⟩ := ends_of_eid hj
      obtain rfl := index_unique hE hi hb hab.symm
      exact ⟨ends a, hv, hj⟩
  rw [hdel] at hret
  exact (Except.ok.inj hret).symm

theorem exists_removeEdges_iff (ig : Igraph) (vs : List (NodeID × NodeID)) (hidx : tm.Indexed) :
    (∃ tm', tm.removeEdges ig vs = .ok tm') ↔ ∀ v ∈ vs, HasEdge tm.edges v := by
  rw [← exists_keepLID_iff ig hidx tm.freedLIDs]
  constructor
  · rintro ⟨tm', h⟩
    obtain ⟨t, ht, -⟩ := bind_eq_ok.1 h
    exact ⟨t, ht⟩
  · rintro ⟨t, ht⟩
    exact ⟨_, bind_eq_ok.2 ⟨t, ht, rfl⟩⟩

/-! ### Adding links -/

theorem exists_restoreLID_iff (ig : Igraph) (tm : TMIgraph) (hvs : ∀ v ∈ vs, HasEdge E v) :
    (∃ tm', vs.foldlM (restoreLID ig E) tm = .ok tm') ↔ vs.Nodup ∧ ∀ v ∈ vs, v ∈ tm.freedLIDs := by
  induction vs generalizing tm with
  | nil => exact iff_of_true ⟨tm, foldlM_nil⟩ ⟨nodup_nil, by simp⟩
  | cons v vs ih =>
    obtain ⟨i, hi⟩ := Option.isSome_iff_exists.1 ((eid_isSome_iff ig).2 (hvs v mem_cons_self))
    rw [foldlM_cons, nodup_cons, restoreLID, freedLID, hi]
    cases hget : tm.freedLIDs.get v with
    | none =>
      have hnot : v ∉ tm.freedLIDs := get_eq_none_iff.1 hget
      refine iff_of_false ?_ fun h => hnot (h.2 v mem_cons_self)
      rintro ⟨tm', h⟩
      cases h
    | some lid =>
      have hmem : v ∈ tm.freedLIDs := mem_of_get hget
      refine (ih _ fun u hu => hvs u (mem_cons_of_mem v hu)).trans ?_
      simp only [mem_erase, mem_cons, forall_eq_or_imp]
      constructor
      · rintro ⟨hnodup, hall⟩
        exact ⟨⟨fun hv => (hall v hv).1 rfl, hnodup⟩, hmem, fun u hu => (hall u hu).2⟩
      · rintro ⟨⟨hv, hnodup⟩, -, hall⟩
        exact ⟨hnodup, fun u hu => ⟨fun huv => hv (huv ▸ hu), hall u hu⟩⟩

def relabel (t : Table (NodeID × NodeID) FID) (vs : List (NodeID × NodeID)) (a : Link) : Link :=
  if ends a ∈ vs then { a with label := (t.get (ends a)).getD a.label } else a

theorem ends_relabel (t : Table (NodeID × NodeID) FID) (a : Link) :
    ends (relabel t vs a) = ends a := by
  rw [relabel]
  split <;> rfl

theorem relabel_nil (t : Table (NodeID × NodeID) FID) : relabel t [] = id := by
  funext a
  exact if_neg not_mem_nil

theorem relabel_cons {t : Table (NodeID × NodeID) FID} (hget : t.get v = some lid) (b : Link) :
    relabel (t.erase v) vs (relabel t [v] b) = relabel t (v :: vs) b := by
  by_cases hb : ends b = v
  · have hfirst : relabel t [v] b = { b with label := lid } := by
      rw [relabel, if_pos (by rw [hb]; exact mem_singleton_self v), hb, hget]
      rfl
    have hends : ends { b with label := lid } = v := hb
    rw [hfirst, relabel, relabel, hends, hb, hget]
    split <;> simp
  · have hfirst : relabel t [v] b = b := if_neg (by rwa [mem_singleton])
    rw [hfirst, relabel, relabel, get_erase]
    simp [hb]

theorem foldlM_restoreLID (hE : (E.map ends).Nodup) (htm : tm.edges.map ends = E.map ends)
    (h : vs.foldlM (restoreLID ig E) tm = .ok tm') :
    ∃ t, tm' = { tm with edges := tm.edges.map (relabel tm.freedLIDs vs), freedLIDs := t } ∧
      ∀ v, t.get v = if v ∈ vs then none else tm.freedLIDs.get v := by
  induction vs generalizing tm with
  | nil =>
    obtain rfl := Except.ok.inj h
    exact ⟨tm.freedLIDs, by rw [relabel_nil, map_id], by simp⟩
  | cons v vs ih =>
    obtain ⟨tm₁, h₁, h₂⟩ := bind_eq_ok.1 h
    obtain ⟨lid, hlid, hret⟩ := bind_eq_ok.1 h₁
    have hget : tm.freedLIDs.get v = some lid := by
      rw [freedLID] at hlid
      split at hlid
      case h_1 hsome =>
        cases hlid
        exact hsome
      case h_2 => cases hlid
    cases hi : ig.eid E v.1 v.2 with
    | none =>
      rw [hi] at hret
      cases hret
    | some i =>
      rw [hi] at hret
      obtain rfl := (Except.ok.inj hret).symm
      -- the edge that is found in `E` is the same one in the graph of the loop
      obtain ⟨b, hb, hbv⟩ := ends_of_eid hi
      have hends : (tm.edges.map ends)[i]? = some v := by
        rw [htm, getElem?_map, hb, Option.map_some, hbv]
      rw [getElem?_map, Option.map_eq_some_iff] at hends
      obtain ⟨a, ha, rfl⟩ := hends
      have hset : setLID tm.edges i lid = tm.edges.map (relabel tm.freedLIDs [ends a]) := by
        rw [setLID, modify_eq_map (htm ▸ hE) ha]
        refine map_congr_left fun b _ => ?_
        by_cases hba : ends b = ends a
        · simp [relabel, hba, hget]
        · simp [relabel, hba]
      obtain ⟨t, rfl, ht⟩ := ih (by simp [hset, comp_def, ends_relabel, htm]) h₂
      refine ⟨t, ?_, fun u => ?_⟩
      · dsimp only
        rw [hset, map_map]
        congr 1
        exact map_congr_left fun b _ => relabel_cons hget b
      · rw [ht u]
        by_cases hua : u = ends a
        · simp [hua]
        · simp [hua]

theorem ends_newEdges : (newEdges vs).map ends = vs := by
  rw [newEdges, map_map]
  exact map_id'' (fun _ => rfl) vs

theorem exists_addEdges_iff (ig : Igraph) (tm : TMIgraph) (vs : List (NodeID × NodeID)) :
    (∃ tm', tm.addEdges ig vs = .ok tm') ↔ vs.Nodup ∧ ∀ v ∈ vs, v ∈ tm.freedLIDs := by
  have hnew : ∀ v ∈ vs, HasEdge (tm.edges ++ newEdges vs) v := by
    intro v hv
    exact ⟨⟨v.1, v.2, Bits.zeros fidLen⟩, mem_append_right _ (mem_map.2 ⟨v, hv, rfl⟩), rfl⟩
  have hres := exists_restoreLID_iff ig { tm with edges := tm.edges ++ newEdges vs } hnew
  refine Iff.trans ?_ hres
  constructor
  · rintro ⟨tm', h⟩
    obtain ⟨tm₁, h₁, -⟩ := bind_eq_ok.1 h
    exact ⟨tm₁, h₁⟩
  · rintro ⟨tm₁, h₁⟩
    exact ⟨_, bind_eq_ok.2 ⟨tm₁, h₁, rfl⟩⟩

def oldEdges (t : Table (NodeID × NodeID) FID) (vs : List (NodeID × NodeID)) : List Link :=
  (newEdges vs).map (relabel t vs)

theorem mem_oldEdges {t : Table (NodeID × NodeID) FID} (hvs : ∀ v ∈ vs, v ∈ t) :
    a ∈ oldEdges t vs ↔ ends a ∈ vs ∧ t.get (ends a) = some a.label := by
  rw [oldEdges, newEdges, map_map, mem_map]
  constructor
  · rintro ⟨v, hv, rfl⟩
    obtain ⟨lid, hlid⟩ := mem_iff.1 (hvs v hv)
    have hends : ends ⟨v.1, v.2, Bits.zeros fidLen⟩ = v := rfl
    rw [comp_apply, ends_relabel, relabel, hends, if_pos hv, hlid]
    exact ⟨hv, rfl⟩
  · rintro ⟨hv, hget⟩
    refine ⟨ends a, hv, ?_⟩
    have hends : ends ⟨(ends a).1, (ends a).2, Bits.zeros fidLen⟩ = ends a := rfl
    rw [comp_apply, relabel, hends, if_pos hv, hget]
    rfl

theorem ends_oldEdges (t : Table (NodeID × NodeID) FID) : (oldEdges t vs).map ends = vs := by
  have hcomp : ends ∘ relabel t vs = ends := funext (ends_relabel t)
  rw [oldEdges, map_map, hcomp, ends_newEdges]

/-- **What is added**: links with the given ends, and the kept identifiers. -/
theorem addEdges_spec (hvs : (tm.edges.map ends ++ vs).Nodup) (h : tm.addEdges ig vs = .ok tm') :
    ∃ t, tm' = updateTMStates { tm with
        edges := tm.edges ++ oldEdges tm.freedLIDs vs
        freedLIDs := t } ∧
      ∀ v, t.get v = if v ∈ vs then none else tm.freedLIDs.get v := by
  obtain ⟨tm₁, h₁, hret⟩ := bind_eq_ok.1 h
  have hnodup : ((tm.edges ++ newEdges vs).map ends).Nodup := by
    rw [map_append, ends_newEdges]
    exact hvs
  obtain ⟨t, rfl, ht⟩ := foldlM_restoreLID hnodup rfl h₁
  refine ⟨t, ?_, ht⟩
  obtain rfl := (Except.ok.inj hret).symm
  have hold : tm.edges.map (relabel tm.freedLIDs vs) = tm.edges := by
    rw [← map_id tm.edges, map_map]
    refine map_congr_left fun a ha => if_neg fun hv => ?_
    exact (nodup_append.1 hvs).2.2 _ (mem_map_of_mem ha) _ hv rfl
  rw [map_append, hold, oldEdges]

/-! ### Consistent states -/

structure Consistent (initial : List Link) (tm : TMIgraph) : Prop where
  union : ∀ a, a ∈ initial ↔ a ∈ tm.edges ∨ tm.freedLIDs.get (ends a) = some a.label
  disjoint : ∀ a ∈ tm.edges, ends a ∉ tm.freedLIDs
  nodup : (tm.edges.map ends).Nodup
  edgeLID : tm.Indexed
  reverseEdgeIndex : ∀ lid, tm.reverseEdgeIndex lid = tm.edges.findIdx? fun a => a.label = lid

variable {initial : List Link}

theorem consistent_readTopology (hinit : (initial.map ends).Nodup) (nodes : ListSet NodeID)
    (iLID : NodeID → FID) (nodeID rvNodeID : NodeID) (rs : Bool) :
    Consistent initial (readTopology nodes iLID initial nodeID rvNodeID rs) where
  union a := by simp [readTopology, updateTMStates]
  disjoint a _ := not_mem_empty _
  nodup := hinit
  edgeLID := updateTMStates_indexed
  reverseEdgeIndex _ := rfl

theorem Consistent.removeEdges (hc : Consistent initial tm) (h : tm.removeEdges ig vs = .ok tm') :
    Consistent initial tm' := by
  obtain ⟨t, ht, rfl⟩ := removeEdges_spec hc.nodup h
  have hget : ∀ v lid, t.get v = some lid ↔ tm.freedLIDs.get v = some lid ∨
      v ∉ tm.freedLIDs ∧ v ∈ vs ∧ ⟨v.1, v.2, lid⟩ ∈ tm.edges :=
    fun v lid => get_keepLID hc.edgeLID hc.nodup ht
  refine ⟨fun a => ?_, fun a ha => ?_, ?_, updateTMStates_indexed, fun _ => rfl⟩
  · -- a removed link moves from the graph to the table
    change a ∈ initial ↔ a ∈ tm.edges.filter _ ∨ t.get (ends a) = some a.label
    rw [hc.union a, hget, mem_filter, decide_eq_true_iff]
    constructor
    · rintro (ha | hfreed)
      · by_cases hv : ends a ∈ vs
        · exact .inr (.inr ⟨hc.disjoint a ha, hv, ha⟩)
        · exact .inl ⟨ha, hv⟩
      · exact .inr (.inl hfreed)
    · rintro (⟨ha, -⟩ | hfreed | ⟨-, -, ha⟩)
      · exact .inl ha
      · exact .inr hfreed
      · exact .inl ha
  · obtain ⟨hmem, hv⟩ := mem_filter.1 ha
    rw [decide_eq_true_iff] at hv
    intro hfreed
    obtain ⟨lid, hlid⟩ := mem_iff.1 hfreed
    rcases (hget _ lid).1 hlid with hold | ⟨-, hvs, -⟩
    · exact hc.disjoint a hmem (mem_of_get hold)
    · exact hv hvs
  · exact (filter_sublist.map ends).nodup hc.nodup

section
variable (hc : Consistent initial tm) (h : tm.addEdges ig vs = .ok tm')
include hc h

theorem Consistent.nodup_append : (tm.edges.map ends ++ vs).Nodup := by
  obtain ⟨hnodup, hvs⟩ := (exists_addEdges_iff ig tm vs).1 ⟨tm', h⟩
  rw [List.nodup_append]
  refine ⟨hc.nodup, hnodup, fun u hu v hv huv => ?_⟩
  obtain ⟨a, ha, rfl⟩ := mem_map.1 hu
  exact hc.disjoint a ha (huv ▸ hvs v hv)

theorem Consistent.addEdges : Consistent initial tm' := by
  obtain ⟨-, hvs⟩ := (exists_addEdges_iff ig tm vs).1 ⟨tm', h⟩
  have hdisj := hc.nodup_append h
  obtain ⟨t, rfl, ht⟩ := addEdges_spec hdisj h
  refine ⟨fun a => ?_, fun a ha => ?_, ?_, updateTMStates_indexed, fun _ => rfl⟩
  · change a ∈ initial ↔ a ∈ tm.edges ++ oldEdges tm.freedLIDs vs ∨ t.get (ends a) = some a.label
    rw [hc.union a, mem_append, mem_oldEdges hvs, ht]
    by_cases hv : ends a ∈ vs
    · simp [hv]
    · simp [hv]
  · intro hfreed
    obtain ⟨lid, hlid⟩ := mem_iff.1 hfreed
    have hlid' := (ht (ends a)).symm.trans hlid
    rcases mem_append.1 ha with ha | ha
    · split at hlid'
      · cases hlid'
      · exact hc.disjoint a ha (mem_of_get hlid')
    · rw [if_pos ((mem_oldEdges hvs).1 ha).1] at hlid'
      cases hlid'
  · change ((tm.edges ++ oldEdges tm.freedLIDs vs).map ends).Nodup
    rwa [map_append, ends_oldEdges]

end

end TMIgraph

/-! ### Calls -/

structure UpdateCall where
  source : NodeID
  destination : NodeID
  bidirectional : Bool
  remove : Bool

/-- A link that is removed in both directions is there in both; one that is added was removed
before, in both when both are added. -/
def UpdateCall.Allowed (c : UpdateCall) (tm : TMIgraph) : Prop :=
  (c.remove = true → HasEdge tm.edges (c.source, c.destination) → c.bidirectional = true →
    HasEdge tm.edges (c.destination, c.source)) ∧
  (c.remove = false → ¬ HasEdge tm.edges (c.source, c.destination) →
    (c.source, c.destination) ∈ tm.freedLIDs ∧
    (c.bidirectional = true → c.source ≠ c.destination ∧ (c.destination, c.source) ∈ tm.freedLIDs))

instance (c : UpdateCall) (tm : TMIgraph) : Decidable (c.Allowed tm) :=
  inferInstanceAs (Decidable ((_ → _ → _ → _) ∧ (_ → _ → _)))

namespace TMIgraph

variable {tm tm' : TMIgraph} {c : UpdateCall} {initial : List Link}

theorem vertex_eq_ok_iff {label u : NodeID} :
    tm.vertex label = .ok u ↔ label ∈ tm.nodes ∧ u = label := by
  rw [vertex]
  split
  case isTrue h =>
    constructor
    · intro hu
      exact ⟨h, (Except.ok.inj hu).symm⟩
    · rintro ⟨-, rfl⟩
      rfl
  case isFalse h =>
    refine iff_of_false ?_ fun hu => h hu.1
    intro hu
    cases hu

variable {s d : NodeID} {b r : Bool} {upd : Bool}

theorem bind_true_eq_ok {m : Except TmFault TMIgraph} :
    (do let x ← m; return (x, true)) = Except.ok (ε := TmFault) (tm', upd) ↔
      upd = true ∧ m = .ok tm' := by
  cases m with
  | error e => simp
  | ok x => simp [and_comm]

theorem updateGraph_eq_ok_iff : tm.updateGraph ig s d b r = .ok (tm', upd) ↔
    (s ∈ tm.nodes ∧ d ∈ tm.nodes) ∧
      (r = true ∧ HasEdge tm.edges (s, d) ∧ upd = true ∧ tm.removeEdges ig (pairs s d b) = .ok tm' ∨
        r = false ∧ ¬ HasEdge tm.edges (s, d) ∧ upd = true ∧
          tm.addEdges ig (pairs s d b) = .ok tm' ∨
        (r = true ↔ ¬ HasEdge tm.edges (s, d)) ∧ upd = false ∧ tm' = tm) := by
  by_cases hs : s ∈ tm.nodes
  case neg =>
    refine iff_of_false (fun h => ?_) fun h => hs h.1.1
    obtain ⟨u, hu, -⟩ := bind_eq_ok.1 h
    exact hs (vertex_eq_ok_iff.1 hu).1
  by_cases hd : d ∈ tm.nodes
  case neg =>
    refine iff_of_false (fun h => ?_) fun h => hd h.1.2
    obtain ⟨u, -, h⟩ := bind_eq_ok.1 h
    obtain ⟨w, hw, -⟩ := bind_eq_ok.1 h
    exact hd (vertex_eq_ok_iff.1 hw).1
  have hvs : tm.vertex s = .ok s := vertex_eq_ok_iff.2 ⟨hs, rfl⟩
  have hvd : tm.vertex d = .ok d := vertex_eq_ok_iff.2 ⟨hd, rfl⟩
  have hex : (ig.eid tm.edges s d).isSome = true ↔ HasEdge tm.edges (s, d) :=
    eid_isSome_iff (v := (s, d)) ig
  rw [updateGraph, hvs, hvd]
  simp only [Except.ok_bind]
  by_cases hedge : HasEdge tm.edges (s, d)
  · rw [hex.2 hedge]
    cases r with
    | true =>
      simp only [Bool.and_self, if_true, bind_true_eq_ok]
      simp [hs, hd, hedge]
    | false => simp [hs, hd, hedge, pure, Except.pure, and_comm, eq_comm]
  · have hnone : (ig.eid tm.edges s d).isSome = false := by
      rw [← Bool.not_eq_true, hex]
      exact hedge
    rw [hnone]
    cases r with
    | true => simp [hs, hd, hedge, pure, Except.pure, and_comm, eq_comm]
    | false =>
      simp only [Bool.not_false, Bool.and_self, Bool.false_eq_true, if_true,
        if_false, bind_true_eq_ok]
      simp [hs, hd, hedge]

def update (ig : Igraph) (tm : TMIgraph) (c : UpdateCall) : Except TmFault TMIgraph := do
  let r ← tm.updateGraph ig c.source c.destination c.bidirectional c.remove
  return r.1

def runUpdates (ig : Igraph) (tm : TMIgraph) (calls : List UpdateCall) : Except TmFault TMIgraph :=
  calls.foldlM (update ig) tm

theorem update_eq_ok_iff : tm.update ig c = .ok tm' ↔
    ∃ upd, tm.updateGraph ig c.source c.destination c.bidirectional c.remove = .ok (tm', upd) := by
  constructor
  · intro h
    obtain ⟨⟨tm₁, upd⟩, h₁, hret⟩ := bind_eq_ok.1 h
    cases hret
    exact ⟨upd, h₁⟩
  · rintro ⟨upd, h⟩
    exact bind_eq_ok.2 ⟨(tm', upd), h, rfl⟩

theorem nodup_pairs : (pairs s d b).Nodup ↔ (b = true → s ≠ d) := by
  cases b with
  | false => simp [pairs]
  | true => simp [pairs, eq_comm]

theorem forall_mem_pairs {P : NodeID × NodeID → Prop} :
    (∀ v ∈ pairs s d b, P v) ↔ P (s, d) ∧ (b = true → P (d, s)) := by
  cases b with
  | false | true => simp [pairs]

/-- **A call comes to an end exactly when it is allowed.** -/
theorem update_ok_iff (ig : Igraph) (hidx : tm.Indexed) (hs : c.source ∈ tm.nodes)
    (hd : c.destination ∈ tm.nodes) : (∃ tm', tm.update ig c = .ok tm') ↔ c.Allowed tm := by
  have hrem := exists_removeEdges_iff ig (pairs c.source c.destination c.bidirectional) hidx
  have hadd := exists_addEdges_iff ig tm (pairs c.source c.destination c.bidirectional)
  rw [forall_mem_pairs] at hrem
  rw [forall_mem_pairs, nodup_pairs] at hadd
  have hcases : (∃ tm', tm.update ig c = .ok tm') ↔
      (c.remove = true ∧ HasEdge tm.edges (c.source, c.destination) ∧
        (∃ tm', tm.removeEdges ig (pairs c.source c.destination c.bidirectional) = .ok tm')) ∨
      (c.remove = false ∧ ¬ HasEdge tm.edges (c.source, c.destination) ∧
        (∃ tm', tm.addEdges ig (pairs c.source c.destination c.bidirectional) = .ok tm')) ∨
      (c.remove = true ↔ ¬ HasEdge tm.edges (c.source, c.destination)) := by
    simp only [update_eq_ok_iff, updateGraph_eq_ok_iff]
    constructor
    · rintro ⟨tm', upd, -, ⟨hr, hedge, -, h⟩ | ⟨hr, hedge, -, h⟩ | ⟨h, -, -⟩⟩
      · exact .inl ⟨hr, hedge, tm', h⟩
      · exact .inr (.inl ⟨hr, hedge, tm', h⟩)
      · exact .inr (.inr h)
    · rintro (⟨hr, hedge, tm', h⟩ | ⟨hr, hedge, tm', h⟩ | h)
      · exact ⟨tm', true, ⟨hs, hd⟩, .inl ⟨hr, hedge, rfl, h⟩⟩
      · exact ⟨tm', true, ⟨hs, hd⟩, .inr (.inl ⟨hr, hedge, rfl, h⟩)⟩
      · exact ⟨tm, false, ⟨hs, hd⟩, .inr (.inr ⟨h, rfl, rfl⟩)⟩
  rw [hcases, hrem, hadd, UpdateCall.Allowed]
  cases c.remove with
  | true =>
    by_cases hedge : HasEdge tm.edges (c.source, c.destination)
    · simp [hedge]
    · simp [hedge]
  | false =>
    by_cases hedge : HasEdge tm.edges (c.source, c.destination)
    · simp [hedge]
    · simp [hedge]
      rw [imp_and]
      exact and_left_comm

theorem Consistent.update (hc : Consistent initial tm) (h : tm.update ig c = .ok tm') :
    Consistent initial tm' := by
  obtain ⟨upd, h⟩ := update_eq_ok_iff.1 h
  obtain ⟨-, ⟨-, -, -, hr⟩ | ⟨-, -, -, ha⟩ | ⟨-, -, rfl⟩⟩ := updateGraph_eq_ok_iff.1 h
  · exact hc.removeEdges hr
  · exact hc.addEdges ha
  · exact hc

def withoutGraph (tm : TMIgraph) : TMIgraph :=
  { tm with
    edges := []
    edgeLID := fun _ => none
    reverseEdgeIndex := fun _ => none
    freedLIDs := ∅ }

theorem withoutGraph_removeEdges {vs : List (NodeID × NodeID)}
    (h : tm.removeEdges ig vs = .ok tm') : tm'.withoutGraph = tm.withoutGraph := by
  obtain ⟨t, -, hret⟩ := bind_eq_ok.1 h
  obtain rfl := Except.ok.inj hret
  rfl

theorem withoutGraph_addEdges {vs : List (NodeID × NodeID)}
    (h : tm.addEdges ig vs = .ok tm') : tm'.withoutGraph = tm.withoutGraph := by
  obtain ⟨tm₁, h₁, hret⟩ := bind_eq_ok.1 h
  obtain rfl := Except.ok.inj hret
  have hstep : ∀ v (x x' : TMIgraph), x.withoutGraph = tm.withoutGraph →
      restoreLID ig (tm.edges ++ newEdges vs) x v = .ok x' → x'.withoutGraph = tm.withoutGraph := by
    intro v x x' hx hx'
    obtain ⟨lid, -, hret⟩ := bind_eq_ok.1 hx'
    split at hret
    case h_1 => cases hret
    case h_2 =>
      obtain rfl := Except.ok.inj hret
      exact hx
  have hstart : withoutGraph { tm with edges := tm.edges ++ newEdges vs } = tm.withoutGraph := rfl
  exact (Except.foldlM_eq_ok hstep _ _ _ hstart h₁).1

theorem withoutGraph_updateGraph (h : tm.updateGraph ig s d b r = .ok (tm', upd)) :
    tm'.withoutGraph = tm.withoutGraph := by
  obtain ⟨-, ⟨-, -, -, hr⟩ | ⟨-, -, -, ha⟩ | ⟨-, -, rfl⟩⟩ := updateGraph_eq_ok_iff.1 h
  · exact withoutGraph_removeEdges hr
  · exact withoutGraph_addEdges ha
  · rfl

theorem nodes_update (h : tm.update ig c = .ok tm') : tm'.nodes = tm.nodes := by
  obtain ⟨upd, h⟩ := update_eq_ok_iff.1 h
  have hnodes := congrArg nodes (withoutGraph_updateGraph h)
  exact hnodes

/-- **A sequence of calls keeps everything consistent exactly when each one is allowed in its
state.** -/
theorem runUpdates_consistent_iff (ig : Igraph) (nodes : ListSet NodeID) (iLID : NodeID → FID)
    (initial : List Link) (nodeID rvNodeID : NodeID) (rs : Bool) (calls : List UpdateCall)
    (hinit : (initial.map ends).Nodup)
    (hcalls : ∀ c ∈ calls, c.source ∈ nodes ∧ c.destination ∈ nodes) :
    (∀ before, before <+: calls → ∃ tm,
      runUpdates ig (readTopology nodes iLID initial nodeID rvNodeID rs) before = .ok tm ∧
        Consistent initial tm) ↔
    ∀ before c after tm, calls = before ++ c :: after →
      runUpdates ig (readTopology nodes iLID initial nodeID rvNodeID rs) before = .ok tm →
        c.Allowed tm := by
  refine Except.foldlM_prefixes_iff (I := fun tm => tm.nodes = nodes) ?_ ?_ rfl
    (consistent_readTopology hinit nodes iLID nodeID rvNodeID rs)
  · intro c tm tm' hnodes _ hstep
    exact (nodes_update hstep).trans hnodes
  · intro c hmem tm hnodes hc
    obtain ⟨hs, hd⟩ := hcalls c hmem
    rw [← update_ok_iff ig hc.edgeLID (hnodes ▸ hs) (hnodes ▸ hd)]
    exact exists_congr fun tm' => and_iff_left_of_imp fun hstep => hc.update hstep

def examplePair : List Link :=
  [⟨.ofByte 1, .ofByte 2, Bits.single fidLen 0⟩, ⟨.ofByte 2, .ofByte 1, Bits.single fidLen 1⟩]

def examplePairTM : TMIgraph :=
  readTopology ⟨[.ofByte 1, .ofByte 2], by decide⟩ (fun _ => Bits.single fidLen 2) examplePair
    (.ofByte 1) (.ofByte 2) false

/-- A link that fails and comes back in both directions. -/
theorem runUpdates_consistent_pair : ∃ tm, runUpdates .search examplePairTM
      [⟨.ofByte 1, .ofByte 2, true, true⟩, ⟨.ofByte 1, .ofByte 2, true, false⟩] = .ok tm ∧
    Consistent examplePair tm := by
  refine (runUpdates_consistent_iff .search _ _ examplePair _ _ _ _ (by decide) ?_).2 ?_ _
    (prefix_refl _)
  · decide
  · intro before c after tm hsplit hrun
    match before, hsplit, hrun with
    | [], hsplit, hrun =>
      cases hsplit
      cases hrun
      decide +kernel
    | [c₀], hsplit, hrun =>
      cases hsplit
      have hallo : ((runUpdates .search examplePairTM
          [⟨.ofByte 1, .ofByte 2, true, true⟩]).toOption).all (fun tm =>
            decide (UpdateCall.Allowed ⟨.ofByte 1, .ofByte 2, true, false⟩ tm)) = true := by
        decide +kernel
      have hrun' : runUpdates .search examplePairTM [⟨.ofByte 1, .ofByte 2, true, true⟩] =
        .ok tm := hrun
      rw [hrun'] at hallo
      exact of_decide_eq_true hallo
    | c₀ :: c₁ :: before, hsplit, _ => simp at hsplit

/-- One direction fails, and then both: an edge that is not there is looked up. -/
theorem runUpdates_one_way_then_both :
    ¬ ∀ before, before <+: [⟨.ofByte 1, .ofByte 2, false, true⟩, ⟨.ofByte 2, .ofByte 1, true, true⟩] →
      ∃ tm, runUpdates .search examplePairTM before = .ok tm ∧ Consistent examplePair tm := by
  intro hall
  obtain ⟨tm, hrun, -⟩ := hall _ (prefix_refl _)
  have hfault : ((runUpdates .search examplePairTM [⟨.ofByte 1, .ofByte 2, false, true⟩,
      ⟨.ofByte 2, .ofByte 1, true, true⟩]).toOption).isNone = true := by
    decide +kernel
  rw [hrun] at hfault
  cases hfault

end TMIgraph

end Blackadder
