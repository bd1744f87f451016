/-
**Concurrent flows.**

`Graph_mf` spreads demands over the paths of a network. Paths are walked backwards along the
predecessors that Dijkstra's algorithm finds, which is an oracle here: its predecessors lead to the
source in fewer and fewer steps. Numbers are exact. An edge is its position in the list of edges; of
parallel edges the first one is used.
-/

import Mathlib.Algebra.BigOperators.Ring.Finset
import Mathlib.Tactic.Linarith
import Mathlib.Tactic.Positivity
import Mathlib.Tactic.Ring
import Blackadder.OrderedMap

namespace Blackadder.MaxFlow

open List

structure NetGraph where
  edges : List (ℕ × ℕ)
  capacity : ℕ → ℚ
  capacity_pos : ∀ e, 0 < capacity e

structure MfDemand where
  flow : ℚ
  source : ℕ
  sink : ℕ
  demand : ℚ
  pathFlowMap : OrderedMap (List ℕ) ℚ

/-- All of a demand flows over one path. -/
def MfDemand.over (d : MfDemand) (path : List ℕ) : MfDemand :=
  { d with flow := d.demand, pathFlowMap := (∅ : OrderedMap (List ℕ) ℚ).set path d.demand }

variable (g : NetGraph)

namespace NetGraph

/-- `edge(u, v)`, for vertices with an edge. -/
def edge (h : ℕ × ℕ) : ℕ := g.edges.idxOf h

def Connected : ℕ → ℕ → Prop := Relation.ReflTransGen fun u v => (u, v) ∈ g.edges

end NetGraph

/-- `dijkstra_shortest_paths` for lengths and a source. A vertex that is not reached is its own
predecessor. -/
structure Dijkstra where
  penult : (ℕ → ℚ) → ℕ → ℕ → ℕ
  rank : (ℕ → ℚ) → ℕ → ℕ → ℕ
  spec : ∀ w s t, g.Connected s t → t ≠ s → (penult w s t, t) ∈ g.edges ∧
    g.Connected s (penult w s t) ∧ rank w s (penult w s t) < rank w s t
  rank_le : ∀ w s t, rank w s t ≤ g.edges.length
  unreached : ∀ w s t, ¬ g.Connected s t → penult w s t = t

/-- The hops of the loops that walk to the source. -/
def hops (penult : ℕ → ℕ) (source : ℕ) : ℕ → ℕ → Option (List (ℕ × ℕ))
  | 0, _ => none
  | fuel + 1, f => if f = source then some []
    else (hops penult source fuel (penult f)).map ((penult f, f) :: ·)

/-- The path that is recorded: each hop adds a vertex to the front. -/
def pathOf (sink : ℕ) (l : List (ℕ × ℕ)) : List ℕ := l.foldl (fun path h => h.1 :: path) [sink]

/-- The hops of a path. -/
def pairs (path : List ℕ) : List (ℕ × ℕ) := path.zip path.tail

/-- Some weight is added to the edge of each hop; the edge that is not found is dereferenced. -/
def charge (x : ℚ) (w : ℕ → ℚ) (l : List (ℕ × ℕ)) : Option (ℕ → ℚ) :=
  l.foldlM (fun w h => if h ∈ g.edges
    then some (Function.update w (g.edge h) (w (g.edge h) + x)) else none) w

/-- The lengths that `sp_concurrent_flow` gives to the edges. -/
def unitLengths (e : ℕ) : ℚ := if g.edges[e]?.map g.edge = some e then 1 else 0

variable {g} in
/-- The hop to the sink of a demand. -/
def sinkHop (dj : Dijkstra g) (d : MfDemand) : ℕ × ℕ :=
  (dj.penult (unitLengths g) d.source d.sink, d.sink)

/-! ### Flows on edges -/

variable {g} in
/-- A demand of `sp_concurrent_flow`. The hop to the sink is recorded, but not charged. -/
def spStep (dj : Dijkstra g) (fuel : ℕ) (s : (ℕ → ℚ) × List MfDemand) (d : MfDemand) :
    Option ((ℕ → ℚ) × List MfDemand) := do
  let l ← hops (dj.penult (unitLengths g) d.source) d.source fuel (sinkHop dj d).1
  let gflow ← charge g d.demand s.1 l
  return (gflow, s.2 ++ [d.over (pathOf d.sink (sinkHop dj d :: l))])

variable {g} in
/-- `sp_concurrent_flow`, with the weights of `gflow`. -/
def spConcurrentFlow (dj : Dijkstra g) (fuel : ℕ) (demands : List MfDemand) :
    Option ((ℕ → ℚ) × List MfDemand) :=
  demands.foldlM (spStep dj fuel) (fun _ => 0, [])

/-- The weights of `gflow` after `assign_gflow`, which takes the vertices of a hop the other way. -/
def assignGflow (demands : List MfDemand) : Option (ℕ → ℚ) :=
  demands.foldlM (fun w d => d.pathFlowMap.entries.foldlM
    (fun w x => charge g x.2 w ((pairs x.1).map Prod.swap)) w) fun _ => 0

/-- How often an edge is used. -/
def uses (l : List (ℕ × ℕ)) (e : ℕ) : ℚ := (l.map fun h => if g.edge h = e then (1 : ℚ) else 0).sum

/-- The flow of the paths over an edge. -/
def flowOver (hopsOf : List ℕ → List (ℕ × ℕ)) (demands : List MfDemand) (e : ℕ) : ℚ :=
  (demands.map fun d => (d.pathFlowMap.entries.map fun x => x.2 * uses g (hopsOf x.1) e).sum).sum

variable {g} in
/-- The demands that reach their sinks by an edge. -/
def sinkFlow (dj : Dijkstra g) (demands : List MfDemand) (e : ℕ) : ℚ :=
  (demands.map fun d => d.demand * uses g [sinkHop dj d] e).sum

/-- Each hop of a recorded path has an edge in the opposite direction. -/
def Reversible (demands : List MfDemand) : Prop :=
  ∀ d ∈ demands, ∀ x ∈ d.pathFlowMap.entries, ∀ h ∈ (pairs x.1).map Prod.swap, h ∈ g.edges

instance (demands : List MfDemand) : Decidable (Reversible g demands) :=
  inferInstanceAs (Decidable (∀ d ∈ demands, ∀ x ∈ d.pathFlowMap.entries,
    ∀ h ∈ (pairs x.1).map Prod.swap, h ∈ g.edges))

variable {g} {dj : Dijkstra g} {fuel e f s t : ℕ} {l : List (ℕ × ℕ)} {path : List ℕ} {x : ℚ}
  {w : ℕ → ℚ} {demands : List MfDemand} {penult : ℕ → ℕ}

theorem uses_append (l l' : List (ℕ × ℕ)) : uses g (l ++ l') e = uses g l e + uses g l' e := by
  rw [uses, map_append, sum_append, uses, uses]

theorem uses_reverse (l : List (ℕ × ℕ)) : uses g l.reverse e = uses g l e := by
  rw [uses, map_reverse, sum_reverse, uses]

/-- Weights that are added item by item, where each item may fault. -/
theorem foldlM_add {ι : Type} {f : (ℕ → ℚ) → ι → Option (ℕ → ℚ)} {P : ι → Prop}
    {c : ι → ℕ → ℚ} (hf : ∀ w i, P i → f w i = some fun e => w e + c i e)
    (hfault : ∀ w i, ¬ P i → f w i = none) (l : List ι) (w : ℕ → ℚ) :
    ((∀ i ∈ l, P i) → l.foldlM f w = some fun e => w e + (l.map (c · e)).sum) ∧
      ((¬ ∀ i ∈ l, P i) → l.foldlM f w = none) := by
  induction l generalizing w with
  | nil => simp
  | cons i l ih =>
    simp only [forall_mem_cons, foldlM_cons]
    by_cases hi : P i
    · rw [hf w i hi]
      obtain ⟨hok, hno⟩ := ih fun e => w e + c i e
      exact ⟨fun h => by simp [hok h.2, add_assoc], fun h => hno fun hl => h ⟨hi, hl⟩⟩
    · rw [hfault w i hi]
      exact ⟨fun h => absurd h.1 hi, fun _ => rfl⟩

theorem charge_eq (x : ℚ) (w : ℕ → ℚ) (l : List (ℕ × ℕ)) :
    ((∀ h ∈ l, h ∈ g.edges) → charge g x w l = some fun e => w e + x * uses g l e) ∧
      ((¬ ∀ h ∈ l, h ∈ g.edges) → charge g x w l = none) := by
  have hsum (e : ℕ) : x * uses g l e = (l.map fun h => if g.edge h = e then x else 0).sum := by
    rw [uses, ← sum_map_mul_left]
    simp only [mul_ite, mul_one, mul_zero]
  simp only [hsum]
  refine foldlM_add (fun w h hh => ?_) (fun w h hh => if_neg hh) l w
  rw [if_pos hh, Option.some.injEq]
  funext e
  rw [Function.update_apply]
  by_cases he : g.edge h = e
  · rw [if_pos he, if_pos he.symm, he]
  · rw [if_neg he, if_neg (Ne.symm he), add_zero]

theorem assignGflow_eq (demands : List MfDemand) : (Reversible g demands → assignGflow g demands =
        some (flowOver g (fun path => (pairs path).map Prod.swap) demands)) ∧
      (¬ Reversible g demands → assignGflow g demands = none) := by
  have hd (w : ℕ → ℚ) (d : MfDemand) :=
    foldlM_add (fun w (x : List ℕ × ℚ) => (charge_eq (g := g) x.2 w _).1)
      (fun w x => (charge_eq x.2 w ((pairs x.1).map Prod.swap)).2) d.pathFlowMap.entries w
  have h := foldlM_add (fun w d => (hd w d).1) (fun w d => (hd w d).2) demands fun _ => 0
  simp only [zero_add] at h
  exact h

theorem pairs_cons (h : path.head? = some t) : pairs (s :: path) = (s, t) :: pairs path := by
  obtain _ | ⟨a, path⟩ := path
  · cases h
  · cases h
    rfl

theorem pairs_foldl (hl : hops penult s fuel f = some l) (h : path.head? = some f) :
    pairs (l.foldl (fun path h => h.1 :: path) path) = l.reverse ++ pairs path := by
  induction fuel generalizing f l path with
  | zero => cases hl
  | succ fuel ih =>
    rw [hops] at hl
    split at hl
    · cases hl
      rfl
    · obtain ⟨l', hl', rfl⟩ := Option.map_eq_some_iff.1 hl
      rw [foldl_cons, ih hl' rfl, pairs_cons h, reverse_cons, append_assoc]
      rfl

theorem hops_isSome (w : ℕ → ℚ) (hf : g.Connected s f) (hfuel : dj.rank w s f < fuel) :
    ∃ l, hops (dj.penult w s) s fuel f = some l := by
  induction fuel generalizing f with
  | zero => omega
  | succ fuel ih =>
    rw [hops]
    split
    · exact ⟨[], rfl⟩
    · next hne =>
      obtain ⟨-, hconn, hlt⟩ := dj.spec w s f hf hne
      obtain ⟨l, hl⟩ := ih hconn (by omega)
      exact ⟨_, by rw [hl]; rfl⟩

theorem mem_edges_of_hops (hf : g.Connected s f) (hl : hops (dj.penult w s) s fuel f = some l) :
    ∀ h ∈ l, h ∈ g.edges := by
  induction fuel generalizing f l with
  | zero => cases hl
  | succ fuel ih =>
    rw [hops] at hl
    split at hl
    · cases hl
      exact nofun
    · next hne =>
      obtain ⟨l', hl', rfl⟩ := Option.map_eq_some_iff.1 hl
      obtain ⟨hmem, hconn, -⟩ := dj.spec w s f hf hne
      exact forall_mem_cons.2 ⟨hmem, ih hconn hl'⟩

/-- Demands whose ends differ and are connected. -/
def Routable (g : NetGraph) (demands : List MfDemand) : Prop :=
  ∀ d ∈ demands, d.source ≠ d.sink ∧ g.Connected d.source d.sink

theorem exists_hops (w : ℕ → ℚ) (hst : s ≠ t) (hconn : g.Connected s t) (hfuel : g.edges.length < fuel) :
    ∃ l, hops (dj.penult w s) s fuel (dj.penult w s t) = some l :=
  hops_isSome w (dj.spec w s t hconn hst.symm).2.1 ((dj.rank_le ..).trans_lt hfuel)

theorem foldlM_spStep (hd : Routable g demands) (hfuel : g.edges.length < fuel)
    (s₀ : (ℕ → ℚ) × List MfDemand) : ∃ r, demands.foldlM (spStep dj fuel) s₀ = some r ∧
      ∀ e, flowOver g pairs r.2 e - r.1 e =
        flowOver g pairs s₀.2 e - s₀.1 e + sinkFlow dj demands e := by
  induction demands generalizing s₀ with
  | nil => exact ⟨s₀, rfl, by simp [sinkFlow]⟩
  | cons d demands ih =>
    obtain ⟨hne, hconn⟩ := hd d mem_cons_self
    obtain ⟨l, hl⟩ := @exists_hops _ dj _ _ _ (unitLengths g) hne hconn hfuel
    have hedges := mem_edges_of_hops (dj.spec _ _ _ hconn hne.symm).2.1 hl
    have hpairs : pairs (pathOf d.sink (sinkHop dj d :: l)) = l.reverse ++ [sinkHop dj d] :=
      pairs_foldl hl rfl
    have hentries (path : List ℕ) : (d.over path).pathFlowMap.entries = [(path, d.demand)] := rfl
    have hstep : spStep dj fuel s₀ d = some (fun e => s₀.1 e + d.demand * uses g l e,
        s₀.2 ++ [d.over (pathOf d.sink (sinkHop dj d :: l))]) := by
      rw [spStep, sinkHop, hl, Option.bind_eq_bind, Option.bind_some, (charge_eq ..).1 hedges]
      rfl
    obtain ⟨r, hr, hall⟩ := ih (fun d' hd' => hd d' (mem_cons_of_mem d hd')) _
    refine ⟨r, by rw [foldlM_cons, hstep]; exact hr, fun e => (hall e).trans ?_⟩
    simp only [flowOver, sinkFlow, map_append, sum_append, map_cons, map_nil, sum_cons, sum_nil, hentries, hpairs,
      uses_append, uses_reverse]
    ring

/-- Positive demands charge some edge to a sink. -/
theorem sinkFlow_eq_zero_iff (hd : Routable g demands) (hpos : ∀ d ∈ demands, 0 < d.demand) :
    (∀ e < g.edges.length, sinkFlow dj demands e = 0) ↔ demands = [] := by
  refine ⟨fun h => ?_, fun h => by simp [h, sinkFlow]⟩
  obtain _ | ⟨d, demands⟩ := demands
  · rfl
  obtain ⟨hne, hconn⟩ := hd d mem_cons_self
  have hedge := idxOf_lt_length_of_mem (dj.spec (unitLengths g) _ _ hconn hne.symm).1
  have hrest : 0 ≤ sinkFlow dj demands (g.edge (sinkHop dj d)) := by
    refine sum_nonneg fun y hy => ?_
    obtain ⟨d', hd', rfl⟩ := mem_map.1 hy
    have := hpos d' (mem_cons_of_mem d hd')
    simp only [uses, map_cons, map_nil, sum_singleton]
    split <;> linarith
  have hzero := h _ hedge
  have hdem := hpos d mem_cons_self
  rw [sinkFlow, map_cons, sum_cons, uses, map_singleton, sum_singleton] at hzero
  change d.demand * (if g.edge (sinkHop dj d) = g.edge (sinkHop dj d) then 1 else 0) +
    sinkFlow dj demands (g.edge (sinkHop dj d)) = 0 at hzero
  rw [if_pos rfl] at hzero
  linarith

/-- **What is charged.** After `sp_concurrent_flow` the weights of the edges are the flows over them
if and only if the demands that reach their sinks by each edge sum up to 0: there is no demand, when
they are positive. After `assign_gflow` they are so if and only if each recorded hop has an opposite
edge, and the flows along and against each edge are the same. -/
theorem gflow_eq_flowOver_iff (dj : Dijkstra g) (demands recorded : List MfDemand)
    (hd : Routable g demands) :
    (∃ fuel r, spConcurrentFlow dj fuel demands = some r ∧
      ((∀ e < g.edges.length, r.1 e = flowOver g pairs r.2 e) ↔
        ∀ e < g.edges.length, sinkFlow dj demands e = 0)) ∧
    ((∀ d ∈ demands, 0 < d.demand) →
      ((∀ e < g.edges.length, sinkFlow dj demands e = 0) ↔ demands = [])) ∧
    ((∃ gflow, assignGflow g recorded = some gflow ∧
        ∀ e < g.edges.length, gflow e = flowOver g pairs recorded e) ↔
      Reversible g recorded ∧ ∀ e < g.edges.length,
        flowOver g (fun path => (pairs path).map Prod.swap) recorded e =
          flowOver g pairs recorded e) := by
  refine ⟨?_, sinkFlow_eq_zero_iff hd, ?_⟩
  · obtain ⟨r, hr, hall⟩ := @foldlM_spStep _ dj _ _ hd (Nat.lt_succ_self _) (fun _ => 0, [])
    refine ⟨_, r, hr, forall_congr' fun e => imp_congr_right fun _ => ?_⟩
    have heq : flowOver g pairs r.2 e - r.1 e = sinkFlow dj demands e := by
      simpa [flowOver] using hall e
    rw [← heq, sub_eq_zero, eq_comm]
  · by_cases hrev : Reversible g recorded
    · rw [(assignGflow_eq recorded).1 hrev]
      simp [hrev]
    · rw [(assignGflow_eq recorded).2 hrev]
      simp [hrev]

/-- Two nodes with a link each way. -/
def exampleNet : NetGraph := ⟨[(0, 1), (1, 0)], fun _ => 1, fun _ => one_pos⟩

theorem connected_exampleNet (h : exampleNet.Connected s t) (hne : t ≠ s) :
    (s, t) ∈ exampleNet.edges := by
  have hmem {u v : ℕ} (huv : (u, v) ∈ exampleNet.edges) : (u, v) = (0, 1) ∨ (u, v) = (1, 0) := by
    simpa [exampleNet] using huv
  obtain rfl | ⟨u, hsu, -⟩ := h.cases_head
  · exact absurd rfl hne
  obtain rfl | ⟨v, -, hvt⟩ := h.cases_tail
  · exact absurd rfl hne
  obtain h₁ | h₁ := hmem hsu <;> obtain h₂ | h₂ := hmem hvt <;> cases h₁ <;> cases h₂ <;>
    first | exact absurd rfl hne | exact hsu

def exampleDijkstra : Dijkstra exampleNet where
  penult _ s t := if (s, t) ∈ exampleNet.edges then s else t
  rank _ s t := if t = s then 0 else 1
  spec _ s t h hne := by
    have hst := connected_exampleNet h hne
    rw [if_pos hst]
    exact ⟨hst, .refl, by simp [hne]⟩
  rank_le _ s t := by split <;> simp [exampleNet]
  unreached _ s t h := if_neg fun hst => h (.single hst)

def exampleDemand : MfDemand := ⟨0, 0, 1, 1, ∅⟩

theorem routable_exampleDemand : Routable exampleNet [exampleDemand] := by
  intro d hd
  obtain rfl := mem_singleton.1 hd
  exact ⟨by decide, .single (by decide)⟩

def exampleRecorded : List MfDemand :=
  [exampleDemand.over [0, 1], MfDemand.over ⟨0, 1, 0, 1, ∅⟩ [1, 0]]

/-- The shortest path of a demand is not charged right. Equal flows both ways are, when they are
assigned. -/
theorem gflow_eq_flowOver_iff_exampleNet :
    (∃ fuel r, spConcurrentFlow exampleDijkstra fuel [exampleDemand] = some r ∧
      ¬ ∀ e < 2, r.1 e = flowOver exampleNet pairs r.2 e) ∧
    ∃ gflow, assignGflow exampleNet exampleRecorded = some gflow ∧
      ∀ e < 2, gflow e = flowOver exampleNet pairs exampleRecorded e := by
  obtain ⟨⟨fuel, r, hr, hiff⟩, -, hassign⟩ := gflow_eq_flowOver_iff exampleDijkstra [exampleDemand]
    exampleRecorded routable_exampleDemand
  have hsink : sinkFlow exampleDijkstra [exampleDemand] 0 ≠ 0 := by decide +kernel
  refine ⟨⟨fuel, r, hr, fun h => hsink (hiff.1 h 0 Nat.two_pos)⟩, hassign.2 ⟨?_, ?_⟩⟩
  · decide +kernel
  · decide +kernel

/-- The flow of a demand between neighbours is charged to no edge, and then to the opposite one. -/
theorem gflow_exampleDemand : (spConcurrentFlow exampleDijkstra 3 [exampleDemand]).bind (fun r =>
      (assignGflow exampleNet r.2).map fun gflow =>
        (r.1 0, flowOver exampleNet pairs r.2 0, gflow 0, gflow 1)) = some (0, 1, 0, 1) := by
  decide +kernel

end Blackadder.MaxFlow
