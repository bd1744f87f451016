/-
**The paths of traffic engineering.**

`update_paths` turns the demands that were measured into paths with flows: `min_congestion_flow` runs
the concurrent flows twice, with rescalings in between. The flow of a demand is the sum of the flows
of its paths through all of them, so that the flows of the paths are probabilities of their FIDs. The
factors of the rescalings are any positive numbers.
-/

import Blackadder.Bits
import Blackadder.MaxFlowRuns

namespace Blackadder.MaxFlow

open List

variable {g : NetGraph} {dj : Dijkstra g} {p : FlowParams} {fuel i n k f u v : ℕ} {x rest : ℚ}
  {l : List (ℕ × ℕ)} {s s' : FlowState} {demands : List MfDemand} {d : MfDemand} {path : List ℕ}
  {penult : ℕ → ℕ} {w : ℕ → ℚ}

/-! ### Paths -/

variable (g) in
structure Route (source sink : ℕ) (path : List ℕ) : Prop where
  head : path.head? = some source
  last : path.getLast? = some sink
  edges : ∀ h ∈ pairs path, h ∈ g.edges

theorem hops_eq_none (hf : ¬ g.Connected u f) : hops (dj.penult w u) u fuel f = none := by
  induction fuel with
  | zero => rfl
  | succ fuel ih =>
    rw [hops, if_neg fun (h : f = u) => hf (h ▸ .refl), dj.unreached w u f hf, ih]
    rfl

theorem ends_foldl (hl : hops penult u fuel f = some l) (hf : path.head? = some f) :
    (l.foldl (fun path h => h.1 :: path) path).head? = some u ∧
      (l.foldl (fun path h => h.1 :: path) path).getLast? = path.getLast? := by
  induction fuel generalizing f l path with
  | zero => cases hl
  | succ fuel ih =>
    rw [hops] at hl
    split at hl
    · next heq =>
      cases hl
      exact ⟨heq ▸ hf, rfl⟩
    · obtain ⟨l', hl', rfl⟩ := Option.map_eq_some_iff.1 hl
      obtain ⟨hhead, hlast⟩ := @ih _ _ (penult f :: path) hl' rfl
      refine ⟨hhead, hlast.trans ?_⟩
      obtain _ | ⟨a, path⟩ := path
      · cases hf
      · rfl

/-- **The walk to the source.** The path that is recorded goes from the source to the sink. -/
theorem route_pathOf (huv : u ≠ v) (hl : hops (dj.penult w u) u fuel (dj.penult w u v) = some l) :
    Route g u v (pathOf v ((dj.penult w u v, v) :: l)) := by
  have hconn : g.Connected u v := by
    by_contra hnot
    rw [dj.unreached w u v hnot, hops_eq_none hnot] at hl
    cases hl
  obtain ⟨hmem, hconn', -⟩ := dj.spec w u v hconn huv.symm
  obtain ⟨hhead, hlast⟩ := @ends_foldl _ _ _ _ [dj.penult w u v, v] _ hl rfl
  refine ⟨hhead, hlast, fun h hh => ?_⟩
  rw [pathOf, foldl_cons, pairs_foldl hl rfl, mem_append, mem_reverse] at hh
  obtain hh | hh := hh
  · exact mem_edges_of_hops hconn' hl h hh
  · exact mem_singleton.1 hh ▸ hmem

/-! ### The flow of a demand is the flow of its paths -/

variable (g) in
structure Good (d : MfDemand) : Prop where
  flow : d.flow = (d.pathFlowMap.entries.map Prod.snd).sum
  pos : ∀ x ∈ d.pathFlowMap.entries, 0 < x.2
  route : d.source ≠ d.sink → ∀ x ∈ d.pathFlowMap.entries, Route g d.source d.sink x.1

theorem sum_alterEntries (l : List (List ℕ × ℚ)) :
    ((OrderedMap.alterEntries path (fun o => some (o.getD 0 + x)) l).map Prod.snd).sum =
      (l.map Prod.snd).sum + x := by
  induction l with
  | nil => simp [OrderedMap.alterEntries]
  | cons e l ih =>
    rw [OrderedMap.alterEntries]
    split_ifs
    · simp [add_comm]
    · simp
      ring
    · simp [ih, add_assoc]

theorem Good.push (hd : Good g d) (hx : 0 < x) (hpath : d.source ≠ d.sink → Route g d.source d.sink path) :
    Good g (d.push path x) := by
  have hmem {y : List ℕ × ℚ} (hy : y ∈ (d.push path x).pathFlowMap.entries) :
      y ∈ d.pathFlowMap.entries ∨ y.1 = path ∧ y.2 = (d.pathFlowMap.get path).getD 0 + x := by
    have hget := OrderedMap.mem_entries_iff.1 hy
    rw [MfDemand.push, OrderedMap.get_alter] at hget
    split at hget
    · next heq => exact .inr ⟨heq, (Option.some.inj hget).symm⟩
    · exact .inl (OrderedMap.mem_entries_iff.2 hget)
  refine ⟨?_, fun y hy => ?_, fun hne y hy => ?_⟩
  · rw [MfDemand.push, hd.flow]
    exact (sum_alterEntries _).symm
  · obtain hy | ⟨-, hy⟩ := hmem hy
    · exact hd.pos y hy
    · rw [hy]
      cases hold : d.pathFlowMap.get path with
      | none => simpa using hx
      | some z => exact add_pos (hd.pos _ (OrderedMap.mem_entries_iff.2 hold)) hx
  · obtain hy | ⟨hy, -⟩ := hmem hy
    · exact hd.route hne y hy
    · exact hy ▸ hpath hne

theorem Good.rescale (hd : Good g d) {scale : ℚ} (hscale : 0 < scale) :
    Good g (rescaleDemandsFlows scale d) := by
  refine ⟨?_, forall_mem_map.2 fun y hy => mul_pos (hd.pos y hy) hscale,
    fun hne => forall_mem_map.2 fun y hy => hd.route hne y hy⟩
  rw [rescaleDemandsFlows, hd.flow, OrderedMap.mapVal, map_map, ← sum_map_mul_right]
  rfl

theorem iterate_good {r : FlowState × ℚ} (hs : ∀ d ∈ s.demands, Good g d) (hrest : 0 < rest)
    (hr : iterate dj p fuel i s rest = some r) : ∀ d ∈ r.1.demands, Good g d := by
  obtain ⟨d, hd, hr⟩ := Option.bind_eq_some_iff.1 hr
  obtain ⟨l, hl, hr⟩ := Option.bind_eq_some_iff.1 hr
  cases hr
  intro d' hd'
  obtain hd' | rfl := mem_or_eq_of_mem_set hd'
  · exact hs d' hd'
  · refine (hs d (mem_of_getElem? hd)).push (lt_min hrest ?_) fun hne => route_pathOf hne hl
    obtain ⟨h, hh⟩ := exists_mincap_eq (dj.penult s.length d.source d.sink, d.sink) l
    exact hh ▸ g.capacity_pos _

theorem iterations_good (hs : ∀ d ∈ s.demands, Good g d) (hs' : iterations dj p fuel i n s rest = some s') :
    ∀ d ∈ s'.demands, Good g d := by
  induction n generalizing s rest with
  | zero => cases hs'
  | succ n ih =>
    rw [iterations] at hs'
    split at hs'
    · next hcond =>
      obtain ⟨r, hr, hs'⟩ := Option.bind_eq_some_iff.1 hs'
      exact ih (iterate_good hs hcond.2 hr) hs'
    · cases hs'
      exact hs

theorem steps_good {l : List ℕ} (hs : ∀ d ∈ s.demands, Good g d) (hs' : l.foldlM (step dj p fuel) s = some s') :
    ∀ d ∈ s'.demands, Good g d := by
  induction l generalizing s with
  | nil =>
    cases hs'
    exact hs
  | cons i l ih =>
    obtain ⟨s₁, hs₁, hs'⟩ := Option.bind_eq_some_iff.1 hs'
    obtain ⟨d, -, hd⟩ := Option.bind_eq_some_iff.1 hs₁
    exact ih (iterations_good hs hd) hs'

theorem phases_good (hs : ∀ d ∈ s.demands, Good g d) (hs' : phases dj p fuel n k s = some s') :
    ∀ d ∈ s'.demands, Good g d := by
  induction n generalizing s k with
  | zero => cases hs'
  | succ n ih =>
    rw [phases] at hs'
    split at hs'
    · obtain ⟨s₁, hs₁, hs'⟩ := Option.bind_eq_some_iff.1 hs'
      exact ih (steps_good hs hs₁) hs'
    · cases hs'
      exact hs

/-- **A run of `max_concurrent_flow`.** -/
theorem maxConcurrentFlow_good {demands' : List MfDemand}
    (h : maxConcurrentFlow dj p fuel demands = some demands') : ∀ d ∈ demands', Good g d := by
  obtain ⟨s', hs', rfl⟩ := Option.map_eq_some_iff.1 h
  refine forall_mem_map.2 fun d hd => (phases_good (forall_mem_map.2 fun d _ => ?_) hs' d hd).rescale p.scalef_pos
  exact ⟨rfl, by simp, by simp⟩

/-! ### `update_paths` -/

def rescaleDemands (scale : ℚ) (d : MfDemand) : MfDemand := { d with demand := d.demand * scale }

/-- The factors of the rescalings. -/
structure FlowScales where
  update : ℚ
  lambda : ℚ
  beta : ℚ
  congestion : ℚ
  pos : 0 < update ∧ 0 < lambda ∧ 0 < beta ∧ 0 < congestion

/-- The paths of a demand that are used. -/
structure TeMfDemand (N : ℕ) where
  paths : List (List ℕ)
  flows : List ℚ
  probs : List ℚ
  fids : List (List.Vector UInt8 N)

section
variable (dj) (c : FlowScales) (p₂ p : FlowParams) (fuel)

/-- `min_congestion_flow`. -/
def minCongestionFlow (demands : List MfDemand) : Option (List MfDemand) := do
  let r ← spConcurrentFlow dj fuel demands
  let d₂ ← maxConcurrentFlow dj p₂ fuel (r.2.map (rescaleDemands c.lambda))
  let d ← maxConcurrentFlow dj p fuel (d₂.map (rescaleDemands c.beta))
  return (zipWith (fun d d' => { d with demand := d'.demand }) d demands).map
    (rescaleDemandsFlows c.congestion)

variable {N : ℕ} (g) (edgeLID vertexILID : ℕ → List.Vector UInt8 N)

/-- The FID of a path. -/
def fidOf (sink : ℕ) (path : List ℕ) : List.Vector UInt8 N :=
  Bits.orAll (Bits.or (Bits.zeros N) (vertexILID sink)) ((pairs path).map fun h => edgeLID (g.edge h))

/-- A demand is inserted after each of its paths. -/
def insertPath (d : MfDemand) (s : TeMfDemand N × (ℕ × ℕ → Option (TeMfDemand N))) (x : List ℕ × ℚ) :
    TeMfDemand N × (ℕ × ℕ → Option (TeMfDemand N)) :=
  let te := ⟨s.1.paths ++ [x.1], s.1.flows ++ [x.2], s.1.probs ++ [x.2 / d.flow],
    s.1.fids ++ [fidOf g edgeLID vertexILID d.sink x.1]⟩
  (te, Function.update s.2 (d.source, d.sink) (some te))

def insertDemand (m : ℕ × ℕ → Option (TeMfDemand N)) (d : MfDemand) : ℕ × ℕ → Option (TeMfDemand N) :=
  (d.pathFlowMap.entries.foldl (insertPath g edgeLID vertexILID d) (⟨[], [], [], []⟩, m)).2

/-- `update_paths`. -/
def updatePaths (measured : List MfDemand) : Option (ℕ × ℕ → Option (TeMfDemand N)) := do
  let r ← spConcurrentFlow dj fuel (measured.map fun d =>
    { d with flow := 0, demand := if d.demand = 0 then 1 else d.demand, pathFlowMap := ∅ })
  let demands ← minCongestionFlow dj fuel c p₂ p (r.2.map (rescaleDemands c.update))
  return demands.foldl (insertDemand g edgeLID vertexILID) fun _ => none

end

/-- The index of `get_fid` for the probabilities from a position on. -/
def pick (ran cumul : ℚ) : List ℚ → ℕ
  | [] => 0
  | [_] => 0
  | a :: b :: probs => if ran ≤ cumul + a then 0 else pick ran (cumul + a) (b :: probs) + 1

def getFid {N : ℕ} (m : ℕ × ℕ → Option (TeMfDemand N)) (ran : ℚ) (source sink : ℕ) :
    List.Vector UInt8 N :=
  match m (source, sink) with
  | none => Bits.zeros N
  | some te => te.fids.getD (pick ran 0 te.probs) (Bits.zeros N)

section
variable {N : ℕ} {edgeLID vertexILID : ℕ → List.Vector UInt8 N} {m : ℕ × ℕ → Option (TeMfDemand N)}
  {te : TeMfDemand N}

theorem foldl_insertPath (l : List (List ℕ × ℚ)) (te : TeMfDemand N) :
    (l.foldl (insertPath g edgeLID vertexILID d) (te, m)).2 = if l = [] then m else
      Function.update m (d.source, d.sink) (some ⟨te.paths ++ l.map Prod.fst,
        te.flows ++ l.map Prod.snd, te.probs ++ l.map (·.2 / d.flow),
        te.fids ++ l.map fun x => fidOf g edgeLID vertexILID d.sink x.1⟩) := by
  induction l generalizing te m with
  | nil => rfl
  | cons x l ih =>
    rw [foldl_cons, insertPath, ih]
    split
    · next hnil => rw [hnil]; rfl
    · simp

variable (g edgeLID vertexILID) in
/-- What is inserted for a demand in the end. -/
def allPaths (d : MfDemand) : TeMfDemand N where
  paths := d.pathFlowMap.entries.map Prod.fst
  flows := d.pathFlowMap.entries.map Prod.snd
  probs := d.pathFlowMap.entries.map (·.2 / d.flow)
  fids := d.pathFlowMap.entries.map fun x => fidOf g edgeLID vertexILID d.sink x.1

theorem insertDemand_apply (d : MfDemand) (hte : insertDemand g edgeLID vertexILID m d (u, v) = some te) :
    m (u, v) = some te ∨ (d.source, d.sink) = (u, v) ∧ d.pathFlowMap.entries ≠ [] ∧
      te = allPaths g edgeLID vertexILID d := by
  rw [insertDemand, foldl_insertPath] at hte
  split at hte
  · exact .inl hte
  · next hne =>
    rw [Function.update_apply] at hte
    split at hte
    · next hkey => exact .inr ⟨hkey.symm, hne, (Option.some.inj hte).symm⟩
    · exact .inl hte

theorem pick_lt (ran cumul : ℚ) {probs : List ℚ} (h : probs ≠ []) : pick ran cumul probs < probs.length := by
  induction probs generalizing cumul with
  | nil => exact absurd rfl h
  | cons a probs ih =>
    obtain _ | ⟨b, probs⟩ := probs
    · exact Nat.one_pos
    · rw [pick]
      split
      · exact Nat.succ_pos _
      · exact Nat.succ_lt_succ (ih _ (cons_ne_nil b probs))

variable (g edgeLID vertexILID) in
/-- What is promised about the paths of a demand. -/
structure TeMfDemand.Sound (te : TeMfDemand N) (source sink : ℕ) : Prop where
  route : ∀ path ∈ te.paths, Route g source sink path
  length : te.fids.length = te.paths.length
  fid : ∀ (i : ℕ) path fid, te.paths[i]? = some path → te.fids[i]? = some fid → ∀ j, Bits.bit fid j = true ↔
    Bits.bit (vertexILID sink) j = true ∨ ∃ h ∈ pairs path, Bits.bit (edgeLID (g.edge h)) j = true
  probs : te.probs.sum = 1
  pick : ∀ m ran, m (source, sink) = some te → getFid m ran source sink ∈ te.fids

theorem Good.sound (hd : Good g d) (hne : d.pathFlowMap.entries ≠ []) (hends : d.source ≠ d.sink) :
    (allPaths g edgeLID vertexILID d).Sound g edgeLID vertexILID d.source d.sink where
  route := forall_mem_map.2 (hd.route hends)
  length := by simp [allPaths]
  fid i path fid hpath hfid j := by
    rw [allPaths, getElem?_map, Option.map_eq_some_iff] at hpath hfid
    obtain ⟨x, hx, rfl⟩ := hpath
    obtain ⟨y, hy, rfl⟩ := hfid
    obtain rfl : x = y := Option.some.inj (hx.symm.trans hy)
    simp [fidOf, Bits.bit_orAll]
  probs := by
    have hpos : 0 < d.flow := by
      rw [hd.flow]
      exact sum_pos _ (forall_mem_map.2 hd.pos) (by simpa using hne)
    have hmap : (d.pathFlowMap.entries.map fun x => x.2 / d.flow) =
        d.pathFlowMap.entries.map fun x => x.2 * d.flow⁻¹ := by simp [div_eq_mul_inv]
    rw [allPaths, hmap, sum_map_mul_right, ← hd.flow]
    exact mul_inv_cancel₀ hpos.ne'
  pick m ran hm := by
    rw [getFid, hm]
    have hlt := @pick_lt ran 0 (d.pathFlowMap.entries.map (·.2 / d.flow)) (by simpa using hne)
    rw [length_map] at hlt
    dsimp only [allPaths]
    rw [getD_eq_getElem _ _ (by rwa [length_map])]
    exact getElem_mem _

theorem minCongestionFlow_good {c : FlowScales} {p₂ : FlowParams} {demands' : List MfDemand}
    (h : minCongestionFlow dj fuel c p₂ p demands = some demands') : ∀ d ∈ demands', Good g d := by
  obtain ⟨r, -, h⟩ := Option.bind_eq_some_iff.1 h
  obtain ⟨d₂, -, h⟩ := Option.bind_eq_some_iff.1 h
  obtain ⟨d₃, hd₃, h⟩ := Option.bind_eq_some_iff.1 h
  cases h
  refine forall_mem_map.2 fun d hd => Good.rescale ?_ c.pos.2.2.2
  obtain ⟨i, hi, rfl⟩ := getElem_of_mem hd
  rw [getElem_zipWith]
  have hi₃ : i < d₃.length := by
    rw [length_zipWith] at hi
    omega
  obtain ⟨hflow, hpos, hroute⟩ := maxConcurrentFlow_good hd₃ _ (getElem_mem hi₃)
  exact ⟨hflow, hpos, hroute⟩

theorem foldl_insertDemand_sound (hgood : ∀ d ∈ demands, Good g d) (huv : u ≠ v)
    (hm : ∀ te, m (u, v) = some te → te.Sound g edgeLID vertexILID u v)
    (hte : demands.foldl (insertDemand g edgeLID vertexILID) m (u, v) = some te) :
    te.Sound g edgeLID vertexILID u v := by
  induction demands generalizing m with
  | nil => exact hm te hte
  | cons d demands ih =>
    obtain ⟨hd, hgood⟩ := forall_mem_cons.1 hgood
    refine ih hgood (fun te hte => ?_) hte
    obtain hte | ⟨hkey, hnil, rfl⟩ := insertDemand_apply d hte
    · exact hm te hte
    · cases hkey
      exact hd.sound hnil huv

/-- **What `update_paths` gives.** Each path of a demand goes from its source to its sink, its FID
consists of its links and the internal link of the sink, the probabilities sum up to 1 and `get_fid`
gives one of the FIDs. -/
theorem updatePaths_sound (dj : Dijkstra g) (fuel : ℕ) (c : FlowScales) (p₂ p : FlowParams) (N : ℕ)
    (edgeLID vertexILID : ℕ → List.Vector UInt8 N) (measured : List MfDemand)
    (m : ℕ × ℕ → Option (TeMfDemand N)) (source sink : ℕ) (te : TeMfDemand N)
    (hm : updatePaths g dj fuel c p₂ p edgeLID vertexILID measured = some m)
    (hte : m (source, sink) = some te) (hne : source ≠ sink) :
    te.Sound g edgeLID vertexILID source sink := by
  obtain ⟨r, -, hm⟩ := Option.bind_eq_some_iff.1 hm
  obtain ⟨demands, hdemands, hm⟩ := Option.bind_eq_some_iff.1 hm
  cases hm
  exact foldl_insertDemand_sound (minCongestionFlow_good hdemands) hne (by simp) hte

def exampleScales : FlowScales where
  update := 1
  lambda := 1
  beta := 1
  congestion := 1
  pos := ⟨one_pos, one_pos, one_pos, one_pos⟩

theorem updatePaths_sound_exampleDemand : ∃ m te, updatePaths exampleNet exampleDijkstra 9
      exampleScales exampleParams exampleParams (Bits.single 32) (Bits.single 32) [exampleDemand] =
        some m ∧ m (0, 1) = some te ∧ te.Sound exampleNet (Bits.single 32) (Bits.single 32) 0 1 := by
  have hsome : ((updatePaths exampleNet exampleDijkstra 9 exampleScales exampleParams exampleParams
      (Bits.single 32) (Bits.single 32) [exampleDemand]).bind (· (0, 1))).isSome := by
    decide +kernel
  obtain ⟨te, hte⟩ := Option.isSome_iff_exists.1 hsome
  obtain ⟨m, hm, hte⟩ := Option.bind_eq_some_iff.1 hte
  exact ⟨m, te, hm, hte, updatePaths_sound exampleDijkstra 9 _ exampleParams exampleParams 32 _ _ _ m 0 1
    te hm hte Nat.zero_ne_one⟩

end

end Blackadder.MaxFlow
