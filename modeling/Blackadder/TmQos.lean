/-
**Priority planes.**

For each priority that was reported there is a vector of weights, indexed by the numbers of the
edges; a new priority makes one from their attributes. `updateGraph` renumbers the edges and does
not touch the vectors: they are right while the graph does not change and reports name links that
are there.
-/

import Blackadder.Runs
import Blackadder.TmUpdates
import Mathlib.Data.List.Induction
import Mathlib.Order.Bounds.Basic

namespace Blackadder

open List
open Except (bind_eq_ok)
open Function (update)

/-- The topology manager with `QoS_PRIO` of the edges, and `qlwm`. -/
structure QosTM where
  tm : TMIgraph
  prios : ℕ → Option UInt8
  qlwm : UInt8 → Option (List UInt8)

/-- The weight of a link in a plane: `UCHAR_MAX`, or `MAX_PRIO` without its priority. -/
def linkWeight (plane prio : UInt8) : UInt8 := if plane < prio then 255 else 100 - prio

inductive QosEvent
  | report (lid : FID) (prio : {p : UInt8 // p ≤ 100})
  | update (c : UpdateCall)

def QosEvent.reported (r : FID → UInt8) : QosEvent → FID → UInt8
  | report lid prio => Function.update r lid prio
  | update _ => r

namespace QosTM

variable (ig : Igraph) (junk : ℕ → UInt8) (q : QosTM)

/-- `createNewQoSLinkPrioMap`. An attribute that was never set counts as zero. -/
def createNewQoSLinkPrioMap (mapPrio : UInt8) : QosTM :=
  { q with qlwm := update q.qlwm mapPrio (some ((List.range q.tm.edges.length).map fun eid =>
      if (q.tm.edgeLID eid).isSome then
        if mapPrio ≥ (q.prios eid).getD 0 then 100 - (q.prios eid).getD 0 else 255
      else junk eid)) }

/-- `updateLinkState`. Looking up an unknown identifier adds it, with edge 0. -/
def updateLinkState (lid : FID) (lp : UInt8) : QosTM :=
  let eid := (q.tm.reverseEdgeIndex lid).getD 0
  let q₁ : QosTM :=
    { q with
      tm := { q.tm with reverseEdgeIndex := update q.tm.reverseEdgeIndex lid (some eid) }
      prios := update q.prios eid (some lp) }
  let q₂ := if (q.qlwm lp).isSome then q₁ else q₁.createNewQoSLinkPrioMap junk lp
  if eid ≥ ((q₂.qlwm lp).getD []).length then q₂
  else { q₂ with qlwm := fun p => (q₂.qlwm p).map (·.set eid (if p < lp then 255 else 100 - lp)) }

/-- `updateGraph`. The attributes stay with their edges, and new edges have none. -/
def updateGraph (c : UpdateCall) : QosTM :=
  match q.tm.updateGraph ig c.source c.destination c.bidirectional c.remove with
  | .ok (tm, true) =>
    let eids := (TMIgraph.pairs c.source c.destination c.bidirectional).filterMap fun v =>
      ig.eid q.tm.edges v.1 v.2
    let kept := (List.range q.tm.edges.length).filter fun eid => c.remove = false ∨ eid ∉ eids
    { q with tm := tm, prios := fun eid => kept[eid]?.bind q.prios }
  | _ => q

def step : QosEvent → QosTM
  | .report lid prio => q.updateLinkState junk lid prio
  | .update c => q.updateGraph ig c

def Weighted (r : FID → UInt8) : Prop :=
  ∀ p vec, q.qlwm p = some vec → vec = q.tm.edges.map fun a => linkWeight p (r a.label)

/-- A report names a link of the graph, which changes only while there is no plane. -/
def Careful : QosEvent → Prop
  | .report lid _ => ∃! i : ℕ, q.tm.edges[i]?.map Routes.Arc.label = some lid
  | .update c => (∀ p, q.qlwm p = none) ∨
    (c.remove = true ↔ ¬ HasEdge q.tm.edges (c.source, c.destination))

structure Sound (r : FID → UInt8) : Prop where
  edgeLID : q.tm.Indexed
  index : ∀ lid, q.tm.reverseEdgeIndex lid = q.tm.edges.findIdx? fun a => a.label = lid
  prios : ∀ i a, q.tm.edges[i]? = some a → (q.prios i).getD 0 = r a.label
  silent : (∀ p, q.qlwm p = none) → (∀ i, q.prios i = none) ∧ ∀ lid, r lid = 0
  weighted : q.Weighted r

variable {ig junk q} {r : FID → UInt8}

theorem Sound.updateGraph {c : UpdateCall} (h : q.Sound r) (hcar : q.Careful (.update c)) :
    (q.updateGraph ig c).Sound r := by
  rw [QosTM.updateGraph]
  split
  case h_2 => exact h
  case h_1 tm heq =>
    obtain ⟨-, ⟨hr, hedge, -, hok⟩ | ⟨hr, hedge, -, hok⟩ | ⟨-, hfal, -⟩⟩ :=
      TMIgraph.updateGraph_eq_ok_iff.1 heq
    case inr.inr => cases hfal
    all_goals
      have hnone : ∀ p, q.qlwm p = none := hcar.resolve_right (by simp [hr, hedge])
      obtain ⟨hprios, hzero⟩ := h.silent hnone
      obtain ⟨x, -, hx⟩ := bind_eq_ok.1 hok
      cases hx
      refine ⟨fun _ => rfl, fun _ => rfl, fun i a _ => ?_, fun _ => ⟨fun i => ?_, hzero⟩, ?_⟩
      · simp [hprios, hzero]
      · simp [hprios]
      · intro p vec hvec
        cases (hnone p).symm.trans hvec

def RightBut (E : List Link) (i : ℕ) (w : Link → UInt8) (vec : List UInt8) : Prop :=
  vec.length = E.length ∧ ∀ j b, j ≠ i → E[j]? = some b → vec[j]? = some (w b)

theorem RightBut.set {E : List Link} {vec : List UInt8} {i : ℕ} {a : Link} {w : Link → UInt8}
    (h : RightBut E i w vec) (hi : E[i]? = some a) : vec.set i (w a) = E.map w := by
  obtain ⟨hlt, -⟩ := List.getElem?_eq_some_iff.1 hi
  refine ext_getElem? fun j => ?_
  rw [getElem?_map]
  by_cases hj : j = i
  · rw [hj, hi, getElem?_set_self (h.1 ▸ hlt), Option.map_some]
  · rw [getElem?_set_ne (Ne.symm hj)]
    cases hb : E[j]? with
    | none => exact getElem?_eq_none (h.1 ▸ getElem?_eq_none_iff.1 hb)
    | some b => exact h.2 j b hj hb

theorem rightBut_map {E : List Link} {i : ℕ} {v w : Link → UInt8}
    (h : ∀ j b, j ≠ i → E[j]? = some b → v b = w b) : RightBut E i w (E.map v) := by
  refine ⟨length_map _, fun j b hj hb => ?_⟩
  rw [getElem?_map, hb, Option.map_some, h j b hj hb]

theorem createNewQoSLinkPrioMap_eq {p : UInt8} (hidx : q.tm.Indexed)
    (hprios : ∀ i a, q.tm.edges[i]? = some a → (q.prios i).getD 0 = r a.label) :
    q.createNewQoSLinkPrioMap junk p = { q with
      qlwm := update q.qlwm p (some (q.tm.edges.map fun a => linkWeight p (r a.label))) } := by
  refine congrArg (fun vec => { q with qlwm := update q.qlwm p (some vec) }) (ext_getElem? fun i => ?_)
  rw [getElem?_map, getElem?_map]
  cases ha : q.tm.edges[i]? with
  | none =>
    rw [getElem?_eq_none (by simpa using getElem?_eq_none_iff.1 ha)]
    rfl
  | some a =>
    obtain ⟨hlt, -⟩ := List.getElem?_eq_some_iff.1 ha
    rw [getElem?_range hlt, Option.map_some, hidx, ha, hprios i a ha]
    simp [linkWeight, ← UInt8.not_le]

theorem exists_planes {i : ℕ} (junk : ℕ → UInt8) (lp : UInt8) (hidx : q.tm.Indexed)
    (hprios : ∀ i a, q.tm.edges[i]? = some a → (q.prios i).getD 0 = r a.label)
    (hold : ∀ p vec, q.qlwm p = some vec →
      RightBut q.tm.edges i (fun a => linkWeight p (r a.label)) vec) :
    ∃ planes, (if (q.qlwm lp).isSome then q else q.createNewQoSLinkPrioMap junk lp) =
      { q with qlwm := planes } ∧ (∃ vec, planes lp = some vec) ∧ ∀ p vec, planes p = some vec →
        RightBut q.tm.edges i (fun a => linkWeight p (r a.label)) vec := by
  split
  · next hsome => exact ⟨_, rfl, Option.isSome_iff_exists.1 hsome, hold⟩
  · refine ⟨_, createNewQoSLinkPrioMap_eq hidx hprios, ⟨_, Function.update_self ..⟩, fun p vec hvec => ?_⟩
    by_cases hp : p = lp
    · rw [hp, Function.update_self] at hvec
      cases hvec
      exact hp ▸ rightBut_map fun _ _ _ _ => rfl
    · rw [Function.update_of_ne hp] at hvec
      exact hold p vec hvec

theorem Sound.updateLinkState {lid : FID} {lp : {p : UInt8 // p ≤ 100}} (h : q.Sound r)
    (hcar : q.Careful (.report lid lp)) :
    (q.updateLinkState junk lid lp).Sound (update r lid lp) := by
  obtain ⟨i, hi, huni⟩ := hcar
  obtain ⟨a, ha, hlid⟩ := Option.map_eq_some_iff.1 hi
  have hother : ∀ j b, j ≠ i → q.tm.edges[j]? = some b → b.label ≠ lid := fun j b hj hb heq =>
    hj (huni j (by simp [hb, heq]))
  have hfind : q.tm.reverseEdgeIndex lid = some i := by
    obtain ⟨hlt, hget⟩ := List.getElem?_eq_some_iff.1 ha
    rw [h.index, findIdx?_eq_some_iff_getElem]
    refine ⟨hlt, decide_eq_true (hget ▸ hlid), fun j hj hp => ?_⟩
    exact hother j _ hj.ne (getElem?_eq_getElem (hj.trans hlt)) (of_decide_eq_true hp)
  have hprios : ∀ j b, q.tm.edges[j]? = some b →
      (update q.prios i (some lp.1) j).getD 0 = update r lid lp b.label := by
    intro j b hb
    by_cases hj : j = i
    · obtain rfl : a = b := Option.some.inj (ha.symm.trans (hj ▸ hb))
      rw [hj, hlid, Function.update_self, Function.update_self, Option.getD_some]
    · rw [Function.update_of_ne hj, Function.update_of_ne (hother j b hj hb), h.prios j b hb]
  have hself : { q.tm with reverseEdgeIndex := update q.tm.reverseEdgeIndex lid (some i) } = q.tm := by
    rw [← hfind, Function.update_eq_self]
  -- all planes, with the one of the reported priority, are right but for the reported link
  obtain ⟨planes, heq, ⟨vec, hvec⟩, hright⟩ := exists_planes junk lp
    (q := ⟨q.tm, update q.prios i (some lp), q.qlwm⟩) h.edgeLID hprios fun p vec hvec => by
      rw [h.weighted p vec hvec]
      exact rightBut_map fun j b hj hb => by rw [Function.update_of_ne (hother j b hj hb)]
  have hlt : ¬ i ≥ vec.length := by
    rw [(hright lp vec hvec).1]
    exact not_le.2 (List.getElem?_eq_some_iff.1 ha).1
  simp only [QosTM.updateLinkState, hfind, Option.getD_some, hself, heq, hvec, if_neg hlt]
  refine ⟨h.edgeLID, h.index, hprios, fun hnone => ?_, fun p vec' hvec' => ?_⟩
  · have hlp := hnone lp
    simp [hvec] at hlp
  · obtain ⟨vec₀, hvec₀, rfl⟩ := Option.map_eq_some_iff.1 hvec'
    rw [← (hright p vec₀ hvec₀).set ha, hlid, Function.update_self, linkWeight]

theorem Sound.run (actions : List QosEvent) :
    ∀ (q : QosTM) r, q.Sound r → Runs.Along (step ig junk) Careful q actions →
      (actions.foldl (step ig junk) q).Sound (actions.foldl QosEvent.reported r) := by
  induction actions with
  | nil =>
    intro q r h _
    exact h
  | cons e actions ih =>
    intro q r h halong
    refine ih _ _ ?_ halong.2
    cases e with
    | report lid prio => exact h.updateLinkState halong.1
    | update c => exact h.updateGraph halong.1

/-- **The weights are right** throughout a run of careful steps. -/
theorem weighted_run {nodes : ListSet NodeID} {iLID : NodeID → FID} {edges : List Link}
    {nodeID rvNodeID : NodeID} {rs : Bool} (actions : List QosEvent)
    (h : Runs.Along (step ig junk) Careful
      ⟨.readTopology nodes iLID edges nodeID rvNodeID rs, fun _ => none, fun _ => none⟩ actions) :
    (actions.foldl (step ig junk)
      ⟨.readTopology nodes iLID edges nodeID rvNodeID rs, fun _ => none, fun _ => none⟩).Weighted
        (actions.foldl QosEvent.reported fun _ => 0) := by
  refine (Sound.run actions _ _ ?_ h).weighted
  exact ⟨fun _ => rfl, fun _ => rfl, fun _ _ _ => rfl, fun _ => ⟨fun _ => rfl, fun _ => rfl⟩, nofun⟩

/-- A report about one of two links. -/
theorem weighted_run_report : ([.report (Bits.single fidLen 0) ⟨5, by decide⟩].foldl
    (step .search fun _ => 0) ⟨TMIgraph.examplePairTM, fun _ => none, fun _ => none⟩).Weighted
      (update (fun _ => 0) (Bits.single fidLen 0) 5) := by
  refine weighted_run [.report (Bits.single fidLen 0) ⟨5, by decide⟩] ⟨⟨0, rfl, fun i hi => ?_⟩, trivial⟩
  match i with
  | 0 => rfl
  | i + 2 => cases hi

/-- A link is removed after it was reported: the plane keeps both weights. -/
theorem not_weighted_removed :
    ¬ ([.report (Bits.single fidLen 0) ⟨5, by decide⟩, .update ⟨.ofByte 1, .ofByte 2, true, true⟩].foldl
      (step .search fun _ => 0) ⟨TMIgraph.examplePairTM, fun _ => none, fun _ => none⟩).Weighted
        (update (fun _ => 0) (Bits.single fidLen 0) 5) := by
  intro h
  have hlen := congrArg length (h 5 [95, 100] (by decide +kernel))
  revert hlen
  decide +kernel

/-! ### The plane for a priority -/

section
variable (q : QosTM) (prio : UInt8)

/-- The keys of `qlwm`, in the order of its iterator. -/
def planes : List UInt8 :=
  ((List.range 256).map UInt8.ofNat).filter fun key => (q.qlwm key).isSome

/-- The body of the search, on `netprio` and `mindist`. -/
def nearer (best : UInt8 × ℤ) (key : UInt8) : UInt8 × ℤ :=
  if key > prio then best
  else if (prio.toNat : ℤ) - key.toNat < best.2 then (key, prio.toNat - key.toNat) else best

/-- The search, with the sentinel distance. -/
def nearest (ks : List UInt8) : UInt8 × ℤ := ks.foldl (nearer prio) (0, 10000)

def getWeightKeyForIIPrio : UInt8 :=
  if (q.qlwm prio).isSome then prio else (nearest prio q.planes).1

def isQoSMapOk : Bool := (q.qlwm 0).isSome

variable {q prio}

theorem nearest_spec (ks : List UInt8) : (∀ k ∈ ks, prio < k) ∧ (nearest prio ks).2 = 10000 ∨
    (∀ k ∈ ks, k ≤ prio → k ≤ (nearest prio ks).1) ∧ (nearest prio ks).1 ∈ ks ∧
      (nearest prio ks).1 ≤ prio ∧ (nearest prio ks).2 = prio.toNat - (nearest prio ks).1.toNat := by
  induction ks using reverseRecOn with
  | nil => exact .inl ⟨by simp, rfl⟩
  | append_singleton ks key ih =>
    rw [nearest, foldl_concat, ← nearest, nearer]
    have hlt := prio.toNat_lt
    simp only [UInt8.lt_iff_toNat_lt, UInt8.le_iff_toNat_le] at ih ⊢
    grind

theorem isGreatest_getWeightKeyForIIPrio (h : ∃ k ≤ prio, (q.qlwm k).isSome) :
    IsGreatest {k | (q.qlwm k).isSome ∧ k ≤ prio} (q.getWeightKeyForIIPrio prio) := by
  obtain ⟨k, hle, hk⟩ := h
  have hkeys : ∀ key, key ∈ q.planes ↔ (q.qlwm key).isSome := by
    intro key
    simp only [planes, mem_filter, mem_map, mem_range, and_iff_right_iff_imp]
    exact fun _ => ⟨key.toNat, key.toNat_lt, UInt8.ofNat_toNat⟩
  rw [getWeightKeyForIIPrio]
  split_ifs with hp
  · exact ⟨⟨hp, UInt8.le_refl _⟩, fun k hk => hk.2⟩
  · obtain ⟨h, -⟩ | ⟨hmax, hmem, hle, -⟩ := @nearest_spec prio q.planes
    · exact absurd (h k ((hkeys k).2 hk)) (UInt8.not_lt.2 hle)
    · exact ⟨⟨(hkeys _).1 hmem, hle⟩, fun k hk => hmax k ((hkeys k).2 hk.1) hk.2⟩

/-- The search finds the greatest key that is not above the priority if there is one, which is so
when the default plane is there. -/
theorem getWeightKeyForIIPrio_isGreatest_iff (q : QosTM) (prio : UInt8) :
    (IsGreatest {k | (q.qlwm k).isSome ∧ k ≤ prio} (q.getWeightKeyForIIPrio prio) ↔
      ∃ k ≤ prio, (q.qlwm k).isSome) ∧
    (q.isQoSMapOk → (q.qlwm (q.getWeightKeyForIIPrio prio)).isSome) :=
  ⟨⟨fun h => ⟨_, h.1.2, h.1.1⟩, isGreatest_getWeightKeyForIIPrio⟩,
    fun hok => (isGreatest_getWeightKeyForIIPrio ⟨0, UInt8.zero_le, hok⟩).1.1⟩

def exampleHighPlane : QosTM :=
  ⟨TMIgraph.examplePairTM, fun _ => none, update (fun _ => none) 5 (some [])⟩

theorem not_greatest_highPlane : ¬ IsGreatest
    {k | (exampleHighPlane.qlwm k).isSome ∧ k ≤ 3} (exampleHighPlane.getWeightKeyForIIPrio 3) :=
  fun h => absurd h.1.1 (by decide +kernel)

end

end QosTM

end Blackadder
