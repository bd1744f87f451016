/-
**The tables of forwarding identifiers.**

An identifier fits the graph when it is zero exactly if there is no path, and else contains a path
and the internal link of its end. After a failure a node that is not reached is taken to be
isolated: its identifiers are set to zero even if paths from it remain. After a restoration only
nodes without an identifier are looked at: one that now reaches the others again may keep a zero.
-/

import Blackadder.TmLinkState
import Blackadder.TmPaths

namespace Blackadder

open List
open Bits (isZero zeros)
open Except (bind_eq_ok ok_bind)
open TMIgraph (nodeID rvNodeID nodes iLID)

/-! ### One identifier -/

/-- The identifier fits the graph, for a path from `u` to `w`. -/
structure Fits (E : List Link) (iLID : NodeID → FID) (u w : NodeID) (fid : FID) : Prop where
  zero_iff : fid = zeros fidLen ↔ ¬ Routes.Reach E u w
  path : Routes.Reach E u w → ∃ l, Routes.Walk E u w l ∧
    (∀ a ∈ l, Bits.Contains fid a.label) ∧ Bits.Contains fid (iLID w)

section
variable {E E' : List Link} {iLID : NodeID → FID} {u w : NodeID} {fid new : FID}
  {freed : List FID}

theorem fits_zeros_iff : Fits E iLID u w (zeros fidLen) ↔ ¬ Routes.Reach E u w := by
  constructor
  · intro h
    exact h.zero_iff.1 rfl
  · intro hnot
    exact ⟨iff_of_true rfl hnot, fun hreach => absurd hreach hnot⟩

/-- **Links were added**: an identifier fits if there is a path only where there was one. -/
theorem Fits.of_subset (h : Fits E iLID u w fid) (hsub : ∀ a ∈ E, a ∈ E') :
    Fits E' iLID u w fid ↔ (Routes.Reach E' u w → Routes.Reach E u w) := by
  constructor
  · intro h' hreach
    by_contra hnot
    exact h'.zero_iff.1 (h.zero_iff.2 hnot) hreach
  · intro hback
    have hiff : Routes.Reach E' u w ↔ Routes.Reach E u w := ⟨hback, fun hr => hr.mono hsub⟩
    refine ⟨by rw [h.zero_iff, hiff], ?_⟩
    intro hreach
    obtain ⟨l, hl, hlab, hself⟩ := h.path (hback hreach)
    exact ⟨l, hl.mono fun a ha => hsub a (hl.mem ha), hlab, hself⟩

/-- An identifier after a failure: it is replaced when it contains a link that is gone. -/
def refresh (new : FID) (freed : List FID) (fid : FID) : FID :=
  freed.foldl (fun fid lid => if Bits.Contains fid lid then new else fid) fid

theorem refresh_eq : refresh new freed fid =
    if ∃ lid ∈ freed, Bits.Contains fid lid then new else fid := by
  induction freed generalizing fid with
  | nil => simp [refresh]
  | cons lid freed ih =>
    have hcons : refresh new (lid :: freed) fid =
        refresh new freed (if Bits.Contains fid lid then new else fid) := rfl
    rw [hcons, ih]
    by_cases hlid : Bits.Contains fid lid
    · simp [hlid]
    · simp [hlid]

/-- **Links are gone**: an identifier fits when it contains none, or was computed anew. -/
theorem Fits.refresh (h : Fits E iLID u w fid) (hnew : Fits E' iLID u w new)
    (hsub : ∀ a ∈ E', a ∈ E) (hfreed : ∀ a ∈ E, a ∉ E' → a.label ∈ freed) :
    Fits E' iLID u w (refresh new freed fid) := by
  rw [refresh_eq]
  split
  · exact hnew
  case isFalse hnone =>
    -- a path whose links are contained in the identifier has none of the links that are gone
    have hwalk : ∀ l, Routes.Walk E u w l → (∀ a ∈ l, Bits.Contains fid a.label) →
        Routes.Walk E' u w l := by
      intro l hl hlab
      refine hl.mono fun a ha => ?_
      by_contra hgone
      exact hnone ⟨a.label, hfreed a (hl.mem ha) hgone, hlab a ha⟩
    have hiff : Routes.Reach E' u w ↔ Routes.Reach E u w := by
      refine ⟨fun hr => hr.mono hsub, fun hr => ?_⟩
      obtain ⟨l, hl, hlab, -⟩ := h.path hr
      exact ⟨l, hwalk l hl hlab⟩
    refine ⟨by rw [h.zero_iff, hiff], ?_⟩
    intro hreach
    obtain ⟨l, hl, hlab, hself⟩ := h.path (hiff.1 hreach)
    exact ⟨l, hwalk l hl hlab, hlab, hself⟩

end

structure NodeFIDs where
  fromTM : FID
  toRV : FID
  toTM : FID

namespace TMIgraph

variable {tm tm' : TMIgraph} {ig : Igraph} {u w n : NodeID}

def fids (tm : TMIgraph) (n : NodeID) : NodeFIDs := ⟨tm.tmToNodeFID n, tm.rvFID n, tm.tmFID n⟩

structure FitAt (tm : TMIgraph) (n : NodeID) (x : NodeFIDs) : Prop where
  fromTM : Fits tm.edges tm.iLID tm.nodeID n x.fromTM
  toRV : Fits tm.edges tm.iLID n tm.rvNodeID x.toRV
  toTM : Fits tm.edges tm.iLID n tm.nodeID x.toTM

/-- **All tables fit the graph.** -/
def TablesFit (tm : TMIgraph) : Prop := ∀ n ∈ tm.nodes, tm.FitAt n (tm.fids n)

/-- The two managers have their nodes, and no internal link identifier is zero. -/
structure Sound (tm : TMIgraph) : Prop where
  nodeID : tm.nodeID ∈ tm.nodes
  rvNodeID : tm.rvNodeID ∈ tm.nodes
  iLID : ∀ n ∈ tm.nodes, tm.iLID n ≠ zeros fidLen

theorem calculateFID_fits (ig : Igraph) (hu : u ∈ tm.nodes) (hw : w ∈ tm.nodes)
    (hself : tm.iLID w ≠ zeros fidLen) :
    ∃ fid, tm.calculateFID ig u w = .ok fid ∧ Fits tm.edges tm.iLID u w fid := by
  rw [calculateFID, vertex_of_mem hu, vertex_of_mem hw]
  simp only [ok_bind]
  obtain ⟨l, hl, hpath, hor⟩ | ⟨hnot, hpath⟩ := ig.path_cases (fun _ => rfl) (zeros fidLen)
  · have hreach : Routes.Reach tm.edges u w := ⟨l, hl.walk⟩
    have hcon := contains_pathFID_iff.1 (Bits.contains_refl (tm.pathFID w l))
    refine ⟨tm.pathFID w l, ?_, ⟨?_, fun _ => ⟨l, hl.walk, hcon⟩⟩⟩
    · rw [hor, hpath]
      simp [Routes.vertices, pathFID]
    · refine iff_of_false (fun hzero => hself ?_) fun hnot => hnot hreach
      exact Bits.eq_zeros_of_contains (hzero ▸ hcon.2)
  · refine ⟨zeros fidLen, ?_, fits_zeros_iff.2 hnot⟩
    rw [hpath]
    rfl

/-! ### The loops over the nodes -/

def withoutTables (tm : TMIgraph) : TMIgraph :=
  { tm with
    tmToNodeFID := fun _ => zeros fidLen
    rvFID := fun _ => zeros fidLen
    tmFID := fun _ => zeros fidLen }

theorem calculateFID_congr (h : tm'.withoutTables = tm.withoutTables) :
    tm'.calculateFID ig u w = tm.calculateFID ig u w := by
  have hread : ∀ x : TMIgraph, x.calculateFID ig u w = x.withoutTables.calculateFID ig u w :=
    fun _ => rfl
  rw [hread tm', h, ← hread]

theorem fitAt_congr {x : NodeFIDs} (h : tm'.withoutTables = tm.withoutTables) :
    tm'.FitAt n x ↔ tm.FitAt n x := by
  have hread : ∀ y : TMIgraph, y.FitAt n x ↔ y.withoutTables.FitAt n x := fun _ =>
    ⟨fun hfit => ⟨hfit.fromTM, hfit.toRV, hfit.toTM⟩,
      fun hfit => ⟨hfit.fromTM, hfit.toRV, hfit.toTM⟩⟩
  rw [hread tm', h, ← hread]

/-- The tables are written at `n` only. -/
structure Writes (n : NodeID) (g : NodeID → NodeFIDs → NodeFIDs) (tm tm' : TMIgraph) : Prop where
  same : tm'.withoutTables = tm.withoutTables
  fids : ∀ m, tm'.fids m = if m = n then g m (tm.fids m) else tm.fids m

section
variable {tm'' : TMIgraph} {g g' : NodeID → NodeFIDs → NodeFIDs} {x : FID}

theorem Writes.refl : Writes n (fun _ y => y) tm tm := ⟨rfl, fun _ => (ite_self _).symm⟩

theorem Writes.trans (h : Writes n g tm tm') (h' : Writes n g' tm' tm'') :
    Writes n (fun m y => g' m (g m y)) tm tm'' := by
  refine ⟨h'.same.trans h.same, fun m => ?_⟩
  rw [h'.fids, h.fids]
  by_cases hm : m = n <;> simp [hm]

theorem Writes.congr (h : Writes n g tm tm') (heq : g n (tm.fids n) = g' n (tm.fids n)) :
    Writes n g' tm tm' := by
  refine ⟨h.same, fun m => ?_⟩
  rw [h.fids]
  by_cases hm : m = n
  · rw [if_pos hm, if_pos hm, hm, heq]
  · rw [if_neg hm, if_neg hm]

theorem writes_setTMToNodeFID :
    Writes n (fun _ y => { y with fromTM := x }) tm (tm.setTMToNodeFID n x) :=
  ⟨rfl, fun m => by by_cases hm : m = n <;> simp [fids, setTMToNodeFID, hm]⟩

theorem writes_setRVFID : Writes n (fun _ y => { y with toRV := x }) tm (tm.setRVFID n x) :=
  ⟨rfl, fun m => by by_cases hm : m = n <;> simp [fids, setRVFID, hm]⟩

theorem writes_setTMFID : Writes n (fun _ y => { y with toTM := x }) tm (tm.setTMFID n x) :=
  ⟨rfl, fun m => by by_cases hm : m = n <;> simp [fids, setTMFID, hm]⟩

end

variable {handler : LinkStateHandler} {freed : List FID} {st : LinkStateRun} {new : FID} (lid : FID)

theorem foldlM_writes {f : LinkStateRun → FID → Except TmFault LinkStateRun}
    {g : NodeFIDs → FID → NodeFIDs} (hst : st.tm.withoutTables = tm.withoutTables)
    (hf : ∀ st lid, st.tm.withoutTables = tm.withoutTables →
      ∃ st', f st lid = .ok st' ∧ Writes n (fun _ y => g y lid) st.tm st'.tm) (freed : List FID) :
    ∃ st', freed.foldlM f st = .ok st' ∧ Writes n (fun _ => freed.foldl g) st.tm st'.tm := by
  induction freed generalizing st with
  | nil => exact ⟨st, rfl, .refl⟩
  | cons lid freed ih =>
    obtain ⟨st₁, h₁, hw₁⟩ := hf st lid hst
    obtain ⟨st₂, h₂, hw₂⟩ := ih (hw₁.same.trans hst)
    exact ⟨st₂, by rw [foldlM_cons, h₁, ok_bind, h₂], hw₁.trans hw₂⟩

theorem refreshTMToNode_writes (handler : LinkStateHandler)
    (hcalc : st.tm.calculateFID ig st.tm.nodeID n = .ok new) :
    ∃ st', refreshTMToNode ig handler n st lid = .ok st' ∧
      Writes n (fun _ y => { y with fromTM := refresh new [lid] y.fromTM }) st.tm st'.tm := by
  rw [refreshTMToNode]
  by_cases hlid : Bits.Contains (st.tm.tmToNodeFID n) lid
  · rw [if_pos hlid, hcalc]
    exact ⟨_, rfl, writes_setTMToNodeFID.congr (by simp [fids, refresh, hlid])⟩
  · rw [if_neg hlid]
    exact ⟨_, rfl, Writes.refl.congr (by simp [fids, refresh, hlid])⟩

theorem refreshRV_writes (hcalc : st.tm.calculateFID ig n st.tm.rvNodeID = .ok new) :
    ∃ st', refreshRV ig n st lid = .ok st' ∧
      Writes n (fun _ y => { y with toRV := refresh new [lid] y.toRV }) st.tm st'.tm := by
  rw [refreshRV]
  by_cases hlid : Bits.Contains (st.tm.rvFID n) lid
  · rw [if_pos hlid, hcalc]
    exact ⟨_, rfl, writes_setRVFID.congr (by simp [fids, refresh, hlid])⟩
  · rw [if_neg hlid]
    exact ⟨_, rfl, Writes.refl.congr (by simp [fids, refresh, hlid])⟩

theorem refreshTM_writes (hcalc : st.tm.calculateFID ig n st.tm.nodeID = .ok new) :
    ∃ st', refreshTM ig n st lid = .ok st' ∧
      Writes n (fun _ y => { y with toTM := refresh new [lid] y.toTM }) st.tm st'.tm := by
  rw [refreshTM]
  by_cases hlid : Bits.Contains (st.tm.tmFID n) lid
  · rw [if_pos hlid, hcalc]
    exact ⟨_, rfl, writes_setTMFID.congr (by simp [fids, refresh, hlid])⟩
  · rw [if_neg hlid]
    exact ⟨_, rfl, Writes.refl.congr (by simp [fids, refresh, hlid])⟩

def computed (tm : TMIgraph) (ig : Igraph) (u w : NodeID) : FID :=
  (tm.calculateFID ig u w).toOption.getD (zeros fidLen)

theorem computed_spec (ig : Igraph) (hs : tm.Sound) (hu : u ∈ tm.nodes) (hw : w ∈ tm.nodes) :
    tm.calculateFID ig u w = .ok (tm.computed ig u w) ∧
      Fits tm.edges tm.iLID u w (tm.computed ig u w) := by
  obtain ⟨fid, hcalc, hfits⟩ := calculateFID_fits ig hu hw (hs.iLID w hw)
  have hcom : tm.computed ig u w = fid := by
    rw [computed, hcalc]
    rfl
  rw [hcom]
  exact ⟨hcalc, hfits⟩

def afterFailure (tm : TMIgraph) (ig : Igraph) (freed : List FID) (n : NodeID) (x : NodeFIDs) :
    NodeFIDs :=
  let fromTM := refresh (tm.computed ig tm.nodeID n) freed x.fromTM
  if isZero fromTM then ⟨fromTM, zeros fidLen, zeros fidLen⟩
  else ⟨fromTM, refresh (tm.computed ig n tm.rvNodeID) freed x.toRV,
    refresh (tm.computed ig n tm.nodeID) freed x.toTM⟩

def afterRestoration (tm : TMIgraph) (ig : Igraph) (n : NodeID) (x : NodeFIDs) : NodeFIDs :=
  if isZero x.fromTM && !isZero (tm.computed ig tm.nodeID n) then
    ⟨tm.computed ig tm.nodeID n, tm.computed ig n tm.rvNodeID, tm.computed ig n tm.nodeID⟩
  else x

theorem foldl_fromTM : freed.foldl (fun y lid => { y with fromTM := refresh new [lid] y.fromTM }) =
    fun y : NodeFIDs => { y with fromTM := refresh new freed y.fromTM } := by
  funext y
  induction freed generalizing y with
  | nil => rfl
  | cons lid freed ih => exact ih _

theorem foldl_toRVTM {newRV newTM : FID} (y : NodeFIDs) :
    freed.foldl (fun y lid => ⟨y.fromTM, refresh newRV [lid] y.toRV, refresh newTM [lid] y.toTM⟩) y =
      ⟨y.fromTM, refresh newRV freed y.toRV, refresh newTM freed y.toTM⟩ := by
  induction freed generalizing y with
  | nil => rfl
  | cons lid freed ih => exact ih _

theorem computed_of_same (ig : Igraph) (hs : tm.Sound) (hn : n ∈ tm.nodes)
    (hsame : tm'.withoutTables = tm.withoutTables) :
    tm'.calculateFID ig tm'.nodeID n = .ok (tm.computed ig tm.nodeID n) ∧
    tm'.calculateFID ig n tm'.rvNodeID = .ok (tm.computed ig n tm.rvNodeID) ∧
    tm'.calculateFID ig n tm'.nodeID = .ok (tm.computed ig n tm.nodeID) := by
  have hnod : tm'.nodeID = tm.nodeID := (congrArg nodeID hsame :)
  have hrv : tm'.rvNodeID = tm.rvNodeID := (congrArg rvNodeID hsame :)
  rw [calculateFID_congr hsame, calculateFID_congr hsame, calculateFID_congr hsame, hnod, hrv]
  exact ⟨(computed_spec ig hs hs.nodeID hn).1, (computed_spec ig hs hn hs.rvNodeID).1,
    (computed_spec ig hs hn hs.nodeID).1⟩

theorem failureAt_spec (ig : Igraph) (handler : LinkStateHandler) (hs : tm.Sound)
    (hn : n ∈ tm.nodes) (hne : freed ≠ []) (hsame : st.tm.withoutTables = tm.withoutTables) :
    ∃ st', failureAt ig handler freed st n = .ok st' ∧
      Writes n (tm.afterFailure ig freed) st.tm st'.tm := by
  have hempty : freed.isEmpty = false := by simpa using hne
  obtain ⟨st₁, h₁, hw₁⟩ := foldlM_writes hsame (fun st lid hst =>
    refreshTMToNode_writes lid handler (computed_of_same ig hs hn hst).1) freed
  rw [foldl_fromTM] at hw₁
  have hx : st₁.tm.tmToNodeFID n =
      refresh (tm.computed ig tm.nodeID n) freed (st.tm.tmToNodeFID n) := by
    simpa [fids] using congrArg NodeFIDs.fromTM (hw₁.fids n)
  rw [failureAt, hempty]
  simp only [h₁, ok_bind, hx]
  by_cases hzero : isZero (refresh (tm.computed ig tm.nodeID n) freed (st.tm.tmToNodeFID n)) = true
  · rw [if_pos hzero]
    refine ⟨_, rfl, ((hw₁.trans writes_setRVFID).trans writes_setTMFID).congr ?_⟩
    simp [afterFailure, fids, hzero]
  · rw [if_neg hzero]
    obtain ⟨st₂, h₂, hw₂⟩ := foldlM_writes (hw₁.same.trans hsame) (fun st lid hst => by
      obtain ⟨-, hrv, -⟩ := computed_of_same ig hs hn hst
      obtain ⟨st₁, h₁, hw₁⟩ := refreshRV_writes lid hrv
      obtain ⟨st₂, h₂, hw₂⟩ :=
        refreshTM_writes lid (computed_of_same ig hs hn (hw₁.same.trans hst)).2.2
      exact ⟨st₂, bind_eq_ok.2 ⟨_, h₁, h₂⟩, hw₁.trans hw₂⟩) freed
    rw [h₂]
    refine ⟨_, rfl, (hw₁.trans hw₂).congr ?_⟩
    simp [afterFailure, fids, hzero, foldl_toRVTM]

theorem restorationAt_spec (ig : Igraph) (hs : tm.Sound) (hn : n ∈ tm.nodes)
    (hsame : st.tm.withoutTables = tm.withoutTables) :
    ∃ st', restorationAt ig st n = .ok st' ∧ Writes n (tm.afterRestoration ig) st.tm st'.tm := by
  obtain ⟨hfrom, hrv, hto⟩ := computed_of_same ig hs hn hsame
  rw [restorationAt]
  by_cases hzero : isZero (st.tm.tmToNodeFID n) = true
  case neg =>
    rw [if_neg hzero]
    exact ⟨st, rfl, Writes.refl.congr (by simp [afterRestoration, fids, hzero])⟩
  rw [if_pos hzero, hfrom, ok_bind]
  by_cases hnew : isZero (tm.computed ig tm.nodeID n) = true
  · rw [if_pos hnew]
    exact ⟨st, rfl, Writes.refl.congr (by simp [afterRestoration, hnew])⟩
  · rw [if_neg hnew]
    -- the tables that were set are not read
    have hrv' : (st.tm.setTMToNodeFID n (tm.computed ig tm.nodeID n)).calculateFID ig n
        st.tm.rvNodeID = .ok (tm.computed ig n tm.rvNodeID) := hrv
    have hto' : ((st.tm.setTMToNodeFID n (tm.computed ig tm.nodeID n)).setRVFID n
        (tm.computed ig n tm.rvNodeID)).calculateFID ig n st.tm.nodeID =
          .ok (tm.computed ig n tm.nodeID) := hto
    refine ⟨_, bind_eq_ok.2 ⟨_, hrv', bind_eq_ok.2 ⟨_, hto', rfl⟩⟩,
      ((writes_setTMToNodeFID.trans writes_setRVFID).trans writes_setTMFID).congr ?_⟩
    simp [afterRestoration, fids, hzero, hnew]

/-! ### All tables -/

section
variable {E : List Link}

/-- **A failure**: then the identifiers of a node fit unless it is not reached but still reaches the
rendezvous element or the topology manager. -/
theorem afterFailure_fitAt_iff (ig : Igraph) (hs : tm.Sound) (hn : n ∈ tm.nodes) {x : NodeFIDs}
    (hsub : ∀ a ∈ tm.edges, a ∈ E) (hfreed : ∀ a ∈ E, a ∉ tm.edges → a.label ∈ freed)
    (hfrom : Fits E tm.iLID tm.nodeID n x.fromTM) (hrv : Fits E tm.iLID n tm.rvNodeID x.toRV)
    (hto : Fits E tm.iLID n tm.nodeID x.toTM) :
    tm.FitAt n (tm.afterFailure ig freed n x) ↔ (¬ Routes.Reach tm.edges tm.nodeID n →
        ¬ Routes.Reach tm.edges n tm.rvNodeID ∧ ¬ Routes.Reach tm.edges n tm.nodeID) := by
  have hfrom' := hfrom.refresh (computed_spec ig hs hs.nodeID hn).2 hsub hfreed
  have hrv' := hrv.refresh (computed_spec ig hs hn hs.rvNodeID).2 hsub hfreed
  have hto' := hto.refresh (computed_spec ig hs hn hs.nodeID).2 hsub hfreed
  have hzero := Bits.isZero_iff_eq.trans hfrom'.zero_iff
  rw [afterFailure]
  by_cases hreach : Routes.Reach tm.edges tm.nodeID n
  · rw [if_neg (by rw [hzero]; exact fun hnot => hnot hreach)]
    exact iff_of_true ⟨hfrom', hrv', hto'⟩ fun hnot => absurd hreach hnot
  · rw [if_pos (hzero.2 hreach)]
    constructor
    · intro hfit _
      exact ⟨fits_zeros_iff.1 hfit.toRV, fits_zeros_iff.1 hfit.toTM⟩
    · intro hnone
      exact ⟨hfrom', fits_zeros_iff.2 (hnone hreach).1, fits_zeros_iff.2 (hnone hreach).2⟩

/-- **A restoration**, as `afterFailure_fitAt_iff`. -/
theorem afterRestoration_fitAt_iff (ig : Igraph) (hs : tm.Sound) (hn : n ∈ tm.nodes) {x : NodeFIDs}
    (hsub : ∀ a ∈ E, a ∈ tm.edges) (hfrom : Fits E tm.iLID tm.nodeID n x.fromTM)
    (hrv : Fits E tm.iLID n tm.rvNodeID x.toRV) (hto : Fits E tm.iLID n tm.nodeID x.toTM) :
    tm.FitAt n (tm.afterRestoration ig n x) ↔
      ¬ Routes.Reach E tm.nodeID n ∧ Routes.Reach tm.edges tm.nodeID n ∨
      (Routes.Reach tm.edges n tm.rvNodeID → Routes.Reach E n tm.rvNodeID) ∧
        (Routes.Reach tm.edges n tm.nodeID → Routes.Reach E n tm.nodeID) := by
  have hfrom' := (computed_spec ig hs hs.nodeID hn).2
  have hzero : isZero x.fromTM = true ↔ ¬ Routes.Reach E tm.nodeID n :=
    Bits.isZero_iff_eq.trans hfrom.zero_iff
  have hnew : isZero (tm.computed ig tm.nodeID n) = true ↔
      ¬ Routes.Reach tm.edges tm.nodeID n := Bits.isZero_iff_eq.trans hfrom'.zero_iff
  rw [afterRestoration]
  by_cases hfirst : ¬ Routes.Reach E tm.nodeID n ∧ Routes.Reach tm.edges tm.nodeID n
  · have hcond : (isZero x.fromTM && !isZero (tm.computed ig tm.nodeID n)) = true := by
      rw [Bool.and_eq_true, Bool.not_eq_true', ← Bool.not_eq_true, hzero, hnew, not_not]
      exact hfirst
    rw [if_pos hcond]
    exact iff_of_true ⟨hfrom', (computed_spec ig hs hn hs.rvNodeID).2,
      (computed_spec ig hs hn hs.nodeID).2⟩ (.inl hfirst)
  · have hcond : ¬ (isZero x.fromTM && !isZero (tm.computed ig tm.nodeID n)) = true := by
      rw [Bool.and_eq_true, Bool.not_eq_true', ← Bool.not_eq_true, hzero, hnew, not_not]
      exact hfirst
    have hback : Routes.Reach tm.edges tm.nodeID n → Routes.Reach E tm.nodeID n := by
      intro hreach
      by_contra hnot
      exact hfirst ⟨hnot, hreach⟩
    rw [if_neg hcond, or_iff_right hfirst, ← hrv.of_subset hsub, ← hto.of_subset hsub]
    constructor
    · intro hfit
      exact ⟨hfit.toRV, hfit.toTM⟩
    · intro hfit
      exact ⟨(hfrom.of_subset hsub).2 hback, hfit.1, hfit.2⟩

end

end TMIgraph

def LinkStateHandler.Known (handler : LinkStateHandler) (nodes : ListSet NodeID) : Prop :=
  match handler with
  | .PM _ => True
  | .RM rmNodeID => rmNodeID ∈ nodes

namespace LinkStateNotification

def call (c : LinkStateNotification) (n : NodeID) : UpdateCall :=
  ⟨n, c.requestPublisher, decide (c.netType ≠ 0), decide (c.lsnType = removeLink)⟩

/-- After a failure, a node that is not reached reaches neither manager. After a restoration, a
node that reaches one of them for the first time is reached for the first time. -/
def KeepsPaths (c : LinkStateNotification) (tm tm' : TMIgraph) : Prop :=
  ∀ n ∈ tm.nodes, if c.lsnType = removeLink then
      (¬ Routes.Reach tm'.edges tm.nodeID n →
        ¬ Routes.Reach tm'.edges n tm.rvNodeID ∧ ¬ Routes.Reach tm'.edges n tm.nodeID)
    else
      ¬ Routes.Reach tm.edges tm.nodeID n ∧ Routes.Reach tm'.edges tm.nodeID n ∨
      (Routes.Reach tm'.edges n tm.rvNodeID → Routes.Reach tm.edges n tm.rvNodeID) ∧
        (Routes.Reach tm'.edges n tm.nodeID → Routes.Reach tm.edges n tm.nodeID)

/-- **A harmless notification**: both nodes are read and known, the change is allowed, and it
respects the paths. -/
def Harmless (c : LinkStateNotification) (ig : Igraph) (tm : TMIgraph) : Prop :=
  ∃ n, c.affectedNode = .ok n ∧ n ∈ tm.nodes ∧ c.requestPublisher ∈ tm.nodes ∧
    (c.call n).Allowed tm ∧
    ∀ tm', tm.updateGraph ig n c.requestPublisher (c.call n).bidirectional (c.call n).remove =
      .ok (tm', true) → c.KeepsPaths tm tm'

end LinkStateNotification

namespace TMIgraph

variable {tm tm' tm₁ : TMIgraph} {ig : Igraph} {n s d : NodeID} {b : Bool}
  {handler : LinkStateHandler} {c : LinkStateNotification} {initial : List Link}

/-! ### One notification -/

theorem announceFailure_ok (c : LinkStateNotification) (n : NodeID) (freed : List FID)
    {st : LinkStateRun} (hk : handler.Known st.tm.nodes) :
    ∃ out, announceFailure handler c n freed st = .ok out := by
  match handler with
  | .PM true => exact ⟨[], rfl⟩
  | .PM false => exact ⟨_, rfl⟩
  | .RM rmNodeID =>
    have hget : st.tm.getTMToNodeFID rmNodeID = .ok (st.tm.tmToNodeFID rmNodeID) := if_pos hk
    exact ⟨_, bind_eq_ok.2 ⟨_, hget, rfl⟩⟩

theorem foldlM_nodes {f : LinkStateRun → NodeID → Except TmFault LinkStateRun}
    {g : NodeID → NodeFIDs → NodeFIDs}
    (hf : ∀ n ∈ tm.nodes, ∀ st, st.tm.withoutTables = tm.withoutTables →
      ∃ st', f st n = .ok st' ∧ Writes n g st.tm st'.tm) :
    ∃ st, tm.nodes.toList.foldlM f ⟨tm, zeros fidLen, []⟩ = .ok st ∧
      st.tm.withoutTables = tm.withoutTables ∧ ∀ m ∈ tm.nodes, st.tm.fids m = g m (tm.fids m) := by
  obtain ⟨st, hloop, hsame, hfids⟩ := Except.foldlM_entries (s := ⟨tm, zeros fidLen, []⟩)
    (I := fun st : LinkStateRun => st.tm.withoutTables = tm.withoutTables) tm.nodes.nodup
    (fun n hn st hst => by
      obtain ⟨st', h, hw⟩ := hf n (ListSet.mem_toList.1 hn) st hst
      exact ⟨st', h, hw.same.trans hst, hw.fids⟩) rfl
  exact ⟨st, hloop, hsame, fun m hm => (hfids m).trans (if_pos (ListSet.mem_toList.2 hm))⟩

theorem refreshTables_spec (ig : Igraph) (c : LinkStateNotification) (n : NodeID) (hs : tm.Sound)
    (hk : handler.Known tm.nodes) (hne : c.lsnType = removeLink → tm.freed ≠ []) :
    ∃ tm' out, refreshTables ig handler c n tm = .ok (tm', out) ∧
      tm'.withoutTables = tm.withoutTables ∧
      ∀ m ∈ tm.nodes, tm'.fids m =
        if c.lsnType = removeLink then tm.afterFailure ig tm.freed m (tm.fids m)
        else tm.afterRestoration ig m (tm.fids m) := by
  rw [refreshTables]
  by_cases hrem : c.lsnType = removeLink
  · obtain ⟨st, hloop, hsame, hfids⟩ := foldlM_nodes fun m hm st hst =>
      failureAt_spec ig handler hs hm (hne hrem) hst
    have hnodes : st.tm.nodes = tm.nodes := (congrArg nodes hsame :)
    obtain ⟨last, hlast⟩ := announceFailure_ok c n tm.freed (hnodes ▸ hk)
    refine ⟨st.tm, st.published ++ last, ?_, hsame, ?_⟩
    · rw [if_pos hrem, hloop, ok_bind, hlast]
      rfl
    · intro m hm
      rw [if_pos hrem, hfids m hm]
  · obtain ⟨st, hloop, hsame, hfids⟩ := foldlM_nodes fun m hm st hst =>
      restorationAt_spec ig hs hm hst
    refine ⟨st.tm, st.published, ?_, hsame, ?_⟩
    · rw [if_neg hrem, hloop]
      rfl
    · intro m hm
      rw [if_neg hrem, hfids m hm]

theorem mem_freed {v : NodeID × NodeID} {lid : FID} (h : tm.freedLIDs.get v = some lid) :
    lid ∈ tm.freed :=
  mem_filterMap.2 ⟨v, Table.mem_of_get h, h⟩

theorem Consistent.failure (hc : Consistent initial tm)
    (h : tm.updateGraph ig s d b true = .ok (tm', true)) :
    (∀ a ∈ tm'.edges, a ∈ tm.edges) ∧
      (∀ a ∈ tm.edges, a ∉ tm'.edges → a.label ∈ tm'.freed) ∧ tm'.freed ≠ [] := by
  have hc' : Consistent initial tm' := hc.update (c := ⟨s, d, b, true⟩) (update_eq_ok_iff.2 ⟨_, h⟩)
  have hgone : ∀ a ∈ tm.edges, a ∉ tm'.edges → a.label ∈ tm'.freed := by
    intro a ha hnot
    exact mem_freed (((hc'.union a).1 ((hc.union a).2 (.inl ha))).resolve_left hnot)
  obtain ⟨-, ⟨-, ⟨a, ha, hends⟩, -, hr⟩ | ⟨hr, -⟩ | ⟨-, hupd, -⟩⟩ := updateGraph_eq_ok_iff.1 h
  · obtain ⟨t, -, htm'⟩ := removeEdges_spec hc.nodup hr
    have hedges : tm'.edges = tm.edges.filter fun a => Link.ends a ∉ pairs s d b := by
      rw [htm']
      rfl
    refine ⟨fun a ha => mem_of_mem_filter (hedges ▸ ha), hgone, ?_⟩
    refine ne_nil_of_mem (hgone a ha ?_)
    rw [hedges, mem_filter, decide_eq_true_iff, hends]
    exact fun hmem => hmem.2 ((forall_mem_pairs (P := (· ∈ pairs s d b))).1 fun _ hv => hv).1
  · cases hr
  · cases hupd

theorem Consistent.restoration (hc : Consistent initial tm)
    (h : tm.updateGraph ig s d b false = .ok (tm', true)) : ∀ a ∈ tm.edges, a ∈ tm'.edges := by
  obtain ⟨-, ⟨hr, -⟩ | ⟨-, -, -, hadd⟩ | ⟨-, hupd, -⟩⟩ := updateGraph_eq_ok_iff.1 h
  · cases hr
  · obtain ⟨t, htm', -⟩ := addEdges_spec (hc.nodup_append hadd) hadd
    intro a ha
    rw [htm']
    exact mem_append_left _ ha
  · cases hupd

structure Ready (initial : List Link) (handler : LinkStateHandler) (tm : TMIgraph) : Prop where
  consistent : Consistent initial tm
  sound : tm.Sound
  known : handler.Known tm.nodes

theorem Ready.of_withoutTables (h : Ready initial handler tm)
    (hsame : tm'.withoutTables = tm.withoutTables) : Ready initial handler tm' := by
  have hread : ∀ x : TMIgraph, Ready initial handler x ↔ Ready initial handler x.withoutTables :=
    fun _ => ⟨fun ⟨⟨h₁, h₂, h₃, h₄, h₅⟩, ⟨h₆, h₇, h₈⟩, h₉⟩ => ⟨⟨h₁, h₂, h₃, h₄, h₅⟩, ⟨h₆, h₇, h₈⟩, h₉⟩,
      fun ⟨⟨h₁, h₂, h₃, h₄, h₅⟩, ⟨h₆, h₇, h₈⟩, h₉⟩ => ⟨⟨h₁, h₂, h₃, h₄, h₅⟩, ⟨h₆, h₇, h₈⟩, h₉⟩⟩
  rw [hread tm', hsame, ← hread]
  exact h

theorem Ready.updateGraph {r upd : Bool} (h : Ready initial handler tm)
    (hupd : tm.updateGraph ig s d b r = .ok (tm', upd)) : Ready initial handler tm' := by
  have hsame := withoutGraph_updateGraph hupd
  have hnodes : tm'.nodes = tm.nodes := (congrArg nodes hsame :)
  have hnod : tm'.nodeID = tm.nodeID := (congrArg nodeID hsame :)
  have hrv : tm'.rvNodeID = tm.rvNodeID := (congrArg rvNodeID hsame :)
  have hself : tm'.iLID = tm.iLID := (congrArg iLID hsame :)
  refine ⟨h.consistent.update (c := ⟨s, d, b, r⟩) (update_eq_ok_iff.2 ⟨_, hupd⟩), ?_,
    hnodes ▸ h.known⟩
  constructor
  · rw [hnodes, hnod]
    exact h.sound.nodeID
  · rw [hnodes, hrv]
    exact h.sound.rvNodeID
  · rw [hnodes, hself]
    exact h.sound.iLID

theorem refreshTables_fits_iff (h : Ready initial handler tm) (hfit : tm.TablesFit)
    (hupd : tm.updateGraph ig n c.requestPublisher (c.call n).bidirectional (c.call n).remove =
      .ok (tm₁, true)) :
    ∃ tm' out, refreshTables ig handler c n tm₁ = .ok (tm', out) ∧ Ready initial handler tm' ∧
      (tm'.TablesFit ↔ c.KeepsPaths tm tm₁) := by
  have h₁ : Ready initial handler tm₁ := h.updateGraph hupd
  have hsame := withoutGraph_updateGraph hupd
  have hnodes : tm₁.nodes = tm.nodes := (congrArg nodes hsame :)
  have hself : tm₁.iLID = tm.iLID := (congrArg iLID hsame :)
  have hnod : tm₁.nodeID = tm.nodeID := (congrArg nodeID hsame :)
  have hrv : tm₁.rvNodeID = tm.rvNodeID := (congrArg rvNodeID hsame :)
  have hfids : tm₁.fids = tm.fids := (congrArg fids hsame :)
  have hne : c.lsnType = removeLink → tm₁.freed ≠ [] := by
    intro hrem
    rw [LinkStateNotification.call, decide_eq_true hrem] at hupd
    exact (h.consistent.failure hupd).2.2
  obtain ⟨tm', out, hrun, hsame', hfids'⟩ := refreshTables_spec ig c n h₁.sound h₁.known hne
  refine ⟨tm', out, hrun, h₁.of_withoutTables hsame', ?_⟩
  have hnodes' : tm'.nodes = tm₁.nodes := (congrArg nodes hsame' :)
  rw [TablesFit, hnodes', hnodes]
  refine forall₂_congr fun m hm => ?_
  have hm₁ : m ∈ tm₁.nodes := hnodes ▸ hm
  obtain ⟨hfrom, htoRV, htoTM⟩ := hfit m hm
  rw [← hself, ← hnod, ← hfids] at hfrom
  rw [← hself, ← hrv, ← hfids] at htoRV
  rw [← hself, ← hnod, ← hfids] at htoTM
  rw [fitAt_congr hsame', hfids' m hm₁, ← hnod, ← hrv]
  by_cases hrem : c.lsnType = removeLink
  · rw [if_pos hrem, if_pos hrem]
    rw [LinkStateNotification.call, decide_eq_true hrem] at hupd
    obtain ⟨hsub, hgone, -⟩ := h.consistent.failure hupd
    exact afterFailure_fitAt_iff ig h₁.sound hm₁ hsub hgone hfrom htoRV htoTM
  · rw [if_neg hrem, if_neg hrem]
    rw [LinkStateNotification.call, decide_eq_false hrem] at hupd
    exact afterRestoration_fitAt_iff ig h₁.sound hm₁ (h.consistent.restoration hupd) hfrom htoRV
      htoTM

/-! ### Runs -/

def notify (ig : Igraph) (handler : LinkStateHandler) (tm : TMIgraph) (c : LinkStateNotification) :
    Except TmFault TMIgraph := do
  let r ← handleLinkStateNotification ig handler tm c
  return r.1

/-- The topology is read, the tables are computed, and notifications are handled. -/
def runNotifications (ig : Igraph) (handler : LinkStateHandler) (tm : TMIgraph)
    (cs : List LinkStateNotification) : Except TmFault TMIgraph := do
  let tm ← tm.calculateRVTMFIDs ig
  cs.foldlM (notify ig handler) tm

theorem notify_eq_ok_iff : notify ig handler tm c = .ok tm' ↔ ∃ n tm₁ upd, c.affectedNode = .ok n ∧
      tm.updateGraph ig n c.requestPublisher (c.call n).bidirectional (c.call n).remove =
        .ok (tm₁, upd) ∧
      if upd = true then ∃ out, refreshTables ig handler c n tm₁ = .ok (tm', out)
      else tm' = tm₁ := by
  rw [notify]
  simp only [handleLinkStateNotification, bind_eq_ok]
  constructor
  · rintro ⟨⟨tm₂, out⟩, ⟨n, hn, ⟨tm₁, upd⟩, hupd, hrest⟩, hret⟩
    obtain rfl : tm₂ = tm' := Except.ok.inj hret
    refine ⟨n, tm₁, upd, hn, hupd, ?_⟩
    cases upd with
    | true => exact ⟨out, hrest⟩
    | false => exact (congrArg Prod.fst (Except.ok.inj hrest)).symm
  · rintro ⟨n, tm₁, upd, hn, hupd, hrest⟩
    cases upd with
    | true =>
      obtain ⟨out, hout⟩ := hrest
      exact ⟨(tm', out), ⟨n, hn, (tm₁, true), hupd, hout⟩, rfl⟩
    | false =>
      obtain rfl : tm' = tm₁ := hrest
      exact ⟨(tm', []), ⟨n, hn, (tm', false), hupd, rfl⟩, rfl⟩

section
variable (h : Ready initial handler tm) (hfit : tm.TablesFit)
include h hfit

theorem Ready.notify (hrun : notify ig handler tm c = .ok tm') : Ready initial handler tm' := by
  obtain ⟨n, tm₁, upd, _, hupd, hrest⟩ := notify_eq_ok_iff.1 hrun
  cases upd with
  | true =>
    obtain ⟨out, hout⟩ := hrest
    obtain ⟨tm₂, out₂, hout₂, h₂, -⟩ := refreshTables_fits_iff h hfit hupd
    obtain rfl : tm' = tm₂ := congrArg Prod.fst (Except.ok.inj (hout.symm.trans hout₂))
    exact h₂
  | false =>
    obtain rfl : tm' = tm₁ := hrest
    exact h.updateGraph hupd

theorem notify_fits_iff :
    (∃ tm', notify ig handler tm c = .ok tm' ∧ tm'.TablesFit) ↔ c.Harmless ig tm := by
  constructor
  · rintro ⟨tm', hrun, hfit'⟩
    obtain ⟨n, tm₁, upd, hn, hupd, hrest⟩ := notify_eq_ok_iff.1 hrun
    obtain ⟨⟨hnode, hpub⟩, -⟩ := updateGraph_eq_ok_iff.1 hupd
    refine ⟨n, hn, hnode, hpub, ?_, ?_⟩
    · exact (update_ok_iff ig h.consistent.edgeLID hnode hpub).1
        ⟨tm₁, update_eq_ok_iff.2 ⟨upd, hupd⟩⟩
    · intro tm₂ hupd₂
      obtain ⟨rfl, rfl⟩ : tm₁ = tm₂ ∧ upd = true := by
        rw [hupd] at hupd₂
        exact ⟨congrArg Prod.fst (Except.ok.inj hupd₂), congrArg Prod.snd (Except.ok.inj hupd₂)⟩
      obtain ⟨out, hout⟩ := hrest
      obtain ⟨tm₃, out₃, hout₃, -, hiff⟩ := refreshTables_fits_iff h hfit hupd
      obtain rfl : tm' = tm₃ := congrArg Prod.fst (Except.ok.inj (hout.symm.trans hout₃))
      exact hiff.1 hfit'
  · rintro ⟨n, hn, hnode, hpub, hallo, hkeeps⟩
    obtain ⟨tm₁, hupd⟩ := (update_ok_iff ig h.consistent.edgeLID hnode hpub).2 hallo
    obtain ⟨upd, hupd⟩ := update_eq_ok_iff.1 hupd
    cases upd with
    | true =>
      obtain ⟨tm', out, hout, -, hiff⟩ := refreshTables_fits_iff h hfit hupd
      exact ⟨tm', notify_eq_ok_iff.2 ⟨n, tm₁, true, hn, hupd, out, hout⟩, hiff.2 (hkeeps tm₁ hupd)⟩
    | false =>
      obtain ⟨-, ⟨-, -, hfal, -⟩ | ⟨-, -, hfal, -⟩ | ⟨-, -, rfl⟩⟩ := updateGraph_eq_ok_iff.1 hupd
      · cases hfal
      · cases hfal
      · exact ⟨tm₁, notify_eq_ok_iff.2 ⟨n, tm₁, false, hn, hupd, rfl⟩, hfit⟩

end

def startFIDs (tm : TMIgraph) (ig : Igraph) (n : NodeID) : NodeFIDs :=
  ⟨tm.computed ig tm.nodeID n, tm.computed ig n tm.rvNodeID, tm.computed ig n tm.nodeID⟩

theorem rvtmFIDsAt_spec (ig : Igraph) (hs : tm.Sound) (hn : n ∈ tm.nodes)
    (hsame : tm'.withoutTables = tm.withoutTables) :
    ∃ tm₁, rvtmFIDsAt ig tm' n = .ok tm₁ ∧ Writes n (fun m _ => tm.startFIDs ig m) tm' tm₁ := by
  obtain ⟨hfrom, hrv, hto⟩ := computed_of_same ig hs hn hsame
  exact ⟨_, bind_eq_ok.2 ⟨_, hrv, bind_eq_ok.2 ⟨_, hto, bind_eq_ok.2 ⟨_, hfrom, rfl⟩⟩⟩,
    ((writes_setTMToNodeFID.trans writes_setRVFID).trans writes_setTMFID).congr rfl⟩

theorem calculateRVTMFIDs_fits (ig : Igraph) (hs : tm.Sound) :
    ∃ tm', tm.calculateRVTMFIDs ig = .ok tm' ∧ tm'.withoutTables = tm.withoutTables ∧
      tm'.TablesFit := by
  obtain ⟨tm', hloop, hsame, hfids⟩ := Except.foldlM_entries (s := tm)
    (I := fun x : TMIgraph => x.withoutTables = tm.withoutTables)
    (g := fun m (_ : NodeFIDs) => tm.startFIDs ig m) tm.nodes.nodup
    (fun n hn x hx => by
      obtain ⟨x', h, hw⟩ := rvtmFIDsAt_spec ig hs (ListSet.mem_toList.1 hn) hx
      exact ⟨x', h, hw.same.trans hx, hw.fids⟩) rfl
  refine ⟨tm', hloop, hsame, ?_⟩
  have hnodes : tm'.nodes = tm.nodes := (congrArg nodes hsame :)
  intro n hn
  rw [hnodes] at hn
  rw [fitAt_congr hsame, hfids n, if_pos (ListSet.mem_toList.2 hn)]
  exact ⟨(computed_spec ig hs hs.nodeID hn).2, (computed_spec ig hs hn hs.rvNodeID).2,
    (computed_spec ig hs hn hs.nodeID).2⟩

/-- **The tables fit after every notification exactly when each one is harmless in its state.** -/
theorem runNotifications_fit_iff (ig : Igraph) (handler : LinkStateHandler)
    (nodes : ListSet NodeID) (iLID : NodeID → FID) (initial : List Link) (nodeID rvNodeID : NodeID)
    (rs : Bool) (cs : List LinkStateNotification) (hinit : (initial.map Link.ends).Nodup)
    (hself : ∀ n ∈ nodes, iLID n ≠ zeros fidLen) (hTM : nodeID ∈ nodes)
    (hRV : rvNodeID ∈ nodes) (hRM : handler.Known nodes) :
    (∀ before, before <+: cs → ∃ tm, runNotifications ig handler
        (readTopology nodes iLID initial nodeID rvNodeID rs) before = .ok tm ∧ tm.TablesFit) ↔
    ∀ before c after tm, cs = before ++ c :: after →
      runNotifications ig handler (readTopology nodes iLID initial nodeID rvNodeID rs) before =
        .ok tm → c.Harmless ig tm := by
  have hready : Ready initial handler (readTopology nodes iLID initial nodeID rvNodeID rs) :=
    ⟨consistent_readTopology hinit nodes iLID nodeID rvNodeID rs, ⟨hTM, hRV, hself⟩, hRM⟩
  obtain ⟨tm₀, hstart, hsame, hfit₀⟩ := calculateRVTMFIDs_fits ig hready.sound
  simp only [runNotifications, hstart]
  exact Except.foldlM_prefixes_iff (I := Ready initial handler) (P := TablesFit)
    (H := fun c tm => LinkStateNotification.Harmless c ig tm)
      (fun c tm tm' h hfit hrun => h.notify hfit hrun)
    (fun c _ tm h hfit => notify_fits_iff h hfit) (hready.of_withoutTables hsame) hfit₀

def exampleNode (b : UInt8) : NodeID := List.Vector.replicate nodeIDLen b

def exampleLinks : List (UInt8 × UInt8) → ℕ → List Link
  | [], _ => []
  | (u, w) :: ends, k =>
    ⟨exampleNode u, exampleNode w, Bits.single fidLen k⟩ ::
      ⟨exampleNode w, exampleNode u, Bits.single fidLen (k + 1)⟩ :: exampleLinks ends (k + 2)

def exampleTopology (ends : List (UInt8 × UInt8)) : TMIgraph :=
  readTopology ⟨[exampleNode 1, exampleNode 2, exampleNode 3], by decide⟩
    (fun _ => Bits.single fidLen 10) (exampleLinks ends 0) (exampleNode 1) (exampleNode 2) false

def exampleFailure : LinkStateNotification :=
  ⟨removeLink, 1, (exampleNode 1).toList, exampleNode 2⟩

theorem runNotifications_fit_triangle : ∃ tm, runNotifications .search (.PM true)
      (exampleTopology [(1, 2), (2, 3), (3, 1)]) [exampleFailure] = .ok tm ∧ tm.TablesFit := by
  refine (runNotifications_fit_iff .search (.PM true) _ _ _ _ _ _ _ (by decide +kernel)
    (ListSet.forall_of_all (by decide +kernel)) (by decide) (by decide) trivial).2 ?_ _
    (prefix_refl _)
  intro before c after tm hsplit hrun
  match before, hsplit, hrun with
  | [], hsplit, hrun =>
    obtain ⟨rfl, -⟩ := cons.inj hsplit
    have hcheck : (runNotifications .search (.PM true)
        (exampleTopology [(1, 2), (2, 3), (3, 1)]) []).toOption.all (fun tm =>
          decide (exampleNode 1 ∈ tm.nodes ∧ exampleNode 2 ∈ tm.nodes ∧
            (exampleFailure.call (exampleNode 1)).Allowed tm) &&
          (tm.updateGraph .search (exampleNode 1) (exampleNode 2) true true).toOption.all fun r =>
            tm.nodes.toList.all fun n => decide (Routes.Reach r.1.edges tm.nodeID n)) = true := by
      decide +kernel
    have hrun' : runNotifications .search (.PM true)
        (exampleTopology [(1, 2), (2, 3), (3, 1)]) [] = .ok tm := hrun
    rw [hrun'] at hcheck
    obtain ⟨hknown, hpaths⟩ := Bool.and_eq_true_iff.1 hcheck
    obtain ⟨h₁, h₂, hallo⟩ := of_decide_eq_true hknown
    refine ⟨exampleNode 1, by decide, h₁, h₂, hallo, ?_⟩
    intro tm' hupd n hn
    have hupd' : tm.updateGraph .search (exampleNode 1) (exampleNode 2) true true =
        .ok (tm', true) := hupd
    rw [hupd'] at hpaths
    have hreach := of_decide_eq_true (all_eq_true.1 hpaths n hn)
    exact fun hnot => absurd hreach hnot
  | c₀ :: before, hsplit, _ => simp at hsplit

/-- On a line, the third node loses its way to the rendezvous element, its neighbour, when the first
link fails. -/
theorem runNotifications_line_isolates : ¬ ∀ before, before <+: [exampleFailure] →
    ∃ tm, runNotifications .search (.PM true) (exampleTopology [(1, 2), (2, 3)]) before =
      .ok tm ∧ tm.TablesFit := by
  intro hall
  obtain ⟨tm, hrun, hfit⟩ := hall _ (prefix_refl _)
  have hcheck : (runNotifications .search (.PM true) (exampleTopology [(1, 2), (2, 3)])
      [exampleFailure]).toOption.all (fun tm =>
        decide (exampleNode 3 ∈ tm.nodes ∧ tm.rvFID (exampleNode 3) = zeros fidLen ∧
          Routes.Reach tm.edges (exampleNode 3) tm.rvNodeID)) = true := by
    decide +kernel
  rw [hrun] at hcheck
  obtain ⟨hmem, hzero, hreach⟩ := of_decide_eq_true hcheck
  exact (hfit (exampleNode 3) hmem).toRV.zero_iff.1 hzero hreach

end TMIgraph

end Blackadder
