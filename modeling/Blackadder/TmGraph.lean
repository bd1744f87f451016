/-
**The graph of the topology manager.**

`TopologyManager/tm_igraph.cpp` turns shortest paths into forwarding identifiers. Vertices are
named by labels; an unknown one dereferences the end of a map. An edge is its position in the list
of edges, whose order igraph keeps. The strings `LID` and `iLID` are the bit vectors read from
them. igraph is an oracle for a shortest path, the list of its vertices, and for an edge between
two vertices. `UINT_MAX` hops, for no path, is `⊤`. Sets and maps are traversed in the order of
any list.
-/

import Mathlib.Order.WithBot
import Blackadder.Bits
import Blackadder.Enums
import Blackadder.Outcome
import Blackadder.Routes
import Blackadder.Table

namespace Blackadder

/-! ### The graph library -/

inductive TmFault
  | nullPointer
  | outOfRange
  | igraph
  | memory
deriving DecidableEq, Repr

abbrev Link := Routes.Arc NodeID FID

structure Igraph where
  /-- `igraph_get_shortest_paths`, for one destination. -/
  shortestPath : List Link → NodeID → NodeID → List NodeID
  eid : List Link → NodeID → NodeID → Option ℕ
  shortestPath_spec : ∀ E u w,
    (∃ l, Routes.IsShortest E u w l ∧ shortestPath E u w = Routes.vertices u l) ∨
      ¬ Routes.Reach E u w ∧ shortestPath E u w = []
  eid_spec : ∀ E u w i, eid E u w = some i → ∃ a, E[i]? = some a ∧ a.src = u ∧ a.dst = w
  eid_isSome : ∀ E u w, (∃ a ∈ E, a.src = u ∧ a.dst = w) → (eid E u w).isSome = true

namespace Igraph

def search : Igraph where
  shortestPath E u w := ((Routes.search E u w).map (Routes.vertices u)).getD []
  eid E u w := E.findIdx? fun a => a.src = u ∧ a.dst = w
  shortestPath_spec E u w := by
    cases hs : Routes.search E u w with
    | some l => exact .inl ⟨l, Routes.search_eq_some hs, rfl⟩
    | none => exact .inr ⟨Routes.search_eq_none.1 hs, rfl⟩
  eid_spec E u w i hi := by
    obtain ⟨hlt, hp, -⟩ := List.findIdx?_eq_some_iff_getElem.1 hi
    exact ⟨E[i], List.getElem?_eq_getElem hlt, of_decide_eq_true hp⟩
  eid_isSome E u w := by
    intro hex
    obtain ⟨a, ha, hsrc, hdst⟩ := hex
    rw [List.findIdx?_isSome, List.any_eq_true]
    exact ⟨a, ha, decide_eq_true ⟨hsrc, hdst⟩⟩

variable (ig : Igraph)

def orLinks (E : List Link) (lid : ℕ → Option FID) : FID → List NodeID → Except TmFault FID
  | fid, u :: w :: path =>
    match ig.eid E u w with
    | none => .error .igraph
    | some i =>
      match lid i with
      | none => .error .nullPointer
      | some l => orLinks E lid (Bits.or fid l) (w :: path)
  | fid, _ => .ok fid

variable {ig} {E : List Link} {lid : ℕ → Option FID} {u w : NodeID} {l : List Link}

section
variable (hlid : ∀ i, lid i = E[i]?.map Routes.Arc.label)
include hlid

/-- **The union along a path** is that of the links of a walk with the same vertices. -/
theorem orLinks_eq (hl : Routes.Walk E u w l)
    (fid : FID) : ∃ l', Routes.Walk E u w l' ∧ Routes.vertices u l' = Routes.vertices u l ∧
      ig.orLinks E lid fid (Routes.vertices u l) = .ok (Bits.orAll fid (l'.map Routes.Arc.label)) := by
  induction hl generalizing fid with
  | nil u => exact ⟨[], .nil u, rfl, rfl⟩
  | @cons a t l ha _ ih =>
    obtain ⟨i, hi⟩ := Option.isSome_iff_exists.1 (ig.eid_isSome E a.src a.dst ⟨a, ha, rfl, rfl⟩)
    obtain ⟨b, hb, hsrc, hdst⟩ := ig.eid_spec E a.src a.dst i hi
    obtain ⟨l', hl', hvert, hor⟩ := ih (Bits.or fid b.label)
    refine ⟨b :: l', ?_, ?_, ?_⟩
    · exact Routes.walk_cons_iff.2 ⟨List.mem_of_getElem? hb, hsrc, hdst ▸ hl'⟩
    · rw [Routes.vertices_cons, Routes.vertices_cons, hdst, hvert]
    · have hstep : ig.orLinks E lid fid (a.src :: a.dst :: l.map Routes.Arc.dst) =
          ig.orLinks E lid (Bits.or fid b.label) (a.dst :: l.map Routes.Arc.dst) := by
        rw [orLinks, hi]
        dsimp only
        rw [hlid, hb]
        rfl
      exact hstep.trans hor

theorem path_cases (fid : FID) :
    (∃ l, Routes.IsShortest E u w l ∧ ig.shortestPath E u w = Routes.vertices u l ∧
      ig.orLinks E lid fid (ig.shortestPath E u w) = .ok (Bits.orAll fid (l.map Routes.Arc.label))) ∨
    ¬ Routes.Reach E u w ∧ ig.shortestPath E u w = [] := by
  obtain ⟨l, hl, hpath⟩ | hnone := ig.shortestPath_spec E u w
  · obtain ⟨l', hl', hvert, hor⟩ := orLinks_eq hlid hl.walk fid
    have hlen : l'.length = l.length := by simpa [Routes.vertices] using congrArg List.length hvert
    exact .inl ⟨l', hl.of_length_eq hl' hlen, hpath.trans hvert.symm, hpath ▸ hor⟩
  · exact .inr hnone

end

theorem reach_of_ne_nil (h : ig.shortestPath E u w ≠ []) : Routes.Reach E u w := by
  obtain ⟨l, hl, -⟩ | ⟨-, hnil⟩ := ig.shortestPath_spec E u w
  · exact ⟨l, hl.walk⟩
  · exact absurd hnil h

end Igraph

/-! ### The state -/

structure TMIgraph where
  nodes : ListSet NodeID
  /-- `nodeID_iLID`, and the attribute `iLID` of a vertex. -/
  iLID : NodeID → FID
  edges : List Link
  edgeLID : ℕ → Option FID
  reverseEdgeIndex : FID → Option ℕ
  freedLIDs : Table (NodeID × NodeID) FID
  nodeID : NodeID
  rvNodeID : NodeID
  tmToNodeFID : NodeID → FID
  rvFID : NodeID → FID
  tmFID : NodeID → FID
  rs : Bool

namespace TMIgraph

variable (tm : TMIgraph) (ig : Igraph)

/-- `updateTMStates`. When links share an identifier, `insert` keeps the first one. -/
def updateTMStates : TMIgraph :=
  { tm with
    edgeLID := fun i => tm.edges[i]?.map Routes.Arc.label
    reverseEdgeIndex := fun lid => tm.edges.findIdx? fun a => a.label = lid }

def readTopology (nodes : ListSet NodeID) (iLID : NodeID → FID) (edges : List Link)
    (nodeID rvNodeID : NodeID) (rs : Bool) : TMIgraph :=
  updateTMStates
    { nodes := nodes
      iLID := iLID
      edges := edges
      edgeLID := fun _ => none
      reverseEdgeIndex := fun _ => none
      freedLIDs := ∅
      nodeID := nodeID
      rvNodeID := rvNodeID
      tmToNodeFID := fun _ => Bits.zeros fidLen
      rvFID := fun _ => Bits.zeros fidLen
      tmFID := fun _ => Bits.zeros fidLen
      rs := rs }

def vertex (label : NodeID) : Except TmFault NodeID :=
  if label ∈ tm.nodes then .ok label else .error .nullPointer

/-! ### Forwarding identifiers -/

/-- `calculateFID` for a source and a destination. Without a path the result has no bits. -/
def calculateFID (source destination : NodeID) : Except TmFault FID := do
  let u ← tm.vertex source
  let w ← tm.vertex destination
  let path := ig.shortestPath tm.edges u w
  let result ← ig.orLinks tm.edges (fun i => tm.edges[i]?.map Routes.Arc.label) (Bits.zeros fidLen)
    path
  if path.length > 0 then return Bits.or result (tm.iLID destination) else return result

def pathString : List NodeID → List UInt8
  | [] => []
  | [u] => u.toList
  | u :: path => u.toList ++ [45, 62] ++ pathString path

structure PathFID where
  fid : FID
  hops : WithTop ℕ
  path : List UInt8

/-- `calculateFID` for a source and a destination. The internal identifier is added without a path,
too. -/
def calculateFIDHops (source destination : NodeID) (resultFID : FID) : Except TmFault PathFID := do
  let u ← tm.vertex source
  let w ← tm.vertex destination
  let path := ig.shortestPath tm.edges u w
  let fid ← ig.orLinks tm.edges tm.edgeLID resultFID path
  return ⟨Bits.or fid (tm.iLID destination), if path.length = 0 then ⊤ else WithTop.some path.length,
    pathString path⟩

/-- What the rendezvous function carries from one subscriber to the next. -/
structure Best where
  /-- `bestPublisher`; the empty string is no publisher. -/
  publisher : Option NodeID
  fid : FID
  path : List UInt8

def bestPublisher (subscriber : NodeID) :
    List NodeID → WithTop ℕ → Best → Except TmFault (WithTop ℕ × Best)
  | [], minimum, best => .ok (minimum, best)
  | p :: publishers, minimum, best => do
    let x ← tm.calculateFIDHops ig p subscriber (Bits.zeros fidLen)
    if x.hops < minimum then
      bestPublisher subscriber publishers x.hops
        ⟨some p, x.fid, if tm.rs then x.path else best.path⟩
    else bestPublisher subscriber publishers minimum best

structure Rendezvous where
  /-- `result`; a publisher may be mapped to `NULL`. -/
  result : Table NodeID (Option FID)
  pathVectors : Table NodeID (ListSet (List UInt8))
  best : Best

def rendezvousStep (publishers : List NodeID) (st : Rendezvous) (subscriber : NodeID) :
    Except TmFault Rendezvous := do
  let (minimum, best) ← tm.bestPublisher ig subscriber publishers ⊤ st.best
  match best.publisher with
  | none => .error .nullPointer
  | some p =>
    let pathVectors := if tm.rs then st.pathVectors.modify p (·.insert best.path)
      else st.pathVectors
    match st.result.get p with
    | none => .error .nullPointer
    | some none => return ⟨st.result.set p (some best.fid), pathVectors, best⟩
    | some (some existingFID) =>
      if minimum = ⊤ then return ⟨st.result.set p (some best.fid), pathVectors, best⟩
      else return ⟨st.result.set p (some (Bits.or existingFID best.fid)), pathVectors, best⟩

def calculateFIDs (publishers subscribers : ListSet NodeID) : Except TmFault Rendezvous :=
  subscribers.toList.foldlM (tm.rendezvousStep ig publishers.toList)
    { result := publishers.toList.foldl (fun t p => t.findInsert p none) ∅
      pathVectors := publishers.toList.foldl (fun t p => t.findInsert p ∅) ∅
      best := ⟨none, Bits.zeros fidLen, []⟩ }

structure Nearest where
  /-- `result`; a subscriber may be mapped to `NULL`. -/
  result : Table NodeID (Option FID)
  paths : Table NodeID (List UInt8)
  minimum : WithTop ℕ
  /-- `bestSubscriber`; the empty string is no subscriber. -/
  subscriber : Option NodeID
  fid : FID
  path : List UInt8

def nearestStep (publisher : NodeID) (st : Nearest) (subscriber : NodeID) :
    Except TmFault Nearest := do
  let st := { st with
    result := st.result.findInsert subscriber none
    paths := st.paths.findInsert subscriber [] }
  let x ← tm.calculateFIDHops ig publisher subscriber (Bits.zeros fidLen)
  if x.hops < st.minimum then
    return { st with minimum := x.hops, subscriber := some subscriber, fid := x.fid, path := x.path }
  else return st

def ucalculateFID (publisher : NodeID) (subscribers : ListSet NodeID) :
    Except TmFault (Table NodeID (Option FID) × Table NodeID (List UInt8)) := do
  let st ← subscribers.toList.foldlM (tm.nearestStep ig publisher)
    { result := ∅
      paths := ∅
      minimum := ⊤
      subscriber := none
      fid := Bits.zeros fidLen
      path := [] }
  match st.subscriber with
  | none => return (st.result, st.paths)
  | some s => return (st.result.set s (some st.fid), st.paths.set s st.path)

def rvtmFIDsAt (tm : TMIgraph) (n : NodeID) : Except TmFault TMIgraph := do
  let rv ← tm.calculateFID ig n tm.rvNodeID
  let toTM ← tm.calculateFID ig n tm.nodeID
  let fromTM ← tm.calculateFID ig tm.nodeID n
  return { tm with
    rvFID := Function.update tm.rvFID n rv
    tmFID := Function.update tm.tmFID n toTM
    tmToNodeFID := Function.update tm.tmToNodeFID n fromTM }

def calculateRVTMFIDs : Except TmFault TMIgraph := tm.nodes.toList.foldlM (rvtmFIDsAt ig) tm

/-! ### Links that fail and come back -/

def deleteEdges (E : List Link) (ids : List ℕ) : List Link :=
  (E.zipIdx.filter fun x => x.2 ∉ ids).map Prod.fst

def setLID (E : List Link) (eid : ℕ) (lid : FID) : List Link := E.modify eid ({ · with label := lid })

def freedLID (edge : NodeID × NodeID) : Except TmFault FID :=
  match tm.freedLIDs.get edge with
  | some lid => .ok lid
  | none => .error .nullPointer

/-- `(*edge_LID.find(eid)).second`; `-1` is the number of no edge. -/
def lidOf (eid : Option ℕ) : Except TmFault FID :=
  match eid.bind tm.edgeLID with
  | some lid => .ok lid
  | none => .error .nullPointer

def pairs (source destination : NodeID) (bidirectional : Bool) : List (NodeID × NodeID) :=
  if bidirectional then [(source, destination), (destination, source)] else [(source, destination)]

def keepLID (freedLIDs : Table (NodeID × NodeID) FID) (v : NodeID × NodeID) :
    Except TmFault (Table (NodeID × NodeID) FID) := do
  let lid ← tm.lidOf (ig.eid tm.edges v.1 v.2)
  return freedLIDs.findInsert v lid

def removeEdges (vs : List (NodeID × NodeID)) : Except TmFault TMIgraph := do
  let eids := vs.map fun v => ig.eid tm.edges v.1 v.2
  let freedLIDs ← vs.foldlM (tm.keepLID ig) tm.freedLIDs
  return updateTMStates { tm with
    freedLIDs := freedLIDs
    edges := deleteEdges tm.edges (eids.filterMap id) }

def restoreLID (E : List Link) (tm : TMIgraph) (v : NodeID × NodeID) :
    Except TmFault TMIgraph := do
  let lid ← tm.freedLID v
  match ig.eid E v.1 v.2 with
  | none => .error .igraph
  | some i => return { tm with
    edges := setLID tm.edges i lid
    freedLIDs := tm.freedLIDs.erase v }

def newEdges (vs : List (NodeID × NodeID)) : List Link :=
  vs.map fun v => ⟨v.1, v.2, Bits.zeros fidLen⟩

def addEdges (vs : List (NodeID × NodeID)) : Except TmFault TMIgraph := do
  let E := tm.edges ++ newEdges vs
  let tm' ← vs.foldlM (restoreLID ig E) { tm with edges := E }
  return updateTMStates tm'

/-- `updateGraph`. Only the first edge is asked for. -/
def updateGraph (source destination : NodeID) (bidirectional remove : Bool) :
    Except TmFault (TMIgraph × Bool) := do
  let u ← tm.vertex source
  let w ← tm.vertex destination
  let exists_ := (ig.eid tm.edges u w).isSome
  if remove && exists_ then return (← tm.removeEdges ig (pairs u w bidirectional), true)
  else if !remove && !exists_ then return (← tm.addEdges ig (pairs u w bidirectional), true)
  else return (tm, false)

end TMIgraph

end Blackadder
