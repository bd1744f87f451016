/-
**The deployment of a domain.**

`assignLIDs` draws link identifiers at random, again when an identifier was drawn before, for nodes
and connections; from them the configurations of the forwarders and the graph of the topology
manager are written. The calls of `rand` are a list of numbers. Only domains of a single layer are
modelled.
-/

import Blackadder.Forwarder
import Blackadder.TmGraph

namespace Blackadder

open Except List

/-! ### Domains -/

structure NetworkConnection where
  srcLabel : NodeID
  dstLabel : NodeID
  srcMac : EtherAddress
  dstMac : EtherAddress
  srcIP : IPAddress
  dstIP : IPAddress
  port : ℕ
  LID : FID
deriving DecidableEq

structure NetworkNode where
  label : NodeID
  iLid : FID
  connections : List NetworkConnection
deriving DecidableEq

structure Domain where
  useMac : Bool
  nodes : List NetworkNode
  labels_nodup : (nodes.map NetworkNode.label).Nodup
  src_eq : ∀ n ∈ nodes, ∀ c ∈ n.connections, c.srcLabel = n.label
  dst_mem : ∀ n ∈ nodes, ∀ c ∈ n.connections, c.dstLabel ∈ nodes.map NetworkNode.label

def NetworkConnection.entry (c : NetworkConnection) : ForwardingEntry where
  src := c.srcMac
  dst := c.dstMac
  srcIP := c.srcIP
  dstIP := c.dstIP
  port := c.port
  LID := c.LID
  protoType := protoBA

structure Checksums where
  inCksum : List UInt8 → List.Vector UInt8 2
  inCksumPseudohdr : List.Vector UInt8 2 → List UInt8 → UInt16 → List.Vector UInt8 2

def Domain.forwarder (d : Domain) (sums : Checksums) (n : NetworkNode) : Forwarder where
  useMac := d.useMac
  iLID := n.iLid
  fwTable := n.connections.map NetworkConnection.entry
  inCksum := sums.inCksum
  inCksumPseudohdr := sums.inCksumPseudohdr

/-! ### Link identifiers -/

def drawLID (LIDs : List FID) (numberOfBits : ℕ) : ℕ → List ℕ → Option (FID × List ℕ)
  | 0, _ => none
  | rounds + 1, rand =>
    if rand.length < numberOfBits then none else
      let LID := (rand.take numberOfBits).foldl (fun LID r => Bits.setBit LID (r % (fidLen * 8)))
        (Bits.zeros fidLen)
      if LID ∈ LIDs then drawLID LIDs numberOfBits rounds (rand.drop numberOfBits)
      else some (LID, rand.drop numberOfBits)

/-- `calculateLID`, for the next index. There are no more rounds than calls of `rand`. -/
def calculateLID (LIDs : List FID) (index : ℕ) (rand : List ℕ) : Option (List FID × List ℕ) := do
  let (LID, rand) ← drawLID LIDs (index / (fidLen * 8) + 1) rand.length rand
  return (LIDs ++ [LID], rand)

def calculateLIDs : ℕ → List ℕ → Option (List FID × List ℕ)
  | 0, rand => some ([], rand)
  | index + 1, rand => do
    let (LIDs, rand) ← calculateLIDs index rand
    calculateLID LIDs index rand

def NetworkNode.setLIDs (n : NetworkNode) (lid : ℕ → FID) : NetworkNode :=
  { n with
    iLid := lid 0
    connections := n.connections.mapIdx fun j c => { c with LID := lid (j + 1) } }

def assignFrom (LIDs : List FID) : ℕ → List NetworkNode → List NetworkNode
  | _, [] => []
  | LIDCounter, n :: nodes =>
    n.setLIDs (fun j => LIDs.getD (LIDCounter + j) (Bits.zeros fidLen)) ::
      assignFrom LIDs (LIDCounter + 1 + n.connections.length) nodes

theorem map_label_assignFrom (LIDs : List FID) (i : ℕ) (nodes : List NetworkNode) :
    (assignFrom LIDs i nodes).map NetworkNode.label = nodes.map NetworkNode.label := by
  induction nodes generalizing i with
  | nil => rfl
  | cons n nodes ih =>
    rw [assignFrom, map_cons, ih]
    rfl

theorem mem_assignFrom {LIDs : List FID} {i : ℕ} {nodes : List NetworkNode} {n : NetworkNode}
    (hn : n ∈ assignFrom LIDs i nodes) : ∃ m ∈ nodes, n.label = m.label ∧
      ∀ c ∈ n.connections, ∃ c' ∈ m.connections, ∃ lid, c = { c' with LID := lid } := by
  induction nodes generalizing i with
  | nil => cases hn
  | cons m nodes ih =>
    rcases mem_cons.1 hn with rfl | hn
    · refine ⟨m, mem_cons_self, rfl, fun c hc => ?_⟩
      obtain ⟨j, hj, rfl⟩ := mem_mapIdx.1 hc
      exact ⟨m.connections[j], getElem_mem hj, _, rfl⟩
    · obtain ⟨m', hm', hrest⟩ := ih hn
      exact ⟨m', mem_cons_of_mem _ hm', hrest⟩

namespace Domain

def connections (d : Domain) : List NetworkConnection := d.nodes.flatMap NetworkNode.connections

def totalLIDs (d : Domain) : ℕ := d.nodes.length + d.connections.length

def setLIDs (d : Domain) (LIDs : List FID) : Domain where
  useMac := d.useMac
  nodes := assignFrom LIDs 0 d.nodes
  labels_nodup := by
    rw [map_label_assignFrom]
    exact d.labels_nodup
  src_eq := by
    intro n hn c hc
    obtain ⟨m, hm, hlabel, hconn⟩ := mem_assignFrom hn
    obtain ⟨c', hc', lid, rfl⟩ := hconn c hc
    exact (d.src_eq m hm c' hc').trans hlabel.symm
  dst_mem := by
    intro n hn c hc
    obtain ⟨m, hm, -, hconn⟩ := mem_assignFrom hn
    obtain ⟨c', hc', lid, rfl⟩ := hconn c hc
    rw [map_label_assignFrom]
    exact d.dst_mem m hm c' hc'

def assignLIDs (d : Domain) (rand : List ℕ) : Option Domain :=
  (calculateLIDs d.totalLIDs rand).map fun x => d.setLIDs x.1

end Domain

/-! ### Identifiers are different, and have one bit -/

theorem drawLID_spec {LIDs : List FID} {numberOfBits rounds : ℕ} {rand rest : List ℕ} {LID : FID}
    (h : drawLID LIDs numberOfBits rounds rand = some (LID, rest)) :
    LID ∉ LIDs ∧ (numberOfBits = 1 → Bits.IsSingle LID) := by
  induction rounds generalizing rand with
  | zero => cases h
  | succ rounds ih =>
    rw [drawLID] at h
    split at h
    · cases h
    case isFalse heno =>
      dsimp only at h
      split at h
      · exact ih h
      case isFalse hnew =>
        obtain ⟨rfl, -⟩ := Prod.mk.inj (Option.some.inj h)
        refine ⟨hnew, ?_⟩
        rintro rfl
        obtain ⟨r, hr⟩ : ∃ r, rand.take 1 = [r] := by
          refine length_eq_one_iff.1 ?_
          rw [length_take]
          omega
        rw [hr]
        exact ⟨r % (fidLen * 8), by rw [fidLen]; omega, rfl⟩

/-- **The identifiers are different, and as many as there are bits have one bit.** -/
theorem calculateLIDs_spec {total : ℕ} {rand rest : List ℕ} {LIDs : List FID}
    (h : calculateLIDs total rand = some (LIDs, rest)) :
    LIDs.length = total ∧ LIDs.Nodup ∧ (total ≤ fidLen * 8 → ∀ LID ∈ LIDs, Bits.IsSingle LID) := by
  induction total generalizing LIDs rest with
  | zero =>
    obtain ⟨rfl, -⟩ := Prod.mk.inj (Option.some.inj h)
    exact ⟨rfl, nodup_nil, fun _ _ hin => absurd hin not_mem_nil⟩
  | succ index ih =>
    obtain ⟨⟨before, rand'⟩, hbef, h⟩ := Option.bind_eq_some_iff.1 h
    obtain ⟨⟨LID, rand''⟩, hdraw, h⟩ := Option.bind_eq_some_iff.1 h
    obtain ⟨rfl, -⟩ := Prod.mk.inj (Option.some.inj h)
    obtain ⟨hlen, hnodup, hsin⟩ := ih hbef
    obtain ⟨hnew, hone⟩ := drawLID_spec hdraw
    refine ⟨?_, ?_, fun htot x hx => ?_⟩
    · rw [length_append, hlen, length_singleton]
    · exact nodup_append_comm.1 (nodup_cons.2 ⟨hnew, hnodup⟩)
    · rcases mem_append.1 hx with hx | hx
      · exact hsin (by omega) x hx
      · rw [mem_singleton.1 hx]
        exact hone (by rw [Nat.div_eq_of_lt (by omega)])

def NetworkNode.lids (n : NetworkNode) : List FID := n.iLid :: n.connections.map NetworkConnection.LID

theorem NetworkNode.lids_setLIDs (n : NetworkNode) (lid : ℕ → FID) :
    (n.setLIDs lid).lids = (List.range (1 + n.connections.length)).map lid := by
  refine ext_getElem (by simp [lids, setLIDs]; omega) fun j h₁ h₂ => ?_
  cases j with
  | zero | succ j => simp [lids, setLIDs]

theorem flatMap_lids_assignFrom (LIDs : List FID) (i : ℕ) (nodes : List NetworkNode)
    (hlen : i + (nodes.length + (nodes.flatMap NetworkNode.connections).length) = LIDs.length) :
    (assignFrom LIDs i nodes).flatMap NetworkNode.lids = LIDs.drop i := by
  induction nodes generalizing i with
  | nil =>
    rw [drop_of_length_le (by simpa using hlen.ge)]
    rfl
  | cons n nodes ih =>
    rw [flatMap_cons, length_append, length_cons] at hlen
    have hfirst : (n.setLIDs fun j => LIDs.getD (i + j) (Bits.zeros fidLen)).lids =
        (LIDs.drop i).take (1 + n.connections.length) := by
      rw [NetworkNode.lids_setLIDs]
      refine ext_getElem (by simp; omega) fun j h₁ h₂ => ?_
      rw [length_map, length_range] at h₁
      have hj : i + j < LIDs.length := by omega
      simp [getElem?_eq_getElem hj]
    rw [assignFrom, flatMap_cons, hfirst, ih _ (by omega), Nat.add_assoc, ← drop_drop,
      take_append_drop]

namespace Domain

variable {d : Domain} {n m : NetworkNode} {c c' : NetworkConnection} {rand : List ℕ}

/-- **The identifiers are different, and each has one bit.** -/
structure Separated (d : Domain) : Prop where
  nodup : (d.nodes.map NetworkNode.iLid ++ d.connections.map NetworkConnection.LID).Nodup
  iLid : ∀ n ∈ d.nodes, Bits.IsSingle n.iLid
  LID : ∀ c ∈ d.connections, Bits.IsSingle c.LID

theorem lids_perm (d : Domain) : d.nodes.flatMap NetworkNode.lids |>.Perm
    (d.nodes.map NetworkNode.iLid ++ d.connections.map NetworkConnection.LID) := by
  have hperm := flatMap_append_perm d.nodes (fun n => [n.iLid])
    fun n => n.connections.map NetworkConnection.LID
  rw [← map_eq_flatMap, ← map_flatMap] at hperm
  exact hperm.symm

theorem separated_of_assignLIDs {d₀ : Domain} (h : d₀.assignLIDs rand = some d)
    (htot : d.totalLIDs ≤ fidLen * 8) : d.Separated := by
  obtain ⟨⟨LIDs, rest⟩, hcalc, rfl⟩ := Option.map_eq_some_iff.1 h
  obtain ⟨hlen, hnodup, hsin⟩ := calculateLIDs_spec hcalc
  have hlids : (d₀.setLIDs LIDs).nodes.flatMap NetworkNode.lids = LIDs :=
    flatMap_lids_assignFrom LIDs 0 d₀.nodes (by rw [hlen, Nat.zero_add]; rfl)
  have hperm := (d₀.setLIDs LIDs).lids_perm
  rw [hlids] at hperm
  have htotal' : d₀.totalLIDs = (d₀.setLIDs LIDs).totalLIDs := by
    rw [← hlen, hperm.length_eq, length_append, length_map, length_map, totalLIDs]
  have hall : ∀ x ∈ LIDs, Bits.IsSingle x := hsin (htotal' ▸ htot)
  refine ⟨hperm.nodup_iff.1 hnodup, fun n hn => hall _ (hperm.mem_iff.2 ?_),
    fun c hc => hall _ (hperm.mem_iff.2 ?_)⟩
  · exact mem_append_left _ (mem_map_of_mem hn)
  · exact mem_append_right _ (mem_map_of_mem hc)

namespace Separated

variable (hd : d.Separated)
include hd

theorem eq_of_LID (hc : c ∈ d.connections) (hc' : c' ∈ d.connections) (h : c.LID = c'.LID) :
    c = c' :=
  inj_on_of_nodup_map (nodup_append.1 hd.nodup).2.1 hc hc' h

theorem eq_of_iLid (hn : n ∈ d.nodes) (hm : m ∈ d.nodes) (h : n.iLid = m.iLid) : n = m :=
  inj_on_of_nodup_map (nodup_append.1 hd.nodup).1 hn hm h

theorem iLid_ne_LID (hn : n ∈ d.nodes) (hc : c ∈ d.connections) : n.iLid ≠ c.LID :=
  (nodup_append.1 hd.nodup).2.2 _ (mem_map_of_mem hn) _ (mem_map_of_mem hc)

end Separated

/-! ### Nodes by their labels -/

def labels (d : Domain) : List NodeID := d.nodes.map NetworkNode.label

def findNode (d : Domain) (label : NodeID) : Option NetworkNode :=
  d.nodes.find? fun n => n.label = label

theorem eq_of_label (hn : n ∈ d.nodes) (hm : m ∈ d.nodes) (h : n.label = m.label) : n = m :=
  inj_on_of_nodup_map d.labels_nodup hn hm h

theorem exists_findNode {label : NodeID} (h : label ∈ d.labels) :
    ∃ n ∈ d.nodes, n.label = label ∧ d.findNode label = some n := by
  cases hfind : d.findNode label with
  | none =>
    obtain ⟨n, hn, hlabel⟩ := mem_map.1 h
    exact absurd (decide_eq_true hlabel) (find?_eq_none.1 hfind n hn)
  | some n =>
    have hlabel : decide (n.label = label) = true :=
      find?_some (p := fun n : NetworkNode => decide (n.label = label)) hfind
    exact ⟨n, mem_of_find?_eq_some hfind, of_decide_eq_true hlabel, rfl⟩

theorem mem_connections_iff (hn : n ∈ d.nodes) :
    c ∈ n.connections ↔ c ∈ d.connections ∧ c.srcLabel = n.label := by
  constructor
  · intro hc
    exact ⟨mem_flatMap.2 ⟨n, hn, hc⟩, d.src_eq n hn c hc⟩
  · rintro ⟨hc, hlabel⟩
    obtain ⟨m, hm, hc⟩ := mem_flatMap.1 hc
    rwa [d.eq_of_label hn hm (hlabel.symm.trans (d.src_eq m hm c hc))]

end Domain

/-! ### Forwarding identifiers -/

def NetworkConnection.link (c : NetworkConnection) : Link := ⟨c.srcLabel, c.dstLabel, c.LID⟩

namespace Domain

variable {d : Domain} {n m : NetworkNode} {c c' : NetworkConnection} {src dst : NodeID}
  {path : List NetworkConnection}

def edges (d : Domain) : List Link := d.connections.map NetworkConnection.link

def iLID (d : Domain) (label : NodeID) : FID :=
  ((d.findNode label).map NetworkNode.iLid).getD (Bits.zeros fidLen)

def calculateFID (d : Domain) (ig : Igraph) (source destination : NodeID) : Except TmFault FID :=
  if source ∉ d.labels then .ok (Bits.zeros fidLen)
  else if destination ∉ d.labels then .ok (Bits.zeros fidLen)
  else do
    let result ← ig.orLinks d.edges (fun i => d.edges[i]?.map Routes.Arc.label) (Bits.zeros fidLen)
      (ig.shortestPath d.edges source destination)
    return Bits.or result (d.iLID destination)

def topology (d : Domain) (nodeID rvNodeID : NodeID) (rs : Bool) : TMIgraph :=
  .readTopology ⟨d.labels, d.labels_nodup⟩ d.iLID d.edges nodeID rvNodeID rs

def pathFID (d : Domain) (dst : NodeID) (path : List NetworkConnection) : FID :=
  Bits.orAll (Bits.zeros fidLen) (path.map NetworkConnection.LID ++ [d.iLID dst])

theorem exists_map_link {l : List Link} (hl : ∀ a ∈ l, a ∈ d.edges) :
    ∃ path : List NetworkConnection, (∀ c ∈ path, c ∈ d.connections) ∧
      path.map NetworkConnection.link = l := by
  induction l with
  | nil => exact ⟨[], fun _ hc => absurd hc not_mem_nil, rfl⟩
  | cons a l ih =>
    obtain ⟨path, hpath, rfl⟩ := ih fun b hb => hl b (mem_cons_of_mem _ hb)
    obtain ⟨c, hc, rfl⟩ := mem_map.1 (hl a mem_cons_self)
    exact ⟨c :: path, forall_mem_cons.2 ⟨hc, hpath⟩, rfl⟩

/-- **The forwarding identifier is that of a shortest path**, as in the topology manager. -/
theorem calculateFID_eq (ig : Igraph) (hsrc : src ∈ d.labels) (hdst : dst ∈ d.labels)
    (hreach : Routes.Reach d.edges src dst) : ∃ path : List NetworkConnection,
      (∀ c ∈ path, c ∈ d.connections) ∧
      Routes.IsShortest d.edges src dst (path.map NetworkConnection.link) ∧
      ig.shortestPath d.edges src dst = Routes.vertices src (path.map NetworkConnection.link) ∧
      d.calculateFID ig src dst = .ok (d.pathFID dst path) ∧
      ∀ nodeID rvNodeID rs, (d.topology nodeID rvNodeID rs).calculateFID ig src dst =
        .ok (d.pathFID dst path) := by
  obtain ⟨l, hl, hpath, hor⟩ | ⟨hnone, -⟩ := ig.path_cases (fun _ => rfl) (Bits.zeros fidLen)
  · obtain ⟨path, hmem, rfl⟩ := exists_map_link fun a ha => hl.walk.mem ha
    have hfid : Bits.or (Bits.orAll (Bits.zeros fidLen)
        ((path.map NetworkConnection.link).map Routes.Arc.label)) (d.iLID dst) =
        d.pathFID dst path := by
      rw [pathFID, Bits.orAll, Bits.orAll, foldl_append, map_map]
      rfl
    refine ⟨path, hmem, hl, hpath, ?_, ?_⟩
    · rw [calculateFID, if_neg (not_not.2 hsrc), if_neg (not_not.2 hdst), hor, ← hfid]
      rfl
    · intro nodeID rvNodeID rs
      have hver : ∀ label ∈ d.labels,
          (d.topology nodeID rvNodeID rs).vertex label = .ok label := fun label hin => if_pos hin
      rw [TMIgraph.calculateFID, hver src hsrc, hver dst hdst, ← hfid]
      change (do
        let result ← ig.orLinks d.edges (fun i => d.edges[i]?.map Routes.Arc.label)
          (Bits.zeros fidLen) (ig.shortestPath d.edges src dst)
        if (ig.shortestPath d.edges src dst).length > 0 then
          return Bits.or result (d.iLID dst) else return result) = _
      rw [hor, hpath, ok_bind]
      rfl
  · exact absurd hreach hnone

/-! ### What a forwarding identifier contains -/

theorem iLID_eq (hn : n ∈ d.nodes) : d.iLID n.label = n.iLid := by
  obtain ⟨m, hm, hlabel, hfind⟩ := d.exists_findNode (mem_map_of_mem hn)
  rw [iLID, hfind, d.eq_of_label hm hn hlabel]
  rfl

theorem contains_pathFID_iff (hpath : ∀ c ∈ path, Bits.IsSingle c.LID)
    (hdst : Bits.IsSingle (d.iLID dst)) {lid : FID} (hlid : Bits.IsSingle lid) :
    Bits.Contains (d.pathFID dst path) lid ↔
      lid ∈ path.map NetworkConnection.LID ∨ lid = d.iLID dst := by
  rw [pathFID, Bits.contains_orAll_iff ?_ hlid, mem_append, mem_singleton]
  intro x hx
  rcases mem_append.1 hx with hx | hx
  · obtain ⟨c, hc, rfl⟩ := mem_map.1 hx
    exact hpath c hc
  · rw [mem_singleton.1 hx]
    exact hdst

section
variable (hd : d.Separated) (hpath : ∀ c ∈ path, c ∈ d.connections) (hdst : dst ∈ d.labels)
include hd hpath hdst

theorem Separated.contains_pathFID_iff {lid : FID} (hlid : Bits.IsSingle lid) :
    Bits.Contains (d.pathFID dst path) lid ↔
      lid ∈ path.map NetworkConnection.LID ∨ lid = d.iLID dst := by
  obtain ⟨n, hn, rfl⟩ := mem_map.1 hdst
  exact contains_pathFID_iff (fun c hc => hd.LID c (hpath c hc)) (iLID_eq hn ▸ hd.iLid n hn) hlid

theorem contains_LID_iff (hc : c ∈ d.connections) :
    Bits.Contains (d.pathFID dst path) c.LID ↔ c ∈ path := by
  rw [hd.contains_pathFID_iff hpath hdst (hd.LID c hc), mem_map]
  obtain ⟨n, hn, rfl⟩ := mem_map.1 hdst
  rw [iLID_eq hn]
  constructor
  · rintro (⟨c', hc', hlid⟩ | hlid)
    · rwa [← hd.eq_of_LID (hpath c' hc') hc hlid]
    · exact absurd hlid.symm (hd.iLid_ne_LID hn hc)
  · exact fun hin => .inl ⟨c, hin, rfl⟩

theorem contains_iLid_iff (hn : n ∈ d.nodes) :
    Bits.Contains (d.pathFID dst path) n.iLid ↔ n.label = dst := by
  rw [hd.contains_pathFID_iff hpath hdst (hd.iLid n hn), mem_map]
  obtain ⟨m, hm, rfl⟩ := mem_map.1 hdst
  rw [iLID_eq hm]
  constructor
  · rintro (⟨c, hc, hlid⟩ | hlid)
    · exact absurd hlid.symm (hd.iLid_ne_LID hn (hpath c hc))
    · rw [hd.eq_of_iLid hn hm hlid]
  · exact fun hlabel => .inr (congrArg NetworkNode.iLid (d.eq_of_label hn hm hlabel))

end

end Domain

end Blackadder
