/-
**Sparse link identifiers.**

`assignLIDs_rm` gives both directions of a link one identifier, which is also the internal one of a
node with a single connection. What keeps a packet on its path is then the test of the forwarders
for packets that would go back. The proofs follow a labelling of links and nodes: a step gives a
new label.
-/

import Mathlib.Data.Sym.Sym2
import Blackadder.Delivery

namespace Blackadder

open Function List
open NetworkConnection (dstLabel link)

/-! ### The loops -/

def NetworkNode.mapLIDs (n : NetworkNode) (iLid : FID) (LID : ℕ → NetworkConnection → FID) :
    NetworkNode :=
  { n with iLid := iLid, connections := n.connections.mapIdx fun j c => { c with LID := LID j c } }

def Domain.mapLIDs (d : Domain) (iLid : NetworkNode → FID)
    (LID : NetworkNode → ℕ → NetworkConnection → FID) : Domain where
  useMac := d.useMac
  nodes := d.nodes.map fun n => n.mapLIDs (iLid n) (LID n)
  labels_nodup := by
    rw [map_map]
    exact d.labels_nodup
  src_eq := by
    intro n hn c hc
    obtain ⟨m, hm, rfl⟩ := mem_map.1 hn
    obtain ⟨j, hj, rfl⟩ := mem_mapIdx.1 hc
    exact d.src_eq m hm m.connections[j] (getElem_mem hj)
  dst_mem := by
    intro n hn c hc
    obtain ⟨m, hm, rfl⟩ := mem_map.1 hn
    obtain ⟨j, hj, rfl⟩ := mem_mapIdx.1 hc
    rw [map_map]
    exact d.dst_mem m hm m.connections[j] (getElem_mem hj)

def Domain.degree (d : Domain) (label : NodeID) : ℕ :=
  ((d.findNode label).map fun n => n.connections.length).getD 0

structure LidState where
  domain : Domain
  lids : List FID
  rand : List ℕ

namespace LidState

variable (st : LidState)

def calculateLID : Option (FID × LidState) :=
  (drawLID st.lids 1 st.rand.length st.rand).map fun x =>
    (x.1, { st with lids := st.lids ++ [x.1], rand := x.2 })

def setLID (nn : NodeID) (j : ℕ) (LID : FID) : LidState :=
  { st with domain := st.domain.mapLIDs NetworkNode.iLid fun n k c =>
      if n.label = nn ∧ k = j then LID else c.LID }

def setReverse (an nn : NodeID) (LID : FID) : LidState :=
  { st with domain := st.domain.mapLIDs NetworkNode.iLid fun n _ c =>
      if n.label = an ∧ c.dstLabel = nn then LID else c.LID }

def setILid (nn : NodeID) (LID : FID) : LidState :=
  { st with domain := st.domain.mapLIDs (fun n => if n.label = nn then LID else n.iLid) fun _ _ c =>
      c.LID }

def setLeaf (nn : NodeID) (LID : FID) : LidState :=
  if st.domain.degree nn = 1 then st.setILid nn LID else st

end LidState

def assignConnection (nn : NodeID) (st : LidState) (j : ℕ) : Option LidState :=
  match (st.domain.findNode nn).bind fun n => n.connections[j]? with
  | none => some st
  | some nc =>
    if Bits.isZero nc.LID then
      st.calculateLID.map fun x =>
        (((x.2.setLID nn j x.1).setReverse nc.dstLabel nn x.1).setLeaf nn x.1).setLeaf
          nc.dstLabel x.1
    else some st

def assignNode (st : LidState) (nn : NodeID) : Option LidState := do
  let nodeConnections := st.domain.degree nn
  let st ← (List.range nodeConnections).foldlM (assignConnection nn) st
  if nodeConnections > 1 then st.calculateLID.map fun x => x.2.setILid nn x.1
  else some st

/-- `assignLIDs_rm`, for the identifiers in use and the numbers of `rand`. -/
def Domain.assignLIDsRm (d : Domain) (lids : List FID) (rand : List ℕ) : Option Domain :=
  (d.labels.foldlM assignNode ⟨d, lids, rand⟩).map LidState.domain

/-! ### Labels -/

def NetworkConnection.pair (c : NetworkConnection) : Sym2 NodeID := s(c.srcLabel, c.dstLabel)

open NetworkConnection (pair)

structure Labelling where
  link : Sym2 NodeID → FID
  node : NodeID → FID

namespace Domain

variable {d d' : Domain} {n : NetworkNode} {c c' : NetworkConnection} {L : Labelling}

theorem eq_of_nodes (hmode : d.useMac = d'.useMac) (hnodes : d.nodes = d'.nodes) : d = d' := by
  cases d'
  cases hmode
  cases hnodes
  rfl

section
variable {iLid iLid' : NetworkNode → FID} {LID LID' : NetworkNode → ℕ → NetworkConnection → FID}

theorem mapLIDs_congr (hnode : ∀ n ∈ d.nodes, iLid n = iLid' n)
    (hlink : ∀ n ∈ d.nodes, ∀ j c, n.connections[j]? = some c → LID n j c = LID' n j c) :
    d.mapLIDs iLid LID = d.mapLIDs iLid' LID' := by
  refine eq_of_nodes rfl (map_congr_left fun n hn => ?_)
  rw [NetworkNode.mapLIDs, hnode n hn]
  congr 1
  refine ext_getElem? fun j => ?_
  rw [getElem?_mapIdx, getElem?_mapIdx]
  cases hc : n.connections[j]? with
  | none => rfl
  | some c => rw [Option.map_some, Option.map_some, hlink n hn j c hc]

theorem mapLIDs_mapLIDs : (d.mapLIDs iLid LID).mapLIDs iLid' LID' =
    d.mapLIDs (fun n => iLid' (n.mapLIDs (iLid n) (LID n)))
      fun n j c => LID' (n.mapLIDs (iLid n) (LID n)) j { c with LID := LID n j c } := by
  refine eq_of_nodes rfl (map_map.trans (map_congr_left fun n _ => ?_))
  simp [NetworkNode.mapLIDs, comp_def]

theorem mapLIDs_self (hnode : ∀ n ∈ d.nodes, iLid n = n.iLid)
    (hlink : ∀ n ∈ d.nodes, ∀ j c, n.connections[j]? = some c → LID n j c = c.LID) :
    d.mapLIDs iLid LID = d := by
  rw [mapLIDs_congr hnode hlink]
  refine eq_of_nodes rfl ((map_congr_left fun n _ => ?_).trans (map_id _))
  have hself : n.connections.mapIdx (fun _ c => c) = n.connections := ext_getElem? (by simp)
  exact congrArg (fun conns => { n with connections := conns }) hself

end

def relabel (d : Domain) (L : Labelling) : Domain :=
  d.mapLIDs (fun n => L.node n.label) fun _ _ c => L.link c.pair

section
variable (d : Domain) (iLid : NetworkNode → FID) (LID : NetworkNode → ℕ → NetworkConnection → FID)
  (label : NodeID)

theorem findNode_mapLIDs : (d.mapLIDs iLid LID).findNode label =
      (d.findNode label).map fun n => n.mapLIDs (iLid n) (LID n) := by
  rw [findNode, mapLIDs, find?_map]
  rfl

@[simp] theorem degree_mapLIDs : (d.mapLIDs iLid LID).degree label = d.degree label := by
  rw [degree, findNode_mapLIDs, Option.map_map]
  congr 2
  funext n
  exact length_mapIdx

end

theorem degree_eq (hn : n ∈ d.nodes) : d.degree n.label = n.connections.length := by
  obtain ⟨m, hm, hlabel, hfind⟩ := d.exists_findNode (mem_map_of_mem hn)
  rw [degree, hfind, d.eq_of_label hm hn hlabel]
  rfl

theorem connections_relabel (d : Domain) (L : Labelling) : (d.relabel L).connections =
    d.connections.map fun c => { c with LID := L.link c.pair } := by
  rw [connections, relabel, mapLIDs, flatMap_map, connections, map_flatMap]
  congr 1
  funext n
  exact ext_getElem? (by simp [NetworkNode.mapLIDs])

/-! ### Domains with links in both directions -/

/-- No two connections join the same two nodes, in the same direction. -/
def Simple (d : Domain) : Prop := (d.connections.map fun c => (c.srcLabel, c.dstLabel)).Nodup

/-- One connection is the other one in the other direction, between the same two addresses. -/
def Reverses (d : Domain) (c c' : NetworkConnection) : Prop :=
  c'.srcLabel = c.dstLabel ∧ c'.dstLabel = c.srcLabel ∧
    if d.useMac then c'.srcMac = c.dstMac ∧ c'.dstMac = c.srcMac
    else c'.srcIP = c.dstIP ∧ c'.dstIP = c.srcIP

def Symmetric (d : Domain) : Prop := ∀ c ∈ d.connections, ∃ c' ∈ d.connections, d.Reverses c c'

instance (d : Domain) : Decidable d.Simple := inferInstanceAs (Decidable (List.Nodup _))

instance (d : Domain) (c c' : NetworkConnection) : Decidable (d.Reverses c c') :=
  inferInstanceAs (Decidable (_ ∧ _ ∧ ite _ _ _))

instance (d : Domain) : Decidable d.Symmetric :=
  inferInstanceAs (Decidable (∀ c ∈ d.connections, ∃ c' ∈ d.connections, d.Reverses c c'))

theorem Simple.eq (h : d.Simple) (hc : c ∈ d.connections) (hc' : c' ∈ d.connections)
    (hsrc : c.srcLabel = c'.srcLabel) (hdst : c.dstLabel = c'.dstLabel) : c = c' :=
  inj_on_of_nodup_map h hc hc' (Prod.ext hsrc hdst)

theorem Simple.index_eq (h : d.Simple) (hn : n ∈ d.nodes) {j k : ℕ}
    (hj : n.connections[j]? = some c) (hk : n.connections[k]? = some c')
    (hdst : c.dstLabel = c'.dstLabel) : j = k := by
  have hall := h
  rw [Simple, connections, map_flatMap] at hall
  have hnodup := (nodup_flatMap.1 hall).1 n hn
  have hsrc : c.srcLabel = c'.srcLabel := (d.src_eq n hn c (mem_of_getElem? hj)).trans
    (d.src_eq n hn c' (mem_of_getElem? hk)).symm
  obtain ⟨hlt, -⟩ := List.getElem?_eq_some_iff.1 hj
  refine (getElem?_inj (by simpa using hlt) hnodup).1 ?_
  rw [getElem?_map, getElem?_map, hj, hk, Option.map_some, Option.map_some, hsrc, hdst]

end Domain

/-! ### Steps of the loops -/

namespace Labelling

def setLink (L : Labelling) (d : Domain) (a b : NodeID) (LID : FID) : Labelling where
  link := Function.update L.link s(a, b) LID
  node := fun x => if (x = a ∨ x = b) ∧ d.degree x = 1 then LID else L.node x

def setNode (L : Labelling) (a : NodeID) (LID : FID) : Labelling :=
  { L with node := Function.update L.node a LID }

end Labelling

section
variable {d : Domain} {L : Labelling} {st : LidState} {n : NetworkNode} {c : NetworkConnection}
  {LID : FID} {j : ℕ}

theorem setLeaf_domain (st : LidState) (a : NodeID) (LID : FID) : (st.setLeaf a LID).domain =
    st.domain.mapLIDs (fun n => if n.label = a ∧ st.domain.degree a = 1 then LID else n.iLid)
      fun _ _ c => c.LID := by
  rw [LidState.setLeaf]
  split
  · next hleaf => exact Domain.mapLIDs_congr (by simp [hleaf]) fun _ _ _ _ _ => rfl
  case isFalse hleaf => exact (Domain.mapLIDs_self (by simp [hleaf]) fun _ _ _ _ _ => rfl).symm

theorem setLink_domain (hd : d.Simple) (hst : st.domain = d.relabel L) (hn : n ∈ d.nodes)
    (hc : n.connections[j]? = some c) :
    ((((st.setLID n.label j LID).setReverse c.dstLabel n.label LID).setLeaf n.label LID).setLeaf
      c.dstLabel LID).domain = d.relabel (L.setLink d n.label c.dstLabel LID) := by
  rw [setLeaf_domain, setLeaf_domain, LidState.setReverse, LidState.setLID, hst, Domain.relabel]
  simp only [Domain.mapLIDs_mapLIDs, Domain.degree_mapLIDs]
  refine Domain.mapLIDs_congr (fun m _ => ?_) fun m hm k c' hk => ?_
  · simp only [NetworkNode.mapLIDs, Labelling.setLink]
    grind
  · have hsrc' : c'.srcLabel = m.label := d.src_eq m hm c' (mem_of_getElem? hk)
    -- at this node the index picks the connection that leads to the other end
    have hind : m.label = n.label → (k = j ↔ c'.dstLabel = c.dstLabel) := by
      intro hlabel
      obtain rfl := d.eq_of_label hm hn hlabel
      refine ⟨?_, hd.index_eq hm hk hc⟩
      rintro rfl
      rw [Option.some.inj (hk.symm.trans hc)]
    simp only [NetworkNode.mapLIDs, Labelling.setLink, pair]
    grind

end

/-! ### What the loops keep -/

namespace Labelling

/-- Labels are in `lids` and have one bit. A link and its way back share one, a node shares that of
its only link; all others differ. The loop has passed `done`, and `links` have a label. -/
structure Sound (d : Domain) (done : List NodeID) (links : List (Sym2 NodeID)) (lids : List FID)
    (L : Labelling) : Prop where
  linked : ∀ s ∈ links, L.link s ≠ Bits.zeros fidLen
  link : ∀ s, L.link s ≠ Bits.zeros fidLen → Bits.IsSingle (L.link s) ∧ L.link s ∈ lids
  link_inj : ∀ s s', L.link s ≠ Bits.zeros fidLen → L.link s = L.link s' → s = s'
  leaf : ∀ n ∈ d.nodes, ∀ c, n.connections = [c] → L.link c.pair ≠ Bits.zeros fidLen →
    L.node n.label = L.link c.pair
  inner : ∀ a ∈ done, 1 < d.degree a →
    (Bits.IsSingle (L.node a) ∧ L.node a ∈ lids) ∧ ∀ s, L.node a ≠ L.link s
  inner_inj : ∀ a ∈ done, ∀ b ∈ done, 1 < d.degree a → 1 < d.degree b → L.node a = L.node b → a = b

variable {d : Domain} {done : List NodeID} {links : List (Sym2 NodeID)} {lids : List FID}
  {L : Labelling} {n : NetworkNode} {c : NetworkConnection} {LID : FID} {a : NodeID}

section
variable (h : Sound d done links lids L)
include h

theorem Sound.setLink (hrev : d.Symmetric) (hn : n ∈ d.nodes)
    (hc : c ∈ n.connections) (hnew : LID ∉ lids) (hone : Bits.IsSingle LID) :
    Sound d done (links ++ [c.pair]) (lids ++ [LID]) (L.setLink d n.label c.dstLabel LID) := by
  have hpair : c.pair = s(n.label, c.dstLabel) := by rw [pair, d.src_eq n hn c hc]
  have hLID : LID ≠ Bits.zeros fidLen := hone.ne_zeros
  have hlink : ∀ s, (L.setLink d n.label c.dstLabel LID).link s =
      if s = c.pair then LID else L.link s := by
    intro s
    rw [hpair]
    exact update_apply _ _ _ _
  have hinner : ∀ a, 1 < d.degree a → (L.setLink d n.label c.dstLabel LID).node a = L.node a :=
    fun a ha => if_neg fun hleaf => ha.ne' hleaf.2
  refine ⟨?_, ?_, ?_, ?_, ?_, ?_⟩
  · intro s hs
    rw [hlink]
    split
    · exact hLID
    case isFalse hne =>
      refine h.linked s ((mem_append.1 hs).resolve_right fun hin => hne ?_)
      exact mem_singleton.1 hin
  · intro s
    rw [hlink]
    split
    · exact fun _ => ⟨hone, mem_append_right _ (mem_singleton_self _)⟩
    · intro hs
      exact ⟨(h.link s hs).1, mem_append_left _ (h.link s hs).2⟩
  · intro s s'
    rw [hlink, hlink]
    split
    case isTrue hs =>
      split
      · next hs' => exact fun _ _ => hs.trans hs'.symm
      · intro _ heq
        exact absurd (heq ▸ (h.link s' (heq ▸ hLID)).2) hnew
    · split
      · exact fun hs heq => absurd (heq ▸ (h.link s hs).2) hnew
      · exact h.link_inj s s'
  · intro m hm c' hm' hs
    have hdeg : d.degree m.label = 1 := by rw [d.degree_eq hm, hm', length_singleton]
    have hpair' : c'.pair = s(m.label, c'.dstLabel) := by
      rw [pair, d.src_eq m hm c' (hm' ▸ mem_singleton_self _)]
    rw [hlink] at hs ⊢
    by_cases heq : c'.pair = c.pair
    · -- the node is an end of the link
      rw [if_pos heq]
      rw [hpair, hpair', Sym2.eq_iff] at heq
      exact if_pos ⟨heq.imp And.left And.left, hdeg⟩
    · rw [if_neg heq] at hs ⊢
      refine Eq.trans (if_neg fun hend => heq ?_) (h.leaf m hm c' hm' hs)
      -- a leaf that is an end of the link has no other link
      rcases hend.1 with hsrc | hdst
      · obtain rfl := d.eq_of_label hm hn hsrc
        rw [hm', mem_singleton] at hc
        rw [hc]
      · obtain ⟨r, hr, hrsrc, hrdst, -⟩ := hrev c (mem_flatMap.2 ⟨n, hn, hc⟩)
        have hr' : r ∈ m.connections :=
          (Domain.mem_connections_iff hm).2 ⟨hr, hrsrc.trans hdst.symm⟩
        rw [hm', mem_singleton] at hr'
        rw [← hr', pair, pair, hrsrc, hrdst, Sym2.eq_swap]
  · intro a ha hdeg
    obtain ⟨⟨hsin, hin⟩, hne⟩ := h.inner a ha hdeg
    rw [hinner a hdeg]
    refine ⟨⟨hsin, mem_append_left _ hin⟩, fun s => ?_⟩
    rw [hlink]
    split
    · exact fun heq => hnew (heq ▸ hin)
    · exact hne s
  · intro a ha b hb hdega hdegb
    rw [hinner a hdega, hinner b hdegb]
    exact h.inner_inj a ha b hb hdega hdegb

theorem Sound.setNode (hdeg : 1 < d.degree a) (hnew : LID ∉ lids) (hone : Bits.IsSingle LID) :
    Sound d (done ++ [a]) links (lids ++ [LID]) (L.setNode a LID) := by
  have hnode : ∀ b, (L.setNode a LID).node b = if b = a then LID else L.node b := update_apply _ _ _
  have hdone : ∀ b ∈ done ++ [a], b ≠ a → b ∈ done := fun b hb hne =>
    (mem_append.1 hb).resolve_right fun hin => hne (mem_singleton.1 hin)
  refine ⟨h.linked, fun s hs => ?_, h.link_inj, ?_, ?_, ?_⟩
  · exact ⟨(h.link s hs).1, mem_append_left _ (h.link s hs).2⟩
  · intro m hm c hc hs
    have hne : m.label ≠ a := by
      rintro rfl
      rw [d.degree_eq hm, hc] at hdeg
      exact lt_irrefl 1 hdeg
    rw [hnode, if_neg hne]
    exact h.leaf m hm c hc hs
  · intro b hb hdegb
    rw [hnode]
    split
    · refine ⟨⟨hone, mem_append_right _ (mem_singleton_self _)⟩, fun s heq => hnew ?_⟩
      rw [heq]
      exact (h.link s (heq ▸ hone.ne_zeros)).2
    case isFalse hne =>
      obtain ⟨⟨hsin, hin⟩, hlink⟩ := h.inner b (hdone b hb hne) hdegb
      exact ⟨⟨hsin, mem_append_left _ hin⟩, hlink⟩
  · intro b hb b' hb' hdegb hdegb'
    rw [hnode, hnode]
    split
    case isTrue hba =>
      split
      · next hba' => exact fun _ => hba.trans hba'.symm
      case isFalse hne' =>
        intro heq
        exact absurd (heq ▸ (h.inner b' (hdone b' hb' hne') hdegb').1.2) hnew
    case isFalse hne =>
      split
      · intro heq
        exact absurd (heq ▸ (h.inner b (hdone b hb hne) hdegb).1.2) hnew
      case isFalse hne' =>
        exact h.inner_inj b (hdone b hb hne) b' (hdone b' hb' hne') hdegb hdegb'

theorem Sound.passLink {s : Sym2 NodeID}
    (hs : L.link s ≠ Bits.zeros fidLen) : Sound d done (links ++ [s]) lids L := by
  refine ⟨fun s' hs' => ?_, h.link, h.link_inj, h.leaf, h.inner, h.inner_inj⟩
  rcases mem_append.1 hs' with hs' | hs'
  · exact h.linked s' hs'
  · rwa [mem_singleton.1 hs']

theorem Sound.passNode (hdeg : ¬ 1 < d.degree a) : Sound d (done ++ [a]) links lids L := by
  have hdone : ∀ b ∈ done ++ [a], 1 < d.degree b → b ∈ done := by
    intro b hb hdegb
    refine (mem_append.1 hb).resolve_right fun hin => hdeg ?_
    rwa [← mem_singleton.1 hin]
  refine ⟨h.linked, h.link, h.link_inj, h.leaf, fun b hb hdegb => ?_, ?_⟩
  · exact h.inner b (hdone b hb hdegb) hdegb
  · intro b hb b' hb' hdegb hdegb'
    exact h.inner_inj b (hdone b hb hdegb) b' (hdone b' hb' hdegb') hdegb hdegb'

end

end Labelling

def LidState.Labelled (d : Domain) (done : List NodeID) (links : List (Sym2 NodeID))
    (st : LidState) : Prop :=
  ∃ L, st.domain = d.relabel L ∧ Labelling.Sound d done links st.lids L

section
variable {d : Domain} {st st' : LidState} {n : NetworkNode} {c : NetworkConnection} {LID : FID}
  {j : ℕ} {done : List NodeID} {links : List (Sym2 NodeID)}

theorem calculateLID_spec (h : st.calculateLID = some (LID, st')) :
    st'.domain = st.domain ∧ st'.lids = st.lids ++ [LID] ∧ LID ∉ st.lids ∧ Bits.IsSingle LID := by
  obtain ⟨⟨LID', rand⟩, hdraw, heq⟩ := Option.map_eq_some_iff.1 h
  obtain ⟨rfl, rfl⟩ := Prod.mk.inj heq
  obtain ⟨hnew, hone⟩ := drawLID_spec hdraw
  exact ⟨rfl, rfl, hnew, hone rfl⟩

section
variable (hd : d.Simple) (hrev : d.Symmetric) (hn : n ∈ d.nodes)
include hd hrev hn

theorem assignConnection_spec (hc : n.connections[j]? = some c) (h : st.Labelled d done links)
    (hstep : assignConnection n.label st j = some st') :
    st'.Labelled d done (links ++ [c.pair]) := by
  obtain ⟨L, hdom, hsound⟩ := h
  obtain ⟨m, hm, hlabel, hfind⟩ := d.exists_findNode (mem_map_of_mem hn)
  obtain rfl := d.eq_of_label hm hn hlabel
  have hnc : ((st.domain.findNode m.label).bind fun n => n.connections[j]?) =
      some { c with LID := L.link c.pair } := by
    rw [hdom, Domain.relabel, Domain.findNode_mapLIDs, hfind]
    simp [NetworkNode.mapLIDs, hc]
  rw [assignConnection, hnc] at hstep
  dsimp only at hstep
  split at hstep
  · obtain ⟨⟨LID, st₁⟩, hdraw, rfl⟩ := Option.map_eq_some_iff.1 hstep
    obtain ⟨hdom₁, hlids, hnew, hone⟩ := calculateLID_spec hdraw
    refine ⟨L.setLink d m.label c.dstLabel LID, setLink_domain hd (hdom₁.trans hdom) hm hc, ?_⟩
    have hlids' : ∀ (st : LidState) (a : NodeID), (st.setLeaf a LID).lids = st.lids := by
      intro st a
      rw [LidState.setLeaf]
      split <;> rfl
    rw [hlids', hlids']
    exact (hlids ▸ hsound.setLink hrev hm (mem_of_getElem? hc) hnew hone :)
  case isFalse hzero =>
    obtain rfl := Option.some.inj hstep
    exact ⟨L, hdom, hsound.passLink fun heq => hzero (Bits.isZero_iff_eq.2 heq)⟩

theorem assignConnections_spec (h : st.Labelled d done links) {k : ℕ} (hk : k ≤ n.connections.length)
    (hloop : (List.range k).foldlM (assignConnection n.label) st = some st') :
    st'.Labelled d done (links ++ (n.connections.take k).map pair) := by
  induction k generalizing st' with
  | zero =>
    obtain rfl := Option.some.inj hloop
    simpa using h
  | succ k ih =>
    rw [range_succ, foldlM_append] at hloop
    obtain ⟨st₁, hfirst, hlast⟩ := Option.bind_eq_some_iff.1 hloop
    obtain ⟨st₂, hstep, heq⟩ := Option.bind_eq_some_iff.1 hlast
    obtain rfl := Option.some.inj heq
    have hc : n.connections[k]? = some n.connections[k] := getElem?_eq_getElem hk
    have hall := assignConnection_spec hd hrev hn hc (ih (by omega) hfirst) hstep
    rwa [append_assoc, ← map_singleton, ← map_append, take_concat_get' _ _ hk] at hall

theorem assignNode_spec (h : st.Labelled d done links) (hstep : assignNode st n.label = some st') :
    st'.Labelled d (done ++ [n.label]) (links ++ n.connections.map pair) := by
  have hdeg : st.domain.degree n.label = d.degree n.label := by
    obtain ⟨L, hdom, -⟩ := h
    rw [hdom, Domain.relabel, Domain.degree_mapLIDs]
  obtain ⟨st₁, hloop, hlast⟩ := Option.bind_eq_some_iff.1 hstep
  rw [hdeg, d.degree_eq hn] at hloop
  obtain ⟨L, hdom, hsound⟩ := assignConnections_spec hd hrev hn h le_rfl hloop
  rw [take_length] at hsound
  rw [hdeg] at hlast
  split at hlast
  case isTrue hinner =>
    obtain ⟨⟨LID, st₂⟩, hdraw, rfl⟩ := Option.map_eq_some_iff.1 hlast
    obtain ⟨hdom₂, hlids, hnew, hone⟩ := calculateLID_spec hdraw
    refine ⟨L.setNode n.label LID, ?_, (hlids ▸ hsound.setNode hinner hnew hone :)⟩
    rw [LidState.setILid, hdom₂, hdom, Domain.relabel, Domain.mapLIDs_mapLIDs]
    refine Domain.mapLIDs_congr (fun m _ => ?_) fun _ _ _ _ _ => rfl
    exact (update_apply L.node n.label LID m.label).symm
  case isFalse hinner =>
    obtain rfl := Option.some.inj hlast
    exact ⟨L, hdom, hsound.passNode hinner⟩

end

theorem assignNodes_spec (hd : d.Simple) (hrev : d.Symmetric) {nodes : List NetworkNode}
    (hnodes : ∀ n ∈ nodes, n ∈ d.nodes) (h : st.Labelled d done links)
    (hloop : (nodes.map NetworkNode.label).foldlM assignNode st = some st') :
    st'.Labelled d (done ++ nodes.map NetworkNode.label)
      (links ++ nodes.flatMap fun n => n.connections.map pair) := by
  induction nodes generalizing st done links with
  | nil =>
    obtain rfl := Option.some.inj hloop
    simpa using h
  | cons n nodes ih =>
    obtain ⟨st₁, hfirst, hrest⟩ := Option.bind_eq_some_iff.1 hloop
    obtain ⟨hn, hnodes⟩ := forall_mem_cons.1 hnodes
    have hall := ih hnodes (assignNode_spec hd hrev hn h hfirst) hrest
    rwa [append_assoc, append_assoc] at hall

end

/-! ### What they achieve -/

namespace Domain

variable {d d₀ : Domain} {n m : NetworkNode} {c c' : NetworkConnection} {lids : List FID}
  {rand : List ℕ} {src dst : NodeID} {path before after : List NetworkConnection}

/-- **A link has one bit in both directions, and no other link has it**; a node has its own, or that
of its single link. -/
structure Sparse (d : Domain) : Prop where
  LID : ∀ c ∈ d.connections, Bits.IsSingle c.LID
  LID_eq_iff : ∀ c ∈ d.connections, ∀ c' ∈ d.connections, c.LID = c'.LID ↔ c.pair = c'.pair
  leaf : ∀ n ∈ d.nodes, ∀ c, n.connections = [c] → n.iLid = c.LID
  inner : ∀ n ∈ d.nodes, 1 < n.connections.length →
    Bits.IsSingle n.iLid ∧ ∀ c ∈ d.connections, n.iLid ≠ c.LID
  inner_inj : ∀ n ∈ d.nodes, ∀ m ∈ d.nodes, 1 < n.connections.length → 1 < m.connections.length →
    n.iLid = m.iLid → n = m

theorem sparse_relabel {L : Labelling}
    (h : Labelling.Sound d d.labels (d.connections.map pair) lids L) : (d.relabel L).Sparse := by
  have hlin : ∀ c ∈ d.connections, L.link c.pair ≠ Bits.zeros fidLen := fun c hc =>
    h.linked c.pair (mem_map_of_mem hc)
  have hnodes : ∀ n ∈ (d.relabel L).nodes, ∃ m ∈ d.nodes, n.iLid = L.node m.label ∧
      n = m.mapLIDs (L.node m.label) (fun _ c => L.link c.pair) ∧
      n.connections.length = d.degree m.label := by
    intro n hn
    obtain ⟨m, hm, rfl⟩ := mem_map.1 hn
    exact ⟨m, hm, rfl, rfl, by rw [d.degree_eq hm]; exact length_mapIdx⟩
  have hconn : ∀ c ∈ (d.relabel L).connections, ∃ c' ∈ d.connections,
      c = { c' with LID := L.link c'.pair } := by
    intro c hc
    rw [connections_relabel] at hc
    obtain ⟨c', hc', rfl⟩ := mem_map.1 hc
    exact ⟨c', hc', rfl⟩
  refine ⟨?_, ?_, ?_, ?_, ?_⟩
  · intro c hc
    obtain ⟨c, hin, rfl⟩ := hconn c hc
    exact (h.link c.pair (hlin c hin)).1
  · intro c hc c' hc'
    obtain ⟨c, hin, rfl⟩ := hconn c hc
    obtain ⟨c', -, rfl⟩ := hconn c' hc'
    exact ⟨h.link_inj _ _ (hlin c hin), congrArg L.link⟩
  · intro n hn c hc
    obtain ⟨m, hm, -, rfl, hdeg⟩ := hnodes n hn
    obtain ⟨c', hc'⟩ : ∃ c', m.connections = [c'] := by
      rw [← length_eq_one_iff, ← d.degree_eq hm, ← hdeg, hc, length_singleton]
    have hin : c' ∈ d.connections := mem_flatMap.2 ⟨m, hm, hc' ▸ mem_singleton_self _⟩
    rw [NetworkNode.mapLIDs, hc'] at hc
    obtain rfl := singleton_inj.1 hc
    exact h.leaf m hm c' hc' (hlin c' hin)
  · intro n hn hdeg
    obtain ⟨m, hm, hiLid, -, hlen⟩ := hnodes n hn
    obtain ⟨⟨hsin, -⟩, hne⟩ := h.inner m.label (mem_map_of_mem hm) (hlen ▸ hdeg)
    rw [hiLid]
    refine ⟨hsin, fun c hc => ?_⟩
    obtain ⟨c, -, rfl⟩ := hconn c hc
    exact hne c.pair
  · intro n hn n' hn' hdeg hdeg' heq
    obtain ⟨m, hm, hiLid, rfl, hlen⟩ := hnodes n hn
    obtain ⟨m', hm', hiLid', rfl, hlen'⟩ := hnodes n' hn'
    have hlabel := h.inner_inj m.label (mem_map_of_mem hm) m'.label (mem_map_of_mem hm')
      (hlen ▸ hdeg) (hlen' ▸ hdeg') (hiLid.symm.trans (heq.trans hiLid'))
    rw [d.eq_of_label hm hm' hlabel]

/-- **Links and inner nodes have bits of their own** after `assignLIDs_rm` of fresh connections. -/
theorem sparse_of_assignLIDsRm (hd : d₀.Simple) (hrev : d₀.Symmetric)
    (hzero : ∀ c ∈ d₀.connections, c.LID = Bits.zeros fidLen)
    (h : d₀.assignLIDsRm lids rand = some d) : d.Sparse ∧ ∃ L, d = d₀.relabel L := by
  obtain ⟨st, hloop, rfl⟩ := Option.map_eq_some_iff.1 h
  have hstart : LidState.Labelled d₀ [] [] ⟨d₀, lids, rand⟩ := by
    refine ⟨⟨fun _ => Bits.zeros fidLen, d₀.iLID⟩, (mapLIDs_self ?_ ?_).symm, ?_⟩
    · exact fun n hn => iLID_eq hn
    · exact fun n hn j c hc => (hzero c (mem_flatMap.2 ⟨n, hn, mem_of_getElem? hc⟩)).symm
    · exact ⟨by simp, fun _ hs => absurd rfl hs, fun _ _ hs => absurd rfl hs,
        fun _ _ _ _ hs => absurd rfl hs, by simp, by simp⟩
  obtain ⟨L, hdom, hsound⟩ := assignNodes_spec hd hrev (fun _ hn => hn) hstart hloop
  rw [← map_flatMap] at hsound
  exact ⟨hdom ▸ sparse_relabel hsound, L, hdom⟩

/-! ### Paths -/

theorem Simple.relabel (h : d.Simple) (L : Labelling) : (d.relabel L).Simple := by
  rw [Simple, connections_relabel, map_map]
  exact h

theorem Symmetric.relabel (h : d.Symmetric) (L : Labelling) : (d.relabel L).Symmetric := by
  rw [Symmetric, connections_relabel]
  intro c hc
  obtain ⟨c, hin, rfl⟩ := mem_map.1 hc
  obtain ⟨c', hc', hrev⟩ := h c hin
  exact ⟨_, mem_map_of_mem hc', hrev⟩

theorem DistinctAddresses.relabel (h : d.DistinctAddresses) (L : Labelling) :
    (d.relabel L).DistinctAddresses := by
  rw [DistinctAddresses, connections_relabel, flatMap_map]
  exact h

theorem Reverses.loopsTo (h : d.Reverses c c') : c.loopsTo d.useMac c' = true := by
  obtain ⟨-, -, haddr⟩ := h
  rw [NetworkConnection.loopsTo]
  cases hmac : d.useMac with
  | true =>
    rw [hmac] at haddr
    simp [haddr.1, haddr.2]
  | false =>
    rw [hmac] at haddr
    simp [haddr.1, haddr.2]

theorem Simple.eq_of_pair (h : d.Simple) (hc : c ∈ d.connections) (hc' : c' ∈ d.connections)
    (hsrc : c.srcLabel = c'.srcLabel) (hpair : c.pair = c'.pair) : c = c' := by
  rcases Sym2.eq_iff.1 hpair with ⟨-, hdst⟩ | ⟨hsd, hds⟩
  · exact h.eq hc hc' hsrc hdst
  · exact h.eq hc hc' hsrc (hds.trans (hsrc.symm.trans hsd))

section
variable (h : d.Route src dst path)
include h

theorem Route.eq_of_dstLabel (hd : d.Simple) (hc : c ∈ path)
    (hc' : c' ∈ path) (hdst : c.dstLabel = c'.dstLabel) : c = c' := by
  have hnodup := (nodup_cons.1 h.nodup).2
  have hlink : c.link = c'.link := inj_on_of_nodup_map hnodup (mem_map_of_mem hc)
    (mem_map_of_mem hc') hdst
  exact hd.eq (h.mem c hc) (h.mem c' hc') (congrArg Routes.Arc.src hlink) hdst

theorem Route.dstLabel_ne_src (hc : c ∈ path) : c.dstLabel ≠ src := by
  rintro rfl
  have hnodup := (nodup_cons.1 h.nodup).1
  exact hnodup (mem_map_of_mem (f := Routes.Arc.dst) (mem_map_of_mem hc))

theorem Route.exists_last : ∃ c ∈ path, c.dstLabel = dst := by
  have hend := (mem_cons.1 h.walk.end_mem).resolve_left h.ne.symm
  rw [map_map] at hend
  exact mem_map.1 hend

end

namespace Sparse

variable (hd : d.Sparse) (hsimple : d.Simple) (hrev : d.Symmetric)
include hd hsimple

theorem distinctLIDs : d.DistinctLIDs := by
  intro n hn
  have hnodup : d.connections.Nodup := Nodup.of_map _ hsimple
  refine ((nodup_flatMap.1 hnodup).1 n hn).map_on fun c hc c' hc' heq => ?_
  obtain ⟨hin, hsrc⟩ := (mem_connections_iff hn).1 hc
  obtain ⟨hin', hsrc'⟩ := (mem_connections_iff hn).1 hc'
  exact hsimple.eq_of_pair hin hin' (hsrc.trans hsrc'.symm) ((hd.LID_eq_iff c hin c' hin').1 heq)

include hrev

omit hsimple in
theorem iLid_of_reached (hc : c ∈ d.connections) (hn : n ∈ d.nodes) (hlabel : n.label = c.dstLabel) :
    n.iLid = c.LID ∨ 1 < n.connections.length := by
  obtain ⟨r, hr, hrsrc, hrdst, -⟩ := hrev c hc
  have hin : r ∈ n.connections := (mem_connections_iff hn).2 ⟨hr, hrsrc.trans hlabel.symm⟩
  by_cases hlen : 1 < n.connections.length
  · exact .inr hlen
  · obtain ⟨r', hr'⟩ : ∃ r', n.connections = [r'] := by
      rw [← length_eq_one_iff]
      have := length_pos_of_mem hin
      omega
    obtain rfl : r = r' := by simpa [hr'] using hin
    rw [hd.leaf n hn r hr', hd.LID_eq_iff r hr c hc, pair, hrsrc, hrdst, Sym2.eq_swap]
    exact .inl rfl

section
variable (h : d.Route src dst path)
include h

omit hsimple in
theorem iLID_dst : Bits.IsSingle (d.iLID dst) ∧ ((∃ c ∈ path, d.iLID dst = c.LID) ∨
    ∃ n ∈ d.nodes, n.label = dst ∧ d.iLID dst = n.iLid ∧ 1 < n.connections.length) := by
  obtain ⟨n, hn, hlabel, -⟩ := d.exists_findNode h.dst_mem
  obtain ⟨c, hc, hdst⟩ := h.exists_last
  have hiLID : d.iLID dst = n.iLid := hlabel ▸ iLID_eq hn
  rw [hiLID]
  rcases hd.iLid_of_reached hrev (h.mem c hc) hn (hlabel.trans hdst.symm) with hleaf | hinner
  · exact ⟨hleaf ▸ hd.LID c (h.mem c hc), .inl ⟨c, hc, hleaf⟩⟩
  · exact ⟨(hd.inner n hn hinner).1, .inr ⟨n, hn, hlabel, rfl, hinner⟩⟩

omit hsimple in
/-- **A connection is selected when its link is on the path**, in either direction. -/
theorem contains_LID_iff (hc : c ∈ d.connections) :
    Bits.Contains (d.pathFID dst path) c.LID ↔ ∃ p ∈ path, p.pair = c.pair := by
  obtain ⟨hsin, hdst⟩ := hd.iLID_dst hrev h
  rw [contains_pathFID_iff (fun p hp => hd.LID p (h.mem p hp)) hsin (hd.LID c hc), mem_map]
  have hpair : ∀ p ∈ path, p.LID = c.LID ↔ p.pair = c.pair := fun p hp =>
    hd.LID_eq_iff p (h.mem p hp) c hc
  constructor
  · rintro (⟨p, hp, heq⟩ | heq)
    · exact ⟨p, hp, (hpair p hp).1 heq⟩
    · rcases hdst with ⟨p, hp, hleaf⟩ | ⟨n, hn, -, hiLid, hinner⟩
      · exact ⟨p, hp, (hpair p hp).1 (hleaf.symm.trans heq.symm)⟩
      · exact absurd (hiLid.symm.trans heq.symm) ((hd.inner n hn hinner).2 c hc)
  · rintro ⟨p, hp, heq⟩
    exact .inl ⟨p, hp, (hpair p hp).2 heq⟩

end

omit hsimple in
theorem not_contains_iLid (h : d.Route src dst (before ++ [c] ++ after)) (hn : n ∈ d.nodes)
    (hlabel : n.label = c.dstLabel) (hne : n.label ≠ dst) :
    Bits.IsSingle n.iLid ∧ ¬ Bits.Contains (d.pathFID dst (before ++ [c] ++ after)) n.iLid := by
  have hwalk : Routes.Walk d.edges src n.label ((before ++ [c]).map link) := hlabel ▸ h.walk_to
  have hc : c ∈ d.connections := h.mem c (by simp)
  -- the way back and the way on are two connections
  have hinner : 1 < n.connections.length := by
    obtain ⟨r, hr, hrsrc, hrdst, -⟩ := hrev c hc
    have hin : r ∈ n.connections := (mem_connections_iff hn).2 ⟨hr, hrsrc.trans hlabel.symm⟩
    obtain ⟨c', rest, hafter⟩ := exists_cons_of_ne_nil fun hnil =>
      hne ((h.label_eq_dst_iff hwalk).2 hnil)
    have hhead : after.head? = some c' := by rw [hafter, head?_cons]
    have hin' : c' ∈ n.connections := h.head_mem hn hwalk hhead
    have hback : c.srcLabel ≠ c'.dstLabel := by
      have hnodup := h.nodup_next hhead
      simp only [nodup_cons, mem_cons, not_or] at hnodup
      exact hnodup.1.2.1
    have hrc : r ≠ c' := by
      rintro rfl
      exact hback hrdst.symm
    by_contra hlen
    obtain ⟨x, hx⟩ : ∃ x, n.connections = [x] := by
      rw [← length_eq_one_iff]
      have := length_pos_of_mem hin
      omega
    rw [hx, mem_singleton] at hin hin'
    exact hrc (hin.trans hin'.symm)
  obtain ⟨hsin, hown⟩ := hd.inner n hn hinner
  obtain ⟨hsin', hdst⟩ := hd.iLID_dst hrev h
  refine ⟨hsin, ?_⟩
  rw [contains_pathFID_iff (fun p hp => hd.LID p (h.mem p hp)) hsin' hsin, mem_map]
  rintro (⟨p, hp, heq⟩ | heq)
  · exact hown p (h.mem p hp) heq.symm
  · rcases hdst with ⟨p, hp, hleaf⟩ | ⟨m, hm, hmdst, hiLid, hmin⟩
    · exact hown p (h.mem p hp) (heq.trans hleaf)
    · exact hne (hd.inner_inj n hn m hm hinner hmin (heq.trans hiLid) ▸ hmdst)

/-- **Sparse identifiers lead along a path**, thanks to the test for ways back. -/
theorem leads (haddr : d.DistinctAddresses) (h : d.Route src dst path) :
    d.Leads src dst (d.pathFID dst path) path := by
  have hlids := hd.distinctLIDs hsimple
  refine ⟨hlids, ?_, ?_, ?_⟩
  · rintro c hc rfl
    obtain ⟨n, hn, hlabel, -⟩ := d.exists_findNode h.src_mem
    have hroute : d.Route c.srcLabel dst ([] ++ path) := h
    have hnext := hroute.mem_path_iff hlids hn (hlabel ▸ .nil _)
      ((mem_connections_iff hn).2 ⟨hc, hlabel.symm⟩)
    rw [hd.contains_LID_iff hrev h hc, ← hnext]
    constructor
    · rintro ⟨p, hp, hpair⟩
      rcases Sym2.eq_iff.1 hpair with ⟨hsrc, -⟩ | ⟨-, hdst⟩
      · exact hsimple.eq_of_pair (h.mem p hp) hc hsrc hpair ▸ hp
      · -- the path does not come back to its source
        exact absurd hdst (h.dstLabel_ne_src hp)
    · exact fun hin => ⟨c, hin, rfl⟩
  · rintro before c after rfl c' hc' hsrc'
    have hc : c ∈ before ++ [c] ++ after := by simp
    obtain ⟨m, hm, hin⟩ := mem_flatMap.1 (h.mem c hc)
    obtain ⟨n, hn, hlabel, -⟩ := d.exists_findNode (d.dst_mem m hm c hin)
    have hnext := h.mem_path_iff hlids hn (hlabel ▸ h.walk_to)
      ((mem_connections_iff hn).2 ⟨hc', hsrc'.trans hlabel.symm⟩)
    rw [hd.contains_LID_iff hrev h hc']
    constructor
    · rintro ⟨⟨p, hp, hpair⟩, -, hloo⟩
      rcases Sym2.eq_iff.1 hpair with ⟨hsrc, -⟩ | ⟨hback, hdst⟩
      · exact hnext.1 (hsimple.eq_of_pair (h.mem p hp) hc' hsrc hpair ▸ hp)
      · -- the connection is the way back, for which the test holds
        obtain rfl := h.eq_of_dstLabel hsimple hp hc (hdst.trans hsrc')
        obtain ⟨r, hr, hreve⟩ := hrev p (h.mem p hp)
        obtain rfl := hsimple.eq hr hc' (hreve.1.trans hsrc'.symm) (hreve.2.1.trans hback)
        rw [hreve.loopsTo] at hloo
        cases hloo
    · intro hhead
      refine ⟨⟨c', hnext.2 hhead, rfl⟩, ?_, ?_⟩
      · have hne : n.label ≠ dst := by
          rw [hlabel, ← hsrc']
          exact h.srcLabel_ne (hnext.2 hhead)
        obtain ⟨hsin, hnot⟩ := hd.not_contains_iLid hrev h hn hlabel hne
        exact Bits.isZero_neg_of_not_contains hsin hnot
      · exact loopsTo_eq_false haddr (h.mem c hc) hc' hsrc' (h.nodup_next hhead)
  · intro c hc n hn hlabel
    obtain ⟨before, after, rfl⟩ := append_of_mem hc
    constructor
    · intro hin
      by_contra hne
      rw [append_cons] at h hin
      exact (hd.not_contains_iLid hrev h hn hlabel hne).2 hin
    · rintro rfl
      rw [← iLID_eq hn]
      exact Bits.contains_orAll (mem_append_right _ (mem_singleton_self _))

end Sparse

/-- **A packet follows any shortest path** after `assignLIDs_rm`. It crosses its connections one
after the other and no others, and is then delivered, once and at the destination only. -/
theorem packet_follows_sparse_path {d₀ d : Domain} {lids : List FID} {rand : List ℕ}
    (hsimple : d₀.Simple) (hrev : d₀.Symmetric) (haddr : d₀.DistinctAddresses)
    (hzero : ∀ c ∈ d₀.connections, c.LID = Bits.zeros fidLen)
    (hassign : d₀.assignLIDsRm lids rand = some d) (sums : Checksums) {src dst : NodeID}
    (hsrc : src ∈ d.labels) (hdst : dst ∈ d.labels) (hne : src ≠ dst) :
    (∀ path : List NetworkConnection, (∀ c ∈ path, c ∈ d.connections) →
      Routes.IsShortest d.edges src dst (path.map link) →
      ∀ ids payload k st,
        d.Run sums k (d.inject sums ids src ((d.pathFID dst path).toList ++ payload)) st →
        k ≤ path.length ∧ st.crossed <+: path ∧
        (k < path.length → st.delivered = [] ∧ ∃ st', d.Step sums st st') ∧
        (k = path.length →
          st.inFlight = [] ∧ st.crossed = path ∧ st.delivered = [(dst, payload)])) ∧
    ∀ ig : Igraph, Routes.Reach d.edges src dst → ∃ path : List NetworkConnection,
      (∀ c ∈ path, c ∈ d.connections) ∧
      Routes.IsShortest d.edges src dst (path.map link) ∧
      ig.shortestPath d.edges src dst = Routes.vertices src (path.map link) ∧
      d.calculateFID ig src dst = .ok (d.pathFID dst path) ∧
      ∀ nodeID rvNodeID rs, (d.topology nodeID rvNodeID rs).calculateFID ig src dst =
        .ok (d.pathFID dst path) := by
  obtain ⟨hd, L, rfl⟩ := sparse_of_assignLIDsRm hsimple hrev hzero hassign
  constructor
  · intro path hmem hshort ids payload k st hrun
    have hroute : (d₀.relabel L).Route src dst path :=
      ⟨hmem, hshort.walk, hshort.nodup, hsrc, hdst, hne⟩
    have hleads := hd.leads (hsimple.relabel L) (hrev.relabel L) (haddr.relabel L) hroute
    exact hleads.follows hroute hrun
  · intro ig hreach
    exact (d₀.relabel L).calculateFID_eq ig hsrc hdst hreach

/-- Three nodes in a line: three identifiers are drawn, the last one twice. -/
def exampleSparse : Domain := (exampleDomain.assignLIDsRm [] [3, 1, 1, 4]).getD exampleDomain

theorem packet_follows_sparse_path_line :
    exampleDomain.assignLIDsRm [] [3, 1, 1, 4] = some exampleSparse ∧
    ∃ path : List NetworkConnection, exampleSparse.calculateFID .search (.ofByte 1) (.ofByte 3) =
        .ok (exampleSparse.pathFID (.ofByte 3) path) ∧
      path.map dstLabel = [.ofByte 2, .ofByte 3] ∧
      ∀ ids payload st, exampleSparse.Run exampleChecksums 2
        (exampleSparse.inject exampleChecksums ids (.ofByte 1)
          ((exampleSparse.pathFID (.ofByte 3) path).toList ++ payload)) st →
        st.inFlight = [] ∧ st.crossed = path ∧ st.delivered = [(.ofByte 3, payload)] := by
  have hass : exampleDomain.assignLIDsRm [] [3, 1, 1, 4] = some exampleSparse := rfl
  have hpath : Igraph.search.shortestPath exampleSparse.edges (.ofByte 1) (.ofByte 3) =
      [.ofByte 1, .ofByte 2, .ofByte 3] := by decide +kernel
  have hreach := Igraph.reach_of_ne_nil (hpath.trans_ne (cons_ne_nil _ _))
  obtain ⟨hfol, hfids⟩ := packet_follows_sparse_path (by decide +kernel) (by decide +kernel)
    (by decide +kernel) (by decide +kernel) hass exampleChecksums (by decide +kernel)
    (by decide +kernel) (by decide : (.ofByte 1 : NodeID) ≠ .ofByte 3)
  obtain ⟨path, hmem, hshort, hver, hfid, -⟩ := hfids .search hreach
  have hdst : path.map dstLabel = [.ofByte 2, .ofByte 3] := by
    rw [Routes.vertices, map_map] at hver
    exact (cons.inj hver).2.symm
  refine ⟨hass, path, hfid, hdst, fun ids payload st hst => ?_⟩
  have hlen : path.length = 2 := by simpa using congrArg length hdst
  exact (hfol path hmem hshort ids payload 2 st hst).2.2.2 hlen.symm

end Domain

end Blackadder
