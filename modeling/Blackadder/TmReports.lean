/-
**Notifications of the topology manager about scopes and deliveries.**

`handleUnicastPathRequest` advances its offset by the number of the subscribers instead of the size
of that number, so that both handlers agree for one subscriber only. The report about a unicast
delivery is collected in a loop that ends at the selected subscriber: those behind it are no
alternatives.
-/

import Blackadder.RmWire

namespace Blackadder

open List Except

namespace TMIgraph

variable {gc : GlobalConf} {ig : Igraph} {tr : Traversal NodeID} {rmNodeID : NodeID} {tm : TMIgraph}
  {type strategy : UInt8} {request rest : List UInt8} {s : NodeID}

/-! ### Scopes -/

def scopeRequest (gc : GlobalConf) (type : ScopeEvent) (ids : ListSet Id)
    (subscribers : ListSet NodeID) (strategy : Strategy) : List UInt8 :=
  let e := requestTMAssistanceForNotifyingSubscribers gc type.code ids subscribers strategy
  (e.bytes.take e.packetLen).drop (apiHeader gc.nodeTMScope gc.tmFID).length

theorem scopeRequest_eq (type : ScopeEvent) (ids : ListSet Id) (subscribers : ListSet NodeID)
    (strategy : Strategy) : scopeRequest gc type ids subscribers strategy =
      [type.code, strategy, UInt8.ofNat subscribers.size] ++ hostBytes subscribers ++ sentIDs ids :=
  toTM_request rfl (by simp only [length_append, hostBytes_length, length_cons, length_nil])

/-- A notification with exactly the identifiers of a request, and unwritten bytes for a forwarding
identifier. -/
def Carries (type : UInt8) (ids : List UInt8) (s : NodeID) (r : Except TmFault TmPublication) : Prop :=
  ∃ fid rest, rest.length = fidLen ∧ r = .ok (.response s fid (type :: (ids ++ rest)))

/-- Both handlers notify the same nodes, of the same identifiers, whatever the memory holds. -/
def NotifyAlike (ig : Igraph) (tr : Traversal NodeID) (rmNodeID : NodeID) (tm : TMIgraph)
    (type : UInt8) (ids request : List UInt8) : Prop :=
  ∀ junk, ∃ nodes,
    Forall₂ (Carries type ids) nodes (tm.handleMulticastPathRequest ig tr rmNodeID junk request) ∧
    Forall₂ (Carries type ids) nodes (tm.handleUnicastPathRequest ig tr rmNodeID junk request)

theorem scopeResponse_eq_ok_iff {junk : ℕ → UInt8} {i c : ℕ} {p : TmPublication}
    (hi : 3 + c * pursuitIDLen ≤ i) (hle : i ≤ request.length) :
    tm.scopeResponse junk request c i s = .ok p ↔ s ∈ tm.nodes ∧
      .response s (tm.tmToNodeFID s) (byteAt request 0 :: (request.drop i ++
        (malloc junk (request.length - 1 - 1 - c * pursuitIDLen + fidLen)).drop
          (request.length - i + 1))) = p := by
  simp only [pursuitIDLen] at hi
  have hfit : 0 + (byteAt request 0 :: request.drop i).length ≤
      (malloc junk (request.length - 1 - 1 - c * pursuitIDLen + fidLen)).length := by
    simp only [length_cons, length_drop, malloc_length, pursuitIDLen]
    omega
  rw [scopeResponse, if_neg (by omega), memcpy, if_pos hfit, Buffer.write, take_zero, length_cons, getTMToNodeFID]
  by_cases hs : s ∈ tm.nodes
  · simp [hs, pure, Except.pure]
  · simp [hs]

section
variable {n c shift : ℕ} (hc : c ≤ n) (hlen : request.length = 3 + n * pursuitIDLen + rest.length)
  (hdrop : request.drop (3 + n * pursuitIDLen) = rest)

include hc hlen hdrop

theorem carries_scopeResponse_iff (hrest : rest ≠ []) :
    (∀ junk, ∃ s', Carries (byteAt request 0) rest s'
      (tm.scopeResponse junk request c (3 + c * pursuitIDLen + shift) s)) ↔
        s ∈ tm.nodes ∧ c = n ∧ shift = 0 := by
  simp only [pursuitIDLen] at hlen hdrop
  constructor
  · intro h
    obtain ⟨s', fid, left, hleft, hr⟩ := h fun _ => rest.getLast hrest + 1
    have hle : 3 + c * pursuitIDLen + shift ≤ request.length := by
      by_contra hlt
      rw [scopeResponse, if_pos (not_le.1 hlt)] at hr
      cases hr
    obtain ⟨hs, hp⟩ := (scopeResponse_eq_ok_iff (by omega) hle).1 hr
    have hbytes := (TmPublication.response.inj hp).2.2
    have hsize := congrArg length hbytes
    simp only [length_cons, length_append, length_drop, malloc_length, hleft, pursuitIDLen]
      at hsize hle
    obtain rfl : c = n := by omega
    refine ⟨hs, rfl, by_contra fun hshi => ?_⟩
    -- the last byte of the identifiers is not written
    have hlast := congrArg (·[rest.length]?) hbytes
    have hpos := length_pos_of_ne_nil hrest
    obtain ⟨m, hm⟩ := Nat.exists_eq_succ_of_ne_zero hpos.ne'
    simp only [hm, getElem?_cons_succ] at hlast
    rw [getElem?_append_right (by rw [length_drop, pursuitIDLen]; omega),
      getElem?_append_left (by omega), getElem?_drop, malloc, getElem?_map,
      getElem?_range (by rw [length_drop]; simp only [pursuitIDLen]; omega),
      getElem?_eq_getElem (by omega), Option.map_some, getLast_eq_getElem] at hlast
    simp [hm] at hlast
  · rintro ⟨hs, rfl, rfl⟩ junk
    have hok : tm.scopeResponse junk request c (3 + c * pursuitIDLen) s = _ :=
      (scopeResponse_eq_ok_iff le_rfl (by simp only [pursuitIDLen]; omega)).2 ⟨hs, rfl⟩
    rw [show request.drop (3 + c * pursuitIDLen) = rest from hdrop] at hok
    refine ⟨s, _, _, ?_, hok⟩
    simp only [length_drop, malloc_length, pursuitIDLen]
    omega

end

variable {junk : ℕ → UInt8} {type : ScopeEvent}

theorem handleMulticastPathRequest_scope (h : byteAt request 0 = type.code) :
    tm.handleMulticastPathRequest ig tr rmNodeID junk request =
      (vectorsAt nodeIDLen request 3 (byteAt request 2).toNat).map (tm.scopeResponse junk request
        (byteAt request 2).toNat (3 + (byteAt request 2).toNat * pursuitIDLen)) := by
  rw [handleMulticastPathRequest, h]
  cases type <;> rfl

theorem handleUnicastPathRequest_scope (h : byteAt request 0 = type.code) :
    tm.handleUnicastPathRequest ig tr rmNodeID junk request =
      (vectorsAt nodeIDLen request (2 + (byteAt request 2).toNat) (byteAt request 2).toNat).map
        (tm.scopeResponse junk request (byteAt request 2).toNat
          (2 + (byteAt request 2).toNat + (byteAt request 2).toNat * pursuitIDLen)) := by
  rw [handleUnicastPathRequest, h]
  cases type <;> rfl

theorem length_pathString (u : NodeID) (l : List Link) :
    (pathString (Routes.vertices u l)).length = 8 + 10 * l.length := by
  induction l generalizing u with
  | nil => exact u.toList_length
  | cons a l ih =>
    change (u.toList ++ [45, 62] ++ pathString (Routes.vertices a.dst l)).length = _
    rw [length_append, length_append, ih, u.toList_length, nodeIDLen]
    simp only [length_cons, length_nil]
    omega

variable {publisher last : NodeID} {subscribers front post : List NodeID} {updateOnly : Bool}
  {result : Table NodeID (Option FID)} {paths : Table NodeID (List UInt8)} {fid : FID}

section
variable (hidx : tm.Indexed) (hpub : publisher ∈ tm.nodes)

include hidx hpub

theorem ucalculateFID_last_iff {nodes : ListSet NodeID} (hsubs : ∀ s ∈ nodes, s ∈ tm.nodes)
    (hlist : nodes.toList = front ++ [last])
    (h : tm.ucalculateFID ig publisher nodes = .ok (result, paths)) :
    (∃ fid, result.get last = some (some fid)) ↔ ∃ l, Routes.Walk tm.edges publisher last l ∧
      ∀ s ∈ front, ∀ l', Routes.Walk tm.edges publisher s l' → l.length < l'.length := by
  have hmem : ∀ s ∈ front ++ [last], s ∈ tm.nodes := fun s hs =>
    hsubs s (ListSet.mem_toList.1 (hlist ▸ hs))
  have hlast : last ∉ front := fun hin =>
    disjoint_of_nodup_append (hlist ▸ nodes.nodup) hin (mem_singleton_self _)
  have hnone : tm.NearestSoFar ig publisher [] ⟨∅, ∅, ⊤, none, Bits.zeros fidLen, []⟩ :=
    ⟨by simp, by simp, .inl ⟨rfl, rfl, by simp⟩⟩
  obtain ⟨st, hfold, hst⟩ :=
    nearestSoFar_foldlM hidx hpub (fun s hs => hmem s (mem_append_left _ hs)) hnone
  obtain ⟨x, hx, hfar, hpath⟩ := calculateFIDHops_spec ig hidx hpub (hmem last (by simp))
  rw [ucalculateFID, hlist, foldlM_append, hfold, ok_bind, foldlM_cons, nearestStep, hx] at h
  simp only [ok_bind] at h
  by_cases hlt : x.hops < st.minimum
  · rw [if_pos hlt] at h
    cases h
    obtain htop | ⟨l, hl, rfl⟩ := hpath
    · exact absurd (htop ▸ hlt) not_top_lt
    refine iff_of_true ⟨_, by rw [Table.get_set, if_pos rfl]⟩ ⟨l, hl.shortest.walk, fun s hs l' hl' => ?_⟩
    rcases hst.best with ⟨-, -, hunr⟩ | ⟨s₀, _, l₀, hl₀, hmin, -, hhops, -, -⟩
    · exact absurd ⟨l', hl'⟩ (hunr s hs)
    · rw [hhops, WithTop.coe_lt_coe] at hlt
      have := hmin s hs l' hl'
      omega
  · rw [if_neg hlt] at h
    refine iff_of_false (fun hfid => ?_) fun hnear => ?_
    · obtain ⟨fid, hfid⟩ := hfid
      have hnone : (st.result.findInsert last none).get last = some none := by
        rw [get_findInsert_visited hst.result, if_pos (by simp)]
      rcases hst.best with ⟨hno, -, -⟩ | ⟨s₀, hs₀, l₀, -, -, hsome, -, -, -⟩
      · rw [hno] at h
        cases h
        rw [hnone] at hfid
        cases hfid
      · rw [hsome] at h
        cases h
        have hne : last ≠ s₀ := fun heq => hlast (heq ▸ hs₀)
        rw [Table.get_set, if_neg hne, hnone] at hfid
        cases hfid
    · obtain ⟨l, hl, hstr⟩ := hnear
      have hle := (not_lt.1 hlt).trans (hfar l hl)
      rcases hst.best with ⟨-, htop, -⟩ | ⟨s₀, hs₀, l₀, hl₀, -, -, hhops, -, -⟩
      · exact WithTop.coe_ne_top (top_le_iff.1 (htop ▸ hle))
      · rw [hhops, WithTop.coe_le_coe] at hle
        have := hstr s₀ hs₀ l₀ hl₀.shortest.walk
        omega

end

/-- The report names the path of the selected subscriber, and all others. -/
def ReportsOthers (ig : Igraph) (tr : Traversal NodeID) (rmNodeID : NodeID) (junk : ℕ → UInt8)
    (tm : TMIgraph) (publisher : NodeID) (subscribers : List NodeID) (request : List UInt8) : Prop :=
  ∃ result paths s fid path others,
    tm.ucalculateFID ig publisher (nodeSet tr subscribers) = .ok (result, paths) ∧
    result.get s = some (some fid) ∧ paths.get s = some path ∧
    path.length ≤ 255 ∧ others.Perm (subscribers.erase s) ∧
    let r := PathRequest.readUnicast request
    ∃ toRM, .ok (.toRM .updateUnicastPath toRM ([updateDelivery, r.noIDs, r.IDLen] ++ r.ids ++
      publisher.toList ++ [1, UInt8.ofNat path.length] ++ path ++ [UInt8.ofNat others.length] ++
        labels others)) ∈ tm.handleUnicastPathRequest ig tr rmNodeID junk request

section
variable (hnodup : subscribers.Nodup)

include hnodup

theorem nodeSet_toList : (nodeSet tr subscribers).toList = tr.visit subscribers :=
  dedup_eq_self.2 (tr.nodup_visit hnodup)

-- a set and a map of the same subscribers are visited in the same order
variable (hord : ∀ l, l.Perm subscribers → tr.visit l = tr.visit subscribers)
  (hrs : tm.rs = true) (hrm : rmNodeID ∈ tm.nodes) (hsize : subscribers.length ≤ 255)
  (hids : (byteAt rest 1).toNat * pursuitIDLen ≤ rest.length)

include hord hrs hrm hsize hids

omit hnodup hord hrs hrm hsize hids in
theorem unicastDelivery_of_le {noIDs IDLen : UInt8} {ids path : List UInt8} (hpath : path.length ≤ 255)
    (hfront : front.length ≤ 255) : unicastDelivery noIDs IDLen ids publisher path front =
      [updateDelivery, noIDs, IDLen] ++ ids ++ publisher.toList ++ [1, UInt8.ofNat path.length] ++ path ++
        [UInt8.ofNat front.length] ++ labels front := by
  rw [unicastDelivery, toNat_ofNat_of_le hpath, toNat_ofNat_of_le hfront, take_length, ← labels_length,
    take_length]

theorem reported_iff {payload : List UInt8}
    (hx : tm.ucalculateFID ig publisher (nodeSet tr subscribers) = .ok (result, paths))
    (hkeys : ∀ s, s ∈ result ↔ s ∈ subscribers) (hvis : tr.visit subscribers = front ++ s :: post)
    (hfid : result.get s = some (some fid)) (hfront : ∀ s' ∈ front, result.get s' = some none) :
    (∃ toRM, .ok (.toRM .updateUnicastPath toRM payload) ∈ tm.handleUnicastPathRequest ig tr rmNodeID
        junk (pathHead (pathType updateOnly) strategy [publisher] subscribers ++ rest)) ↔
      ((paths.get s).getD []).length % 256 ≠ 0 ∧
        payload = unicastDelivery (byteAt rest 0) (byteAt rest 1)
          (bytesAt rest 2 ((byteAt rest 1).toNat * pursuitIDLen)) publisher ((paths.get s).getD [])
          front := by
  have htype : byteAt (pathHead (pathType updateOnly) strategy [publisher] subscribers ++ rest) 0 =
      pathType updateOnly := rfl
  have hkey : tr.visit result.keys.toList = front ++ s :: post := by
    rw [← hvis]
    refine hord _ ((perm_ext_iff_of_nodup result.keys.nodup hnodup).2 fun s' => ?_)
    rw [ListSet.mem_toList, Table.mem_keys_iff, hkeys]
  have hfind : (front ++ s :: post).findSome? (fun s => (result.get s).join.map fun fid => (s, fid)) =
      some (s, fid) := by
    rw [findSome?_append, findSome?_eq_none_iff.2 fun s' hs' => by rw [hfront s' hs']; rfl,
      findSome?_cons, hfid]
    rfl
  have htake : (front ++ s :: post).takeWhile (fun s => (result.get s).join.isNone) = front := by
    rw [takeWhile_append_of_pos fun s' hs' => by rw [hfront s' hs']; rfl, takeWhile_cons_of_neg
      (by rw [hfid]; simp), append_nil]
  have hfits : ¬ (pathHead (pathType updateOnly) strategy [publisher] subscribers ++ rest).length <
      4 + nodeIDLen + subscribers.length * nodeIDLen +
        (bytesAt rest 2 ((byteAt rest 1).toNat * pursuitIDLen)).length := by
    rw [length_append, pathHead_length, bytesAt, length_map, length_range]
    simp only [pursuitIDLen, nodeIDLen, length_singleton] at hids ⊢
    omega
  simp only [handleUnicastPathRequest, htype, if_pos (pathType_cases updateOnly),
    readUnicast_pathHead hsize, vectorAt_publisher, if_neg hfits, hx, hkey, hfind, htake, hrs]
  rw [← mem_reportUnicast_iff (r := ⟨_, _, _, _, _, _⟩) hrm]
  refine exists_congr fun toRM => mem_cons.trans (or_iff_right fun heq => ?_)
  obtain ⟨payload', -, heq⟩ := bind_eq_ok.1 heq.symm
  obtain ⟨toNode, -, heq⟩ := bind_eq_ok.1 heq
  cases heq

/-- **The report lists all other subscribers** exactly when the last is nearer than all others, and
at most 24 links away. -/
theorem reportsOthers_iff (hidx : tm.Indexed) (hpub : publisher ∈ tm.nodes)
    (hsubs : ∀ s ∈ subscribers, s ∈ tm.nodes)
    (hreach : ∃ s ∈ subscribers, Routes.Reach tm.edges publisher s) :
    ReportsOthers ig tr rmNodeID junk tm publisher subscribers
        (pathHead (pathType updateOnly) strategy [publisher] subscribers ++ rest) ↔
      ∃ front last l, tr.visit subscribers = front ++ [last] ∧
        Routes.Walk tm.edges publisher last l ∧ l.length ≤ 24 ∧
        ∀ s ∈ front, ∀ l', Routes.Walk tm.edges publisher s l' → l.length < l'.length := by
  have hset : ∀ s, s ∈ nodeSet tr subscribers ↔ s ∈ subscribers := fun s => by
    rw [← ListSet.mem_toList, nodeSet_toList hnodup, tr.mem_visit]
  have hsubs' : ∀ s ∈ nodeSet tr subscribers, s ∈ tm.nodes := fun s hs => hsubs s ((hset s).1 hs)
  obtain ⟨result, paths, hx, hsel⟩ :=
    ucalculateFID_selectsNearest tm ig hidx publisher hpub (nodeSet tr subscribers) hsubs'
  obtain ⟨s, hs, l, hl, -, hfid, hpath, hoth⟩ := hsel.nearest
    (hreach.imp fun s h => ⟨(hset s).2 h.1, h.2⟩)
  simp only [hset] at hs hoth
  have hkeys : ∀ s, s ∈ result ↔ s ∈ subscribers := fun s => (hsel.keys s).trans (hset s)
  have huni : ∀ {s' fid'}, result.get s' = some (some fid') → s' = s := fun {s' fid'} h => by
    by_contra hne
    have hmem := (hkeys s').1 (Table.mem_of_get h)
    cases (hoth s' hmem hne).symm.trans h
  have hlen := length_pathString publisher l
  have hrep {front post} (hvis : tr.visit subscribers = front ++ s :: post) {payload} :=
    @reported_iff ig tr rmNodeID tm strategy rest s junk publisher _ _ _ updateOnly _ _ _
      hnodup hord hrs hrm hsize hids payload hx hkeys hvis hfid fun s' hs' => by
        have hvisi := tr.nodup_visit hnodup
        rw [hvis] at hvisi
        refine hoth s' (tr.mem_visit.1 (hvis ▸ mem_append_left _ hs')) fun heq => ?_
        exact disjoint_of_nodup_append hvisi hs' (heq ▸ mem_cons_self)
  rw [hpath, Option.getD_some] at hrep
  constructor
  · rintro ⟨result', paths', s', fid', path, others, hx', hfid', hpath', hshort, hperm, hmem⟩
    cases hx.symm.trans hx'
    obtain rfl := huni hfid'
    cases hpath.symm.trans hpath'
    obtain ⟨front, post, hvis⟩ := append_of_mem (tr.mem_visit.2 hs)
    have hleng := (tr.perm subscribers).length_eq
    rw [hvis, length_append, length_cons] at hleng
    obtain ⟨-, hpay⟩ := (hrep hvis).1 hmem
    rw [readUnicast_pathHead hsize, unicastDelivery_of_le hshort (by omega)] at hpay
    have hsame := congrArg length hpay
    have hcount := hperm.length_eq
    rw [length_erase_of_mem hs] at hcount
    simp only [length_append, labels_length, nodeIDLen, length_cons] at hsame
    obtain rfl : post = [] := length_eq_zero_iff.1 (by omega)
    obtain ⟨l₁, hl₁, hstr⟩ := (ucalculateFID_last_iff hidx hpub hsubs'
      ((nodeSet_toList hnodup).trans hvis) hx).1 ⟨_, hfid⟩
    have hle := hl.shortest.le l₁ hl₁
    exact ⟨front, s', l, hvis, hl.shortest.walk, by omega, fun s hs l' hl' =>
      hle.trans_lt (hstr s hs l' hl')⟩
  · rintro ⟨front, last, l', hvis, hl', hshort, hstr⟩
    obtain ⟨fid', hfid'⟩ := (ucalculateFID_last_iff hidx hpub hsubs'
      ((nodeSet_toList hnodup).trans hvis) hx).2 ⟨l', hl', hstr⟩
    obtain rfl := huni hfid'
    have hle := hl.shortest.le l' hl'
    have hleng := (tr.perm subscribers).length_eq
    have hperm := (tr.perm subscribers).erase last
    have hvisi := tr.nodup_visit hnodup
    rw [hvis] at hleng hperm hvisi
    have hlast : last ∉ front := fun hin =>
      disjoint_of_nodup_append hvisi hin (mem_singleton_self _)
    rw [erase_append_right _ hlast, erase_cons_head, append_nil] at hperm
    rw [length_append] at hleng
    refine ⟨result, paths, last, _, _, front, hx, hfid, hpath, by omega, hperm,
      (hrep hvis).2 ⟨by omega, ?_⟩⟩
    rw [readUnicast_pathHead hsize, unicastDelivery_of_le (by omega) (by omega)]

end

/-- A line of three nodes, with links in both directions. -/
def exampleResilientTM : TMIgraph :=
  readTopology ⟨[.ofByte 1, .ofByte 2, .ofByte 3], by decide⟩
    (fun n => Bits.single fidLen (if n = .ofByte 2 then 2 else 3))
    [⟨.ofByte 1, .ofByte 2, Bits.single fidLen 0⟩, ⟨.ofByte 2, .ofByte 3, Bits.single fidLen 1⟩,
      ⟨.ofByte 3, .ofByte 2, Bits.single fidLen 4⟩, ⟨.ofByte 2, .ofByte 1, Bits.single fidLen 5⟩]
    (.ofByte 1) (.ofByte 1) true

/-- A set and a map of these nodes are visited in the order of their labels. -/
def exampleOrder (labels : List NodeID) : Traversal NodeID where
  visit l := if l.Perm labels then labels else l
  perm l := by
    split
    · next h => exact h.symm
    · exact .refl l

/-- From node 3 the last subscriber 2 is nearer than 1, which the report lists. -/
theorem reportsOthers_last :
    ReportsOthers .search (exampleOrder [.ofByte 1, .ofByte 2]) (.ofByte 1) (fun _ => 0)
      exampleResilientTM (.ofByte 3) [.ofByte 1, .ofByte 2]
      (pathHead (pathType false) implicitRendezvous [.ofByte 3] [.ofByte 1, .ofByte 2] ++
        1 :: 1 :: List.replicate pursuitIDLen 7) := by
  have hwalk : Routes.Walk exampleResilientTM.edges (.ofByte 3) (.ofByte 2)
      [⟨.ofByte 3, .ofByte 2, Bits.single fidLen 4⟩] :=
    Routes.walk_cons_iff.2 ⟨by decide +kernel, rfl, .nil _⟩
  have hfar : ∀ l, Routes.Walk exampleResilientTM.edges (.ofByte 3) (.ofByte 1) l → 1 < l.length := by
    intro l hl
    match l with
    | [] => exact absurd (Routes.walk_nil_iff.1 hl) (by decide)
    | [a] =>
      obtain ⟨ha, hsrc, hl⟩ := Routes.walk_cons_iff.1 hl
      have hno : ∀ a ∈ exampleResilientTM.edges, a.src = .ofByte 3 → a.dst ≠ .ofByte 1 := by
        decide +kernel
      exact absurd (Routes.walk_nil_iff.1 hl) (hno a ha hsrc)
    | _ :: _ :: _ => exact Nat.succ_lt_succ (Nat.succ_pos _)
  refine Iff.mpr (reportsOthers_iff (by decide) (fun l hl => ?_) rfl (by decide) (by decide)
    (by decide) updateTMStates_indexed (by decide)
    (forall_mem_cons.2 ⟨by decide, forall_mem_singleton.2 (by decide)⟩) ⟨_, by decide, _, hwalk⟩)
    ⟨[.ofByte 1], _, _, rfl, hwalk, by decide, ?_⟩
  · simp only [exampleOrder, if_pos hl, if_pos (Perm.refl [NodeID.ofByte 1, NodeID.ofByte 2])]
  · exact forall_mem_singleton.2 hfar

/-- The nearest subscriber is the first one: the other one is not listed. -/
theorem not_reportsOthers_first :
    ¬ ReportsOthers .search (exampleOrder [.ofByte 2, .ofByte 3]) (.ofByte 1) (fun _ => 0)
      exampleResilientTM (.ofByte 1) [.ofByte 2, .ofByte 3]
      (pathHead (pathType false) implicitRendezvous [.ofByte 1] [.ofByte 2, .ofByte 3] ++
        1 :: 1 :: List.replicate pursuitIDLen 7) := by
  rintro ⟨-, -, s, -, path, others, -, -, -, hshort, hperm, toRM, hmem⟩
  have hrep : (handleUnicastPathRequest .search (exampleOrder [.ofByte 2, .ofByte 3]) (.ofByte 1)
      (fun _ => 0) exampleResilientTM (pathHead (pathType false) implicitRendezvous [.ofByte 1]
        [.ofByte 2, .ofByte 3] ++ 1 :: 1 :: replicate pursuitIDLen 7)) =
      [.ok (.response (.ofByte 1) (Bits.zeros fidLen) ([startPublish, 1, 1] ++
          replicate pursuitIDLen 7 ++
            (Bits.or (Bits.single fidLen 0) (Bits.single fidLen 2)).toList)),
        .ok (.toRM .updateUnicastPath (Bits.zeros fidLen) ([updateDelivery, 1, 1] ++
          replicate pursuitIDLen 7 ++ (NodeID.ofByte 1).toList ++ [1, 18] ++
            pathString [.ofByte 1, .ofByte 2] ++ [0]))] := by
    decide +kernel
  rw [hrep, readUnicast_pathHead (by decide)] at hmem
  simp only [mem_cons, not_mem_nil, or_false, ok.injEq, reduceCtorEq, false_or,
    TmPublication.toRM.injEq, true_and] at hmem
  have hlen := congrArg length hmem.2
  have hbyte : some (UInt8.ofNat path.length) = some 18 := congrArg (·[20]?) hmem.2
  have hcount := hperm.length_eq
  rw [length_erase] at hcount
  have hpath := congrArg UInt8.toNat (Option.some.inj hbyte)
  rw [toNat_ofNat_of_le hshort] at hpath
  simp only [length_append, labels_length, length_cons, nodeIDLen, bytesAt,
    length_map, length_range, length_replicate] at hlen hcount
  have hids : (byteAt (1 :: 1 :: replicate pursuitIDLen 7) 1).toNat = 1 := rfl
  rw [hids] at hlen
  have hstr : (pathString [NodeID.ofByte 1, NodeID.ofByte 2]).length = UInt8.toNat 18 := rfl
  split at hcount <;> omega

end TMIgraph

/-! ### Link states -/

inductive LinkEvent
  | addLink
  | removeLink
deriving DecidableEq

def LinkEvent.code : LinkEvent → UInt8
  | addLink => 14
  | removeLink => Blackadder.removeLink

/-- What the topology manager is given; other memory follows the ten bytes of a notification. -/
def LinkEvent.received (e : LinkEvent) (netType : UInt8) (affected publisher : NodeID)
    (memory : List UInt8) : LinkStateNotification :=
  ⟨e.code, netType, affected.toList ++ memory, publisher⟩

/-- `string(request, offset, length)`, for a request that is read as a string first. -/
def stringAt (request : List UInt8) (offset length : ℕ) : Except TmFault (List UInt8) :=
  let s := request.takeWhile (· ≠ 0)
  if s.length < offset then .error .outOfRange else .ok ((s.drop offset).take length)

/-- The head of `handleLinkStateNotification` of the resiliency manager: both ends of the link. -/
def RM.readFailure (request : List UInt8) : Except TmFault (List UInt8 × List UInt8) := do
  let lsnPublisher ← stringAt request 1 nodeIDLen
  let affectedNode ← stringAt request (1 + nodeIDLen) nodeIDLen
  return (lsnPublisher, affectedNode)

theorem stringAt_eq_iff (front a mem : List UInt8) :
    stringAt (front ++ (a ++ mem)) front.length a.length = .ok a ↔ 0 ∉ front ∧ 0 ∉ a := by
  have hne {l : List UInt8} (h : 0 ∉ l) : ∀ b ∈ l, decide (b ≠ 0) = true :=
    fun b hb => decide_eq_true fun h0 => h (h0 ▸ hb)
  have hshort {l : List UInt8} (r) (h : 0 ∈ l) : ((l ++ r).takeWhile (· ≠ 0)).length < l.length := by
    obtain ⟨pre, post, rfl⟩ := append_of_mem h
    rw [append_assoc, takeWhile_append]
    split
    · rw [cons_append, takeWhile_cons_of_neg (by simp), append_nil, length_append, length_cons]
      omega
    · have hle := (takeWhile_sublist (l := pre) (· ≠ 0)).length_le
      rw [length_append]
      omega
  by_cases hfront : 0 ∈ front
  · rw [stringAt, if_pos (hshort _ hfront)]
    exact iff_of_false nofun fun h => h.1 hfront
  rw [stringAt, takeWhile_append_of_pos (hne hfront), length_append, if_neg (by omega), drop_left,
    and_iff_right hfront]
  by_cases ha : 0 ∈ a
  · refine iff_of_false (fun h => ?_) fun h => h ha
    have hlen := congrArg length (ok.inj h)
    rw [length_take] at hlen
    have hlt := hshort mem ha
    omega
  · rw [takeWhile_append_of_pos (hne ha), take_left]
    exact iff_of_true rfl ha

theorem affectedNode_eq_iff {c : LinkStateNotification} {n : NodeID} : c.affectedNode = .ok n ↔
    stringAt (c.lsnType :: c.netType :: c.rest) 2 nodeIDLen = .ok n.toList := by
  rw [LinkStateNotification.affectedNode, stringAt]
  dsimp only
  split
  · exact iff_of_false nofun nofun
  split
  case isTrue hlen =>
    exact ⟨fun h => congrArg (fun x => x.map List.Vector.toList) h, fun h =>
      congrArg ok (Subtype.ext (ok.inj h))⟩
  case isFalse hlen =>
    exact iff_of_false nofun fun h => hlen ((congrArg length (ok.inj h)).trans n.toList_length)

/-- Both managers read the nodes of an event as they are. -/
structure ParsedRight (e : LinkEvent) (netType : UInt8) (affected publisher : NodeID)
    (memory memory' : List UInt8) : Prop where
  tm : (e.received netType affected publisher memory).affectedNode = .ok affected
  rm : e = .removeLink →
    RM.readFailure (((e.received netType affected publisher memory).relayed affected).tail ++ memory') =
      .ok (publisher.toList, affected.toList)

/-- **A link state is parsed right** exactly when no byte that is read as a character is zero. -/
theorem parsedRight_iff (e : LinkEvent) (netType : UInt8) (affected pub : NodeID)
    (mem memory' : List UInt8) : ParsedRight e netType affected pub mem memory' ↔
      netType ≠ 0 ∧ 0 ∉ affected.toList ∧ (e = .removeLink → 0 ∉ pub.toList) := by
  have hread := stringAt_eq_iff [e.code, netType] affected.toList mem
  have hpub := stringAt_eq_iff [netType] pub.toList (affected.toList ++ memory')
  have haff := stringAt_eq_iff (netType :: pub.toList) affected.toList memory'
  have hcode : e.code ≠ 0 := by cases e <;> decide
  simp only [affected.toList_length, pub.toList_length, length_cons, mem_cons,
    not_mem_nil, or_false, not_or, hcode.symm, not_false_iff, true_and] at hread hpub haff
  have htm : (e.received netType affected pub mem).affectedNode = .ok affected ↔
      netType ≠ 0 ∧ 0 ∉ affected.toList := by
    rw [affectedNode_eq_iff, ne_comm]
    exact hread
  have hrm : RM.readFailure (((e.received netType affected pub mem).relayed affected).tail ++
      memory') = .ok (pub.toList, affected.toList) ↔
        netType ≠ 0 ∧ 0 ∉ pub.toList ∧ 0 ∉ affected.toList := by
    rw [LinkStateNotification.relayed, tail_cons, cons_append, append_assoc]
    constructor
    · intro h
      obtain ⟨p, hp, h⟩ := bind_eq_ok.1 h
      obtain ⟨a, ha, h⟩ := bind_eq_ok.1 h
      cases h
      exact ⟨Ne.symm (hpub.1 hp).1, (hpub.1 hp).2, (haff.1 ha).2⟩
    · rintro ⟨hnet, hp, ha⟩
      have hfirst := hpub.2 ⟨hnet.symm, hp⟩
      have hsec := haff.2 ⟨⟨hnet.symm, hp⟩, ha⟩
      exact bind_eq_ok.2 ⟨_, hfirst, bind_eq_ok.2 ⟨_, hsec, rfl⟩⟩
  constructor
  · intro h
    obtain ⟨hnet, haffe⟩ := htm.1 h.tm
    exact ⟨hnet, haffe, fun he => (hrm.1 (h.rm he)).2.1⟩
  · rintro ⟨hnet, haffe, hpubl⟩
    exact ⟨htm.2 ⟨hnet, haffe⟩, fun he => hrm.2 ⟨hnet, hpubl he, haffe⟩⟩

theorem not_parsedRight_unidirectional :
    ¬ ParsedRight .removeLink 0 (.replicate 8 49) (.replicate 8 50) [] [] := fun h =>
  nomatch h.tm

end Blackadder
