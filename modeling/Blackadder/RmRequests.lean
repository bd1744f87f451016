/-
**Requests for recovery.**

`requestMulticastTree` keeps a running offset over all items of a failure: the request for a second
item is written beyond the end of its block. The numbers of publishers and subscribers are bytes.
Of an item with several identifiers only the first is recorded, with their number.
-/

import Blackadder.RmWire

namespace Blackadder

open Table Except List

variable {data icnID : List UInt8} {i : ℕ} {publishers subscribers : List NodeID}

/-! ### What is recorded -/

def IsBlock (icnID : List UInt8) : Prop :=
  icnID.length = 2 + (byteAt icnID 1).toNat * pursuitIDLen

theorem isBlock_bytesAt (data : List UInt8) :
    IsBlock (bytesAt data 0 ((byteAt data 1).toNat * pursuitIDLen + 1 + 1)) := by
  have hbyte : byteAt (bytesAt data 0 ((byteAt data 1).toNat * pursuitIDLen + 1 + 1)) 1 =
      byteAt data 1 := by
    rw [byteAt, bytesAt, getD_eq_getElem?_getD, getElem?_map, getElem?_range (by omega)]
    rfl
  rw [IsBlock, hbyte, bytesAt_length]
  omega

theorem isBlock_readMulticast {d : MulticastDelivery} (h : MulticastDelivery.read data = .ok d) :
    IsBlock d.icnID := by
  obtain ⟨paths, -, hd⟩ := bind_eq_ok.1 h
  obtain rfl := ok.inj hd
  exact isBlock_bytesAt data

theorem isBlock_readUnicast (data : List UInt8) : IsBlock (UnicastDelivery.read data).icnID :=
  isBlock_bytesAt data

theorem isBlock_itemBlock {k : Id} (hk : k.length ≤ 255) : IsBlock (itemBlock k) := by
  have hbyte : byteAt (itemBlock k) 1 = UInt8.ofNat k.length := rfl
  rw [IsBlock, hbyte, toNat_ofNat_of_le hk, itemBlock_length]

namespace RM

/-- Every item with paths has its alternatives recorded, and items are recorded as blocks. -/
structure Recorded (rm : RM) : Prop where
  multicast : ∀ icnID ∈ rm.pathInfo, icnID ∈ rm.exPubs
  unicast : ∀ icnID ∈ rm.unicastPathInfo, icnID ∈ rm.exSubs
  pubs : ∀ icnID ∈ rm.exPubs, IsBlock icnID
  subs : ∀ icnID ∈ rm.exSubs, IsBlock icnID

variable {rm rm' : RM}

theorem Recorded.recordMulticast (h : rm.Recorded) {d : MulticastDelivery} (hd : IsBlock d.icnID) :
    (rm.recordMulticast d).Recorded := by
  refine ⟨?_, h.unicast, ?_, h.subs⟩
  · intro icnID hicn
    refine mem_set.2 ?_
    simp only [RM.recordMulticast] at hicn
    split at hicn
    · exact .inr (h.multicast icnID (mem_erase.1 hicn).2)
    · rcases mem_set.1 hicn with heq | hmem
      · exact .inl heq
      · exact .inr (h.multicast icnID (mem_erase.1 hmem).2)
  · intro icnID hicn
    rcases mem_set.1 hicn with rfl | hmem
    · exact hd
    · exact h.pubs icnID hmem

theorem Recorded.recordUnicast (h : rm.Recorded) {d : UnicastDelivery} (hd : IsBlock d.icnID) :
    (rm.recordUnicast d).Recorded := by
  refine ⟨h.multicast, ?_, h.pubs, ?_⟩
  · intro icnID hicn
    refine mem_set.2 ?_
    simp only [RM.recordUnicast] at hicn
    split at hicn
    · exact (mem_set.1 hicn).imp id (h.unicast icnID)
    · exact (mem_set.1 hicn).imp id (h.unicast icnID)
    · exact .inr (h.unicast icnID hicn)
  · intro icnID hicn
    rcases mem_set.1 hicn with rfl | hmem
    · exact hd
    · exact h.subs icnID hmem

theorem Recorded.dispathToHandler (h : rm.Recorded) {scope : RmScope} {request : List UInt8}
    (hrun : rm.dispathToHandler scope request = .ok rm') : rm'.Recorded := by
  cases scope with
  | updatePath =>
    rw [RM.dispathToHandler] at hrun
    split at hrun
    · obtain ⟨d, hd, rfl⟩ := exists_ok_of_map hrun
      exact h.recordMulticast (isBlock_readMulticast hd)
    · obtain rfl := ok.inj hrun
      exact h
  | updateUnicastPath =>
    rw [RM.dispathToHandler] at hrun
    split at hrun
    · obtain rfl := ok.inj hrun
      exact h.recordUnicast (isBlock_readUnicast _)
    · obtain rfl := ok.inj hrun
      exact h
  | discoverFailure =>
    obtain rfl := ok.inj hrun
    exact h

def runNotifications (rm : RM) (l : List (RmScope × List UInt8)) : Except TmFault RM :=
  l.foldlM (fun rm x => rm.dispathToHandler x.1 x.2) rm

def initial (tm : TMIgraph) (rmNodeID : NodeID) : RM := ⟨tm, rmNodeID, ∅, ∅, ∅, ∅⟩

theorem recorded_initial (tm : TMIgraph) (rmNodeID : NodeID) : (initial tm rmNodeID).Recorded :=
  ⟨fun k hk => absurd hk (not_mem_empty k), fun k hk => absurd hk (not_mem_empty k),
    fun k hk => absurd hk (not_mem_empty k), fun k hk => absurd hk (not_mem_empty k)⟩

/-- **Only blocks of identifiers are recorded.** -/
theorem recorded_run (tm : TMIgraph) (rmNodeID : NodeID) (l : List (RmScope × List UInt8)) :
    ((initial tm rmNodeID).runNotifications l).Meets (fun _ => True) Recorded := by
  cases h : (initial tm rmNodeID).runNotifications l with
  | error => trivial
  | ok => exact (foldlM_eq_ok (fun _ _ _ h => h.dispathToHandler) l _ _ (recorded_initial tm _) h).1

end RM

/-! ### One request -/

theorem recoveryBytes_length (publishers subscribers : List NodeID) (icnID : List UInt8) :
    (recoveryBytes publishers subscribers icnID).length =
      3 + publishers.length * nodeIDLen + subscribers.length * nodeIDLen + icnID.length := by
  simp only [recoveryBytes, length_append, labels_length, length_cons, length_nil]
  omega

theorem cons_recoveryBytes (publishers subscribers : List NodeID) (icnID : List UInt8) :
    matchPubSubs :: recoveryBytes publishers subscribers icnID =
      pathHead matchPubSubs implicitRendezvous publishers subscribers ++ icnID := by
  simp [recoveryBytes, pathHead]

/-- **A request stays inside its block** if and only if it is the first, and the numbers of nodes
fit into bytes. -/
theorem recoveryRequest_eq_ok_iff {junk : ℕ → UInt8} {offset : ℕ} {pay : List UInt8} :
    recoveryRequest junk offset publishers subscribers icnID = .ok pay ↔
      offset = 0 ∧ publishers.length ≤ 255 ∧ subscribers.length ≤ 255 ∧
        pay = pathHead matchPubSubs implicitRendezvous publishers subscribers ++ icnID := by
  have hsize : recoverySize publishers subscribers icnID = 4 + publishers.length % 256 * 8 +
      subscribers.length % 256 * 8 + icnID.length := by
    rw [recoverySize, UInt8.toNat_ofNat', UInt8.toNat_ofNat', nodeIDLen]
    omega
  obtain ⟨rest, hrest, hlen⟩ := exists_memcpy_append (i := 0) []
    (malloc junk (recoverySize publishers subscribers icnID)) [matchPubSubs] rfl
    (by rw [malloc_length, length_singleton]; omega)
  rw [nil_append, nil_append] at hrest
  rw [malloc_length] at hlen
  have hbytes := recoveryBytes_length publishers subscribers icnID
  rw [nodeIDLen] at hbytes
  have hfront : [matchPubSubs].length = 0 + 1 := rfl
  rw [recoveryRequest, hrest, ok_bind]
  constructor
  · intro h
    rw [memcpy] at h
    split at h
    · rename_i hfits
      rw [length_append] at hfits
      obtain rfl : offset = 0 := by omega
      refine ⟨rfl, by omega, by omega, ?_⟩
      rw [Buffer.write_append hfront, drop_eq_nil_of_le (by omega), append_nil] at h
      exact (ok.inj h).symm
    · cases h
  · intro h
    obtain ⟨rfl, hp, hs, rfl⟩ := h
    rw [memcpy_append hfront (by omega), drop_eq_nil_of_le (by omega), append_nil]
    rfl

structure PathRequest.IsFor (r : PathRequest) (pubs subs : ListSet NodeID) (icnID : List UInt8) :
    Prop where
  publishers : ∀ n, n ∈ r.publishers ↔ n ∈ pubs
  subscribers : ∀ n, n ∈ r.subscribers ↔ n ∈ subs
  single : r.noIDs = 1
  item : r.noIDs :: r.IDLen :: r.ids.take (r.IDLen.toNat * pursuitIDLen) = icnID

/-- The topology manager reads the nodes and the identifier of a request and answers with it, and
the block has the right size. -/
structure RecoveryRequest.Right (x : RecoveryRequest) (pubs subs : ListSet NodeID)
    (icnID : List UInt8) : Prop where
  parsed : (TMIgraph.readPathRequest x.id x.payload).IsFor pubs subs icnID
  answered : x.payload.drop (TMIgraph.readPathRequest x.id x.payload).idsIndex = icnID
  size : x.payload.length = (matchPubSubs :: recoveryBytes pubs.toList subs.toList icnID).length

theorem take_bytesAt {m n : ℕ} (h : m ≤ n) : (bytesAt data i n).take m = bytesAt data i m := by
  obtain ⟨d, rfl⟩ := Nat.exists_eq_add_of_le h
  rw [bytesAt_add, take_left' (bytesAt_length data i m)]

theorem IsBlock.eq_cons (h : IsBlock icnID) : byteAt icnID 0 :: byteAt icnID 1 ::
      bytesAt icnID 2 ((byteAt icnID 1).toNat * pursuitIDLen) = icnID := by
  rw [IsBlock] at h
  match icnID, h with
  | n :: L :: bytes, h =>
    have hlen : bytes.length = (byteAt (n :: L :: bytes) 1).toNat * pursuitIDLen := by
      rw [length_cons, length_cons] at h
      omega
    have hdrop : (n :: L :: bytes).drop 2 = bytes ++ [] := (append_nil bytes).symm
    rw [← hlen, bytesAt_of_drop hdrop]
    rfl

theorem right_iff {x : RecoveryRequest} {pubs subs : ListSet NodeID} {n : ℕ} (hicn : IsBlock icnID)
    (hpay : x.payload = pathHead matchPubSubs implicitRendezvous pubs.toList subs.toList ++ icnID)
    (hn : (byteAt icnID 1).toNat * pursuitIDLen ≤ n)
    (hread : TMIgraph.readPathRequest x.id x.payload = ⟨pubs.toList, subs.toList,
        (pathHead matchPubSubs implicitRendezvous pubs.toList subs.toList).length,
        byteAt icnID 0, byteAt icnID 1, bytesAt icnID 2 n⟩) :
    x.Right pubs subs icnID ↔ byteAt icnID 0 = 1 := by
  constructor
  · intro h
    have hone := h.parsed.single
    rwa [hread] at hone
  · intro hone
    refine ⟨⟨?_, ?_, ?_, ?_⟩, ?_, ?_⟩
    · rw [hread]
      exact fun n => Iff.rfl
    · rw [hread]
      exact fun n => Iff.rfl
    · rw [hread]
      exact hone
    · rw [hread]
      rw [take_bytesAt hn, hicn.eq_cons]
    · rw [hread, hpay]
      exact drop_left
    · rw [hpay, cons_recoveryBytes]

theorem readPathRequest_multicast {tmNode : NodeID} (hp : publishers.length ≤ 255)
    (hs : subscribers.length ≤ 255) :
    TMIgraph.readPathRequest (TMIgraph.reservedScope 241 ++ tmNode.toList)
      (pathHead matchPubSubs implicitRendezvous publishers subscribers ++ icnID) =
        ⟨publishers, subscribers,
          (pathHead matchPubSubs implicitRendezvous publishers subscribers).length,
          byteAt icnID 0, byteAt icnID 1, bytesAt icnID 2 icnID.length⟩ := by
  rw [TMIgraph.readPathRequest, if_neg, readMulticast_pathHead hp hs]
  rw [TMIgraph.isUnicastRequest, take_scope]
  decide

theorem readPathRequest_unicast {tmNode pub : NodeID} (hs : subscribers.length ≤ 255) :
    TMIgraph.readPathRequest
      (TMIgraph.reservedScope 241 ++ TMIgraph.reservedScope 243 ++ tmNode.toList)
      (pathHead matchPubSubs implicitRendezvous [pub] subscribers ++ icnID) =
        ⟨[pub], subscribers, (pathHead matchPubSubs implicitRendezvous [pub] subscribers).length,
          byteAt icnID 0, byteAt icnID 1,
          bytesAt icnID 2 ((byteAt icnID 1).toNat * pursuitIDLen)⟩ := by
  rw [TMIgraph.readPathRequest, if_pos, readUnicast_pathHead hs]
  rw [TMIgraph.isUnicastRequest, take_scope]
  decide

/-! ### All requests after a failure -/

namespace RM

variable {rm : RM} {junk : ℕ → UInt8} {ig : Igraph} {fid : FID}

def allNodes (nodes : List UInt8 → ListSet NodeID) (alternatives : Table (List UInt8) (ListSet NodeID))
    (icnID : List UInt8) : ListSet NodeID :=
  (nodes icnID).union ((alternatives.get icnID).getD ∅)

theorem withAlternatives_eq {nodes : List UInt8 → ListSet NodeID}
    {alts : Table (List UInt8) (ListSet NodeID)} (h : icnID ∈ alts) :
    withAlternatives nodes alts icnID = .ok (allNodes nodes alts icnID) := by
  obtain ⟨others, hoth⟩ := mem_iff.1 h
  rw [withAlternatives, allNodes, hoth]
  rfl

variable (publishers subscribers : List UInt8 → ListSet NodeID)

def RightMulticast (rm : RM) (icnID : List UInt8) (x : Except TmFault RecoveryRequest) : Prop :=
  ∃ r, x = .ok r ∧ r.Right (allNodes publishers rm.exPubs icnID) (subscribers icnID) icnID

def RightUnicast (rm : RM) (item : List UInt8 × NodeID) (x : Except TmFault RecoveryRequest) :
    Prop :=
  ∃ r, x = .ok r ∧
    r.Right ⟨[item.2], nodup_singleton _⟩ (allNodes subscribers rm.exSubs item.1) item.1

theorem rightMulticast_iff (hicn : IsBlock icnID) (offset : ℕ) :
    rm.RightMulticast publishers subscribers icnID
      ((recoveryRequest junk offset (allNodes publishers rm.exPubs icnID).toList
        (subscribers icnID).toList icnID).map (⟨rm.multicastRecoveryID, fid, ·⟩)) ↔
    offset = 0 ∧ (allNodes publishers rm.exPubs icnID).size ≤ 255 ∧ (subscribers icnID).size ≤ 255 ∧
      byteAt icnID 0 = 1 := by
  constructor
  · intro h
    obtain ⟨r, hr, hright⟩ := h
    obtain ⟨pay, hpay, rfl⟩ := exists_ok_of_map hr
    obtain ⟨hoff, hp, hs, rfl⟩ := recoveryRequest_eq_ok_iff.1 hpay
    refine ⟨hoff, hp, hs, (right_iff hicn rfl ?_ (readPathRequest_multicast hp hs)).1 hright⟩
    rw [IsBlock] at hicn
    omega
  · intro h
    obtain ⟨rfl, hp, hs, hone⟩ := h
    rw [recoveryRequest_eq_ok_iff.2 ⟨rfl, hp, hs, rfl⟩]
    refine ⟨_, rfl, (right_iff hicn rfl ?_ (readPathRequest_multicast hp hs)).2 hone⟩
    rw [IsBlock] at hicn
    omega

theorem rightUnicast_iff (hicn : IsBlock icnID) (pub : NodeID) :
    rm.RightUnicast subscribers (icnID, pub)
      ((recoveryRequest junk 0 [pub] (allNodes subscribers rm.exSubs icnID).toList icnID).map
        (⟨rm.unicastRecoveryID, fid, ·⟩)) ↔
    (allNodes subscribers rm.exSubs icnID).size ≤ 255 ∧ byteAt icnID 0 = 1 := by
  constructor
  · intro h
    obtain ⟨r, hr, hright⟩ := h
    obtain ⟨pay, hpay, rfl⟩ := exists_ok_of_map hr
    obtain ⟨-, -, hs, rfl⟩ := recoveryRequest_eq_ok_iff.1 hpay
    exact ⟨hs, (right_iff hicn rfl le_rfl (readPathRequest_unicast hs)).1 hright⟩
  · intro h
    obtain ⟨hs, hone⟩ := h
    have hp : [pub].length ≤ 255 := by
      rw [length_singleton]
      omega
    rw [recoveryRequest_eq_ok_iff.2 ⟨rfl, hp, hs, rfl⟩]
    exact ⟨_, rfl, (right_iff hicn rfl le_rfl (readPathRequest_unicast hs)).2 hone⟩

theorem multicastRequests_cons (h : icnID ∈ rm.exPubs) (offset : ℕ) (icnIDs : List (List UInt8)) :
    rm.multicastRequests junk publishers subscribers fid offset (icnID :: icnIDs) =
      (recoveryRequest junk offset (allNodes publishers rm.exPubs icnID).toList
        (subscribers icnID).toList icnID).map (⟨rm.multicastRecoveryID, fid, ·⟩) ::
      rm.multicastRequests junk publishers subscribers fid
        (offset + 1 + 1 + 1 + (allNodes publishers rm.exPubs icnID).size * nodeIDLen + 1 +
          (subscribers icnID).size * nodeIDLen) icnIDs := by
  rw [multicastRequests, withAlternatives_eq h]

variable {icnIDs : List (List UInt8)}

/-- **The requests for multicast trees**: one for a second item begins four bytes late and does not
fit. -/
theorem multicastRequests_right_iff (hne : icnIDs ≠ [])
    (hpubs : ∀ icnID ∈ icnIDs, icnID ∈ rm.exPubs) (hblo : ∀ icnID ∈ icnIDs, IsBlock icnID) :
    List.Forall₂ (rm.RightMulticast publishers subscribers) icnIDs
      (rm.multicastRequests junk publishers subscribers fid 0 icnIDs) ↔
    icnIDs.length = 1 ∧ ∀ icnID ∈ icnIDs, (allNodes publishers rm.exPubs icnID).size ≤ 255 ∧
      (subscribers icnID).size ≤ 255 ∧ byteAt icnID 0 = 1 := by
  match icnIDs, hne with
  | [icnID], _ =>
    rw [multicastRequests_cons publishers subscribers (hpubs icnID mem_cons_self), forall₂_cons,
      rightMulticast_iff publishers subscribers (hblo icnID mem_cons_self)]
    simp [multicastRequests]
  | first :: second :: rest, _ =>
    have hsec : second ∈ first :: second :: rest := mem_cons_of_mem _ mem_cons_self
    rw [multicastRequests_cons publishers subscribers (hpubs first mem_cons_self),
      multicastRequests_cons publishers subscribers (hpubs second hsec), forall₂_cons,
      forall₂_cons, rightMulticast_iff publishers subscribers (hblo second hsec)]
    refine iff_of_false (fun h => ?_) fun h => ?_
    · have hoff := h.2.1.1
      omega
    · have hlen := h.1
      simp at hlen

def unicastItems (icnIDs : List (List UInt8)) : List (List UInt8 × NodeID) :=
  icnIDs.flatMap fun icnID => (publishers icnID).toList.map fun publisher => (icnID, publisher)

section
variable (hsubs : ∀ icnID ∈ icnIDs, icnID ∈ rm.exSubs)
include hsubs

theorem unicastRequests_eq : icnIDs.flatMap (rm.unicastRequests junk publishers subscribers fid) =
      (unicastItems publishers icnIDs).map fun item =>
        (recoveryRequest junk 0 [item.2] (allNodes subscribers rm.exSubs item.1).toList item.1).map
          (⟨rm.unicastRecoveryID, fid, ·⟩) := by
  rw [unicastItems, map_flatMap]
  refine flatMap_congr fun icnID hicn => ?_
  rw [unicastRequests, withAlternatives_eq (hsubs icnID hicn), map_map]
  rfl

/-- **The requests for unicast paths.** -/
theorem unicastRequests_right_iff (hblo : ∀ icnID ∈ icnIDs, IsBlock icnID) :
    List.Forall₂ (rm.RightUnicast subscribers) (unicastItems publishers icnIDs)
      (icnIDs.flatMap (rm.unicastRequests junk publishers subscribers fid)) ↔
    ∀ icnID ∈ icnIDs, ∀ pub ∈ publishers icnID,
      (allNodes subscribers rm.exSubs icnID).size ≤ 255 ∧ byteAt icnID 0 = 1 := by
  rw [unicastRequests_eq publishers subscribers hsubs, forall₂_map_right_iff, forall₂_same]
  constructor
  · intro h icnID hicn pub hp
    have hmem : (icnID, pub) ∈ unicastItems publishers icnIDs :=
      mem_flatMap.2 ⟨icnID, hicn, mem_map_of_mem hp⟩
    exact (rightUnicast_iff subscribers (hblo icnID hicn) pub).1 (h _ hmem)
  · intro h item hitem
    obtain ⟨icnID, hicn, hmem⟩ := mem_flatMap.1 hitem
    obtain ⟨pub, hp, rfl⟩ := mem_map.1 hmem
    exact (rightUnicast_iff subscribers (hblo icnID hicn) pub).2 (h icnID hicn pub hp)

end

/-- **All requests after a failure are right** if and only if the numbers of nodes fit into bytes,
the items have one identifier each, and at most one is delivered by multicast. -/
theorem recovery_right_iff (hrec : rm.Recorded) (junk : ℕ → UInt8)
    (hfid : rm.tm.calculateFID ig rm.rmNodeID rm.tm.nodeID = .ok fid)
    (icnIDs : ListSet (List UInt8)) (hne : icnIDs.isEmpty = false) :
    ((∀ icnID ∈ icnIDs, icnID ∈ rm.pathInfo) →
      (List.Forall₂ (rm.RightMulticast publishers subscribers) icnIDs.toList
          (rm.requestMulticastTree ig junk publishers subscribers icnIDs) ↔
        icnIDs.size = 1 ∧ ∀ icnID ∈ icnIDs, (allNodes publishers rm.exPubs icnID).size ≤ 255 ∧
          (subscribers icnID).size ≤ 255 ∧ byteAt icnID 0 = 1)) ∧
    ((∀ icnID ∈ icnIDs, icnID ∈ rm.unicastPathInfo) →
      (List.Forall₂ (rm.RightUnicast subscribers) (unicastItems publishers icnIDs.toList)
          (rm.requestUnicastPaths ig junk publishers subscribers icnIDs) ↔
        ∀ icnID ∈ icnIDs, ∀ publisher ∈ publishers icnID,
          (allNodes subscribers rm.exSubs icnID).size ≤ 255 ∧ byteAt icnID 0 = 1)) := by
  constructor
  · intro hids
    have hpubs : ∀ icnID ∈ icnIDs.toList, icnID ∈ rm.exPubs := fun icnID hicn =>
      hrec.multicast icnID (hids icnID hicn)
    rw [requestMulticastTree, hfid]
    exact multicastRequests_right_iff publishers subscribers (isEmpty_eq_false_iff.1 hne) hpubs
      fun icnID hicn => hrec.pubs icnID (hpubs icnID hicn)
  · intro hids
    have hsubs : ∀ icnID ∈ icnIDs.toList, icnID ∈ rm.exSubs := fun icnID hicn =>
      hrec.unicast icnID (hids icnID hicn)
    rw [requestUnicastPaths, hfid]
    exact unicastRequests_right_iff publishers subscribers hsubs fun icnID hicn =>
      hrec.subs icnID (hsubs icnID hicn)

def exampleDelivered (rm : RM) (icnID : List UInt8) : RM :=
  (rm.recordMulticast ⟨icnID, [examplePath], [.ofByte 4], 0⟩).recordUnicast
    ⟨icnID, .ofByte 1, some examplePath, [.ofByte 4], 0⟩

def exampleRecorded : RM :=
  exampleDelivered (exampleDelivered (initial TMIgraph.exampleLineTM (.ofByte 1))
    (itemBlock [.ofByte 8])) (itemBlock [.ofByte 9])

theorem recorded_exampleRecorded : exampleRecorded.Recorded := by
  have hstep : ∀ (rm : RM) (n : UInt8), rm.Recorded →
      (exampleDelivered rm (itemBlock [.ofByte n])).Recorded := fun rm n h =>
    have hblock : IsBlock (itemBlock [.ofByte n]) :=
      isBlock_itemBlock (by rw [length_singleton]; omega)
    (h.recordMulticast hblock).recordUnicast hblock
  exact hstep _ 9 (hstep _ 8 (recorded_initial _ _))

def examplePublishers : List UInt8 → ListSet NodeID := fun _ => .ofList [.ofByte 1]

def exampleSubscribers : List UInt8 → ListSet NodeID := fun _ => .ofList [.ofByte 3]

theorem recovery_right_line :
    List.Forall₂ (exampleRecorded.RightMulticast examplePublishers exampleSubscribers)
      [itemBlock [.ofByte 8]] (exampleRecorded.requestMulticastTree .search (fun _ => 0)
        examplePublishers exampleSubscribers ⟨[itemBlock [.ofByte 8]], by decide⟩) ∧
    List.Forall₂ (exampleRecorded.RightUnicast exampleSubscribers)
      (unicastItems examplePublishers [itemBlock [.ofByte 8]])
      (exampleRecorded.requestUnicastPaths .search (fun _ => 0) examplePublishers
        exampleSubscribers ⟨[itemBlock [.ofByte 8]], by decide⟩) := by
  have hfid : exampleRecorded.tm.calculateFID .search exampleRecorded.rmNodeID
      exampleRecorded.tm.nodeID = .ok (Bits.single fidLen 3) := by decide +kernel
  obtain ⟨hmul, huni⟩ := recovery_right_iff examplePublishers exampleSubscribers
    recorded_exampleRecorded (fun _ => 0) hfid ⟨[itemBlock [.ofByte 8]], by decide⟩ rfl
  refine ⟨(hmul (by decide)).2 (by decide), (huni (by decide)).2 ?_⟩
  intro icnID hicn
  obtain rfl := mem_singleton.1 hicn
  exact ListSet.forall_of_all (by decide +kernel)

/-- The request for the second item does not fit into its block. -/
theorem recovery_fails_for_second_item :
    (exampleRecorded.requestMulticastTree .search (fun _ => 0) examplePublishers exampleSubscribers
      ⟨[itemBlock [.ofByte 8], itemBlock [.ofByte 9]], by decide⟩)[1]? = some (.error .memory) ∧
    ¬ List.Forall₂ (exampleRecorded.RightMulticast examplePublishers exampleSubscribers)
      [itemBlock [.ofByte 8], itemBlock [.ofByte 9]]
      (exampleRecorded.requestMulticastTree .search (fun _ => 0) examplePublishers
        exampleSubscribers ⟨[itemBlock [.ofByte 8], itemBlock [.ofByte 9]], by decide⟩) := by
  have hfault : (exampleRecorded.requestMulticastTree .search (fun _ => 0) examplePublishers
      exampleSubscribers ⟨[itemBlock [.ofByte 8], itemBlock [.ofByte 9]], by decide⟩)[1]? =
        some (.error .memory) := by decide +kernel
  refine ⟨hfault, fun h => ?_⟩
  obtain ⟨hlt, hget⟩ := List.getElem?_eq_some_iff.1 hfault
  have hright := forall₂_iff_get.1 h
  obtain ⟨r, hr, -⟩ := hright.2 1 (by decide) hlt
  cases hr

end RM

end Blackadder
