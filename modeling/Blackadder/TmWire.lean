/-
**From the rendezvous element to the topology manager and on to the proxy.**

The topology manager copies the identifiers of a request into its answer, in front of the forwarding
identifier that the proxy expects behind them. The rendezvous element adds their bytes in an
`unsigned char`: from 32 fragments on the proxy reads beyond the end of the answer.
-/

import Blackadder.ProxyWire
import Blackadder.TmPaths
import Blackadder.TmRequests

namespace Blackadder

open Except List

variable {gc : GlobalConf} {ids : ListSet Id} {data : List UInt8}

theorem toNat_ofNat_of_le {n : ℕ} (hn : n ≤ 255) : (UInt8.ofNat n).toNat = n := by
  rw [UInt8.toNat_ofNat']
  omega

theorem toNat_ofNat_le (n : ℕ) : (UInt8.ofNat n).toNat ≤ n := by
  exact Nat.mod_le _ _

/-! ### What reaches the topology manager -/

def sentIDs (ids : ListSet Id) : List UInt8 :=
  (UInt8.ofNat ids.size :: ids.toList.flatMap remoteID).take (1 + ids.size + (idsTotalBytes ids).toNat)

theorem length_flatMap_ids (ids : ListSet Id) :
    (ids.toList.flatMap remoteID).length = ids.size + fragments ids * 8 := by
  have hlen := wholeIDs_length ids.toList
  rwa [flatMap_map] at hlen

theorem sentIDs_length (ids : ListSet Id) :
    (sentIDs ids).length = 1 + ids.size + fragments ids * 8 % 256 := by
  rw [sentIDs, length_take, length_cons, length_flatMap_ids, idsTotalBytes_toNat]
  omega

theorem sentIDs_of_short (hids : fragments ids < 32) :
    sentIDs ids = UInt8.ofNat ids.size :: ids.toList.flatMap remoteID := by
  rw [sentIDs, idsTotalBytes_toNat]
  refine take_of_length_le ?_
  rw [length_cons, length_flatMap_ids]
  omega

theorem size_le_fragments (ids : ListSet Id) : ids.size ≤ fragments ids + 1 := by
  have hloop : ∀ l : List Id, l.Nodup → l.length ≤ (l.map length).sum + 1 ∧
      ([] ∉ l → l.length ≤ (l.map length).sum) := by
    intro l
    induction l with
    | nil => simp
    | cons k l ih =>
      intro hl
      obtain ⟨hk, hl⟩ := nodup_cons.1 hl
      obtain ⟨hle, hnil⟩ := ih hl
      rw [length_cons, map_cons, sum_cons]
      cases k with
      | nil =>
        have := hnil hk
        exact ⟨by omega, fun h => absurd mem_cons_self h⟩
      | cons a k =>
        rw [length_cons]
        exact ⟨by omega, fun h => by have := hnil fun hm => h (mem_cons_of_mem _ hm); omega⟩
  exact (hloop ids.toList ids.nodup).1

/-- **What is left of a request**: all in front of the identifiers, and as much of them as their
computed length. -/
theorem toTM_request {scope pay : List UInt8} {scopeLen plen : ℕ}
    (hs : scope.length = scopeLen) (hp : pay.length = plen) :
    ((toTM gc scope scopeLen pay plen ids ids).bytes.take
      (toTM gc scope scopeLen pay plen ids ids).packetLen).drop
        (apiHeader scope gc.tmFID).length = pay ++ sentIDs ids := by
  have hbytes : (toTM gc scope scopeLen pay plen ids ids).bytes =
      (apiHeader scope gc.tmFID ++ pay) ++
        (UInt8.ofNat ids.size :: ids.toList.flatMap remoteID) := by
    simp only [Encoding.bytes, toTM, append_nil, append_assoc, flatMap_map]
    rfl
  have hlen : (toTM gc scope scopeLen pay plen ids ids).packetLen =
      (apiHeader scope gc.tmFID ++ pay).length + (1 + ids.size + (idsTotalBytes ids).toNat) := by
    rw [length_append, apiHeader_length]
    simp only [toTM]
    omega
  rw [hbytes, hlen, take_length_add_append, append_assoc, drop_left, sentIDs]

/-! ### What the proxy reads -/

def notificationEnd (data : List UInt8) : ℕ :=
  let type := byteAt data 0
  if type = updateFIDISub then 2 + (byteAt data 1).toNat * (nodeIDLen + fidLen)
  else if type = updateRVFID ∨ type = updateTMFID then
    -- the loop over the identifiers comes first here, too
    max (2 + (readIDs data 2 (byteAt data 1).toNat 0).2) (1 + fidLen)
  else
    2 + (readIDs data 2 (byteAt data 1).toNat 0).2 +
      if type = startPublish ∨ type = updateFID then fidLen else 0

/-- The proxy reads the notification, and nothing behind the end of the packet. -/
structure DecodedAs (data : List UInt8) (n : Notification) : Prop where
  read : readNotification data = n
  inside : notificationEnd data ≤ data.length

def answer (IDs : List Id) (updateOnly : Bool) : Option FID → Notification
  | none => .stopPublish IDs
  | some fid => if updateOnly then .updateFID IDs fid else .startPublish IDs fid

def answerType (updateOnly : Bool) : Option FID → UInt8
  | none => stopPublish
  | some _ => if updateOnly then updateFID else startPublish

def answerTail : Option FID → List UInt8
  | none => []
  | some fid => fid.toList

theorem answer_ids {IDs IDs' : List Id} {upd : Bool} {fid fid' : Option FID}
    (h : answer IDs upd fid = answer IDs' upd fid') : IDs = IDs' := by
  cases fid <;> cases fid' <;> cases upd <;> simp_all [answer]

theorem readNotification_answer (upd : Bool) (fid : Option FID) (body : List UInt8) :
    readNotification (answerType upd fid :: body) =
      answer (readIDs (answerType upd fid :: body) 2 (byteAt body 0).toNat 0).1 upd
        (fid.map fun _ => vectorAt fidLen (answerType upd fid :: body)
          (2 + (readIDs (answerType upd fid :: body) 2 (byteAt body 0).toNat 0).2)) := by
  cases fid with
  | none => rfl
  | some fid => cases upd <;> rfl

theorem notificationEnd_answer (upd : Bool) (fid : Option FID) (body : List UInt8) :
    notificationEnd (answerType upd fid :: body) =
      2 + (readIDs (answerType upd fid :: body) 2 (byteAt body 0).toNat 0).2 +
        (answerTail fid).length := by
  cases fid with
  | none => rfl
  | some fid =>
    rw [answerTail, List.Vector.toList_length]
    cases upd <;> rfl

theorem readIDs_snd_eq (data : List UInt8) (start n index : ℕ) : (readIDs data start n index).2 =
      index + ((readIDs data start n index).1.flatMap remoteID).length := by
  induction n generalizing index with
  | zero => rfl
  | succ n ih =>
    rw [readIDs]
    rw [ih, flatMap_cons, length_append, remoteID_length, idAt_length]
    omega

/-- **Identifiers that are read back are short**: longer ones lack more than what stands behind
them. -/
theorem short_of_decodedAs {upd : Bool} {fid fid' : Option FID}
    (h : DecodedAs (answerType upd fid :: (sentIDs ids ++ answerTail fid))
      (answer ids.toList upd fid')) : fragments ids < 32 := by
  have hread := h.read
  rw [readNotification_answer] at hread
  have hins := h.inside
  rw [notificationEnd_answer, readIDs_snd_eq, answer_ids hread, length_flatMap_ids,
    length_cons, length_append, sentIDs_length] at hins
  omega

/-- **Short identifiers are read back**, with the forwarding identifier behind them. -/
theorem decodedAs_of_short (hids : fragments ids < 32) (upd : Bool) (fid : Option FID) :
    DecodedAs (answerType upd fid :: (sentIDs ids ++ answerTail fid))
      (answer ids.toList upd fid) := by
  have hsize := size_le_fragments ids
  have hcount : (UInt8.ofNat ids.size).toNat = ids.toList.length := by
    exact Nat.mod_eq_of_lt (by omega)
  have hshort : ∀ k ∈ ids.toList, k.length < 32 := fun k hk =>
    lt_of_le_of_lt (single_le_sum (by simp) _ (mem_map_of_mem hk)) hids
  rw [sentIDs_of_short hids, cons_append]
  set body := ids.toList.flatMap remoteID ++ answerTail fid with hbody
  have hdrop : (answerType upd fid :: UInt8.ofNat ids.size :: body).drop (2 + 0) =
      ids.toList.flatMap remoteID ++ answerTail fid := rfl
  have hIDs := (readIDs_eq_iff hdrop).2 hshort
  have hend := readIDs_snd hdrop hshort
  have htail : (answerType upd fid :: UInt8.ofNat ids.size :: body).drop
      (2 + (0 + (ids.toList.flatMap remoteID).length)) = answerTail fid := by
    rw [← Nat.add_assoc, ← drop_drop, hdrop, drop_left' rfl]
  constructor
  · rw [readNotification_answer, byteAt, getD_cons_zero, hcount, hIDs, hend]
    cases fid with
    | none => rfl
    | some fid =>
      rw [Option.map_some, vectorAt_of_drop (l := []) (htail.trans (append_nil _).symm)]
  · rw [notificationEnd_answer, byteAt, getD_cons_zero, hcount, hend, length_cons,
      length_cons, length_append]
    omega

def isubscriberBytes (fids : List (NodeID × FID)) : List UInt8 :=
  fids.flatMap fun x => x.1.toList ++ x.2.toList

theorem isubscriberBytes_length (fids : List (NodeID × FID)) :
    (isubscriberBytes fids).length = fids.length * (nodeIDLen + fidLen) := by
  induction fids with
  | nil => rw [isubscriberBytes, flatMap_nil, length_nil, length_nil, Nat.zero_mul]
  | cons x fids ih =>
    rw [isubscriberBytes] at ih ⊢
    rw [flatMap_cons, length_append, ih, length_append, List.Vector.toList_length,
      List.Vector.toList_length, length_cons, Nat.succ_mul, Nat.add_comm]

variable {fids : List (NodeID × FID)}

theorem read_isubscribers {i : ℕ} {l : List UInt8} (hd : data.drop i = isubscriberBytes fids ++ l) :
    (List.range fids.length).map (fun j =>
      (vectorAt nodeIDLen data (i + j * (nodeIDLen + fidLen)),
        vectorAt fidLen data (i + j * (nodeIDLen + fidLen) + nodeIDLen))) = fids := by
  induction fids generalizing i with
  | nil => rfl
  | cons x fids ih =>
    rw [isubscriberBytes, flatMap_cons, append_assoc, append_assoc] at hd
    have hfid : data.drop (i + nodeIDLen) = x.2.toList ++ (isubscriberBytes fids ++ l) := by
      rw [← drop_drop, hd, drop_left' x.1.toList_length]
      rfl
    have hrest : data.drop (i + (nodeIDLen + fidLen)) = isubscriberBytes fids ++ l := by
      rw [← Nat.add_assoc, ← drop_drop, hfid, drop_left' x.2.toList_length]
    rw [length_cons, range_succ_eq_map, map_cons, map_map, Nat.zero_mul,
      Nat.add_zero, vectorAt_of_drop hd, vectorAt_of_drop hfid]
    refine congrArg (x :: ·) (Eq.trans (map_congr_left fun j _ => ?_) (ih hrest))
    rw [Function.comp_apply, Nat.succ_mul, Nat.add_comm (j * _), ← Nat.add_assoc i]

theorem decodedAs_isubscribers (h : fids.length ≤ 255) :
    DecodedAs (updateFIDISub :: UInt8.ofNat fids.length :: isubscriberBytes fids)
      (.updateFIDISub fids) := by
  have hcount : (byteAt (updateFIDISub :: UInt8.ofNat fids.length :: isubscriberBytes fids)
      1).toNat = fids.length := toNat_ofNat_of_le h
  have hdrop : (updateFIDISub :: UInt8.ofNat fids.length :: isubscriberBytes fids).drop 2 =
      isubscriberBytes fids ++ [] := (append_nil _).symm
  have htype : byteAt (updateFIDISub :: UInt8.ofNat fids.length :: isubscriberBytes fids) 0 =
      updateFIDISub := rfl
  constructor
  · rw [readNotification]
    simp [htype, hcount, read_isubscribers hdrop]
  · rw [notificationEnd]
    simp only [htype, if_true, hcount, length_cons, isubscriberBytes_length]
    omega

/-! ### Which bytes are lengths -/

def lengthIndices (data : List UInt8) (start : ℕ) : ℕ → ℕ → List ℕ
  | 0, _ => []
  | n + 1, index => (start + index) :: lengthIndices data start n
      (index + 1 + (byteAt data (start + index)).toNat * pursuitIDLen)

def countIndices (data : List UInt8) : List ℕ :=
  if byteAt data 0 = updateFIDISub then [1]
  else 1 :: lengthIndices data 2 (byteAt data 1).toNat 0

theorem lt_of_mem_lengthIndices {start n index i : ℕ}
    (hi : i ∈ lengthIndices data start n index) : i < start + (readIDs data start n index).2 := by
  induction n generalizing index with
  | zero => cases hi
  | succ n ih =>
    rcases mem_cons.1 hi with rfl | hi
    · rw [readIDs_snd_eq, readIDs, flatMap_cons, length_append, remoteID_length]
      omega
    · exact ih hi

namespace Notification

def listedID (k : Id) : List UInt8 := UInt8.ofNat k.length :: idBytes k

/-- The number of identifiers, each behind its length, and what follows. -/
def withIDs (type : UInt8) (IDs : List Id) (tail : List UInt8) : List UInt8 :=
  type :: UInt8.ofNat IDs.length :: (IDs.flatMap listedID ++ tail)

def bytes : Notification → List UInt8
  | .scopePublished IDs => withIDs ScopeEvent.scopePublished.code IDs []
  | .scopeUnpublished IDs => withIDs ScopeEvent.scopeUnpublished.code IDs []
  | .startPublish IDs fid => withIDs Blackadder.startPublish IDs fid.toList
  | .updateFID IDs fid => withIDs Blackadder.updateFID IDs fid.toList
  | .updateRVFID fid => Blackadder.updateRVFID :: fid.toList
  | .updateTMFID fid => Blackadder.updateTMFID :: fid.toList
  | .stopPublish IDs => withIDs Blackadder.stopPublish IDs []
  | .updateFIDISub fids =>
    Blackadder.updateFIDISub :: UInt8.ofNat fids.length :: isubscriberBytes fids
  | .other _ => []

def fidIndices : Notification → List ℕ
  | .startPublish IDs _ => List.range' (2 + (IDs.flatMap listedID).length) fidLen
  | .updateFID IDs _ => List.range' (2 + (IDs.flatMap listedID).length) fidLen
  | .updateRVFID _ => List.range' 1 fidLen
  | .updateTMFID _ => List.range' 1 fidLen
  | .updateFIDISub fids => (List.range fids.length).flatMap fun j =>
    List.range' (2 + j * (nodeIDLen + fidLen) + nodeIDLen) fidLen
  | _ => []

def carried : Notification → List Id
  | .scopePublished IDs => IDs
  | .scopeUnpublished IDs => IDs
  | .startPublish IDs _ => IDs
  | .updateFID IDs _ => IDs
  | .stopPublish IDs => IDs
  | _ => []

/-- The proxy reads inside the packet, and takes no byte of a forwarding identifier for a length. -/
def ReadWell (n : Notification) : Prop :=
  notificationEnd n.bytes ≤ n.bytes.length ∧ ∀ i ∈ countIndices n.bytes, i ∉ n.fidIndices

variable {IDs : List Id} {n : Notification}

theorem readIDs_listed {start m index : ℕ} {tail : List UInt8} (hIDs : ∀ k ∈ IDs, k.length ≤ 255)
    (hm : m ≤ IDs.length) (hd : data.drop (start + index) = IDs.flatMap listedID ++ tail) :
    (readIDs data start m index).2 ≤ index + (IDs.flatMap listedID).length := by
  induction m generalizing IDs index with
  | zero => exact Nat.le_add_right _ _
  | succ m ih =>
    cases IDs with
    | nil => cases hm
    | cons k IDs =>
      rw [flatMap_cons, listedID, append_assoc] at hd
      have hbyte : (byteAt data (start + index)).toNat = k.length := by
        rw [byteAt_of_drop hd, toNat_ofNat_of_le (hIDs k mem_cons_self)]
      have hd' : data.drop (start + (index + 1 + k.length * pursuitIDLen)) =
          IDs.flatMap listedID ++ tail := by
        rw [Nat.add_assoc, ← Nat.add_assoc start, ← drop_drop, hd, Nat.add_comm 1]
        exact drop_left' (by rw [length_cons, idBytes_length])
      have hle := ih (fun g hg => hIDs g (mem_cons_of_mem k hg)) (Nat.le_of_succ_le_succ hm) hd'
      rw [readIDs, hbyte, flatMap_cons, length_append, listedID, length_cons, idBytes_length]
      omega

theorem withIDs_read {type : UInt8} (tail : List UInt8) (hIDs : ∀ k ∈ IDs, k.length ≤ 255)
    (htype : type ≠ Blackadder.updateFIDISub) :
    2 + (readIDs (withIDs type IDs tail) 2 (UInt8.ofNat IDs.length).toNat 0).2 + tail.length ≤
      (withIDs type IDs tail).length ∧ ∀ i ∈ countIndices (withIDs type IDs tail),
        i ∉ List.range' (2 + (IDs.flatMap listedID).length) fidLen := by
  have hle : (readIDs (withIDs type IDs tail) 2 (UInt8.ofNat IDs.length).toNat 0).2 ≤
      0 + (IDs.flatMap listedID).length := readIDs_listed hIDs (toNat_ofNat_le _) rfl
  refine ⟨?_, fun i hi hmem => ?_⟩
  · rw [withIDs, length_cons, length_cons, length_append]
    rw [withIDs] at hle
    omega
  · have hcount : countIndices (withIDs type IDs tail) = 1 :: lengthIndices (withIDs type IDs tail) 2
        (UInt8.ofNat IDs.length).toNat 0 := if_neg htype
    rw [mem_range'_1] at hmem
    rw [hcount] at hi
    rcases mem_cons.1 hi with rfl | hi
    · omega
    · have hlt := lt_of_mem_lengthIndices hi
      omega

/-- **The proxy reads inside the packet and takes no byte of a forwarding identifier for a length**
exactly when it is not told a path to the rendezvous node or the topology manager. -/
theorem readWell_iff (hn : ∀ type, n ≠ .other type) (hIDs : ∀ k ∈ n.carried, k.length ≤ 255) :
    n.ReadWell ↔ (∀ fid, n ≠ .updateRVFID fid) ∧ ∀ fid, n ≠ .updateTMFID fid := by
  have hfirst : 1 ∈ range' 1 fidLen := by decide
  cases n with
  | updateRVFID fid =>
    exact iff_of_false (fun hread => hread.2 1 mem_cons_self hfirst) fun hne => hne.1 fid rfl
  | updateTMFID fid =>
    exact iff_of_false (fun hread => hread.2 1 mem_cons_self hfirst) fun hne => hne.2 fid rfl
  | other type => exact absurd rfl (hn type)
  | updateFIDISub fids =>
    refine iff_of_true ⟨?_, fun i hi hmem => ?_⟩ ⟨nofun, nofun⟩
    · change 2 + (UInt8.ofNat fids.length).toNat * (nodeIDLen + fidLen) ≤ _
      rw [bytes, length_cons, length_cons, isubscriberBytes_length, Nat.add_comm]
      exact Nat.add_le_add_right (Nat.mul_le_mul_right _ (toNat_ofNat_le _)) 2
    · cases mem_singleton.1 hi
      obtain ⟨j, -, hj⟩ := mem_flatMap.1 hmem
      rw [mem_range'_1] at hj
      omega
  | startPublish IDs fid =>
    have hread := withIDs_read fid.toList hIDs (show Blackadder.startPublish ≠ _ by decide)
    rw [fid.toList_length] at hread
    exact iff_of_true hread ⟨nofun, nofun⟩
  | updateFID IDs fid =>
    have hread := withIDs_read fid.toList hIDs (show Blackadder.updateFID ≠ _ by decide)
    rw [fid.toList_length] at hread
    exact iff_of_true hread ⟨nofun, nofun⟩
  | scopePublished IDs | scopeUnpublished IDs | stopPublish IDs =>
    exact iff_of_true ⟨(withIDs_read [] hIDs (by decide)).1, nofun⟩ ⟨nofun, nofun⟩

/-- A publisher is told to start. -/
theorem readWell_iff_startPublish :
    (Notification.startPublish [[.ofByte 1]] (List.Vector.replicate fidLen 255)).ReadWell := by
  refine (readWell_iff (fun type => ?_) ?_).2 ⟨nofun, nofun⟩
  · exact nofun
  · decide

/-- The second byte of a path is taken for 255 fragments, far beyond the end of the packet. -/
theorem not_readWell_updateRVFID :
    let n := Notification.updateRVFID ⟨1 :: 255 :: List.replicate 30 0, rfl⟩
    n.bytes.length = 33 ∧ notificationEnd n.bytes = 2043 ∧ ¬ n.ReadWell := by
  refine ⟨rfl, by decide +kernel, fun hread => ?_⟩
  exact absurd hread.1 (by decide +kernel)

end Notification

/-! ### What the topology manager reads -/

def pathHead (type strategy : UInt8) (publishers subscribers : List NodeID) : List UInt8 :=
  [type, strategy, UInt8.ofNat publishers.length] ++ labels publishers ++
    [UInt8.ofNat subscribers.length] ++ labels subscribers

section
variable {type strat : UInt8} {pubs subs : List NodeID} {rest : List UInt8}

theorem labels_length (nodes : List NodeID) : (labels nodes).length = nodes.length * nodeIDLen :=
  length_flatMap_toList nodes

theorem pathHead_length : (pathHead type strat pubs subs).length =
    4 + pubs.length * pursuitIDLen + subs.length * pursuitIDLen := by
  simp only [pathHead, length_append, labels_length, length_cons, length_nil,
    nodeIDLen, pursuitIDLen]
  omega

theorem byteAt_append (front rest : List UInt8) (j : ℕ) :
    byteAt (front ++ rest) (front.length + j) = byteAt rest j := by
  rw [byteAt, byteAt, getD_eq_getElem?_getD, getD_eq_getElem?_getD,
    getElem?_append_right (by omega), Nat.add_sub_cancel_left]

theorem bytesAt_append (front rest : List UInt8) (j n : ℕ) :
    bytesAt (front ++ rest) (front.length + j) n = bytesAt rest j n := by
  refine map_congr_left fun i _ => ?_
  rw [Nat.add_assoc, byteAt_append]

theorem drop_publishers : (pathHead type strat pubs subs ++ rest).drop 3 =
    labels pubs ++ (UInt8.ofNat subs.length :: (labels subs ++ rest)) := by
  simp [pathHead]

theorem drop_noSubscribers : (pathHead type strat pubs subs ++ rest).drop
    (3 + pubs.length * nodeIDLen) = UInt8.ofNat subs.length :: (labels subs ++ rest) := by
  rw [← drop_drop, drop_publishers, drop_left' (labels_length pubs)]

theorem drop_subscribers : (pathHead type strat pubs subs ++ rest).drop
    (4 + pubs.length * nodeIDLen) = labels subs ++ rest := by
  rw [show 4 + pubs.length * nodeIDLen = 3 + pubs.length * nodeIDLen + 1 by omega,
    ← drop_drop, drop_noSubscribers]
  rfl

theorem readMulticast_pathHead (hp : pubs.length ≤ 255) (hs : subs.length ≤ 255) :
    PathRequest.readMulticast (pathHead type strat pubs subs ++ rest) =
      { publishers := pubs
        subscribers := subs
        idsIndex := (pathHead type strat pubs subs).length
        noIDs := byteAt rest 0
        IDLen := byteAt rest 1
        ids := bytesAt rest 2 rest.length } := by
  have hpubs : (byteAt (pathHead type strat pubs subs ++ rest) 2).toNat =
      pubs.length := toNat_ofNat_of_le hp
  have hbyte : byteAt (pathHead type strat pubs subs ++ rest)
      (3 + pubs.length * pursuitIDLen) = UInt8.ofNat subs.length :=
    byteAt_of_drop drop_noSubscribers
  have hlen : 4 + pubs.length * pursuitIDLen + subs.length * pursuitIDLen =
      (pathHead type strat pubs subs).length := pathHead_length.symm
  simp only [PathRequest.readMulticast, hpubs, hbyte, toNat_ofNat_of_le hs, hlen, byteAt_append,
    bytesAt_append, length_append, Nat.add_sub_cancel_left, PathRequest.mk.injEq, and_true,
    true_and]
  exact ⟨vectorsAt_of_drop drop_publishers, vectorsAt_of_drop drop_subscribers,
    byteAt_append _ rest 0⟩

theorem vectorAt_publisher {pub : NodeID} :
    vectorAt nodeIDLen (pathHead type strat [pub] subs ++ rest) 3 = pub := by
  have hdrop : (pathHead type strat [pub] subs ++ rest).drop 3 =
      pub.toList ++ (UInt8.ofNat subs.length :: (labels subs ++ rest)) := by
    simp [pathHead, labels]
  exact vectorAt_of_drop hdrop

theorem readUnicast_pathHead {pub : NodeID} (hs : subs.length ≤ 255) :
    PathRequest.readUnicast (pathHead type strat [pub] subs ++ rest) =
      { publishers := [pub]
        subscribers := subs
        idsIndex := (pathHead type strat [pub] subs).length
        noIDs := byteAt rest 0
        IDLen := byteAt rest 1
        ids := bytesAt rest 2 ((byteAt rest 1).toNat * pursuitIDLen) } := by
  have hbyte : byteAt (pathHead type strat [pub] subs ++ rest) (3 + nodeIDLen) =
      UInt8.ofNat subs.length :=
    byteAt_of_drop (i := 3 + [pub].length * nodeIDLen) drop_noSubscribers
  have hone : (byteAt (pathHead type strat [pub] subs ++ rest) 2).toNat = 1 := rfl
  have hlen : 4 + 1 * pursuitIDLen + subs.length * pursuitIDLen =
      (pathHead type strat [pub] subs).length := by rw [pathHead_length]; rfl
  have hoff : 4 + nodeIDLen + subs.length * nodeIDLen =
      (pathHead type strat [pub] subs).length := by rw [pathHead_length]; rfl
  simp only [PathRequest.readUnicast, hbyte, hone, toNat_ofNat_of_le hs, hlen, hoff,
    byteAt_append, bytesAt_append, PathRequest.mk.injEq, and_true, true_and, cons.injEq]
  have hsubs : (pathHead type strat [pub] subs ++ rest).drop
      (4 + [pub].length * nodeIDLen) = labels subs ++ rest := drop_subscribers
  exact ⟨vectorAt_publisher, vectorsAt_of_drop hsubs, byteAt_append _ rest 0⟩

end

/-! ### What the topology manager answers -/

def pathType (updateOnly : Bool) : UInt8 := if updateOnly then updateFID else matchPubSubs

theorem pathType_cases (upd : Bool) : pathType upd = matchPubSubs ∨ pathType upd = updateFID := by
  cases upd with
  | false => exact .inl rfl
  | true => exact .inr rfl

theorem pathResponse_append (type : UInt8) (front rest tail : List UInt8) :
    pathResponse type (front ++ rest) front.length tail = .ok (type :: (rest ++ tail)) := by
  rw [pathResponse, if_pos (by rw [length_append]; omega), drop_left]

namespace TMIgraph

variable {ig : Igraph} {tr : Traversal NodeID} {rm : NodeID} {junk : ℕ → UInt8}
  {tm : TMIgraph} {upd : Bool} {strat : UInt8} {pubs subs : List NodeID}
  {rest pay : List UInt8} {p : NodeID} {toNode : FID}

theorem publisherPayload_pathHead (fid : Option FID) :
    publisherPayload (pathHead (pathType upd) strat pubs subs ++ rest)
      (pathHead (pathType upd) strat pubs subs).length fid =
        .ok (answerType upd fid :: (rest ++ answerTail fid)) := by
  cases fid with
  | none => exact pathResponse_append stopPublish _ rest []
  | some fid =>
    rw [publisherPayload, pathResponse_append]
    cases upd <;> rfl

theorem reportMulticast_ne_response {r : PathRequest} {x : Rendezvous} {l : List NodeID} :
    tm.reportMulticast rm junk r x l ≠ .ok (.response p toNode pay) := by
  intro h
  obtain ⟨paths, -, h⟩ := bind_eq_ok.1 h
  obtain ⟨report, -, h⟩ := bind_eq_ok.1 h
  obtain ⟨fid, -, h⟩ := bind_eq_ok.1 h
  cases h

variable {pub : NodeID}

theorem reportUnicast_ne_response {r : PathRequest} {path : List UInt8} {alternatives : List NodeID} :
    .ok (.response p toNode pay) ∉ tm.reportUnicast rm r pub path alternatives := by
  intro h
  rw [reportUnicast] at h
  split at h
  · obtain hmap := mem_singleton.1 h
    cases hfid : tm.getTMToNodeFID rm with
    | error e | ok fid => rw [hfid] at hmap; cases hmap
  · cases h

theorem multicast_response (hp : pubs.length ≤ 255) (hs : subs.length ≤ 255)
    (h : .ok (.response p toNode pay) ∈ tm.handleMulticastPathRequest ig tr rm junk
      (pathHead (pathType upd) strat pubs subs ++ rest)) :
    ∃ x fid, tm.calculateFIDs ig (nodeSet tr pubs) (nodeSet tr subs) = .ok x ∧
      x.result.get p = some fid ∧
      pay = answerType upd fid :: (rest ++ answerTail fid) := by
  have htype : byteAt (pathHead (pathType upd) strat pubs subs ++ rest) 0 = pathType upd := rfl
  have hlen : ¬ (pathHead (pathType upd) strat pubs subs ++ rest).length <
      (pathHead (pathType upd) strat pubs subs).length := by
    rw [length_append]
    omega
  simp only [handleMulticastPathRequest, htype, if_pos (pathType_cases upd),
    readMulticast_pathHead hp hs, if_neg hlen] at h
  cases hx : tm.calculateFIDs ig (nodeSet tr pubs) (nodeSet tr subs) with
  | error e =>
    rw [hx] at h
    cases mem_singleton.1 h
  | ok x =>
    rw [hx] at h
    rcases mem_append.1 h with h | h
    · obtain ⟨q, hq, h⟩ := mem_map.1 h
      obtain ⟨fid, hfid⟩ := Table.mem_iff.1 (tr.mem_visit.1 hq)
      rw [publisherResponse, hfid, publisherPayload_pathHead, ok_bind] at h
      obtain ⟨toNode', -, h⟩ := bind_eq_ok.1 h
      cases h
      exact ⟨x, fid, rfl, hfid, rfl⟩
    · split at h
      · exact absurd (mem_singleton.1 h).symm reportMulticast_ne_response
      · cases h

theorem unicast_response (hs : subs.length ≤ 255)
    (h : .ok (.response p toNode pay) ∈ tm.handleUnicastPathRequest ig tr rm junk
      (pathHead (pathType upd) strat [pub] subs ++ rest)) :
    p = pub ∧ ∃ x s fid, tm.ucalculateFID ig pub (nodeSet tr subs) = .ok x ∧
      x.1.get s = some (some fid) ∧
      pay = answerType upd (some fid) :: (rest ++ fid.toList) := by
  have htype : byteAt (pathHead (pathType upd) strat [pub] subs ++ rest) 0 = pathType upd := rfl
  simp only [handleUnicastPathRequest, htype, if_pos (pathType_cases upd),
    readUnicast_pathHead hs, vectorAt_publisher] at h
  split at h
  · cases mem_singleton.1 h
  cases hx : tm.ucalculateFID ig pub (nodeSet tr subs) with
  | error e =>
    rw [hx] at h
    cases mem_singleton.1 h
  | ok x =>
    rw [hx] at h
    dsimp only at h
    split at h
    · cases h
    · rename_i s fid hfind
      obtain ⟨s', -, hs'⟩ := exists_of_findSome?_eq_some hfind
      obtain ⟨fid', hfid', hpair⟩ := Option.map_eq_some_iff.1 hs'
      obtain ⟨rfl, rfl⟩ := Prod.mk.inj hpair
      rcases mem_cons.1 h with h | h
      · have htyp : (if pathType upd = matchPubSubs then startPublish else updateFID) =
            answerType upd (some fid') := by cases upd <;> rfl
        rw [unicastResponse, htype, htyp, pathResponse_append, ok_bind] at h
        obtain ⟨toNode', -, h⟩ := bind_eq_ok.1 h.symm
        cases h
        exact ⟨rfl, x, s', fid', rfl, Option.join_eq_some_iff.1 hfid', rfl⟩
      · split at h
        · exact absurd h reportUnicast_ne_response
        · cases h

theorem isubscribers_response {isubs : ListSet NodeID} (hs : isubs.size ≤ 255)
    (h : .ok (.response p toNode pay) ∈ tm.handleUnicastPathRequest ig tr rm junk
      ([matchPubISubs, 1] ++ pub.toList ++ [UInt8.ofNat isubs.size] ++ hostBytes isubs)) :
    p = pub ∧ ∃ fids, isubs.toList.mapM (fun s => do
        let fid ← tm.calculateFID ig pub s
        return (s, fid)) = .ok fids ∧
      pay = updateFIDISub :: UInt8.ofNat isubs.size :: isubscriberBytes fids := by
  set request := [matchPubISubs, 1] ++ pub.toList ++ [UInt8.ofNat isubs.size] ++
    hostBytes isubs with hreq
  have hdrop : request.drop 2 = pub.toList ++ (UInt8.ofNat isubs.size :: hostBytes isubs) := by
    rw [hreq, append_assoc]
    rfl
  have hnum : request.drop (2 + nodeIDLen) = UInt8.ofNat isubs.size :: hostBytes isubs := by
    rw [← drop_drop, hdrop, drop_left' pub.toList_length]
  have hlab : request.drop (3 + nodeIDLen) = hostBytes isubs ++ [] := by
    rw [show 3 + nodeIDLen = 2 + nodeIDLen + 1 from rfl, ← drop_drop, hnum, append_nil]
    rfl
  have hnodes : vectorsAt nodeIDLen request (3 + nodeIDLen) isubs.size =
      isubs.toList := vectorsAt_of_drop hlab
  have hhan : tm.handleUnicastPathRequest ig tr rm junk request =
      [tm.isubscribersResponse ig request] := rfl
  rw [hhan, mem_singleton, isubscribersResponse] at h
  simp only [vectorAt_of_drop hdrop, byteAt_of_drop hnum, toNat_ofNat_of_le hs, hnodes] at h
  obtain ⟨fids, hfids, h⟩ := bind_eq_ok.1 h.symm
  obtain ⟨toNode', -, h⟩ := bind_eq_ok.1 h
  cases h
  exact ⟨rfl, fids, hfids, rfl⟩

end TMIgraph

/-! ### Requests -/

theorem take_scope (front : List UInt8) (n : NodeID) :
    (front ++ n.toList).take ((front ++ n.toList).length - pursuitIDLen) = front := by
  rw [length_append, List.Vector.toList_length]
  exact take_left

inductive MatchRequest
  | rendezvous (strategy : Strategy) (publishers subscribers : ListSet NodeID) (ids : ListSet Id)
    (updateOnly : Bool)
  | unicast (strategy : Strategy) (publisher : NodeID) (subscribers : ListSet NodeID)
    (ids : ListSet Id) (updateOnly : Bool)
  | isubscription (isubscribers : ListSet NodeID)

namespace MatchRequest

def encode (gc : GlobalConf) : MatchRequest → Encoding
  | rendezvous strategy publishers subscribers ids updateOnly =>
    requestTMAssistanceForRendezvous gc strategy ids publishers subscribers ids updateOnly
  | unicast strategy publisher subscribers ids updateOnly =>
    requestTMAssistanceForUnicast gc strategy ids publisher subscribers ids updateOnly
  | isubscription isubscribers => requestTMAssistanceForiSubscription gc isubscribers false

def scope (gc : GlobalConf) : MatchRequest → List UInt8
  | rendezvous .. => gc.nodeTMScope
  | unicast .. => gc.nodeTMScopeUC
  | isubscription _ => gc.nodeTMScopeUC

def request (gc : GlobalConf) (r : MatchRequest) : List UInt8 :=
  ((r.encode gc).bytes.take (r.encode gc).packetLen).drop (apiHeader (r.scope gc) gc.tmFID).length

def Bounded : MatchRequest → Prop
  | rendezvous _ publishers subscribers _ _ => publishers.size ≤ 255 ∧ subscribers.size ≤ 255
  | unicast _ _ subscribers _ _ => subscribers.size ≤ 255
  | isubscription isubscribers => isubscribers.size ≤ 255

def Short : MatchRequest → Prop
  | rendezvous _ _ _ ids _ => fragments ids < 32
  | unicast _ _ _ ids _ => fragments ids < 32
  | isubscription _ => True

/-- The identifiers of the item with their forwarding identifier, or the implicit subscribers with
theirs. -/
def Computed (gc : GlobalConf) (ig : Igraph) (tr : Traversal NodeID) (tm : TMIgraph)
    (publisher : NodeID) (n : Notification) : MatchRequest → Prop
  | rendezvous _ publishers subscribers ids updateOnly =>
    ∃ x fid, tm.calculateFIDs ig (nodeSet tr publishers.toList) (nodeSet tr subscribers.toList) =
      .ok x ∧ x.result.get publisher = some fid ∧ n = answer ids.toList updateOnly fid
  | unicast _ p subscribers ids updateOnly =>
    publisher = p ∧ ∃ x s fid, tm.ucalculateFID ig p (nodeSet tr subscribers.toList) = .ok x ∧
      x.1.get s = some (some fid) ∧ n = answer ids.toList updateOnly (some fid)
  | isubscription isubscribers =>
    publisher = gc.nodeID ∧ ∃ fids, isubscribers.toList.mapM (fun s => do
      let fid ← tm.calculateFID ig gc.nodeID s
      return (s, fid)) = .ok fids ∧ n = .updateFIDISub fids

theorem request_rendezvous (strat : Strategy) (pubs subs : ListSet NodeID)
    (ids : ListSet Id) (upd : Bool) :
    (rendezvous strat pubs subs ids upd).request gc =
      pathHead (pathType upd) strat pubs.toList subs.toList ++ sentIDs ids := by
  refine toTM_request gc.nodeTMScope_length ?_
  simp only [length_append, hostBytes_length, length_cons, length_nil]

theorem request_unicast (strat : Strategy) (pub : NodeID) (subs : ListSet NodeID)
    (ids : ListSet Id) (upd : Bool) :
    (unicast strat pub subs ids upd).request gc =
      pathHead (pathType upd) strat [pub] subs.toList ++ sentIDs ids := by
  have hhead : pathHead (pathType upd) strat [pub] subs.toList =
      [pathType upd, strat, 1] ++ pub.toList ++ [UInt8.ofNat subs.size] ++ hostBytes subs := by
    rw [pathHead, labels, flatMap_cons, flatMap_nil, append_nil]
    rfl
  rw [hhead]
  refine toTM_request gc.nodeTMScopeUC_length ?_
  simp only [length_append, hostBytes_length, List.Vector.toList_length, length_cons, length_nil]

theorem request_isubscription {isubs : ListSet NodeID} (h : isubs.size ≤ 255) :
    (isubscription isubs).request gc = [matchPubISubs, 1] ++ gc.nodeID.toList ++
      [UInt8.ofNat isubs.size] ++ hostBytes isubs := by
  have hlen : (requestTMAssistanceForiSubscription gc isubs false).bytes.length =
      (requestTMAssistanceForiSubscription gc isubs false).packetLen := by
    simp only [Encoding.bytes, requestTMAssistanceForiSubscription, flatMap_nil, length_append,
      apiHeader_length, GlobalConf.nodeTMScopeUC_length, hostBytes_length,
      List.Vector.toList_length, length_cons, length_nil, toNat_ofNat_of_le h]
    omega
  rw [request, encode, ← hlen, take_length]
  simp only [Encoding.bytes, requestTMAssistanceForiSubscription, flatMap_nil, append_nil]
  exact drop_left

variable {ig : Igraph} {tr : Traversal NodeID} {rmNodeID : NodeID} {junk : ℕ → UInt8}
  {tm : TMIgraph} {pub : NodeID} {toNode : FID} {payload : List UInt8}

theorem handlePathRequest_nodeTMScope (request : List UInt8) :
    tm.handlePathRequest ig tr rmNodeID junk gc.nodeTMScope request =
      tm.handleMulticastPathRequest ig tr rmNodeID junk request :=
  if_neg (by rw [TMIgraph.isUnicastRequest, GlobalConf.nodeTMScope, take_scope]; decide)

theorem handlePathRequest_nodeTMScopeUC (request : List UInt8) :
    tm.handlePathRequest ig tr rmNodeID junk gc.nodeTMScopeUC request =
      tm.handleUnicastPathRequest ig tr rmNodeID junk request :=
  if_pos (by rw [TMIgraph.isUnicastRequest, GlobalConf.nodeTMScopeUC, take_scope]; decide)

/-- **Every response is decoded to what was computed** if and only if the identifiers of the request
have less than 32 fragments together. -/
theorem responses_decoded_iff (r : MatchRequest) (hr : r.Bounded)
    (h : .ok (.response publisher toNode payload) ∈
      tm.handlePathRequest ig tr rmNodeID junk (r.scope gc) (r.request gc)) :
    (∃ n, r.Computed gc ig tr tm publisher n ∧ DecodedAs payload n) ↔ r.Short := by
  cases r with
  | rendezvous strategy publishers subscribers ids updateOnly =>
    rw [request_rendezvous, scope, handlePathRequest_nodeTMScope] at h
    obtain ⟨x, fid, hx, hfid, rfl⟩ := TMIgraph.multicast_response hr.1 hr.2 h
    constructor
    · intro hread
      obtain ⟨n, ⟨x', fid', -, -, rfl⟩, hdec⟩ := hread
      exact short_of_decodedAs hdec
    · intro hshort
      exact ⟨_, ⟨x, fid, hx, hfid, rfl⟩, decodedAs_of_short hshort updateOnly fid⟩
  | unicast strategy p subscribers ids updateOnly =>
    rw [request_unicast, scope, handlePathRequest_nodeTMScopeUC] at h
    obtain ⟨rfl, x, s, fid, hx, hfid, rfl⟩ := TMIgraph.unicast_response hr h
    constructor
    · intro hread
      obtain ⟨n, ⟨-, x', s', fid', -, -, rfl⟩, hdec⟩ := hread
      have hdec' : DecodedAs (answerType updateOnly (some fid) ::
        (sentIDs ids ++ answerTail (some fid))) _ := hdec
      exact short_of_decodedAs hdec'
    · intro hshort
      exact ⟨_, ⟨rfl, x, s, fid, hx, hfid, rfl⟩, decodedAs_of_short hshort updateOnly (some fid)⟩
  | isubscription isubscribers =>
    rw [request_isubscription hr, scope, handlePathRequest_nodeTMScopeUC] at h
    obtain ⟨rfl, fids, hfids, rfl⟩ := TMIgraph.isubscribers_response hr h
    refine iff_of_true ⟨_, ⟨rfl, fids, hfids, rfl⟩, ?_⟩ trivial
    rw [ListSet.size, ← length_of_mapM hfids]
    exact decodedAs_isubscribers (length_of_mapM hfids ▸ hr)

def exampleConf : GlobalConf := .inListOrder (.ofByte 1) (Bits.zeros fidLen) (Bits.zeros fidLen)

def exampleShortIDs : ListSet Id := ⟨[[.ofByte 5, .ofByte 6], [.ofByte 7]], by decide⟩

def exampleLongIDs : ListSet Id :=
  ⟨[List.replicate 16 (.ofByte 5), List.replicate 16 (.ofByte 6)], by decide⟩

def exampleMatch (ids : ListSet Id) : MatchRequest :=
  .rendezvous implicitRendezvous ⟨[.ofByte 1], by decide⟩ ⟨[.ofByte 2], by decide⟩ ids false

def exampleAnswers (ids : ListSet Id) : List (Except TmFault TmPublication) :=
  TMIgraph.exampleLineTM.handlePathRequest .search .inListOrder (.ofByte 1) (fun _ => 0)
    ((exampleMatch ids).scope exampleConf) ((exampleMatch ids).request exampleConf)

/-- An item with two identifiers: the publisher is told about both. -/
theorem responses_decoded_line : ∃ payload,
    .ok (.response (.ofByte 1) (Bits.zeros fidLen) payload) ∈ exampleAnswers exampleShortIDs ∧
    ∃ n, (exampleMatch exampleShortIDs).Computed exampleConf .search .inListOrder
      TMIgraph.exampleLineTM (.ofByte 1) n ∧ DecodedAs payload n := by
  have hmem : .ok (.response (.ofByte 1) (Bits.zeros fidLen) (startPublish ::
      (sentIDs exampleShortIDs ++ (Bits.or (Bits.single fidLen 0) (Bits.single fidLen 2)).toList))) ∈
        exampleAnswers exampleShortIDs := by
    decide +kernel
  have hbou : (exampleMatch exampleShortIDs).Bounded := ⟨by decide, by decide⟩
  have hshort : fragments exampleShortIDs < 32 := by decide
  exact ⟨_, hmem, (responses_decoded_iff (exampleMatch exampleShortIDs) hbou hmem).2 hshort⟩

/-- The 256 bytes of two identifiers are counted as none, two of them reach the topology manager,
and the proxy reads beyond the end. -/
theorem responses_decoded_fails_at_256_bytes : ∃ payload,
    .ok (.response (.ofByte 1) (Bits.zeros fidLen) payload) ∈ exampleAnswers exampleLongIDs ∧
    payload.length < notificationEnd payload ∧
    ¬ ∃ n, (exampleMatch exampleLongIDs).Computed exampleConf .search .inListOrder
      TMIgraph.exampleLineTM (.ofByte 1) n ∧ DecodedAs payload n := by
  have hmem : .ok (.response (.ofByte 1) (Bits.zeros fidLen) (startPublish :: 2 :: 16 :: 0 ::
      (Bits.or (Bits.single fidLen 0) (Bits.single fidLen 2)).toList)) ∈
        exampleAnswers exampleLongIDs := by
    decide +kernel
  have hend : (startPublish :: 2 :: 16 :: 0 ::
      (Bits.or (Bits.single fidLen 0) (Bits.single fidLen 2)).toList).length <
        notificationEnd (startPublish :: 2 :: 16 :: 0 ::
          (Bits.or (Bits.single fidLen 0) (Bits.single fidLen 2)).toList) := by
    decide +kernel
  refine ⟨_, hmem, hend, fun hread => ?_⟩
  obtain ⟨n, -, hdec⟩ := hread
  exact absurd hdec.inside (Nat.not_le.2 hend)

end MatchRequest

end Blackadder
