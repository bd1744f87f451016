/-
**The packets of the rendezvous element, byte by byte.**

Requests to the topology manager add the lengths of identifiers in an `unsigned char` and copy whole
identifiers; notifications add them in an `int` and copy as many fragments as the length byte says,
which is the length in bytes, cast to `unsigned char` and then divided.
-/

import Mathlib.Algebra.Order.BigOperators.Group.List
import Mathlib.Algebra.Order.Ring.Nat
import Blackadder.RvRuns

namespace Blackadder

open List

variable {gc : GlobalConf} {k : Id}

/-! ### Bytes -/

def idBytes (k : Id) : List UInt8 := k.flatMap fun a => a.toList

def hostBytes (hosts : ListSet NodeID) : List UInt8 := hosts.toList.flatMap fun h => h.toList

theorem length_flatMap_toList {n : ℕ} (l : List (List.Vector UInt8 n)) :
    (l.flatMap fun a => a.toList).length = l.length * n := by
  induction l with
  | nil => simp
  | cons a l ih =>
    rw [flatMap_cons, length_append, ih, List.Vector.toList_length, length_cons,
      Nat.succ_mul, Nat.add_comm]

@[simp] theorem idBytes_length : (idBytes k).length = k.length * pursuitIDLen :=
  length_flatMap_toList k

@[simp] theorem hostBytes_length (hosts : ListSet NodeID) :
    (hostBytes hosts).length = hosts.size * nodeIDLen :=
  length_flatMap_toList hosts.toList

/-- `IDLength`: the cast binds tighter than the division. -/
def idLength (k : Id) : UInt8 := UInt8.ofNat (idBytes k).length / UInt8.ofNat pursuitIDLen

theorem idLength_toNat (k : Id) : (idLength k).toNat = k.length % 32 := by
  rw [idLength, UInt8.toNat_div, UInt8.toNat_ofNat', UInt8.toNat_ofNat', idBytes_length, pursuitIDLen]
  simp only [Nat.reducePow, Nat.reduceMod]
  omega

section
variable (ids : ListSet Id)

def fragments : ℕ := (ids.toList.map List.length).sum

/-- `IDs_total_bytes`: the sum of the lengths, in an `unsigned char`. -/
def idsTotalBytes : UInt8 :=
  ids.toList.foldl (fun total k => total + UInt8.ofNat (idBytes k).length) 0

theorem idsTotalBytes_toNat : (idsTotalBytes ids).toNat = fragments ids * 8 % 256 := by
  have hloop : ∀ (l : List Id) (total : UInt8),
      (l.foldl (fun total k => total + UInt8.ofNat (idBytes k).length) total).toNat =
        (total.toNat + (l.map length).sum * 8) % 256 := by
    intro l
    induction l with
    | nil =>
      intro total
      have := total.toNat_lt
      simp only [foldl_nil, map_nil, sum_nil]
      omega
    | cons k l ih =>
      intro total
      rw [foldl_cons, ih, UInt8.toNat_add, UInt8.toNat_ofNat', idBytes_length, pursuitIDLen,
        map_cons, sum_cons]
      omega
  rw [idsTotalBytes, hloop, fragments]
  simp

/-- `totalIDsLength`: the sum of the lengths, in an `int`. -/
def totalIDsLength : ℕ :=
  ids.toList.foldl (fun total k => total + (idBytes k).length) 0

theorem totalIDsLength_eq : totalIDsLength ids = fragments ids * 8 := by
  have hloop : ∀ (l : List Id) (total : ℕ),
      l.foldl (fun total k => total + (idBytes k).length) total =
        total + (l.map length).sum * 8 := by
    intro l
    induction l with
    | nil => intro total; simp
    | cons k l ih =>
      intro total
      rw [foldl_cons, ih, idBytes_length, pursuitIDLen, map_cons, sum_cons]
      omega
  rw [totalIDsLength, hloop, fragments, Nat.zero_add]

end

/-! ### Encodings -/

structure IdField where
  length : UInt8
  id : Id
  copied : List UInt8

structure Encoding where
  packetLen : ℕ
  head : List UInt8
  ids : List IdField
  tail : List UInt8

def Encoding.bytes (e : Encoding) : List UInt8 :=
  e.head ++ e.ids.flatMap (fun x => x.length :: x.copied) ++ e.tail

/-- The packet has the length of what is copied, and length bytes are numbers of fragments. -/
def Encoding.Exact (e : Encoding) : Prop :=
  e.packetLen = e.bytes.length ∧ ∀ x ∈ e.ids, x.length.toNat = x.id.length

/-- Type, identifier, strategy and forwarding identifier of a publication of the API. -/
def apiHeader (iid : List UInt8) (fid : FID) : List UInt8 :=
  [publishData, UInt8.ofNat (iid.length / pursuitIDLen)] ++ iid ++ [implicitRendezvous] ++ fid.toList

theorem apiHeader_length (iid : List UInt8) (fid : FID) :
    (apiHeader iid fid).length = 1 + 1 + iid.length + 1 + fidLen := by
  simp [apiHeader]
  omega

/-! ### Requests to the topology manager -/

def tmScope : List UInt8 := List.replicate 7 255 ++ [254]

def tmScopeUC : List UInt8 := List.replicate 7 255 ++ [253]

namespace GlobalConf

def nodeTMScope (gc : GlobalConf) : List UInt8 := tmScope ++ gc.nodeID.toList

def nodeTMScopeUC (gc : GlobalConf) : List UInt8 := tmScope ++ tmScopeUC ++ gc.nodeID.toList

def notificationIID (gc : GlobalConf) : List UInt8 :=
  List.replicate 7 255 ++ [253] ++ gc.nodeID.toList

@[simp] theorem nodeTMScope_length (gc : GlobalConf) :
    gc.nodeTMScope.length = 2 * pursuitIDLen := by
  rw [nodeTMScope, length_append, List.Vector.toList_length]
  rfl

@[simp] theorem nodeTMScopeUC_length (gc : GlobalConf) :
    gc.nodeTMScopeUC.length = 3 * pursuitIDLen := by
  rw [nodeTMScopeUC, length_append, List.Vector.toList_length]
  rfl

end GlobalConf

/-- A request to the topology manager: the length is an `unsigned char`, and whole identifiers are
copied. -/
def toTM (gc : GlobalConf) (scope : List UInt8) (scopeLen : ℕ) (payload : List UInt8)
    (payloadLen : ℕ) (itemIDs IDs : ListSet Id) : Encoding where
  packetLen := 1 + 1 + scopeLen + 1 + fidLen + payloadLen + 1 + itemIDs.size * 1 +
    (idsTotalBytes itemIDs).toNat
  head := apiHeader scope gc.tmFID ++ payload ++ [UInt8.ofNat IDs.size]
  ids := IDs.toList.map fun k => ⟨idLength k, k, idBytes k⟩
  tail := []

def requestTMAssistanceForRendezvous (gc : GlobalConf) (pubStrategy : Strategy)
    (pubIDs : ListSet Id) (publishers subscribers : ListSet NodeID) (IDs : ListSet Id)
    (updateOnly : Bool) : Encoding :=
  toTM gc gc.nodeTMScope (2 * pursuitIDLen)
    ([if updateOnly then updateFID else matchPubSubs, pubStrategy, UInt8.ofNat publishers.size] ++
      hostBytes publishers ++ [UInt8.ofNat subscribers.size] ++ hostBytes subscribers)
    (1 + 1 + 1 + publishers.size * nodeIDLen + 1 + subscribers.size * nodeIDLen) pubIDs IDs

def requestTMAssistanceForUnicast (gc : GlobalConf) (pubStrategy : Strategy) (pubIDs : ListSet Id)
    (publisher : NodeID) (subscribers : ListSet NodeID) (IDs : ListSet Id) (updateOnly : Bool) :
    Encoding :=
  toTM gc gc.nodeTMScopeUC (3 * pursuitIDLen)
    ([if updateOnly then updateFID else matchPubSubs, pubStrategy, 1] ++ publisher.toList ++
      [UInt8.ofNat subscribers.size] ++ hostBytes subscribers)
    (1 + 1 + 1 + nodeIDLen + 1 + subscribers.size * nodeIDLen) pubIDs IDs

/-- This node is the publisher, and there are no identifiers. -/
def requestTMAssistanceForiSubscription (gc : GlobalConf) (isubscribers : ListSet NodeID)
    (updateOnly : Bool) : Encoding where
  packetLen := 1 + 1 + 3 * pursuitIDLen + 1 + fidLen + 1 + 1 + nodeIDLen + 1 +
    (UInt8.ofNat isubscribers.size).toNat * nodeIDLen
  head := apiHeader gc.nodeTMScopeUC gc.tmFID ++
    ([if updateOnly then updateFID else matchPubISubs, 1] ++ gc.nodeID.toList ++
      [UInt8.ofNat isubscribers.size] ++ hostBytes isubscribers)
  ids := []
  tail := []

def requestTMAssistanceForNotifyingSubscribers (gc : GlobalConf) (requestType : UInt8)
    (IDs : ListSet Id) (subscribers : ListSet NodeID) (strategy : Strategy) : Encoding :=
  toTM gc gc.nodeTMScope gc.nodeTMScope.length
    ([requestType, strategy, UInt8.ofNat subscribers.size] ++ hostBytes subscribers)
    (1 + 1 + 1 + subscribers.size * nodeIDLen) IDs IDs

theorem wholeIDs_length (l : List Id) :
    ((l.map fun k => (⟨idLength k, k, idBytes k⟩ : IdField)).flatMap
      fun x => x.length :: x.copied).length = l.length + (l.map List.length).sum * 8 := by
  induction l with
  | nil => simp
  | cons k l ih =>
    rw [map_cons, flatMap_cons, length_append, length_cons, idBytes_length,
      length_cons, map_cons, sum_cons, pursuitIDLen]
    omega

theorem toTM_exact_iff {ids : ListSet Id} {scope pay : List UInt8}
    {scopeLen plen : ℕ} (hs : scope.length = scopeLen) (hp : pay.length = plen) :
    (toTM gc scope scopeLen pay plen ids ids).Exact ↔ fragments ids < 32 := by
  have hbytes : (toTM gc scope scopeLen pay plen ids ids).bytes.length =
      1 + 1 + scopeLen + 1 + fidLen + plen + 1 + (ids.size + fragments ids * 8) := by
    simp only [Encoding.bytes, toTM, append_nil, length_append, wholeIDs_length,
      apiHeader_length, hs, hp, length_singleton, ListSet.size, fragments]
  have hlen : (toTM gc scope scopeLen pay plen ids ids).packetLen =
      1 + 1 + scopeLen + 1 + fidLen + plen + 1 + ids.size * 1 + fragments ids * 8 % 256 := by
    rw [← idsTotalBytes_toNat]
    rfl
  constructor
  · intro hboth
    obtain ⟨hexact, -⟩ := hboth
    omega
  · intro hshort
    refine ⟨by omega, fun x hx => ?_⟩
    obtain ⟨k, hk, rfl⟩ := mem_map.1 hx
    have hle : k.length ≤ fragments ids := single_le_sum (by simp) _ (mem_map_of_mem hk)
    dsimp only
    rw [idLength_toNat]
    omega

/-! ### Notifications for the local node -/

/-- A notification for the local node: the length is an `int`, and as many fragments are copied as
the length byte says. -/
def toProxy (gc : GlobalConf) (type : UInt8) (ids : ListSet Id) (tail : List UInt8) (tailLen : ℕ) :
    Encoding where
  packetLen := 1 + 1 + gc.notificationIID.length + 1 + fidLen + 1 + 1 +
    (UInt8.ofNat ids.size).toNat * 1 + totalIDsLength ids + tailLen
  head := apiHeader gc.notificationIID gc.iLID ++ [type, UInt8.ofNat ids.size]
  ids := (ids.toList.take (UInt8.ofNat ids.size).toNat).map fun k =>
    ⟨idLength k, k, (idBytes k).take ((idLength k).toNat * pursuitIDLen)⟩
  tail := tail

def notifyLocalPublisher (gc : GlobalConf) (ids : ListSet Id) (fid : Option FID)
    (updateOnly : Bool) : Encoding :=
  match fid with
  | some fid => toProxy gc (if updateOnly then updateFID else startPublish) ids fid.toList fidLen
  | none => toProxy gc stopPublish ids [] 0

def notifyLocalSubscriber (gc : GlobalConf) (type : UInt8) (ids : ListSet Id) : Encoding :=
  toProxy gc type ids [] 0

theorem cutIDs_length (l : List Id) :
    ((l.map fun k => (⟨idLength k, k, (idBytes k).take ((idLength k).toNat * pursuitIDLen)⟩ :
      IdField)).flatMap fun x => x.length :: x.copied).length =
        l.length + (l.map fun k => k.length % 32).sum * 8 := by
  induction l with
  | nil => simp
  | cons k l ih =>
    rw [map_cons, flatMap_cons, length_append, ih, length_cons, length_take, idBytes_length,
      idLength_toNat, length_cons, map_cons, sum_cons, pursuitIDLen]
    omega

theorem sum_mod_eq_iff (l : List Id) :
    (l.map fun k => k.length % 32).sum = (l.map List.length).sum ↔ ∀ k ∈ l, k.length < 32 := by
  have hle : ∀ l : List Id, (l.map fun k => k.length % 32).sum ≤ (l.map length).sum :=
    fun l => sum_le_sum fun k _ => Nat.mod_le _ _
  induction l with
  | nil => simp
  | cons k l ih =>
    have hl := hle l
    rw [map_cons, map_cons, sum_cons, sum_cons, forall_mem_cons]
    constructor
    · intro hsum
      exact ⟨by omega, ih.1 (by omega)⟩
    · intro hboth
      obtain ⟨hshort, hrest⟩ := hboth
      rw [ih.2 hrest, Nat.mod_eq_of_lt hshort]

theorem toProxy_exact_iff {ids : ListSet Id} {type : UInt8} {tail : List UInt8} {tailLen : ℕ}
    (hids : ids.size ≤ 255) (ht : tail.length = tailLen) :
    (toProxy gc type ids tail tailLen).Exact ↔ ∀ k ∈ ids, k.length < 32 := by
  have hsize : (UInt8.ofNat ids.size).toNat = ids.size := by
    rw [UInt8.toNat_ofNat']
    omega
  have htake : ids.toList.take (UInt8.ofNat ids.size).toNat = ids.toList := by
    rw [hsize]
    exact take_length
  have hbytes : (toProxy gc type ids tail tailLen).bytes.length =
      1 + 1 + gc.notificationIID.length + 1 + fidLen + (1 + 1) +
        (ids.size + (ids.toList.map fun k => k.length % 32).sum * 8) + tailLen := by
    simp only [Encoding.bytes, toProxy, htake, length_append, cutIDs_length, apiHeader_length, ht]
    rfl
  have hlen : (toProxy gc type ids tail tailLen).packetLen =
      1 + 1 + gc.notificationIID.length + 1 + fidLen + 1 + 1 + ids.size * 1 + fragments ids * 8 +
        tailLen := by
    rw [← totalIDsLength_eq, ← hsize]
    rfl
  have hiff := sum_mod_eq_iff ids.toList
  rw [Encoding.Exact, hlen, fragments]
  constructor
  · intro hboth
    exact hiff.1 (by omega)
  · intro hshort
    have hsum := hiff.2 hshort
    refine ⟨by omega, fun x hx => ?_⟩
    obtain ⟨k, hk, rfl⟩ := mem_map.1 hx
    have := hshort k (mem_of_mem_take hk)
    dsimp only
    rw [idLength_toNat]
    omega

/-! ### Packets -/

namespace Packet

def encode (gc : GlobalConf) : Packet → Encoding
  | rendezvousRequest _ strategy publishers subscribers ids updateOnly =>
    requestTMAssistanceForRendezvous gc strategy ids publishers subscribers ids updateOnly
  | unicastRequest _ strategy publisher subscribers ids updateOnly =>
    requestTMAssistanceForUnicast gc strategy ids publisher subscribers ids updateOnly
  | localPublisher _ ids fid updateOnly =>
    notifyLocalPublisher gc ids (if fid then some gc.iLID else none) updateOnly
  | scopeRequest type ids subscribers strategy =>
    requestTMAssistanceForNotifyingSubscribers gc type.code ids subscribers strategy
  | localSubscriber type ids => notifyLocalSubscriber gc type.code ids

def ids : Packet → ListSet Id
  | rendezvousRequest _ _ _ _ ids _ => ids
  | unicastRequest _ _ _ _ ids _ => ids
  | localPublisher _ ids _ _ => ids
  | scopeRequest _ ids _ _ => ids
  | localSubscriber _ ids => ids

def hosts : Packet → List ℕ
  | rendezvousRequest _ _ publishers subscribers _ _ => [publishers.size, subscribers.size]
  | unicastRequest _ _ _ subscribers _ _ => [subscribers.size]
  | localPublisher _ _ _ _ => []
  | scopeRequest _ _ subscribers _ => [subscribers.size]
  | localSubscriber _ _ => []

structure Bounded (p : Packet) : Prop where
  hosts : ∀ n ∈ p.hosts, n ≤ 255
  ids : p.ids.size ≤ 255
  fragments : ∀ k ∈ p.ids, k.length ≤ 255

/-- Identifiers are short: for the topology manager together, for the local node each. -/
def Short (p : Packet) : Prop :=
  match p with
  | localPublisher _ ids _ _ => ∀ k ∈ ids, k.length < 32
  | localSubscriber _ ids => ∀ k ∈ ids, k.length < 32
  | rendezvousRequest _ _ _ _ ids _ => fragments ids < 32
  | unicastRequest _ _ _ _ ids _ => fragments ids < 32
  | scopeRequest _ ids _ _ => fragments ids < 32

end Packet

/-- **When a packet is exactly as long as what is copied into it**: with less than 32 fragments, for
requests to the topology manager together, and for notifications each. -/
theorem encode_exact_iff (gc : GlobalConf) (p : Packet) (hp : p.Bounded) :
    (p.encode gc).Exact ↔ p.Short := by
  cases p with
  | rendezvousRequest pub strategy publishers subs ids upd =>
    refine toTM_exact_iff gc.nodeTMScope_length ?_
    simp only [length_append, length_cons, length_nil, hostBytes_length]
  | unicastRequest pub strategy publisher subs ids upd =>
    refine toTM_exact_iff gc.nodeTMScopeUC_length ?_
    simp only [length_append, length_cons, length_nil, hostBytes_length, List.Vector.toList_length]
  | localPublisher pub ids fid upd =>
    cases fid with
    | true => exact toProxy_exact_iff hp.ids gc.iLID.toList_length
    | false => exact toProxy_exact_iff hp.ids rfl
  | scopeRequest type ids subs strategy =>
    refine toTM_exact_iff rfl ?_
    simp only [length_append, length_cons, length_nil, hostBytes_length]
  | localSubscriber type ids => exact toProxy_exact_iff hp.ids rfl

def matchBranches (n : ℕ) : Packet :=
  .rendezvousRequest 0 domainLocal (.insert (.ofByte 1) ∅) (.insert (.ofByte 2) ∅)
    ((List.range n).foldl (fun ids i => ids.insert [.ofByte (UInt8.ofNat i), .ofByte 0]) ∅) false

theorem encode_exact_matchBranches :
    (matchBranches 15).Bounded ∧ ((matchBranches 15).encode exampleConf).Exact := by
  have hb : (matchBranches 15).Bounded := ⟨by decide +kernel, by decide +kernel,
      show ∀ k ∈ (matchBranches 15).ids.toList, k.length ≤ 255 by decide +kernel⟩
  refine ⟨hb, (encode_exact_iff exampleConf (matchBranches 15) hb).2 ?_⟩
  show fragments (matchBranches 15).ids < 32
  decide +kernel

/-- A request for sixteen branches is 256 bytes longer than its packet. -/
theorem encode_overruns_matchBranches :
    (matchBranches 16).Bounded ∧ ¬((matchBranches 16).encode exampleConf).Exact ∧
      ((matchBranches 16).encode exampleConf).packetLen + 256 =
        ((matchBranches 16).encode exampleConf).bytes.length := by
  have hover : ((matchBranches 16).encode exampleConf).packetLen + 256 =
      ((matchBranches 16).encode exampleConf).bytes.length := by decide +kernel
  refine ⟨⟨by decide +kernel, by decide +kernel, ?_⟩, fun hexact => ?_, hover⟩
  · show ∀ k ∈ (matchBranches 16).ids.toList, k.length ≤ 255
    decide +kernel
  · have := hexact.1
    omega

end Blackadder
