/-
**What the sender of the lightweight transport protocol keeps.**

`_ltpPacketBuffer` holds the fragments of responses, which may go to a group of nodes (CMC), until
they are confirmed, `_proxyPacketBuffer` those of requests, `_windowEndedResponses` a flag for each
CTRL-WED, `_nackGroups` the CTRL-NACK messages. Keys are rCID and session key; a fragment that is
there is not replaced.
-/

import Blackadder.OrderedMap

namespace Blackadder

open OrderedMap (bind_get_modify bind_get_prune_erase bind_get_upsert get_alter get_set)

/-! ### The fragments that were sent -/

abbrev SentMap := OrderedMap ℕ (List UInt8)

/-- `_ltpPacketBuffer`, `proxy_packet_buffer_t`: rCID, 0, session key and sequence number. -/
abbrev LtpPacketBuffer := OrderedMap ℕ (OrderedMap ℕ (OrderedMap ℕ SentMap))

namespace LtpPacketBuffer

section
variable (buffer : LtpPacketBuffer) (rCId : ℕ)

def find (ripd sessionKey : ℕ) : Option SentMap :=
  (buffer.get rCId).bind fun pridMap => (pridMap.get ripd).bind fun skMap => skMap.get sessionKey

/-- `_bufferLtpPacket` and `_bufferProxyPacket`: a packet is put in, unless its number is there. -/
def bufferLtpPacket (ripd sessionKey sequenceNumber : ℕ) (packet : List UInt8) : LtpPacketBuffer :=
  buffer.upsert rCId fun pridMap => pridMap.upsert ripd fun skMap =>
    skMap.upsert sessionKey fun snMap => snMap.insert sequenceNumber packet

/-- `_deleteBufferedLtpPacket`: a session and the tables that become empty are taken out. -/
def deleteBufferedLtpPacket (sessionKey : ℕ) : LtpPacketBuffer :=
  match buffer.find rCId 0 sessionKey with
  | none => buffer
  | some _ => buffer.prune rCId fun pridMap => pridMap.prune 0 fun skMap => skMap.erase sessionKey

/-- `_deleteProxyPacket`: here the tables that are empty stay. -/
def deleteProxyPacket (ripd sessionKey : ℕ) : LtpPacketBuffer :=
  buffer.modify rCId fun pridMap => pridMap.modify ripd fun skMap => skMap.erase sessionKey

end

/-- The loop of `_publishDataRange`, with a counter of 16 bits, stops at the first number that is
not there. -/
def rangeLoop (packets : SentMap) (stop : ℕ) : ℕ → ℕ → List (List UInt8)
  | 0, _ => []
  | fuel + 1, sequence =>
    if sequence ≤ stop then
      match packets.get sequence with
      | none => []
      | some packet => packet :: rangeLoop packets stop fuel ((sequence + 1) % 65536)
    else []

def range (buffer : LtpPacketBuffer) (rCId ripd sessionKey start stop : ℕ) : List (List UInt8) :=
  match buffer.find rCId ripd sessionKey with
  | none => []
  | some packets => rangeLoop packets stop 65536 start

section
variable (buffer : LtpPacketBuffer) (rCId ripd sk seq : ℕ)
  (pkt : List UInt8) (r p s : ℕ)

theorem find_bufferLtpPacket : (buffer.bufferLtpPacket rCId ripd sk seq pkt).find r p s =
      if r = rCId ∧ p = ripd ∧ s = sk then
        some (((buffer.find rCId ripd sk).getD ∅).insert seq pkt)
      else buffer.find r p s := by
  let put (o : Option SentMap) : Option SentMap := some ((o.getD ∅).insert seq pkt)
  refine bind_get_upsert (u := put) (fun prids => ?_) rfl rfl
  refine bind_get_upsert (u := put) (fun skMap => ?_) rfl rfl
  exact OrderedMap.get_upsert _ _ _ _

theorem find_deleteBufferedLtpPacket : (buffer.deleteBufferedLtpPacket rCId sk).find r p s =
      if r = rCId ∧ p = 0 ∧ s = sk then none else buffer.find r p s := by
  rw [deleteBufferedLtpPacket]
  cases hfind : buffer.find rCId 0 sk with
  | none =>
    dsimp only
    split
    · next h => rw [h.1, h.2.1, h.2.2, hfind]
    · rfl
  | some packets => exact bind_get_prune_erase _ _ _ _ _ _ _

end

theorem mem_rangeLoop {pkts : SentMap} {stop : ℕ} {packet : List UInt8} (fuel : ℕ) :
    ∀ sequence, packet ∈ rangeLoop pkts stop fuel sequence → ∃ k, pkts.get k = some packet := by
  induction fuel with
  | zero => simp [rangeLoop]
  | succ fuel ih =>
    intro sequence hmem
    rw [rangeLoop] at hmem
    split at hmem
    case isFalse => simp at hmem
    case isTrue =>
      cases hget : pkts.get sequence with
      | none => simp [hget] at hmem
      | some packet' =>
        rw [hget] at hmem
        obtain rfl | hmem := List.mem_cons.1 hmem
        · exact ⟨sequence, hget⟩
        · exact ih _ hmem

/-- Only packets that are kept are published again. -/
theorem mem_range {buffer : LtpPacketBuffer} {rCId ripd sk start stop : ℕ} {packet : List UInt8}
    (h : packet ∈ buffer.range rCId ripd sk start stop) :
    ∃ pkts, buffer.find rCId ripd sk = some pkts ∧ ∃ k, pkts.get k = some packet := by
  rw [range] at h
  cases hfind : buffer.find rCId ripd sk with
  | none => simp [hfind] at h
  | some pkts =>
    rw [hfind] at h
    exact ⟨pkts, rfl, mem_rangeLoop _ _ h⟩

end LtpPacketBuffer

/-! ### Which nodes have confirmed -/

/-- `_windowEndedResponses`, `_sessionEndedResponses`: rCID, 0, node and session key. -/
abbrev WindowEnded := OrderedMap ℕ (OrderedMap ℕ (OrderedMap ℕ (OrderedMap ℕ Bool)))

namespace WindowEnded

def find (responses : WindowEnded) (rCId ripd nodeId sessionKey : ℕ) : Option Bool :=
  (responses.get rCId).bind fun pridMap => (pridMap.get ripd).bind fun nidMap =>
    (nidMap.get nodeId).bind fun skMap => skMap.get sessionKey

def addWindowEnd (responses : WindowEnded) (rCId ripd sessionKey : ℕ) (nodeIds : List ℕ) :
    WindowEnded :=
  responses.upsert rCId fun pridMap => pridMap.upsert ripd fun nidMap =>
    nodeIds.foldl (fun nidMap n => nidMap.upsert n fun skMap => skMap.set sessionKey false) nidMap

def confirm (responses : WindowEnded) (rCId ripd nodeId sessionKey : ℕ) : WindowEnded :=
  responses.modify rCId fun pridMap => pridMap.modify ripd fun nidMap =>
    nidMap.modify nodeId fun skMap => skMap.modify sessionKey fun _ => true

section
variable (resps : WindowEnded) (rCId ripd nodeId sk : ℕ) (nodeIds : List ℕ)
  (r p n s : ℕ)

theorem bind_get_foldl (nidMap : OrderedMap ℕ (OrderedMap ℕ Bool)) :
    ((nodeIds.foldl (fun nidMap n => nidMap.upsert n fun skMap => skMap.set sk false)
        nidMap).get n).bind (fun skMap => skMap.get s) =
      if n ∈ nodeIds ∧ s = sk then some false
      else (nidMap.get n).bind fun skMap => skMap.get s := by
  induction nodeIds generalizing nidMap with
  | nil => simp
  | cons n' nodeIds ih =>
    have hset (skMap : OrderedMap ℕ Bool) : (skMap.set sk false).get s =
        if s = sk then some false else skMap.get s := get_set _ _ _ _
    rw [List.foldl_cons, ih, bind_get_upsert (g := fun _ => none)
      (u := fun _ => some false) hset rfl rfl]
    by_cases hs : s = sk
    · by_cases hn : n = n' <;> by_cases hmem : n ∈ nodeIds <;> simp [hs, hmem]
    · simp [hs]

theorem find_addWindowEnd : (resps.addWindowEnd rCId ripd sk nodeIds).find r p n s =
      if r = rCId ∧ p = ripd ∧ n ∈ nodeIds ∧ s = sk then some false
      else resps.find r p n s := by
  refine bind_get_upsert (g := fun _ => none) (u := fun _ => some false) (fun prids => ?_) rfl rfl
  refine bind_get_upsert (g := fun _ => none) (u := fun _ => some false) (fun nidMap => ?_) rfl rfl
  exact bind_get_foldl sk nodeIds n s nidMap

theorem find_confirm : (resps.confirm rCId ripd nodeId sk).find r p n s =
      if r = rCId ∧ p = ripd ∧ n = nodeId ∧ s = sk then
        (resps.find rCId ripd nodeId sk).map fun _ => true
      else resps.find r p n s := by
  let set (o : Option Bool) : Option Bool := o.map fun _ => true
  refine bind_get_modify (u := set) (fun prids => ?_) rfl
  refine bind_get_modify (u := set) (fun nidMap => ?_) rfl
  refine bind_get_modify (u := set) (fun skMap => ?_) rfl
  exact OrderedMap.get_modify _ _ _ _

end

end WindowEnded

/-! ### The nodes that ask for fragments -/

structure NackGroup where
  nodeIds : List ℕ
  startSequence : ℕ
  endSequence : ℕ
deriving DecidableEq

def NackGroup.add (group : NackGroup) (nodeId start stop : ℕ) : NackGroup where
  nodeIds := if nodeId ∈ group.nodeIds then group.nodeIds else group.nodeIds ++ [nodeId]
  startSequence := if start < group.startSequence then start else group.startSequence
  endSequence := if stop > group.endSequence then stop else group.endSequence

/-- `_nackGroups`: rCID, 0 and session key. -/
abbrev NackGroups := OrderedMap ℕ (OrderedMap ℕ (OrderedMap ℕ NackGroup))

namespace NackGroups

def find (groups : NackGroups) (rCId ripd sessionKey : ℕ) : Option NackGroup :=
  (groups.get rCId).bind fun pridMap => (pridMap.get ripd).bind fun skMap => skMap.get sessionKey

section
variable (garbage : ℕ) (groups : NackGroups) (rCId ripd : ℕ)

/-- The last number of a new group; with a group of another session, what the memory held. -/
def newEnd (stop : ℕ) : ℕ :=
  match (groups.get rCId).bind fun pridMap => pridMap.get ripd with
  | none => stop
  | some _ => garbage

def addNackNodeId (sessionKey nodeId start stop : ℕ) : NackGroups :=
  groups.upsert rCId fun pridMap => pridMap.upsert ripd fun skMap =>
    skMap.alter sessionKey fun
      | none => some ⟨[nodeId], start, groups.newEnd garbage rCId ripd stop⟩
      | some group => some (group.add nodeId start stop)

/-- `_nackGroup`. Without a group the fields of the result are not written to. -/
def nackGroup (sessionKey : ℕ) : NackGroup :=
  (groups.find rCId ripd sessionKey).getD ⟨[], garbage, garbage⟩

end

/-- `_deleteNackGroup`: a group and the tables that become empty are taken out. -/
def deleteNackGroup (groups : NackGroups) (rCId ripd sessionKey : ℕ) : NackGroups :=
  match groups.find rCId ripd sessionKey with
  | none => groups
  | some _ => groups.prune rCId fun pridMap => pridMap.prune ripd fun skMap => skMap.erase sessionKey

section
variable (garbage : ℕ) (groups : NackGroups) (rCId ripd sk nodeId start stop r p s : ℕ)

def added : Option NackGroup → NackGroup
  | none => ⟨[nodeId], start, groups.newEnd garbage rCId ripd stop⟩
  | some group => group.add nodeId start stop

theorem find_addNackNodeId :
    (groups.addNackNodeId garbage rCId ripd sk nodeId start stop).find r p s =
      if r = rCId ∧ p = ripd ∧ s = sk then
        some (added garbage groups rCId ripd nodeId start stop (groups.find rCId ripd sk))
      else groups.find r p s := by
  let put (o : Option NackGroup) : Option NackGroup :=
    some (added garbage groups rCId ripd nodeId start stop o)
  refine bind_get_upsert (u := put) (fun prids => ?_) rfl rfl
  refine bind_get_upsert (u := put) (fun skMap => ?_) rfl rfl
  rw [get_alter]
  split
  · cases skMap.get sk <;> rfl
  · rfl

theorem find_deleteNackGroup : (groups.deleteNackGroup rCId ripd sk).find r p s =
      if r = rCId ∧ p = ripd ∧ s = sk then none else groups.find r p s := by
  rw [deleteNackGroup]
  cases hfind : groups.find rCId ripd sk with
  | none =>
    dsimp only
    split
    · next h => rw [h.1, h.2.1, h.2.2, hfind]
    · rfl
  | some group => exact bind_get_prune_erase _ _ _ _ _ _ _

end

end NackGroups

end Blackadder
