/-
**The lightweight transport protocol.**

An HTTP message is published in fragments, followed by a CTRL-WE with the number of the last one. A
receiver answers with a CTRL-WED, or with a CTRL-NACK if it lacks some. A client-side NAP handles
publications under an rCID, a server-side NAP those with an implicit subscription. Runs have
packets that arrive, calls of `retrievePacket` and whatever other threads do to the other tables.
-/

import Blackadder.LtpReceiveBuffer
import Blackadder.LtpSendBuffer

namespace Blackadder

open List

inductive TpState
  | fragmentsOutstanding
  | allFragmentsReceived
  | noTransportProtocolUsed
  | sessionEnded
  | noActionRequired
deriving DecidableEq

inductive LtpPublication
  | data (rCId : ℕ) (nodeIds : List ℕ) (packet : List UInt8)
  | iSub (cId rCId : ℕ) (packet : List UInt8)
deriving DecidableEq

/-- The tables of the class, and the node's own identifier. -/
structure Lightweight where
  nodeId : ℕ
  icnPacketBuffer : IcnPacketBuffer
  ltpPacketBuffer : LtpPacketBuffer
  proxyPacketBuffer : LtpPacketBuffer
  windowEndedResponses : WindowEnded
  windowEndedRequests : OrderedMap ℕ (OrderedMap ℕ (OrderedMap ℕ Bool))
  sessionEndedResponses : WindowEnded
  windowUpdate : OrderedMap ℕ (OrderedMap ℕ (OrderedMap ℕ (OrderedMap ℕ Bool)))
  nackGroups : NackGroups
  cIdReverseLookUp : OrderedMap ℕ ℕ
  knownNIds : OrderedMap ℕ Bool
  potentialCmcGroups : OrderedMap ℕ (OrderedMap ℕ (OrderedMap ℕ Bool))
  cmcGroups : OrderedMap ℕ (OrderedMap ℕ (OrderedMap ℕ (List ℕ)))
deriving DecidableEq

def Lightweight.init (nodeId : ℕ) : Lightweight where
  nodeId := nodeId
  icnPacketBuffer := ∅
  ltpPacketBuffer := ∅
  proxyPacketBuffer := ∅
  windowEndedResponses := ∅
  windowEndedRequests := ∅
  sessionEndedResponses := ∅
  windowUpdate := ∅
  nackGroups := ∅
  cIdReverseLookUp := ∅
  knownNIds := ∅
  potentialCmcGroups := ∅
  cmcGroups := ∅

/-- What `handle` does: the state, the result, the session key if it is written, and what is
published. -/
structure LtpHandled where
  state : Lightweight
  tpState : TpState
  sessionKey : Option ℕ
  published : List LtpPublication

/-! ### The check for missing fragments -/

structure SequenceCheck where
  allFragmentsReceived : Bool
  firstMissingSequence : ℕ
  lastMissingSequence : ℕ
  previousSequence : ℕ
deriving DecidableEq

namespace SequenceCheck

def start : SequenceCheck := ⟨true, 0, 0, 0⟩

def next (c : SequenceCheck) (sequence : ℕ) : SequenceCheck :=
  if c.previousSequence = 0 ∧ sequence ≠ 1 then ⟨false, 1, 1, sequence⟩
  else if c.previousSequence + 1 < sequence then
    ⟨false, if c.firstMissingSequence = 0 then c.previousSequence + 1 else c.firstMissingSequence,
      sequence - 1, sequence⟩
  else { c with previousSequence := sequence }

def nack (c : SequenceCheck) (sessionKey : UInt16) : LtpMessage :=
  .nack 0 sessionKey (UInt16.ofNat c.firstMissingSequence) (UInt16.ofNat c.lastMissingSequence)

end SequenceCheck

/-- The check of a CTRL-WE: the loop over the fragments, and the comparison with the last number. -/
def checkSequences (sequenceMap : SequenceMap) (sequenceNumber : ℕ) : SequenceCheck :=
  let c := (sequenceMap.entries.map Prod.fst).foldl SequenceCheck.next .start
  if (sequenceMap.entries.map Prod.fst).getLast?.getD 0 < sequenceNumber then
    { c with
      allFragmentsReceived := false
      firstMissingSequence :=
        if c.firstMissingSequence = 0 then sequenceNumber else c.firstMissingSequence
      lastMissingSequence := sequenceNumber }
  else c

theorem SequenceCheck.all_foldl (keys : List ℕ) : ∀ c : SequenceCheck, keys.Pairwise (· < ·) →
      (∀ k ∈ keys, c.previousSequence = 0 ∨ c.previousSequence < k) →
      ((keys.foldl next c).allFragmentsReceived = true ↔ c.allFragmentsReceived = true ∧
          keys = List.range' (c.previousSequence + 1) keys.length) := by
  induction keys with
  | nil => simp
  | cons k keys ih =>
    intro c hsor hpre
    have hk := hpre k mem_cons_self
    rw [pairwise_cons] at hsor
    have hnext : (next c k).previousSequence = k := by
      rw [next]
      split_ifs <;> rfl
    rw [foldl_cons, ih _ hsor.2 (fun k' hk' => .inr (by rw [hnext]; exact hsor.1 k' hk')),
      hnext, length_cons, range'_succ, next]
    split_ifs with hfirst hgap
    · simp
      omega
    · simp
      omega
    · obtain rfl : k = c.previousSequence + 1 := by omega
      simp

/-- **The check**: the fragments have the numbers from 1 up to that of the CTRL-WE. -/
theorem checkSequences_all_iff (seqs : SequenceMap) (n : ℕ) :
    (checkSequences seqs n).allFragmentsReceived = true ↔
      seqs.entries.map Prod.fst = List.range' 1 seqs.entries.length ∧ n ≤ seqs.entries.length := by
  have hsor : (seqs.entries.map Prod.fst).Pairwise (· < ·) := pairwise_map.2 seqs.sorted
  have hloop := SequenceCheck.all_foldl _ .start hsor (fun _ _ => .inl rfl)
  rw [length_map] at hloop
  have hlast (h : seqs.entries.map Prod.fst = range' 1 seqs.entries.length) :
      (seqs.entries.map Prod.fst).getLast?.getD 0 = seqs.entries.length := by
    rw [h]
    cases seqs.entries.length with
    | zero => rfl
    | succ k => simp [range'_concat]; omega
  rw [checkSequences]
  split
  case isTrue hlt =>
    constructor
    · simp
    · rintro ⟨hkeys, hn⟩
      rw [hlast hkeys] at hlt
      omega
  case isFalse hle =>
    rw [hloop]
    constructor
    · rintro ⟨-, hkeys⟩
      rw [hlast hkeys] at hle
      exact ⟨hkeys, by omega⟩
    · rintro ⟨hkeys, -⟩
      exact ⟨rfl, hkeys⟩

namespace Lightweight

/-! ### Messages that are sent -/

/-- A CTRL message; the last two bytes of its struct are never written to. -/
def packControl (memory : ℕ → UInt8) (message : LtpMessage) : List UInt8 :=
  message.bytes ++ [memory 0, memory 1]

def garbage (memory : ℕ → UInt8) : ℕ := (memory 0).toNat + 256 * (memory 1).toNat

def forwardingEnabled (l : Lightweight) (nodeId : ℕ) : Bool := (l.knownNIds.get nodeId).getD false

def publishWindowEnded (memory : ℕ → UInt8) (l : Lightweight) (rCId nodeId : ℕ)
    (sessionKey : UInt16) : List LtpPublication :=
  if l.forwardingEnabled nodeId then
    [.data rCId [nodeId] (packControl memory (.windowEnded 0 sessionKey))]
  else []

/-! ### The client-side NAP -/

section
variable (memory : ℕ → UInt8) (l : Lightweight) (rCId : ℕ)

def noAction (published : List LtpPublication) : LtpHandled :=
  ⟨l, .noActionRequired, none, published⟩

def toCId (message : LtpMessage) : List LtpPublication :=
  match l.cIdReverseLookUp.get rCId with
  | none => []
  | some cId => [.iSub cId rCId (packControl memory message)]

/-- `_handleData`: the node is the NAP itself. -/
def handleData (sessionKey sequenceNumber payloadLength : UInt16) (payload : List UInt8) :
    LtpHandled :=
  let packet := Unreliable.copyPayload memory payload payloadLength.toNat
  let buffer := l.icnPacketBuffer.bufferIcnPacket rCId 0 l.nodeId sessionKey.toNat
    sequenceNumber.toNat packet
  noAction { l with icnPacketBuffer := buffer } []

section
variable (ripd : UInt32) (sessionKey : UInt16)

/-- The CTRL-WE: a node that is not in the buffer is confirmed anyway. -/
def handleWindowEnd (sequenceNumber : UInt16) : LtpHandled :=
  match (l.icnPacketBuffer.get rCId).bind fun pridMap => pridMap.get ripd.toNat with
  | none => noAction l []
  | some nodeIdMap =>
    match nodeIdMap.get l.nodeId with
    | none => noAction l (toCId memory l rCId (.windowEnded ripd sessionKey))
    | some sessionKeyMap =>
      match sessionKeyMap.get sessionKey.toNat with
      | none => noAction l []
      | some sequenceMap =>
        match l.cIdReverseLookUp.get rCId with
        | none => noAction l []
        | some _ =>
          if (checkSequences sequenceMap sequenceNumber.toNat).allFragmentsReceived then
            ⟨l, .allFragmentsReceived, some sessionKey.toNat,
              toCId memory l rCId (.windowEnded ripd sessionKey)⟩
          else
            noAction l (toCId memory l rCId
              ((checkSequences sequenceMap sequenceNumber.toNat).nack sessionKey))

/-- The CTRL-WED: the flag is set, if there is one, and the packets of the request go. -/
def handleWindowEnded : LtpHandled :=
  match ((l.windowEndedRequests.get rCId).bind fun pridMap => pridMap.get ripd.toNat).bind
      fun skMap => skMap.get sessionKey.toNat with
  | none => noAction l []
  | some _ =>
    let requests := l.windowEndedRequests.modify rCId fun pridMap =>
      pridMap.modify ripd.toNat fun skMap => skMap.modify sessionKey.toNat fun _ => true
    let buffer := l.proxyPacketBuffer.deleteProxyPacket rCId ripd.toNat sessionKey.toNat
    noAction { l with windowEndedRequests := requests, proxyPacketBuffer := buffer } []

/-- The CTRL-NACK: the fragments of the request are published again — to the NAP itself. -/
def handleNack (start stop : UInt16) : LtpHandled :=
  match l.cIdReverseLookUp.get rCId with
  | none => noAction l []
  | some _ =>
    noAction l ((l.proxyPacketBuffer.range rCId ripd.toNat sessionKey.toNat start.toNat
      stop.toNat).map (.data rCId [l.nodeId]))

end

def handle (packet : List UInt8) : LtpHandled :=
  match LtpMessage.read packet with
  | .data sessionKey sequenceNumber payloadLength payload =>
    l.handleData memory rCId sessionKey sequenceNumber payloadLength payload
  | .nack ripd sessionKey start stop => l.handleNack rCId ripd sessionKey start stop
  | .sessionEnd sessionKey =>
    ⟨l, .sessionEnded, some sessionKey.toNat, toCId memory l rCId (.sessionEnded sessionKey)⟩
  | .windowEnd ripd sessionKey sequenceNumber =>
    l.handleWindowEnd memory rCId ripd sessionKey sequenceNumber
  | .windowEnded ripd sessionKey => l.handleWindowEnded rCId ripd sessionKey
  | .windowUpdate ripd sessionKey =>
    noAction l (toCId memory l rCId (.windowUpdated ripd sessionKey))
  | .sessionEnded _ | .windowUpdated _ _ | .unknownControl | .unknown => noAction l []

end

/-! ### The server-side NAP -/

section
variable (memory : ℕ → UInt8) (l : Lightweight) (rCId nodeId : ℕ)

/-- `_addNodeId`: the key of a new node is cut to 16 bits. -/
def addNodeId : Lightweight :=
  match l.knownNIds.get nodeId with
  | none => { l with knownNIds := l.knownNIds.insert (nodeId % 65536) false }
  | some _ => l

def enableNIdInCmcGroup : Lightweight :=
  let groups := l.potentialCmcGroups.modify rCId fun prIdMap =>
    prIdMap.modify 0 fun nodeIdMap => nodeIdMap.modify nodeId fun _ => true
  { l with potentialCmcGroups := groups }

def outstanding (published : List LtpPublication) : LtpHandled :=
  ⟨l, .fragmentsOutstanding, none, published⟩

/-- `_handleData`: the node of the packet may form a group with others. -/
def handleDataISub (sessionKey sequenceNumber payloadLength : UInt16) (payload : List UInt8) :
    LtpHandled :=
  let packet := Unreliable.copyPayload memory payload payloadLength.toNat
  let buffer := l.icnPacketBuffer.bufferIcnPacket rCId 0 nodeId sessionKey.toNat
    sequenceNumber.toNat packet
  let groups := l.potentialCmcGroups.upsert rCId fun prIdMap =>
    prIdMap.upsert 0 fun nodeIdMap => nodeIdMap.insert nodeId false
  noAction { l with icnPacketBuffer := buffer, potentialCmcGroups := groups } []

/-- The CTRL-WE: a session that is not in the buffer is confirmed anyway. -/
def handleWindowEndISub (ripd : UInt32) (sessionKey sequenceNumber : UInt16) : LtpHandled :=
  let l := l.enableNIdInCmcGroup rCId nodeId
  match l.icnPacketBuffer.find rCId ripd.toNat nodeId sessionKey.toNat with
  | none => outstanding l (l.publishWindowEnded memory rCId nodeId sessionKey)
  | some sequenceMap =>
    if (checkSequences sequenceMap sequenceNumber.toNat).allFragmentsReceived then
      ⟨l, .allFragmentsReceived, some sessionKey.toNat,
        l.publishWindowEnded memory rCId nodeId sessionKey⟩
    else
      outstanding l [.data rCId [nodeId] (packControl memory
        ((checkSequences sequenceMap sequenceNumber.toNat).nack sessionKey))]

def getCmcGroup (sessionKey : ℕ) : Option (List ℕ) :=
  ((l.cmcGroups.get rCId).bind fun pridMap => pridMap.get 0).bind fun skMap => skMap.get sessionKey

inductive Deletion
  | none
  | noGroup
  | confirmed
deriving DecidableEq

/-- The CTRL-WED, until the flags and groups are unlocked: a flag that is there is set. -/
def confirmWindowEnded (sessionKey : ℕ) : Lightweight × Deletion :=
  match l.windowEndedResponses.find rCId 0 nodeId sessionKey with
  | none => (l, .none)
  | some _ =>
    let responses := l.windowEndedResponses.confirm rCId 0 nodeId sessionKey
    let l := { l with windowEndedResponses := responses }
    match l.getCmcGroup rCId sessionKey with
    | none => (l, .noGroup)
    | some cmcGroup =>
      if ∃ n ∈ cmcGroup, responses.find rCId 0 n sessionKey = some false then (l, .none)
      else (l, .confirmed)

def deleteBuffered (sessionKey : ℕ) : Lightweight :=
  { l with ltpPacketBuffer := l.ltpPacketBuffer.deleteBufferedLtpPacket rCId sessionKey }

def handleWindowEndedISub (sessionKey : UInt16) : LtpHandled :=
  match l.confirmWindowEnded rCId nodeId sessionKey.toNat with
  | (l, .none) => noAction l []
  | (l, .noGroup) => noAction (l.deleteBuffered rCId sessionKey.toNat) []
  | (l, .confirmed) => outstanding (l.deleteBuffered rCId sessionKey.toNat) []

def confirmedWeds (cmcGroup : List ℕ) (nidMap : OrderedMap ℕ (OrderedMap ℕ Bool))
    (sessionKey : ℕ) : ℕ :=
  (cmcGroup.countP fun n => (nidMap.get n).bind (fun skMap => skMap.get sessionKey) = some true) %
    65536

/-- The CTRL-NACK: once as many nodes have answered as the group has, there is a repair. -/
def handleNackISub (ripd : UInt32) (sessionKey start stop : UInt16) : LtpHandled :=
  let groups := l.nackGroups.addNackNodeId (garbage memory) rCId ripd.toNat sessionKey.toNat nodeId
    start.toNat stop.toNat
  let l := { l with nackGroups := groups }
  match l.getCmcGroup rCId sessionKey.toNat with
  | none => noAction l []
  | some cmcGroup =>
    match (l.windowEndedResponses.get rCId).bind fun pridMap => pridMap.get ripd.toNat with
    | none => noAction l []
    | some nidMap =>
      let nackGroup := groups.nackGroup (garbage memory) rCId ripd.toNat sessionKey.toNat
      if cmcGroup.length >
          confirmedWeds cmcGroup nidMap sessionKey.toNat + nackGroup.nodeIds.length then
        noAction l []
      else
        let groups := groups.deleteNackGroup rCId ripd.toNat sessionKey.toNat
        outstanding { l with nackGroups := groups }
          ((l.ltpPacketBuffer.range rCId 0 sessionKey.toNat nackGroup.startSequence
            nackGroup.endSequence).map (.data rCId nackGroup.nodeIds))

def handleSessionEndedISub (sessionKey : UInt16) : LtpHandled :=
  match l.sessionEndedResponses.find rCId 0 nodeId sessionKey.toNat with
  | none => { noAction l [] with sessionKey := some sessionKey.toNat }
  | some _ =>
    let responses := l.sessionEndedResponses.confirm rCId 0 nodeId sessionKey.toNat
    { outstanding { l with sessionEndedResponses := responses } [] with
      sessionKey := some sessionKey.toNat }

def handleWindowUpdatedISub (sessionKey : UInt16) : LtpHandled :=
  let updates := l.windowUpdate.modify rCId fun pridMap => pridMap.modify 0 fun skMap =>
    skMap.modify sessionKey.toNat fun nidMap => nidMap.modify nodeId fun _ => true
  noAction { l with windowUpdate := updates } []

def handleISub (packet : List UInt8) : LtpHandled :=
  let l := l.addNodeId nodeId
  match LtpMessage.read packet with
  | .data sessionKey sequenceNumber payloadLength payload =>
    l.handleDataISub memory rCId nodeId sessionKey sequenceNumber payloadLength payload
  | .nack ripd sessionKey start stop =>
    l.handleNackISub memory rCId nodeId ripd sessionKey start stop
  | .sessionEnded sessionKey => l.handleSessionEndedISub rCId nodeId sessionKey
  | .windowEnd ripd sessionKey sequenceNumber =>
    l.handleWindowEndISub memory rCId nodeId ripd sessionKey sequenceNumber
  | .windowEnded _ sessionKey => l.handleWindowEndedISub rCId nodeId sessionKey
  | .windowUpdated _ sessionKey => l.handleWindowUpdatedISub rCId nodeId sessionKey
  | .sessionEnd _ | .windowUpdate _ _ | .unknownControl => outstanding l []
  | .unknown => noAction l []

end

end Lightweight

/-! ### Runs -/

inductive LtpEvent
  | publishedData (memory : ℕ → UInt8) (rCId : ℕ) (packet : List UInt8)
  | publishedDataISub (memory : ℕ → UInt8) (rCId nodeId : ℕ) (packet : List UInt8)
  | retrieve (memory : ℕ → UInt8) (packet : List UInt8) (rCId nodeId sessionKey : ℕ)
  /-- Other threads change the tables, except for the receive buffer, which they do not know. -/
  | otherThreads (l : Lightweight)

structure ReceivedFragment where
  rCId : ℕ
  nodeId : ℕ
  sessionKey : ℕ
  sequenceNumber : ℕ
  bytes : List UInt8

namespace LtpEvent

def fragmentIn (memory : ℕ → UInt8) (rCId nodeId : ℕ) (packet : List UInt8) :
    Option ReceivedFragment :=
  match LtpMessage.read packet with
  | .data sessionKey sequenceNumber payloadLength payload =>
    some ⟨rCId, nodeId, sessionKey.toNat, sequenceNumber.toNat,
      Unreliable.copyPayload memory payload payloadLength.toNat⟩
  | _ => none

def received (own : ℕ) : LtpEvent → Option ReceivedFragment
  | .publishedData memory rCId packet => fragmentIn memory rCId own packet
  | .publishedDataISub memory rCId nodeId packet => fragmentIn memory rCId nodeId packet
  | .retrieve _ _ _ _ _ | .otherThreads _ => none

end LtpEvent

namespace Lightweight

def step (l : Lightweight) : LtpEvent → LtpHandled
  | .publishedData memory rCId packet => l.handle memory rCId packet
  | .publishedDataISub memory rCId nodeId packet => l.handleISub memory rCId nodeId packet
  | .retrieve memory packet rCId nodeId sessionKey =>
    let buffer := (l.icnPacketBuffer.retrievePacket memory packet rCId nodeId sessionKey).2
    noAction { l with icnPacketBuffer := buffer } []
  | .otherThreads l' => noAction { l' with nodeId := l.nodeId, icnPacketBuffer := l.icnPacketBuffer } []

def run (l : Lightweight) (events : List LtpEvent) : Lightweight :=
  events.foldl (fun l e => (l.step e).state) l

section
variable {l : Lightweight} {mem : ℕ → UInt8} {rCId nodeId : ℕ}

structure SameReceiver (l l' : Lightweight) : Prop where
  icnPacketBuffer : l'.icnPacketBuffer = l.icnPacketBuffer
  nodeId : l'.nodeId = l.nodeId

theorem addNodeId_eq (l : Lightweight) (nid : ℕ) :
    ∃ nodes, l.addNodeId nid = { l with knownNIds := nodes } := by
  rw [addNodeId]
  split <;> exact ⟨_, rfl⟩

theorem sameReceiver_addNodeId (l : Lightweight) (nid : ℕ) : SameReceiver l (l.addNodeId nid) := by
  obtain ⟨nodes, hnodes⟩ := l.addNodeId_eq nid
  rw [hnodes]
  exact ⟨rfl, rfl⟩

theorem handleWindowEndedISub_cases (l : Lightweight) (rCId nid : ℕ) (sk : UInt16) :
    (l.handleWindowEndedISub rCId nid sk).published = [] ∧
      ∃ resps buf, (l.handleWindowEndedISub rCId nid sk).state =
          { l with windowEndedResponses := resps, ltpPacketBuffer := buf } ∧
        (buf = l.ltpPacketBuffer ∨
          buf = l.ltpPacketBuffer.deleteBufferedLtpPacket rCId sk.toNat) := by
  have hcon : ∃ resps, (l.confirmWindowEnded rCId nid sk.toNat).1 =
      { l with windowEndedResponses := resps } := by
    rw [confirmWindowEnded]
    dsimp only
    repeat' split
    all_goals exact ⟨_, rfl⟩
  obtain ⟨resps, hresp⟩ := hcon
  rw [handleWindowEndedISub]
  split
  all_goals
    rename_i l' heq
    rw [heq] at hresp
    obtain rfl : l' = { l with windowEndedResponses := resps } := hresp
    refine ⟨rfl, resps, _, rfl, ?_⟩
  · exact .inl rfl
  · exact .inr rfl
  · exact .inr rfl

def buffered (buffer : IcnPacketBuffer) : Option ReceivedFragment → IcnPacketBuffer
  | none => buffer
  | some f => buffer.bufferIcnPacket f.rCId 0 f.nodeId f.sessionKey f.sequenceNumber f.bytes

/-- **What a packet changes** at a client-side NAP: the receive buffer, or by a CTRL-WED the flags
and packets of requests. -/
theorem handle_frame (l : Lightweight) (mem : ℕ → UInt8) (rCId : ℕ) (pkt : List UInt8) :
    ∃ reqs proxyBuffer, (l.handle mem rCId pkt).state = { l with
          icnPacketBuffer := buffered l.icnPacketBuffer (LtpEvent.fragmentIn mem rCId l.nodeId pkt)
          windowEndedRequests := reqs
          proxyPacketBuffer := proxyBuffer } ∧
      ((∀ ripd sessionKey, LtpMessage.read pkt ≠ .windowEnded ripd sessionKey) →
        reqs = l.windowEndedRequests) := by
  rw [handle, LtpEvent.fragmentIn]
  cases LtpMessage.read pkt with
  | nack =>
    simp only [handleNack]
    split <;> exact ⟨_, _, rfl, fun _ => rfl⟩
  | windowEnd =>
    simp only [handleWindowEnd]
    repeat' split
    all_goals exact ⟨_, _, rfl, fun _ => rfl⟩
  | windowEnded ripd sessionKey =>
    simp only [handleWindowEnded]
    split <;> exact ⟨_, _, rfl, fun h => absurd rfl (h ripd sessionKey)⟩
  | data | sessionEnd | sessionEnded | windowUpdate | windowUpdated | unknownControl | unknown =>
    exact ⟨_, _, rfl, fun _ => rfl⟩

/-- A fragment makes its node a member of the potential group, and a CTRL-WE sets the flag of a
member. -/
def joined (rCId nodeId : ℕ) (groups : OrderedMap ℕ (OrderedMap ℕ (OrderedMap ℕ Bool))) :
    LtpMessage → OrderedMap ℕ (OrderedMap ℕ (OrderedMap ℕ Bool))
  | .data _ _ _ _ => groups.upsert rCId fun prIdMap =>
    prIdMap.upsert 0 fun nodeIdMap => nodeIdMap.insert nodeId false
  | .windowEnd _ _ _ => groups.modify rCId fun prIdMap =>
    prIdMap.modify 0 fun nodeIdMap => nodeIdMap.modify nodeId fun _ => true
  | _ => groups

/-- **What a packet changes** at a server-side NAP: a CTRL-WED the flags and packets of responses, a
CTRL-NACK the groups. -/
theorem handleISub_frame (l : Lightweight) (mem : ℕ → UInt8) (rCId nid : ℕ) (pkt : List UInt8) :
    ∃ resps buf sessionEnded updates groups nodes, (l.handleISub mem rCId nid pkt).state =
        { l with
          icnPacketBuffer := buffered l.icnPacketBuffer (LtpEvent.fragmentIn mem rCId nid pkt)
          windowEndedResponses := resps
          ltpPacketBuffer := buf
          sessionEndedResponses := sessionEnded
          windowUpdate := updates
          nackGroups := groups
          knownNIds := nodes
          potentialCmcGroups := joined rCId nid l.potentialCmcGroups (LtpMessage.read pkt) } ∧
      ((∀ ripd sessionKey, LtpMessage.read pkt ≠ .windowEnded ripd sessionKey) →
        resps = l.windowEndedResponses ∧ buf = l.ltpPacketBuffer) ∧
      (buf = l.ltpPacketBuffer ∨
        ∃ sessionKey, buf = l.ltpPacketBuffer.deleteBufferedLtpPacket rCId sessionKey) ∧
      ((∀ ripd sessionKey first last, LtpMessage.read pkt ≠ .nack ripd sessionKey first last) →
        groups = l.nackGroups) := by
  obtain ⟨nodes, hnodes⟩ := l.addNodeId_eq nid
  have hkept : l.ltpPacketBuffer = l.ltpPacketBuffer ∨ ∃ sessionKey : ℕ, l.ltpPacketBuffer =
      l.ltpPacketBuffer.deleteBufferedLtpPacket rCId sessionKey := .inl rfl
  rw [handleISub, LtpEvent.fragmentIn, hnodes]
  cases LtpMessage.read pkt with
  | nack ripd sessionKey first last =>
    simp only [handleNackISub]
    repeat' split
    all_goals exact ⟨_, _, _, _, _, _, rfl, fun _ => ⟨rfl, rfl⟩, hkept,
      fun h => absurd rfl (h ripd sessionKey first last)⟩
  | windowEnded ripd sessionKey =>
    obtain ⟨-, resps, buf, hstate, hbuf⟩ :=
      handleWindowEndedISub_cases { l with knownNIds := nodes } rCId nid sessionKey
    exact ⟨_, _, _, _, _, _, hstate, fun h => absurd rfl (h ripd sessionKey),
      hbuf.imp_right fun h => ⟨_, h⟩, fun _ => rfl⟩
  | sessionEnded =>
    simp only [handleSessionEndedISub]
    split <;> exact ⟨_, _, _, _, _, _, rfl, fun _ => ⟨rfl, rfl⟩, hkept, fun _ => rfl⟩
  | windowEnd =>
    simp only [handleWindowEndISub]
    repeat' split
    all_goals exact ⟨_, _, _, _, _, _, rfl, fun _ => ⟨rfl, rfl⟩, hkept, fun _ => rfl⟩
  | data | windowUpdated | sessionEnd | windowUpdate | unknownControl | unknown =>
    exact ⟨_, _, _, _, _, _, rfl, fun _ => ⟨rfl, rfl⟩, hkept, fun _ => rfl⟩

theorem step_cases (l : Lightweight) (e : LtpEvent) : (l.step e).state.nodeId = l.nodeId ∧
      ((∃ f, e.received l.nodeId = some f ∧ (l.step e).state.icnPacketBuffer =
          l.icnPacketBuffer.bufferIcnPacket f.rCId 0 f.nodeId f.sessionKey f.sequenceNumber f.bytes) ∨
        (∃ mem pkt rCId nodeId sessionKey,
          e = .retrieve mem pkt rCId nodeId sessionKey ∧ (l.step e).state.icnPacketBuffer =
            (l.icnPacketBuffer.retrievePacket mem pkt rCId nodeId sessionKey).2) ∨
        (e.received l.nodeId = none ∧ (l.step e).state.icnPacketBuffer = l.icnPacketBuffer)) := by
  have hcases {o : Option ReceivedFragment} {b : IcnPacketBuffer} {q : Prop}
      (h : b = buffered l.icnPacketBuffer o) :
      (∃ f, o = some f ∧ b = l.icnPacketBuffer.bufferIcnPacket f.rCId 0 f.nodeId f.sessionKey
        f.sequenceNumber f.bytes) ∨ q ∨ (o = none ∧ b = l.icnPacketBuffer) := by
    cases o with
    | none => exact .inr (.inr ⟨rfl, h⟩)
    | some f => exact .inl ⟨f, rfl, h⟩
  cases e with
  | publishedData mem rCId pkt =>
    obtain ⟨reqs, proxyBuffer, hstate, -⟩ := l.handle_frame mem rCId pkt
    rw [step, hstate]
    exact ⟨rfl, hcases rfl⟩
  | publishedDataISub mem rCId nodeId pkt =>
    obtain ⟨_, _, _, _, _, _, hstate, -⟩ := l.handleISub_frame mem rCId nodeId pkt
    rw [step, hstate]
    exact ⟨rfl, hcases rfl⟩
  | retrieve mem pkt rCId nodeId sessionKey =>
    exact ⟨rfl, .inr (.inl ⟨mem, pkt, rCId, nodeId, sessionKey, rfl, rfl⟩)⟩
  | otherThreads l' => exact ⟨rfl, .inr (.inr ⟨rfl, rfl⟩)⟩

end

end Lightweight

end Blackadder
