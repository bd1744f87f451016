/-
**What the client libraries send.**

`Blackadder` hands the pieces of a message to `sendmsg`, `NB_Blackadder` copies them into one
buffer: the same bytes. `LocalProxy::push` takes them apart, but takes only a forwarding identifier
off a publication; other strategy options are read as a part of what follows.
-/

import Blackadder.ProxyEvents
import Blackadder.TmRequests

namespace Blackadder

open List

/-! ### Calls -/

abbrev ApiRequest := {t : RequestType // t.code < 8}

abbrev NodeList := {l : List NodeID // l.length < 256}

/-- `publish_data` without and with node identifiers, and `publish_data_isub`. -/
inductive Publication
  | data
  | iMulticast (nodeIds : NodeList)
  | iSub (isubID : WireId)

/-- The calls of the API. The options are `none` for a null pointer. -/
inductive ApiCall
  | request (type : ApiRequest) (id prefixID : WireId) (strategy : Strategy) (opts : Option (List UInt8))
  | publish (p : Publication) (id : WireId) (strategy : Strategy) (opts : Option (List UInt8))
      (data : List UInt8)

def nlmsghdrLen : ℕ := 16

def publishDataIMulticast : UInt8 := 111

def disconnectType : UInt8 := 13

def idLen (id : WireId) : UInt8 := UInt8.ofNat ((idBytes id).length / pursuitIDLen)

def NodeList.size (nodeIds : NodeList) : UInt8 := UInt8.ofNat nodeIds.1.length

def NodeList.stream (nodeIds : NodeList) : List UInt8 := nodeIds.1.flatMap fun a => a.toList

/-- A netlink message, without what its header holds besides the length. -/
structure NlMessage where
  nlmsgLen : UInt32
  bytes : List UInt8

namespace Publication

def type : Publication → UInt8
  | data => publishData
  | iMulticast _ => publishDataIMulticast
  | iSub _ => publishDataISub

def iov : Publication → List (List UInt8)
  | data => []
  | iMulticast nodeIds => [[nodeIds.size], nodeIds.stream.take (nodeIds.size.toNat * nodeIDLen)]
  | iSub isubID => [[idLen isubID], (idBytes isubID).take ((idLen isubID).toNat * pursuitIDLen)]

def nlmsgLen : Publication → ℕ
  | data => 0
  | iMulticast nodeIds => 1 + nodeIds.size.toNat * nodeIDLen
  | iSub isubID => 1 + (idLen isubID).toNat * pursuitIDLen

def bufferLength : Publication → ℕ
  | data => 0
  | iMulticast nodeIds => 1 + nodeIds.size.toNat * pursuitIDLen
  | iSub isubID => 1 + (idBytes isubID).length

def writes (i : ℕ) : Publication → List (ℕ × List UInt8)
  | data => []
  | iMulticast nodeIds =>
    [(i, [nodeIds.size]), (i + 1, nodeIds.stream.take (nodeIds.size.toNat * pursuitIDLen))]
  | iSub isubID => [(i, [idLen isubID]), (i + 1, idBytes isubID)]

end Publication

namespace ApiCall

def iov : ApiCall → List (List UInt8)
  | request type id prefixID strategy opts =>
    [[type.1.code], [idLen id], idBytes id, [idLen prefixID], idBytes prefixID, [strategy]] ++
      opts.toList
  | publish p id strategy opts data =>
    [[p.type], [idLen id], idBytes id, [strategy]] ++ opts.toList ++ p.iov ++ [data]

def nlmsgLen : ApiCall → ℕ
  | request _ id prefixID _ opts => nlmsghdrLen + 1 + 1 + (idBytes id).length + 1 +
    (idBytes prefixID).length + 1 + (opts.getD []).length
  | publish p id _ opts data => nlmsghdrLen + 1 + 1 + (idBytes id).length + 1 + p.nlmsgLen +
    (opts.getD []).length + data.length

/-- `create_and_send_buffers`, `publish_data` and `publish_data_isub` of `Blackadder`. -/
def sent (call : ApiCall) : NlMessage := ⟨UInt32.ofNat call.nlmsgLen, call.iov.flatten⟩

def bufferLength : ApiCall → ℕ
  | request _ id prefixID _ opts => nlmsghdrLen + 1 + 1 + (idBytes id).length + 1 +
    (idBytes prefixID).length + 1 + (opts.getD []).length
  | publish p id _ opts _ => nlmsghdrLen + 1 + 1 + (idBytes id).length + 1 + (opts.getD []).length +
    p.bufferLength

def writes : ApiCall → List (ℕ × List UInt8)
  | request type id prefixID strategy opts =>
    let i := nlmsghdrLen + 1 + 1 + (idBytes id).length
    [(nlmsghdrLen, [type.1.code]), (nlmsghdrLen + 1, [idLen id]), (nlmsghdrLen + 1 + 1, idBytes id),
      (i, [idLen prefixID]), (i + 1, idBytes prefixID), (i + 1 + (idBytes prefixID).length, [strategy])]
      ++ opts.toList.map fun o => (i + 1 + (idBytes prefixID).length + 1, o)
  | publish p id strategy opts _ =>
    let i := nlmsghdrLen + 1 + 1 + (idBytes id).length
    [(nlmsghdrLen, [p.type]), (nlmsghdrLen + 1, [idLen id]), (nlmsghdrLen + 1 + 1, idBytes id),
      (i, [strategy])] ++ (opts.toList.map fun o => (i + 1, o)) ++
        p.writes (i + 1 + (opts.getD []).length)

def data : ApiCall → List UInt8
  | request .. => []
  | publish _ _ _ _ data => data

/-- `push` and `publish_data` of `NB_Blackadder`. The length of the buffer is an `int`. -/
def sentNonBlocking (junk : ℕ → UInt8) (call : ApiCall) : Option NlMessage :=
  if call.bufferLength < 2147483648 then
    some ⟨UInt32.ofNat (call.bufferLength + call.data.length),
      (call.writes.foldl (fun buffer w => Buffer.write w.1 w.2 buffer)
        (malloc junk call.bufferLength)).drop nlmsghdrLen ++ call.data⟩
  else none

end ApiCall

/-! ### Reading -/

/-- What `push` reads: for publications also labels of nodes, or an implicit identifier. -/
inductive Received
  | disconnect
  | request (type : UInt8) (ID prefixID : Id) (strategy : Strategy) (opts : List UInt8)
  | publish (type : UInt8) (ID : Id) (strategy : Strategy) (opts : List UInt8) (nodeIDs : List NodeID)
      (isubID : Id) (data : List UInt8)
  | dropped
deriving DecidableEq

def Received.behind (type : UInt8) (ID : Id) (rest : List UInt8) : Received :=
  let strategy := byteAt rest 0
  let n := (byteAt rest 1).toNat
  if type = disconnectType then .disconnect
  else if type = publishData then
    if strategy = implicitRendezvous ∨ strategy = linkLocal then
      .publish type ID strategy (vectorAt fidLen rest 1).toList [] [] (rest.drop (1 + fidLen))
    else .publish type ID strategy [] [] [] (rest.drop 1)
  else if type = publishDataISub then
    -- the packet is passed on with the identifier of the subscription in front of the data
    if strategy = domainLocal then
      .publish type ID strategy [] [] (idAt rest 2 n) (rest.drop (2 + n * pursuitIDLen))
    else .dropped
  else if type = publishDataIMulticast then
    .publish type ID strategy [] (vectorsAt nodeIDLen rest 2 n) [] (rest.drop (2 + n * nodeIDLen))
  else
    let n := (byteAt rest 0).toNat
    .request type ID (idAt rest 1 n) (byteAt rest (1 + n * pursuitIDLen))
      (rest.drop (1 + n * pursuitIDLen + 1))

/-- The head of `LocalProxy::push`, for messages of applications. -/
def Received.push (data : List UInt8) : Received :=
  behind (byteAt data 0) (idAt data 2 (byteAt data 1).toNat)
    (data.drop (2 + (byteAt data 1).toNat * pursuitIDLen))

def ApiCall.received : ApiCall → Received
  | request type id prefixID strategy opts => .request type.1.code id prefixID strategy (opts.getD [])
  | publish .data id strategy opts data => .publish publishData id strategy (opts.getD []) [] [] data
  | publish (.iMulticast nodeIds) id strategy opts data =>
    .publish publishDataIMulticast id strategy (opts.getD []) nodeIds.1 [] data
  | publish (.iSub isubID) id strategy opts data =>
    .publish publishDataISub id strategy (opts.getD []) [] isubID data

/-- The proxy takes these options off and handles the strategy. -/
def ApiCall.Expected : ApiCall → Prop
  | request .. => True
  | publish .data _ strategy opts _ =>
    if strategy = implicitRendezvous ∨ strategy = linkLocal then (opts.getD []).length = fidLen
    else opts.getD [] = []
  | publish (.iMulticast _) _ _ opts _ => opts.getD [] = []
  | publish (.iSub _) _ strategy opts _ => opts.getD [] = [] ∧ strategy = domainLocal

/-- Both libraries send the same message, and the proxy reads the call. -/
def ApiCall.Agrees (junk : ℕ → UInt8) (call : ApiCall) : Prop :=
  call.sentNonBlocking junk = some call.sent ∧
    call.sent.nlmsgLen.toNat = nlmsghdrLen + call.sent.bytes.length ∧
    Received.push call.sent.bytes = call.received

@[simp] theorem toNat_idLen (id : WireId) : (idLen id).toNat = id.1.length := by
  rw [idLen, idBytes_length, Nat.mul_div_cancel _ (by decide), UInt8.toNat_ofNat',
    Nat.mod_eq_of_lt id.2]

@[simp] theorem NodeList.toNat_size (nodeIds : NodeList) : nodeIds.size.toNat = nodeIds.1.length :=
  UInt8.toNat_ofNat'.trans (Nat.mod_eq_of_lt nodeIds.2)

@[simp] theorem NodeList.length_stream (nodeIds : NodeList) :
    nodeIds.stream.length = nodeIds.1.length * nodeIDLen :=
  length_flatMap_toList nodeIds.1

/-! ### The same bytes -/

namespace ApiCall

variable (call : ApiCall)

theorem consecutive_writes : Buffer.Consecutive nlmsghdrLen call.writes := by
  cases call with
  | request type id pre strategy opts => cases opts <;> simp [writes, Buffer.Consecutive]
  | publish p id strategy opts data =>
    cases opts <;> cases p <;> simp [writes, Publication.writes, Buffer.Consecutive]

theorem flatten_writes : (call.writes.map Prod.snd).flatten ++ call.data = call.iov.flatten := by
  cases call with
  | request => simp [writes, data, iov]
  | publish p =>
    cases p <;> simp [writes, data, iov, Publication.writes, Publication.iov, pursuitIDLen, nodeIDLen]

theorem bufferLength_eq :
    call.bufferLength = nlmsghdrLen + (call.writes.map Prod.snd).flatten.length := by
  cases call with
  | request type id pre strategy opts => cases opts <;> simp [writes, bufferLength] <;> omega
  | publish p id strategy opts data =>
    cases opts <;> cases p <;> simp [writes, bufferLength, Publication.writes,
      Publication.bufferLength, pursuitIDLen, nodeIDLen] <;> omega

theorem nlmsgLen_eq : call.nlmsgLen = call.bufferLength + call.data.length := by
  cases call with
  | request => rfl
  | publish p =>
    cases p <;> simp [nlmsgLen, bufferLength, data, Publication.nlmsgLen, Publication.bufferLength,
      pursuitIDLen, nodeIDLen] <;> omega

theorem length_sent : nlmsghdrLen + call.sent.bytes.length = call.nlmsgLen := by
  rw [nlmsgLen_eq, bufferLength_eq, sent, ← flatten_writes, length_append, Nat.add_assoc]

variable {call}

theorem sentNonBlocking_eq (junk : ℕ → UInt8) (h : call.bufferLength < 2147483648) :
    call.sentNonBlocking junk = some call.sent := by
  have hle : nlmsghdrLen ≤ call.bufferLength := call.bufferLength_eq ▸ Nat.le_add_right _ _
  have hfront : ((malloc junk call.bufferLength).take nlmsghdrLen).length = nlmsghdrLen := by
    rw [length_take, malloc_length, Nat.min_eq_left hle]
  have hwrite := @Buffer.foldl_write _ _ _ ((malloc junk call.bufferLength).drop nlmsghdrLen)
    (hfront.symm ▸ call.consecutive_writes)
  rw [take_append_drop, drop_of_length_le (by simp [call.bufferLength_eq]), append_nil] at hwrite
  rw [sentNonBlocking, if_pos h, hwrite, drop_left' hfront, flatten_writes, ← nlmsgLen_eq, sent]

end ApiCall

/-! ### What the proxy reads -/

theorem drop_idBytes (id : WireId) (rest : List UInt8) :
    (idBytes id ++ rest).drop ((idLen id).toNat * pursuitIDLen) = rest :=
  drop_left' (by rw [idBytes_length, toNat_idLen])

namespace Received

theorem push_cons (type : UInt8) (id : WireId) (rest : List UInt8) :
    push (type :: idLen id :: (idBytes id ++ rest)) = behind type id rest := by
  have hid : idAt (type :: idLen id :: (idBytes id ++ rest)) 2 (idLen id).toNat = id :=
    toNat_idLen id ▸ idAt_of_drop rfl
  rw [push, show byteAt (type :: idLen id :: (idBytes id ++ rest)) 1 = idLen id from rfl, hid,
    ← drop_drop]
  exact congrArg _ (drop_idBytes id rest)

theorem behind_request (type : ApiRequest) (ID : Id) (pre : WireId) (s : Strategy)
    (opts : List UInt8) : behind type.1.code ID (idLen pre :: (idBytes pre ++ s :: opts)) =
      .request type.1.code ID pre s opts := by
  have hne {t : UInt8} (ht : 8 ≤ t) : type.1.code ≠ t := UInt8.ne_of_lt (UInt8.lt_of_lt_of_le type.2 ht)
  have hdrop : (idLen pre :: (idBytes pre ++ s :: opts)).drop
      (1 + (idLen pre).toNat * pursuitIDLen) = s :: opts := by
    rw [← drop_drop]
    exact drop_idBytes pre _
  rw [behind, if_neg (hne (by decide)), if_neg (hne (by decide)), if_neg (hne (by decide)),
    if_neg (hne (by decide)), show byteAt (idLen pre :: _) 0 = idLen pre from rfl]
  dsimp only
  rw [byteAt_of_drop hdrop, ← drop_drop, hdrop]
  exact congrArg (request _ _ · _ _) (toNat_idLen pre ▸ idAt_of_drop rfl)

end Received

theorem ApiCall.push_iff (call : ApiCall) :
    Received.push call.sent.bytes = call.received ↔ call.Expected := by
  cases call with
  | request type id pre s opts =>
    have hbytes : (request type id pre s opts).sent.bytes = type.1.code :: idLen id ::
        (idBytes id ++ idLen pre :: (idBytes pre ++ s :: opts.getD [])) := by
      cases opts <;> simp [sent, iov]
    rw [hbytes, Received.push_cons, Received.behind_request]
    exact iff_of_true rfl trivial
  | publish p id s opts data =>
    have hbytes : (publish p id s opts data).sent.bytes = p.type :: idLen id ::
        (idBytes id ++ s :: (opts.getD [] ++ (p.iov.flatten ++ data))) := by
      cases opts <;> simp [sent, iov]
    rw [hbytes, Received.push_cons, Received.behind, show byteAt (s :: _) 0 = s from rfl]
    cases p with
    | data =>
      rw [Publication.type, if_neg (by decide), if_pos rfl, received, Expected]
      split
      · constructor
        · intro h
          rw [← (Received.publish.inj h).2.2.2.1, List.Vector.toList_length]
        · intro hlen
          rw [vectorAt_of_drop (v := ⟨_, hlen⟩) rfl]
          exact congrArg (Received.publish _ _ _ _ _ _) (drop_left' hlen)
      · refine ⟨fun h => (Received.publish.inj h).2.2.2.1.symm, fun h => ?_⟩
        rw [h]
        rfl
    | iMulticast nodeIds =>
      rw [Publication.type, if_neg (by decide), if_neg (by decide), if_neg (by decide), received, Expected]
      refine ⟨fun h => (Received.publish.inj h).2.2.2.1.symm, fun h => ?_⟩
      have hrest : s :: (opts.getD [] ++ ((Publication.iMulticast nodeIds).iov.flatten ++ data)) =
          s :: nodeIds.size :: (nodeIds.stream ++ data) := by simp [h, Publication.iov]
      rw [hrest, h, show byteAt (s :: nodeIds.size :: _) 1 = nodeIds.size from rfl,
        nodeIds.toNat_size, vectorsAt_of_drop rfl, ← drop_drop]
      exact congrArg (Received.publish _ _ _ _ _ _) (drop_left' nodeIds.length_stream)
    | iSub isubID =>
      rw [Publication.type, if_neg (by decide), if_neg (by decide), if_pos rfl, received]
      split
      case isTrue hs =>
        refine ⟨fun h => ⟨(Received.publish.inj h).2.2.2.1.symm, hs⟩, fun h => ?_⟩
        have hrest : s :: (opts.getD [] ++ ((Publication.iSub isubID).iov.flatten ++ data)) =
            s :: idLen isubID :: (idBytes isubID ++ data) := by simp [h.1, Publication.iov]
        rw [hrest, h.1, show byteAt (s :: idLen isubID :: _) 1 = idLen isubID from rfl,
          toNat_idLen, idAt_of_drop rfl, ← drop_drop]
        exact congrArg (Received.publish _ _ _ _ _ _) (drop_left' idBytes_length)
      · next hs => exact iff_of_false nofun fun h => hs h.2

/-- **The libraries and the proxy agree** exactly if lengths fit, and the proxy takes the options
off and handles the strategy. -/
theorem ApiCall.decoded_agrees_iff (junk : ℕ → UInt8) (call : ApiCall) : call.Agrees junk ↔
    call.bufferLength < 2147483648 ∧ call.nlmsgLen < 4294967296 ∧ call.Expected := by
  have hlen : call.sent.nlmsgLen.toNat = nlmsghdrLen + call.sent.bytes.length ↔
      call.nlmsgLen < 4294967296 := by
    rw [call.length_sent, sent, UInt32.toNat_ofNat']
    omega
  have hsame : call.sentNonBlocking junk = some call.sent ↔ call.bufferLength < 2147483648 := by
    refine ⟨fun h => ?_, sentNonBlocking_eq junk⟩
    by_contra hge
    rw [sentNonBlocking, if_neg hge] at h
    cases h
  rw [Agrees, push_iff, hlen, hsame]

/-- Options under `DOMAIN_LOCAL` are read as data. -/
theorem ApiCall.not_agrees_options : ¬ (publish .data ⟨[.ofByte 1], by decide⟩ domainLocal (some [7])
    [1]).Agrees fun _ => 0 := by
  intro h
  exact absurd h.2.2 (by decide)

end Blackadder
