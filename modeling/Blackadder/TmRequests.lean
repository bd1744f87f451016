/-
**Path requests to the topology manager.**

It reads publishers and subscribers, computes, and answers the publishers with the type, the end of
the request and the forwarding identifier; with resiliency it also reports the delivery. Requests
are bytes. A handler gives what it publishes; a fault in this list stops the program.
-/

import Blackadder.ProxyInput
import Blackadder.TmLinkState
import Blackadder.Buffer

namespace Blackadder

/-! ### Memory -/

def bytesAt (data : List UInt8) (i n : ℕ) : List UInt8 :=
  (List.range n).map fun j => byteAt data (i + j)

def memcpy (i : ℕ) (bytes block : List UInt8) : Except TmFault (List UInt8) :=
  if i + bytes.length ≤ block.length then .ok (Buffer.write i bytes block) else .error .memory

def malloc (junk : ℕ → UInt8) (size : ℕ) : List UInt8 := (List.range size).map junk

@[simp] theorem malloc_length (junk : ℕ → UInt8) (size : ℕ) : (malloc junk size).length = size := by
  simp [malloc]

def nodeSet (tr : Traversal NodeID) (l : List NodeID) : ListSet NodeID := ListSet.ofList (tr.visit l)

/-! ### Reading requests -/

structure PathRequest where
  publishers : List NodeID
  subscribers : List NodeID
  idsIndex : ℕ
  noIDs : UInt8
  IDLen : UInt8
  ids : List UInt8

namespace PathRequest

/-- The head of `handleMulticastPathRequest`. The bytes from the number of identifiers on are
copied, but beginning behind the first length byte. -/
def readMulticast (request : List UInt8) : PathRequest :=
  let noPublishers := (byteAt request 2).toNat
  let noSubscribers := (byteAt request (3 + noPublishers * pursuitIDLen)).toNat
  let idsIndex := 4 + noPublishers * pursuitIDLen + noSubscribers * pursuitIDLen
  { publishers := vectorsAt nodeIDLen request 3 noPublishers
    subscribers := vectorsAt nodeIDLen request (4 + noPublishers * pursuitIDLen) noSubscribers
    idsIndex := idsIndex
    noIDs := byteAt request idsIndex
    IDLen := byteAt request (idsIndex + 1)
    ids := bytesAt request (idsIndex + 2) (request.length - idsIndex) }

/-- The head of `handleUnicastPathRequest`. One publisher is read. -/
def readUnicast (request : List UInt8) : PathRequest :=
  let noPublishers := (byteAt request 2).toNat
  let noSubscribers := (byteAt request (3 + nodeIDLen)).toNat
  let offset := 4 + nodeIDLen + noSubscribers * nodeIDLen
  let IDLen := byteAt request (offset + 1)
  { publishers := [vectorAt nodeIDLen request 3]
    subscribers := vectorsAt nodeIDLen request (4 + nodeIDLen) noSubscribers
    idsIndex := 4 + noPublishers * pursuitIDLen + noSubscribers * pursuitIDLen
    noIDs := byteAt request offset
    IDLen := IDLen
    ids := bytesAt request (offset + 2) (IDLen.toNat * pursuitIDLen) }

end PathRequest

/-! ### Responses and reports -/

def pathResponse (type : UInt8) (request : List UInt8) (idsIndex : ℕ) (tail : List UInt8) :
    Except TmFault (List UInt8) :=
  if idsIndex ≤ request.length then .ok (type :: (request.drop idsIndex ++ tail))
  else .error .memory

def pathvectorsField (paths : List (List UInt8)) : List UInt8 :=
  paths.flatMap fun path => UInt8.ofNat path.length :: path

def labels (nodes : List NodeID) : List UInt8 := nodes.flatMap fun n => n.toList

/-- The report about a multicast delivery. The rest of the request is copied, and the next copies
begin behind the first identifier. -/
def multicastDelivery (junk : ℕ → UInt8) (noIDs IDLen : UInt8) (ids : List UInt8)
    (paths : List (List UInt8)) (alternatives : List NodeID) : Except TmFault (List UInt8) := do
  let noPathvectors := UInt8.ofNat paths.length
  let field := if noPathvectors > 0 then pathvectorsField paths else []
  let noAlternatives := UInt8.ofNat alternatives.length
  let size := 1 + 1 + 1 + noIDs.toNat * IDLen.toNat * pursuitIDLen + 1 + field.length + 1 +
    noAlternatives.toNat * nodeIDLen
  let offset := 1 + 1 + 1 + IDLen.toNat * pursuitIDLen
  let response ← memcpy 0 [updateDelivery, noIDs, IDLen] (malloc junk size)
  let response ← memcpy (1 + 1 + 1) ids response
  let response ← memcpy offset [noPathvectors] response
  let response ← memcpy (offset + 1) field response
  let response ← memcpy (offset + 1 + field.length) [noAlternatives] response
  memcpy (offset + 1 + field.length + 1)
    ((labels alternatives).take (noAlternatives.toNat * nodeIDLen)) response

/-- The report about a unicast delivery, each copy behind the one before it. -/
def unicastDelivery (noIDs IDLen : UInt8) (ids : List UInt8) (publisher : NodeID)
    (path : List UInt8) (alternatives : List NodeID) : List UInt8 :=
  let pathLen := UInt8.ofNat path.length
  let noAlternatives := UInt8.ofNat alternatives.length
  [updateDelivery, noIDs, IDLen] ++ ids ++ publisher.toList ++ [1, pathLen] ++
    path.take pathLen.toNat ++ [noAlternatives] ++
    (labels alternatives).take (noAlternatives.toNat * nodeIDLen)

namespace TMIgraph

variable (ig : Igraph) (tr : Traversal NodeID) (rmNodeID : NodeID) (junk : ℕ → UInt8)

/-! ### Multicast -/

def publisherPayload (request : List UInt8) (idsIndex : ℕ) :
    Option FID → Except TmFault (List UInt8)
  | none => pathResponse stopPublish request idsIndex []
  | some fid =>
    pathResponse (if byteAt request 0 = updateFID then updateFID else startPublish) request
      idsIndex fid.toList

def publisherResponse (tm : TMIgraph) (request : List UInt8) (r : PathRequest)
    (result : Table NodeID (Option FID)) (publisher : NodeID) : Except TmFault TmPublication := do
  let payload ← publisherPayload request r.idsIndex (result.get publisher).join
  let fid ← tm.getTMToNodeFID publisher
  return .response publisher fid payload

def deliveryPaths (x : Rendezvous) (publisher : NodeID) : Except TmFault (List (List UInt8)) :=
  match x.result.get publisher with
  | some (some _) =>
    match x.pathVectors.get publisher with
    | some paths => .ok paths.toList
    | none => .error .nullPointer
  | _ => .ok []

section
variable (tm : TMIgraph)

def reportMulticast (r : PathRequest) (x : Rendezvous) (publishers : List NodeID) :
    Except TmFault TmPublication := do
  let paths ← publishers.mapM (deliveryPaths x)
  let payload ← multicastDelivery junk r.noIDs r.IDLen r.ids paths.flatten
    (publishers.filter fun p => (x.result.get p).join.isNone)
  let fid ← tm.getTMToNodeFID rmNodeID
  return .toRM .updatePath fid payload

/-- A notification about a scope. The block is longer than what is written. -/
def scopeResponse (request : List UInt8) (noSubscribers idsIndex : ℕ)
    (subscriber : NodeID) : Except TmFault TmPublication := do
  if request.length < idsIndex then throw .memory
  let payload ← memcpy 0 (byteAt request 0 :: request.drop idsIndex)
    (malloc junk (request.length - 1 - 1 - noSubscribers * pursuitIDLen + fidLen))
  let fid ← tm.getTMToNodeFID subscriber
  return .response subscriber fid payload

def handleMulticastPathRequest (request : List UInt8) : List (Except TmFault TmPublication) :=
  let type := byteAt request 0
  if type = matchPubSubs ∨ type = updateFID then
    let r := PathRequest.readMulticast request
    if request.length < r.idsIndex then [.error .memory]
    else
      match tm.calculateFIDs ig (nodeSet tr r.publishers) (nodeSet tr r.subscribers) with
      | .error e => [.error e]
      | .ok x =>
        let publishers := tr.visit x.result.keys.toList
        publishers.map (tm.publisherResponse request r x.result) ++
          if tm.rs then [tm.reportMulticast rmNodeID junk r x publishers] else []
  else if type = ScopeEvent.scopePublished.code ∨ type = ScopeEvent.scopeUnpublished.code then
    let noSubscribers := (byteAt request 2).toNat
    (vectorsAt nodeIDLen request 3 noSubscribers).map
      (tm.scopeResponse junk request noSubscribers (3 + noSubscribers * pursuitIDLen))
  else []

/-! ### Unicast -/

def unicastResponse (request : List UInt8) (r : PathRequest) (publisher : NodeID)
    (fid : FID) : Except TmFault TmPublication := do
  let payload ← pathResponse (if byteAt request 0 = matchPubSubs then startPublish else updateFID)
    request r.idsIndex fid.toList
  let toPublisher ← tm.getTMToNodeFID publisher
  return .response publisher toPublisher payload

/-- The report to the resiliency manager, if the length of the path is not zero in a byte. -/
def reportUnicast (r : PathRequest) (publisher : NodeID) (path : List UInt8)
    (alternatives : List NodeID) : List (Except TmFault TmPublication) :=
  if UInt8.ofNat path.length > 0 then
    [(tm.getTMToNodeFID rmNodeID).map fun fid => .toRM .updateUnicastPath fid
      (unicastDelivery r.noIDs r.IDLen r.ids publisher path alternatives)]
  else []

def isubscribersResponse (request : List UInt8) : Except TmFault TmPublication := do
  let publisher := vectorAt nodeIDLen request 2
  let noSubscribers := byteAt request (2 + nodeIDLen)
  let fids ← (vectorsAt nodeIDLen request (3 + nodeIDLen) noSubscribers.toNat).mapM fun n => do
    let fid ← tm.calculateFID ig publisher n
    return (n, fid)
  let toPublisher ← tm.getTMToNodeFID publisher
  return .response publisher toPublisher
    (updateFIDISub :: noSubscribers :: fids.flatMap fun x => x.1.toList ++ x.2.toList)

/-- `handleUnicastPathRequest`. The loop ends at the first subscriber with a forwarding identifier;
those in front are the alternatives. -/
def handleUnicastPathRequest (request : List UInt8) : List (Except TmFault TmPublication) :=
  let type := byteAt request 0
  if type = matchPubSubs ∨ type = updateFID then
    let r := PathRequest.readUnicast request
    let publisher := vectorAt nodeIDLen request 3
    if request.length < 4 + nodeIDLen + r.subscribers.length * nodeIDLen + r.ids.length then
      [.error .memory]
    else
      match tm.ucalculateFID ig publisher (nodeSet tr r.subscribers) with
      | .error e => [.error e]
      | .ok x =>
        let subscribers := tr.visit x.1.keys.toList
        match subscribers.findSome? fun s => (x.1.get s).join.map fun fid => (s, fid) with
        | none => []
        | some (s, fid) =>
          tm.unicastResponse request r publisher fid :: if tm.rs then
              tm.reportUnicast rmNodeID r publisher ((x.2.get s).getD [])
                (subscribers.takeWhile fun s => (x.1.get s).join.isNone)
            else []
  else if type = matchPubISubs then [tm.isubscribersResponse ig request]
  else if type = ScopeEvent.scopePublished.code ∨ type = ScopeEvent.scopeUnpublished.code then
    let noSubscribers := (byteAt request 2).toNat
    -- the offset is advanced by the number of the subscribers, not by the size of this number
    (vectorsAt nodeIDLen request (2 + noSubscribers) noSubscribers).map
      (tm.scopeResponse junk request noSubscribers (2 + noSubscribers + noSubscribers * pursuitIDLen))
  else []

end

/-! ### Dispatch -/

def reservedScope (last : UInt8) : List UInt8 := List.replicate 7 255 ++ [last]

def unicastDeliveryId : List UInt8 := reservedScope 254 ++ reservedScope 253

def recoverUnicastDeliveryId : List UInt8 := reservedScope 241 ++ reservedScope 243

/-- Whether a request is for a unicast path, from the identifier without the label. -/
def isUnicastRequest (id : List UInt8) : Bool :=
  let prefixID := id.take (id.length - pursuitIDLen)
  prefixID = unicastDeliveryId || prefixID = recoverUnicastDeliveryId

/-- The end of `event_listener_loop`: what is no link-state notification is a request for paths. -/
def handlePathRequest (tm : TMIgraph) (id request : List UInt8) :
    List (Except TmFault TmPublication) :=
  if isUnicastRequest id then tm.handleUnicastPathRequest ig tr rmNodeID junk request
  else tm.handleMulticastPathRequest ig tr rmNodeID junk request

def readPathRequest (id request : List UInt8) : PathRequest :=
  if isUnicastRequest id then .readUnicast request else .readMulticast request

end TMIgraph

end Blackadder
