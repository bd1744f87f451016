/-
**The resiliency manager.**

The topology manager reports every delivery to it; after a failure it asks for new paths. An item
is recorded as a block of bytes: the number of its identifiers, the length of the first one, and the
first one. `DispathToHandler` keeps the length of a payload in an `unsigned char`.
-/

import Blackadder.TmRequests

namespace Blackadder

/-! ### Reading reports -/

structure MulticastDelivery where
  icnID : List UInt8
  paths : List (List UInt8)
  /-- `alternative_publishers`. -/
  alternatives : List NodeID
  stop : ℕ

/-- The loop over the paths. `string(request_str, path_idx, path_len)` throws behind the end of the
request. -/
def readPaths (data : List UInt8) : ℕ → ℕ → Except TmFault (List (List UInt8) × ℕ)
  | 0, pathIdx => .ok ([], pathIdx)
  | n + 1, pathIdx =>
    let pathLen := (byteAt data pathIdx).toNat
    if data.length < pathIdx + 1 then .error .outOfRange
    else do
      let rest ← readPaths data n (pathIdx + 1 + pathLen)
      return ((data.drop (pathIdx + 1)).take pathLen :: rest.1, rest.2)

def MulticastDelivery.read (data : List UInt8) : Except TmFault MulticastDelivery := do
  let idsSize := (byteAt data 1).toNat * pursuitIDLen + 1 + 1
  let paths ← readPaths data (byteAt data idsSize).toNat (idsSize + 1)
  let noAltPubs := (byteAt data paths.2).toNat
  return {
    icnID := bytesAt data 0 idsSize
    paths := paths.1
    alternatives := vectorsAt nodeIDLen data (paths.2 + 1) noAltPubs
    stop := paths.2 + 1 + noAltPubs * nodeIDLen }

structure UnicastDelivery where
  icnID : List UInt8
  publisher : NodeID
  path : Option (List UInt8)
  /-- `alternative_subscribers`. -/
  alternatives : List NodeID
  stop : ℕ

def UnicastDelivery.read (data : List UInt8) : UnicastDelivery :=
  let idsSize := (byteAt data 1).toNat * pursuitIDLen + 1 + 1
  let noPaths := (byteAt data (idsSize + nodeIDLen)).toNat
  let pathLen := (byteAt data (idsSize + nodeIDLen + 1)).toNat
  let pathIdx := idsSize + nodeIDLen + 1 + if noPaths > 0 then 1 + pathLen else 0
  let noAltSubs := (byteAt data pathIdx).toNat
  { icnID := bytesAt data 0 idsSize
    publisher := vectorAt nodeIDLen data idsSize
    path := if noPaths > 0 then some (bytesAt data (idsSize + nodeIDLen + 2) pathLen) else none
    alternatives := vectorsAt nodeIDLen data (pathIdx + 1) noAltSubs
    stop := pathIdx + 1 + noAltSubs * nodeIDLen }

/-! ### The state -/

/-- The state of the resiliency manager, with a graph of its own. -/
structure RM where
  tm : TMIgraph
  rmNodeID : NodeID
  pathInfo : Table (List UInt8) (ListSet (List UInt8))
  exPubs : Table (List UInt8) (ListSet NodeID)
  unicastPathInfo : Table (List UInt8) (Table NodeID (List UInt8))
  exSubs : Table (List UInt8) (ListSet NodeID)

/-- What `DispathToHandler` hands on. An `int` is cast to `unsigned char`. -/
def dispathPayload (request : List UInt8) : List UInt8 :=
  bytesAt request 1 (UInt8.ofNat (request.length + 255)).toNat

namespace RM

variable (rm : RM)

def recordMulticast (d : MulticastDelivery) : RM :=
  let paths := ListSet.ofList d.paths
  let others := rm.pathInfo.erase d.icnID
  { rm with
    pathInfo := if paths.isEmpty then others else others.set d.icnID paths
    exPubs := rm.exPubs.set d.icnID (ListSet.ofList d.alternatives) }

def recordUnicast (d : UnicastDelivery) : RM :=
  let paths := ((rm.unicastPathInfo.get d.icnID).getD ∅).erase d.publisher
  let unicastPathInfo := match d.path, rm.unicastPathInfo.get d.icnID with
    | some path, _ => rm.unicastPathInfo.set d.icnID (paths.set d.publisher path)
    | none, some _ => rm.unicastPathInfo.set d.icnID paths
    | none, none => rm.unicastPathInfo
  { rm with
    unicastPathInfo := unicastPathInfo
    exSubs := rm.exSubs.set d.icnID (ListSet.ofList d.alternatives) }

/-- `DispathToHandler`. What is recorded does not change when a failure is discovered. -/
def dispathToHandler (scope : RmScope) (request : List UInt8) : Except TmFault RM :=
  match scope with
  | .updatePath =>
    if byteAt request 0 = updateDelivery then
      (MulticastDelivery.read (dispathPayload request)).map rm.recordMulticast
    else .ok rm
  | .updateUnicastPath =>
    if byteAt request 0 = updateDelivery then
      .ok (rm.recordUnicast (UnicastDelivery.read (dispathPayload request)))
    else .ok rm
  | .discoverFailure => .ok rm

end RM

/-! ### Requests for new paths -/

structure RecoveryRequest where
  id : List UInt8
  fid : FID
  payload : List UInt8
deriving DecidableEq

def recoverySize (publishers subscribers : List NodeID) (icnID : List UInt8) : ℕ :=
  1 + 1 + 1 + (UInt8.ofNat publishers.length).toNat * nodeIDLen + 1 +
    (UInt8.ofNat subscribers.length).toNat * nodeIDLen + icnID.length

def recoveryBytes (publishers subscribers : List NodeID) (icnID : List UInt8) : List UInt8 :=
  [implicitRendezvous, UInt8.ofNat publishers.length] ++ labels publishers ++
    [UInt8.ofNat subscribers.length] ++ labels subscribers ++ icnID

/-- A request for new paths: the type at the beginning, then each copy behind the one before it, the
first behind `offset`. -/
def recoveryRequest (junk : ℕ → UInt8) (offset : ℕ) (publishers subscribers : List NodeID)
    (icnID : List UInt8) : Except TmFault (List UInt8) := do
  let notification ← memcpy 0 [matchPubSubs] (malloc junk (recoverySize publishers subscribers icnID))
  memcpy (offset + 1) (recoveryBytes publishers subscribers icnID) notification

namespace RM

variable (rm : RM) (ig : Igraph) (junk : ℕ → UInt8)
  (publishers subscribers : List UInt8 → ListSet NodeID)

def multicastRecoveryID : List UInt8 := TMIgraph.reservedScope 241 ++ rm.tm.nodeID.toList

def unicastRecoveryID : List UInt8 :=
  TMIgraph.reservedScope 241 ++ TMIgraph.reservedScope 243 ++ rm.tm.nodeID.toList

/-- The publishers of the paths of an item, with the alternatives. -/
def withAlternatives (nodes : List UInt8 → ListSet NodeID)
    (alternatives : Table (List UInt8) (ListSet NodeID)) (icnID : List UInt8) :
    Except TmFault (ListSet NodeID) :=
  match alternatives.get icnID with
  | some others => .ok ((nodes icnID).union others)
  | none => .error .nullPointer

/-- The loop of `requestMulticastTree`. The offset is not reset between the items. -/
def multicastRequests (fid : FID) : ℕ → List (List UInt8) → List (Except TmFault RecoveryRequest)
  | _, [] => []
  | offset, icnID :: icnIDs =>
    match withAlternatives publishers rm.exPubs icnID with
    | .error e => [.error e]
    | .ok pubs =>
      let subs := subscribers icnID
      (recoveryRequest junk offset pubs.toList subs.toList icnID).map
          (⟨rm.multicastRecoveryID, fid, ·⟩) ::
        multicastRequests fid (offset + 1 + 1 + 1 + pubs.size * nodeIDLen + 1 +
          subs.size * nodeIDLen) icnIDs

def requestMulticastTree (icnIDs : ListSet (List UInt8)) : List (Except TmFault RecoveryRequest) :=
  match rm.tm.calculateFID ig rm.rmNodeID rm.tm.nodeID with
  | .error e => [.error e]
  | .ok fid => rm.multicastRequests junk publishers subscribers fid 0 icnIDs.toList

def unicastRequests (fid : FID) (icnID : List UInt8) : List (Except TmFault RecoveryRequest) :=
  match withAlternatives subscribers rm.exSubs icnID with
  | .error e => [.error e]
  | .ok subs => (publishers icnID).toList.map fun publisher =>
    (recoveryRequest junk 0 [publisher] subs.toList icnID).map (⟨rm.unicastRecoveryID, fid, ·⟩)

def requestUnicastPaths (icnIDs : ListSet (List UInt8)) : List (Except TmFault RecoveryRequest) :=
  match rm.tm.calculateFID ig rm.rmNodeID rm.tm.nodeID with
  | .error e => [.error e]
  | .ok fid => icnIDs.toList.flatMap (rm.unicastRequests junk publishers subscribers fid)

end RM

end Blackadder
