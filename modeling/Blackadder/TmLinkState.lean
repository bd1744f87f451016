/-
**Link-state notifications.**

The topology manager (`tm.cpp`) changes its graph, and refreshes three tables of forwarding
identifiers: to each node, and from each node to the rendezvous element and to itself. After a
failure it recomputes those that contain a lost link; after a restoration it only looks at nodes for
which it had no path. The handlers publish the lost link identifiers, or notify the resiliency
manager.
-/

import Blackadder.TmGraph

namespace Blackadder

/-! ### Notifications and publications -/

structure LinkStateNotification where
  lsnType : UInt8
  netType : UInt8
  rest : List UInt8
  requestPublisher : NodeID

namespace LinkStateNotification

/-- `string(request, offset, NODEID_LEN)` of the request up to a null character; the position must
not be behind its end. A short label is in no index. -/
def affectedNode (c : LinkStateNotification) : Except TmFault NodeID :=
  let request := (c.lsnType :: c.netType :: c.rest).takeWhile (· ≠ 0)
  if request.length < 2 then .error .outOfRange
  else
    let label := (request.drop 2).take nodeIDLen
    if h : label.length = nodeIDLen then .ok ⟨label, h⟩ else .error .nullPointer

/-- What the resiliency manager is told. -/
def relayed (c : LinkStateNotification) (affected : NodeID) : List UInt8 :=
  discoverFailure :: c.netType :: (c.requestPublisher.toList ++ affected.toList)

end LinkStateNotification

inductive RmScope
  | updatePath
  | updateUnicastPath
  | discoverFailure
deriving DecidableEq

/-- What is published, with its forwarding identifier. -/
inductive TmPublication
  | response (nodeID : NodeID) (fid : FID) (payload : List UInt8)
  | affectedLID (fid lid : FID)
  | toRM (scope : RmScope) (fid : FID) (payload : List UInt8)
deriving DecidableEq

inductive LinkStateHandler
  | PM (ucNotification : Bool)
  | RM (rmNodeID : NodeID)

def LinkStateHandler.unicast : LinkStateHandler → FID → FID → List TmPublication
  | PM true, fid, lid => [.affectedLID fid lid]
  | _, _, _ => []

namespace TMIgraph

structure LinkStateRun where
  tm : TMIgraph
  tmToAllFID : FID
  published : List TmPublication

variable (ig : Igraph)

section
variable (tm : TMIgraph) (nodeID : NodeID)

def getTMToNodeFID : Except TmFault FID :=
  if nodeID ∈ tm.nodes then .ok (tm.tmToNodeFID nodeID) else .error .nullPointer

def setTMToNodeFID (fid : FID) : TMIgraph :=
  { tm with tmToNodeFID := Function.update tm.tmToNodeFID nodeID fid }

def setRVFID (fid : FID) : TMIgraph :=
  { tm with rvFID := Function.update tm.rvFID nodeID fid }

def setTMFID (fid : FID) : TMIgraph :=
  { tm with tmFID := Function.update tm.tmFID nodeID fid }

def fidResponse (type : UInt8) (fid : FID) : TmPublication :=
  .response nodeID (tm.tmToNodeFID nodeID) (type :: fid.toList)

end

/-! ### A failure -/

def refreshTMToNode (handler : LinkStateHandler) (nodeID : NodeID) (st : LinkStateRun) (lid : FID) :
    Except TmFault LinkStateRun := do
  let tm ← if Bits.Contains (st.tm.tmToNodeFID nodeID) lid then do
      let fid ← st.tm.calculateFID ig st.tm.nodeID nodeID
      pure (st.tm.setTMToNodeFID nodeID fid)
    else pure st.tm
  return { st with
    tm := tm
    published := st.published ++ handler.unicast (tm.tmToNodeFID nodeID) lid }

def refreshRV (nodeID : NodeID) (st : LinkStateRun) (lid : FID) : Except TmFault LinkStateRun := do
  if Bits.Contains (st.tm.rvFID nodeID) lid then
    let fid ← st.tm.calculateFID ig nodeID st.tm.rvNodeID
    return { st with
      tm := st.tm.setRVFID nodeID fid
      published := st.published ++ [st.tm.fidResponse nodeID updateRVFID fid] }
  else return st

def refreshTM (nodeID : NodeID) (st : LinkStateRun) (lid : FID) : Except TmFault LinkStateRun := do
  if Bits.Contains (st.tm.tmFID nodeID) lid then
    let fid ← st.tm.calculateFID ig nodeID st.tm.nodeID
    return { st with
      tm := st.tm.setTMFID nodeID fid
      published := st.published ++ [st.tm.fidResponse nodeID updateTMFID fid] }
  else return st

/-- The loop over the nodes after a failure. `nodeID` is set in the loop over the lost links:
without any it is empty. -/
def failureAt (handler : LinkStateHandler) (freed : List FID) (st : LinkStateRun) (nodeID : NodeID) :
    Except TmFault LinkStateRun := do
  if freed.isEmpty then throw .nullPointer
  let st ← freed.foldlM (refreshTMToNode ig handler nodeID) st
  let st ← if Bits.isZero (st.tm.tmToNodeFID nodeID) then
      pure { st with
        tm := (st.tm.setRVFID nodeID (Bits.zeros fidLen)).setTMFID nodeID (Bits.zeros fidLen) }
    else freed.foldlM (fun st lid => do
      let st ← refreshRV ig nodeID st lid
      refreshTM ig nodeID st lid) st
  return { st with tmToAllFID := Bits.or st.tmToAllFID (st.tm.tmToNodeFID nodeID) }

def announceFailure (handler : LinkStateHandler) (c : LinkStateNotification)
    (affectedNode : NodeID) (freed : List FID) (st : LinkStateRun) :
    Except TmFault (List TmPublication) :=
  match handler with
  | .PM true => .ok []
  | .PM false => .ok (freed.map (.affectedLID st.tmToAllFID))
  | .RM rmNodeID => do
    let fid ← st.tm.getTMToNodeFID rmNodeID
    return [.toRM .discoverFailure fid (c.relayed affectedNode)]

/-! ### A restoration -/

def restorationAt (st : LinkStateRun) (nodeID : NodeID) : Except TmFault LinkStateRun := do
  if Bits.isZero (st.tm.tmToNodeFID nodeID) then
    let fid ← st.tm.calculateFID ig st.tm.nodeID nodeID
    if Bits.isZero fid then return st
    else
      let tm := st.tm.setTMToNodeFID nodeID fid
      let rv ← tm.calculateFID ig nodeID tm.rvNodeID
      let tm := tm.setRVFID nodeID rv
      let toTM ← tm.calculateFID ig nodeID tm.nodeID
      let tm := tm.setTMFID nodeID toTM
      return { st with
        tm := tm
        published := st.published ++
          [tm.fidResponse nodeID updateRVFID rv, tm.fidResponse nodeID updateTMFID toTM] }
  else return st

/-! ### The handlers -/

def freed (tm : TMIgraph) : List FID := tm.freedLIDs.keys.toList.filterMap tm.freedLIDs.get

def refreshTables (handler : LinkStateHandler) (c : LinkStateNotification) (affectedNode : NodeID)
    (tm : TMIgraph) : Except TmFault (TMIgraph × List TmPublication) := do
  let start : LinkStateRun := ⟨tm, Bits.zeros fidLen, []⟩
  if c.lsnType = removeLink then
    let st ← tm.nodes.toList.foldlM (failureAt ig handler tm.freed) start
    let last ← announceFailure handler c affectedNode tm.freed st
    return (st.tm, st.published ++ last)
  else
    let st ← tm.nodes.toList.foldlM (restorationAt ig) start
    return (st.tm, st.published)

def handleLinkStateNotification (handler : LinkStateHandler) (tm : TMIgraph)
    (c : LinkStateNotification) : Except TmFault (TMIgraph × List TmPublication) := do
  let affectedNode ← c.affectedNode
  let bidirectional := c.netType ≠ 0
  let remove := c.lsnType = removeLink
  let (tm, update) ← tm.updateGraph ig affectedNode c.requestPublisher bidirectional remove
  if update then refreshTables ig handler c affectedNode tm else return (tm, [])

end TMIgraph

end Blackadder
