/-
**The handlers of the local proxy.**

`src/localproxy.cc`, with the checks in the order of the source. A handler returns the new state
and its actions, or a fault. A loop over a set that its body erases from runs over the elements at
its start; tables are traversed in the order of the configuration.
-/

import Blackadder.ProxyInput
import Blackadder.Sweep

namespace Blackadder

abbrev Handled := Except ProxyFault (Proxy × List Action)

/-! ### Requests to the rendezvous element -/

def recordedLocally (strategy : Strategy) : Bool :=
  decide (strategy = implicitRendezvous ∨ strategy = linkLocal ∨ strategy = broadcastIF)

/-- An empty forwarding identifier means the rendezvous element of the node. -/
def rvDestination (conf : ProxyConf) (rvFID : BABitvector) : Destination :=
  if rvFID.zero ∨ conf.rv then .localRV else .network rvFID

def publishReqToRV (conf : ProxyConf) (r : RvRequest) (rvFID : BABitvector) : Action :=
  .request (some .entered) (rvDestination conf rvFID) r

/-- `createAndSendPacketToRV` in the loops: the last fragment, and the number of the others as
`unsigned char`. -/
def createAndSendPacketToRV (conf : ProxyConf) (type : RequestType) (fullID : Id)
    (rvFID : BABitvector) (strategy : Strategy) : Action :=
  .request none (rvDestination conf rvFID)
    ⟨type, 1, lastFragment fullID, UInt8.ofNat (fullID.length + 255), fullID.dropLast, strategy⟩

namespace Proxy

/-! ### Hosts -/

def getLocalHost (conf : ProxyConf) (st : Proxy) (type : HostType) (id : ℕ) : HostRef × Proxy :=
  match st.localPubSubIndex.get id with
  | some h => (h, st)
  | none =>
    let h := conf.malloc st.hosts.keys
    (h, { st with
      localPubSubIndex := st.localPubSubIndex.set id h
      hosts := st.hosts.set h ⟨type, id, fun _ => ∅⟩ })

section
variable (st : Proxy)

def deleteHost (h : HostRef) : Proxy :=
  match st.hosts.get h with
  | none => st
  | some host =>
    { st with
      localPubSubIndex := st.localPubSubIndex.erase host.id
      hosts := st.hosts.erase h }

/-! ### Blocks shared by the handlers -/

def newEntry (r : Role) (h : HostRef) (fullID : Id) (strategy : Strategy)
    (rvFID : BABitvector) (isScope : Bool) : Proxy :=
  (st.setEntry r fullID ⟨fullID, strategy, isScope, (∅ : Table HostRef PublisherState).findInsert h
    .stopPublish, [], .empty, rvFID⟩).insertOwn r h fullID

def joinEntry (r : Role) (h : HostRef) (fullID : Id) (a : ActiveEntry) : Proxy :=
  (st.setEntry r fullID { a with hosts := a.hosts.findInsert h .stopPublish }).insertOwn r h fullID

/-- A host leaves the entry `a` of `f`; without a host left it is erased under `k`, and the answer
says so. -/
def leaveEntry (r : Role) (h : HostRef) (f k : Id) (a : ActiveEntry) : Bool × Proxy :=
  if (a.hosts.erase h).size = 0 then (true, (st.eraseOwn r h f).eraseEntry r k)
  else (false, (st.eraseOwn r h f).setEntry r f { a with hosts := a.hosts.erase h })

def modifyEntry (r : Role) (f : Id) (g : ActiveEntry → ActiveEntry) : Proxy :=
  { st with index := fun r' => if r' = r then (st.index r).modify f g else st.index r' }

/-! ### Registrations -/

/-- `storeActivePublication`. The answer says whether the request is forwarded. -/
def storeActivePublication (publisher : HostRef) (fullID : Id) (strategy : Strategy)
    (rvFID : BABitvector) (isScope : Bool) : Bool × Proxy :=
  if strategy = nodeLocal ∨ strategy = domainLocal then
    match st.activePublicationIndex.get fullID with
    | none => (true, st.newEntry .pub publisher fullID strategy rvFID isScope)
    | some ap =>
      -- the forwarding identifier has been invalidated
      if ap.hosts.get publisher = some .rePublish ∨ ap.hosts.get publisher = some .resumePublish then
        (true, st)
      else if ap.strategy = strategy then (false, st.joinEntry .pub publisher fullID ap)
      else (false, st)
  else (false, st)

def removeActivePublication (publisher : HostRef) (fullID : Id) (strategy : Strategy) :
    Bool × Proxy :=
  if strategy = nodeLocal ∨ strategy = domainLocal then
    match st.activePublicationIndex.get fullID with
    | none => (false, st)
    | some ap =>
      if ap.strategy = strategy then st.leaveEntry .pub publisher fullID fullID ap
      else (false, st)
  else (false, st)

def storeActiveSubscription (subscriber : HostRef) (fullID : Id) (strategy : Strategy)
    (rvFID : BABitvector) (isScope : Bool) : Bool × Proxy :=
  match st.activeSubscriptionIndex.get fullID with
  | none =>
    (!recordedLocally strategy, st.newEntry .sub subscriber fullID strategy rvFID isScope)
  | some as =>
    if as.strategy = strategy then (true, st.joinEntry .sub subscriber fullID as)
    else (false, st)

def removeActiveSubscription (subscriber : HostRef) (fullID : Id) (strategy : Strategy) :
    Bool × Proxy :=
  match st.activeSubscriptionIndex.get fullID with
  | none => (false, st)
  | some as =>
    if as.strategy = strategy then
      let (empty, st) := st.leaveEntry .sub subscriber fullID fullID as
      (empty && !recordedLocally strategy, st)
    else (false, st)

end

def requestedID (ID prefixID : Id) : Id :=
  if ID.length = 1 then prefixID ++ ID else prefixID ++ lastFragment ID

def handleLocalRequest (st : Proxy) (type : RequestType) (host : HostRef) (ID prefixID : Id)
    (strategy : Strategy) (rvFID : BABitvector) : Bool × Proxy :=
  let fullID := requestedID ID prefixID
  match type with
  | .publishScope => st.storeActivePublication host fullID strategy rvFID true
  | .publishInfo => st.storeActivePublication host fullID strategy rvFID false
  | .unpublishScope => st.removeActivePublication host fullID strategy
  | .unpublishInfo => st.removeActivePublication host fullID strategy
  | .subscribeScope => st.storeActiveSubscription host fullID strategy rvFID true
  | .subscribeInfo => st.storeActiveSubscription host fullID strategy rvFID false
  | .unsubscribeScope => st.removeActiveSubscription host fullID strategy
  | .unsubscribeInfo => st.removeActiveSubscription host fullID strategy
  | .other type =>
    -- all implicit subscriptions are taken to be for information items
    if type = publishDataISub then st.storeActiveSubscription host fullID strategy rvFID false
    else (false, st)

/-! ### Disconnecting -/

def leaveAndTell (conf : ProxyConf) (r : Role) (type : RequestType) (tell : Strategy → Bool)
    (h : HostRef) (st : Proxy) (f : Id) (a : ActiveEntry) : Proxy × List Action :=
  match st.leaveEntry r h f a.fullID a with
  | (true, st) =>
    (st, if tell a.strategy then
      [createAndSendPacketToRV conf type a.fullID a.rvFID a.strategy] else [])
  | (false, st) => (st, [])

/-- A host leaves an item. If it was not in `STOP_PUBLISH`, the first other publisher takes over.
-/
def leaveItemPublication (conf : ProxyConf) (h : HostRef) (st : Proxy) (f : Id) (ap : ActiveEntry) :
    Proxy × List Action :=
  match st.leaveEntry .pub h f ap.fullID ap with
  | (true, st) =>
    (st, [createAndSendPacketToRV conf .unpublishInfo ap.fullID ap.rvFID ap.strategy])
  | (false, st) =>
    if ap.hosts.get h = some .stopPublish then (st, [])
    else match conf.hostOrder.first (ap.hosts.erase h).keys.toList with
      | none => (st, [])
      | some h' =>
        (st.setEntry .pub f { ap with hosts := (ap.hosts.erase h).set h' .startPublish },
          [.notify (.publisher .startPublish) h' ap.fullID])

def deleteItems (conf : ProxyConf) (r : Role)
    (leave : HostRef → Proxy → Id → ActiveEntry → Proxy × List Action) (st : Proxy) (h : HostRef) :
    Handled :=
  Except.sweep (fun st f => match (st.index r).get f with
      | none => .error .nullPointer
      | some a => .ok (if a.isScope then (st, []) else leave h st f a))
    (conf.idOrder.visit (st.own r h).toList) st

def maxLevel (st : Proxy) (r : Role) (l : List Id) : Except ProxyFault ℕ :=
  l.foldlM (fun level f => match (st.index r).get f with
      | none => .error .nullPointer
      | some a => .ok (if a.isScope ∧ level < f.length then f.length else level))
    0

section
variable (conf : ProxyConf)

def deleteLevel (r : Role)
    (leave : HostRef → Proxy → Id → ActiveEntry → Proxy × List Action) (h : HostRef) (st : Proxy)
    (i : ℕ) : Handled :=
  Except.sweep (fun st f =>
      if f.length = i then match (st.index r).get f with
        | none => .error .nullPointer
        | some a => .ok (if a.isScope then leave h st f a else (st, []))
      else .ok (st, []))
    (conf.idOrder.visit (st.own r h).toList) st

/-- The loop over the scopes of a host, the longest identifiers first. -/
def deleteScopes (r : Role)
    (leave : HostRef → Proxy → Id → ActiveEntry → Proxy × List Action) (st : Proxy) (h : HostRef) :
    Handled := do
  let level ← st.maxLevel r (conf.idOrder.visit (st.own r h).toList)
  Except.sweep (deleteLevel conf r leave h) (List.range' 1 level).reverse st

def deleteAllActiveInformationItemPublications : Proxy → HostRef → Handled :=
  deleteItems conf .pub (leaveItemPublication conf)

def deleteAllActiveInformationItemSubscriptions : Proxy → HostRef → Handled :=
  deleteItems conf .sub
    (leaveAndTell conf .sub .unsubscribeInfo fun strategy => !recordedLocally strategy)

def deleteAllActiveScopePublications : Proxy → HostRef → Handled :=
  deleteScopes conf .pub (leaveAndTell conf .pub .unpublishScope fun _ => true)

def deleteAllActiveScopeSubscriptions : Proxy → HostRef → Handled :=
  deleteScopes conf .sub
    (leaveAndTell conf .sub .unsubscribeScope fun strategy => !recordedLocally strategy)

def disconnect (st : Proxy) (h : HostRef) : Handled := do
  let r₁ ← deleteAllActiveInformationItemPublications conf st h
  let r₂ ← deleteAllActiveInformationItemSubscriptions conf r₁.1 h
  let r₃ ← deleteAllActiveScopePublications conf r₂.1 h
  let r₄ ← deleteAllActiveScopeSubscriptions conf r₃.1 h
  return (r₄.1.deleteHost h, r₁.2 ++ r₂.2 ++ r₃.2 ++ r₄.2)

end

/-! ### Who is interested -/

def findActiveSubscriptions (st : Proxy) (ID : Id) : List HostRef :=
  match st.activeSubscriptionIndex.get ID.dropLast with
  | none => []
  | some as => if as.isScope then as.hosts.keys.toList else []

def addSubscribers (st : Proxy) (knownID f : Id) (found : Table HostRef Id) : Table HostRef Id :=
  match st.activeSubscriptionIndex.get f with
  | none => found
  | some as => as.hosts.keys.toList.foldl (fun found h => found.set h knownID) found

/-- The hosts that subscribe to an identifier or to what is above it, each with the last such
identifier. -/
def findLocalSubscribers (st : Proxy) (IDs : List Id) : Table HostRef Id :=
  IDs.foldl (fun found knownID => st.addSubscribers knownID knownID.dropLast
      (st.addSubscribers knownID knownID found)) ∅

def setNode (st : Proxy) (n : NodeID) (an : ActiveNode) : Proxy :=
  { st with activeNodeIndex := st.activeNodeIndex.set n an }

/-- `storeActiveNode`. The answer says whether the rendezvous element is asked for a path. -/
def storeActiveNode (st : Proxy) (isubscriberID : NodeID) (IDs : List Id) : Bool × Proxy :=
  match st.activeNodeIndex.get isubscriberID with
  | none =>
    (true, st.setNode isubscriberID ⟨(st.findLocalSubscribers IDs).keys.toList.foldl
        (fun publishers h => publishers.findInsert h .stopPublishISub) ∅, .zeros,
      List.Vector.replicate fidLen 0⟩)
  | some an => (an.fid.zero, st)

/-! ### Notifications -/

def assignFID (st : Proxy) (IDs : List Id) (fid : FID) : Proxy :=
  IDs.foldl (fun st ID => st.modifyEntry .pub ID fun ap =>
    { ap with allKnownIDs := IDs, fid := .bits fid }) st

def notifyFirstPublisher (conf : ProxyConf) (st : Proxy) (ID : Id) : Handled :=
  match st.activePublicationIndex.get ID with
  | none => .ok (st, [])
  | some ap => match conf.hostOrder.first ap.hosts.keys.toList with
    | none => .ok (st, [])
    | some h =>
      .ok (st.setEntry .pub ID { ap with hosts := ap.hosts.set h .startPublish },
        [.notify (.publisher .startPublish) h ID])

def updateFirstPublisher (conf : ProxyConf) (st : Proxy) (ID : Id) : List Action :=
  match st.activePublicationIndex.get ID with
  | none => []
  | some ap => match conf.hostOrder.first ap.hosts.keys.toList with
    | none => []
    | some h =>
      if ap.hosts.get h = some .startPublish then [.notify .updatePublish h ID] else []

def inState (conf : ProxyConf) (publishers : Table HostRef PublisherState) (s : PublisherState) :
    List HostRef :=
  (conf.hostOrder.visit publishers.keys.toList).filter fun h =>
    decide (publishers.get h = some s)

def replaceState (publishers : Table HostRef PublisherState) (s s' : PublisherState) :
    Table HostRef PublisherState :=
  publishers.mapValues fun _ state => if state = s then s' else state

def stopPublishers (conf : ProxyConf) (IDs : List Id) (st : Proxy) (ID : Id) : Handled :=
  match st.activePublicationIndex.get ID with
  | none => .ok (st, [])
  | some ap =>
    .ok (st.setEntry .pub ID { ap with
        allKnownIDs := IDs
        fid := .zeros
        hosts := replaceState ap.hosts .startPublish .stopPublish },
      (inState conf ap.hosts .startPublish).map fun h =>
        .notify (.publisher .stopPublish) h ID)

def updateNode (conf : ProxyConf) (st : Proxy) (isubscriber : NodeID × FID) : Handled :=
  match st.activeNodeIndex.get isubscriber.1 with
  | none => .ok (st, [])
  | some an =>
    let state : NodePublisherState :=
      if (BABitvector.bits isubscriber.2).zero then .stopPublishISub else .startPublishISub
    match conf.hostOrder.first an.publishers.keys.toList with
    | none => .ok (st.setNode isubscriber.1 { an with fid := .bits isubscriber.2 }, [])
    | some h =>
      .ok (st.setNode isubscriber.1 ⟨an.publishers.set h state, .bits isubscriber.2, an.left⟩,
        [.notify (.nodePublisher state) h [isubscriber.1.fragment]])

def notifyScopes (conf : ProxyConf) (st : Proxy) (type : ScopeEvent) (IDs : List Id) : List Action :=
  IDs.flatMap fun ID => (conf.hostOrder.visit (st.findActiveSubscriptions ID)).map fun h =>
    .notify (.scope type) h ID

def handleRVNotification (conf : ProxyConf) (st : Proxy) : Notification → Handled
  | .scopePublished IDs => .ok (st, st.notifyScopes conf .scopePublished IDs)
  | .scopeUnpublished IDs => .ok (st, st.notifyScopes conf .scopeUnpublished IDs)
  | .startPublish IDs fid => Except.sweep (notifyFirstPublisher conf) IDs (st.assignFID IDs fid)
  | .updateFID IDs fid =>
    let st := st.assignFID IDs fid
    .ok (st, IDs.flatMap (st.updateFirstPublisher conf))
  | .updateRVFID fid => .ok ({ st with defaultRV := .bits fid }, [])
  | .updateTMFID fid => .ok ({ st with tmFID := .bits fid }, [])
  | .stopPublish IDs => Except.sweep (stopPublishers conf IDs) IDs st
  | .updateFIDISub isubscribers => Except.sweep (updateNode conf) isubscribers st
  | .other _ => .ok (st, [])

/-- An item whose forwarding identifier uses the link loses it; its publishers have to publish
again. -/
def invalidate (lid : FID) (ap : ActiveEntry) : ActiveEntry :=
  if ap.isScope ∨ ap.fid.zero then ap
  else match BABitvector.contains lid ap.fid with
    | .ok true =>
      { ap with fid := .empty, hosts := replaceState ap.hosts .startPublish .rePublish }
    | _ => ap

def addAffected (lid : FID) (nodes : Table NodeID ActiveNode) (affected : ListSet NodeID)
    (n : NodeID) : Except ProxyFault (ListSet NodeID) :=
  match nodes.get n with
  | none => .ok affected
  | some an => do
    if ← BABitvector.contains lid an.fid then return affected.insert n else return affected

def processTMNotification (conf : ProxyConf) (st : Proxy) (lid : FID) : Handled := do
  let st := { st with index := fun r =>
    if r = .pub then st.activePublicationIndex.mapValues fun _ => invalidate lid else st.index r }
  let affected ← (conf.nodeOrder.visit st.activeNodeIndex.keys.toList).foldlM
    (addAffected lid st.activeNodeIndex) ∅
  return (st, [.read .entered, .kill .entered] ++
    if affected.size = 0 then [] else [.implicitRequest (conf.nodeOrder.visit affected.toList)])

def pause (ap : ActiveEntry) : ActiveEntry :=
  if ap.isScope then ap
  else
    { ap with
      fid := .empty
      hosts := ap.hosts.mapValues fun _ s => if s = .stopPublish then s else .pausePublish }

def resume (conf : ProxyConf) (st : Proxy) (f : Id) : Handled :=
  match st.activePublicationIndex.get f with
  | none => .ok (st, [])
  | some ap =>
    if ap.isScope then .ok (st, [])
    else match inState conf ap.hosts .pausePublish, ap.allKnownIDs with
      | [], _ => .ok (st, [])
      | _ :: _, [] => .error .outOfBounds
      | h :: l, ID :: _ =>
        .ok (st.setEntry .pub f
            { ap with hosts := replaceState ap.hosts .pausePublish .resumePublish },
          (h :: l).map fun h => .notify (.publisher .resumePublish) h ID)

def updateStates (conf : ProxyConf) (st : Proxy) (state : UInt8) : Handled :=
  if state = disconnected then
    .ok ({ st with
      defaultRV := .empty
      index := fun r =>
        if r = .pub then st.activePublicationIndex.mapValues fun _ => pause else st.index r
      activeNodeIndex := st.activeNodeIndex.mapValues fun _ => ActiveNode.emptied }, [])
  else if state = reconnected then do
    let r ← Except.sweep (resume conf)
      (conf.idOrder.visit st.activePublicationIndex.keys.toList) st
    return (r.1, r.2 ++ if st.activeNodeIndex.size = 0 then []
      else [.implicitRequest (conf.nodeOrder.visit st.activeNodeIndex.keys.toList)])
  else .ok (st, [])

/-! ### Publications of data -/

def deliverAll (type : UInt8) : ℕ → List (HostRef × Id) → List Action
  | _, [] => []
  | _, [x] => [.deliver .entered x.1 x.2 type]
  | n, x :: y :: l =>
    .clone n :: .deliver (.copy n) x.1 x.2 type :: deliverAll type (n + 1) (y :: l)

/-- `pushDataToRemoteSubscribers`: with a type the data is copied into a new packet and the old one
is killed. -/
def pushDataToRemoteSubscribers (p : PacketRef) (IDs : List Id) (type : Option UInt8)
    (fid : BABitvector) : List Action :=
  match type with
  | none => [.forward p IDs fid]
  | some type => [.read p, .kill p, .send IDs type fid]

def handleNetworkPublication (conf : ProxyConf) (st : Proxy) (IDs : List Id) (apiType : UInt8) :
    List Action :=
  let found := st.findLocalSubscribers IDs
  if found.size = 0 then [.kill .entered]
  else deliverAll apiType 0 ((conf.hostOrder.visit found.keys.toList).filterMap fun h =>
    (found.get h).map fun k => (h, k))

/-- The local subscribers other than the publisher, with the published identifier. -/
def otherSubscribers (conf : ProxyConf) (st : Proxy) (IDs : List Id) (host : HostRef) (ID : Id) :
    List (HostRef × Id) :=
  (conf.hostOrder.visit ((st.findLocalSubscribers IDs).erase host).keys.toList).map fun h => (h, ID)

/-- `handleUserPublication` without a forwarding identifier: that of the publication or of the one
above it is used. -/
def handleUserPublication (conf : ProxyConf) (st : Proxy) (ID : Id) (type : UInt8) (host : HostRef)
    (apiType : UInt8) : List Action :=
  let useFatherFID := (st.activePublicationIndex.get ID).isNone
  match st.activePublicationIndex.get (if useFatherFID then ID.dropLast else ID) with
  | none => [.kill .entered]
  | some ap =>
    let IDs := if useFatherFID then [ID] else ap.allKnownIDs
    if !ap.fid.zero then
      let remoteSubscribersExist := !ap.fid.zero
      let subscribers := st.otherSubscribers conf IDs host ID
      if subscribers.length = 0 ∧ !remoteSubscribersExist then [.kill .entered]
      else if subscribers.length = 0 then
        pushDataToRemoteSubscribers .entered IDs (some type) ap.fid
      else if !remoteSubscribersExist then deliverAll apiType 0 subscribers
      else .clone 0 :: pushDataToRemoteSubscribers (.copy 0) IDs (some type) ap.fid ++
        deliverAll apiType 1 subscribers
    else match ap.hosts.get host with
      | some .rePublish => [.notify (.publisher .rePublish) host ID]
      | some .pausePublish => [.notify (.publisher .pausePublish) host ID]
      | _ => [.kill .entered]

/-- The identifiers through the publication above it, and its own. -/
def augmentedIDs (st : Proxy) (ID : Id) : List Id :=
  (match st.activePublicationIndex.get ID.dropLast with
    | none => []
    | some ap => (ap.allKnownIDs.map (· ++ lastFragment ID)).filter fun k => decide (k ≠ ID)) ++ [ID]

/-- The remote part with local subscribers: no copy goes to the topology manager. -/
def sendCopy (st : Proxy) (IDs : List Id) (type : Option UInt8) (fid : FID) : List Action :=
  if !st.tmFID.zero ∧ BABitvector.bits fid = st.tmFID then []
  else .clone 0 :: pushDataToRemoteSubscribers (.copy 0) IDs type (.bits fid)

/-- `handleUserPublication` with a forwarding identifier; requests to the topology manager carry
their own type. -/
def handleUserPublicationTo (conf : ProxyConf) (st : Proxy) (ID : Id) (type : Option UInt8)
    (fid : FID) (host : HostRef) (apiType : UInt8) : List Action :=
  let IDs := st.augmentedIDs ID
  let subscribers := st.otherSubscribers conf IDs host ID
  if subscribers.length = 0 then pushDataToRemoteSubscribers .entered IDs type (.bits fid)
  else st.sendCopy IDs type fid ++ deliverAll apiType 1 subscribers

/-- `handleUserTMPublication`: local subscribers get nothing. -/
def handleUserTMPublication (conf : ProxyConf) (st : Proxy) (ID : Id) (type : UInt8) (fid : FID)
    (host : HostRef) (payload : List UInt8) : Handled := do
  let IDs := st.augmentedIDs ID
  let sent := if (st.otherSubscribers conf IDs host ID).length = 0 then
      pushDataToRemoteSubscribers .entered IDs (some type) (.bits fid)
    else st.sendCopy IDs (some type) fid
  let r ← st.processTMNotification conf (vectorAt fidLen payload 0)
  return (r.1, sent ++ r.2)

def addPath (nodes : Table NodeID ActiveNode) (fid : FID) (n : NodeID) : FID :=
  match nodes.get n with
  | none => fid
  | some an => an.fid.or fid an.left

section
variable (conf : ProxyConf) (st : Proxy)

/-- `handleUserMulticastRequest`. Without a publication the packet is killed twice. -/
def handleUserMulticastRequest (ID : Id) (type : UInt8)
    (isubscriberIDs : ListSet NodeID) : Handled :=
  let useFatherFID := (st.activePublicationIndex.get ID).isNone
  let key := if useFatherFID then ID.dropLast else ID
  match st.activePublicationIndex.get key with
  | none => .ok (st, [.kill .entered, .kill .entered])
  | some _ =>
    let st := st.modifyEntry .pub key fun ap => { ap with allKnownIDs := [ID] }
    let fid := (conf.nodeOrder.visit isubscriberIDs.toList).foldl (addPath st.activeNodeIndex)
      (List.Vector.replicate fidLen 0)
    .ok (st, pushDataToRemoteSubscribers .entered [ID] (some type) (.bits fid))

/-! ### Dispatch -/

def handleRequest (host : HostRef) (type : RequestType)
    (ID prefixID : WireId) (strategy : Strategy) : Handled :=
  let rvFID := if strategy = domainLocal then st.defaultRV else .zeros
  match st.handleLocalRequest type host ID prefixID strategy rvFID with
  | (true, st) =>
    .ok (st, [publishReqToRV conf ⟨type, UInt8.ofNat ID.val.length, ID,
      UInt8.ofNat prefixID.val.length, prefixID, strategy⟩ rvFID])
  | (false, st) => .ok (st, [.kill .entered])

def handlePublishData (host : HostRef) (ID : Id) (strategy : Strategy)
    (fid : FID) (payload : List UInt8) : Handled :=
  if strategy = implicitRendezvous then
    if ID = conf.notificationIID then do
      -- the rendezvous element published a notification
      let r ← st.handleRVNotification conf (readNotification payload)
      return (r.1, .read .entered :: r.2 ++ [.kill .entered])
    else if ID = conf.nodeTMScope ∨ ID = conf.nodeTMScopeUC then
      .ok (st, st.handleUserPublicationTo conf ID none fid host publishedData)
    else if ID = pathMgmtIID then
      st.handleUserTMPublication conf ID publishData fid host payload
    else .ok (st, st.handleUserPublicationTo conf ID (some publishData) fid host publishedData)
  else if strategy = linkLocal then
    .ok (st, st.handleUserPublicationTo conf ID (some publishData) fid host publishedData)
  else if strategy = broadcastIF then
    .ok (st, st.handleUserPublicationTo conf ID (some publishData) (List.Vector.replicate fidLen 255)
      host publishedData)
  else .ok (st, st.handleUserPublication conf ID publishData host publishedData)

/-- `PUBLISH_DATA_iSUB` of a host. The identifier is read off the packet after
`handleUserPublication`. -/
def handlePublishDataISub (host : HostRef) (ID : Id)
    (strategy : Strategy) (stale : List UInt8) : Handled :=
  if strategy = domainLocal then
    let actions := st.handleUserPublication conf ID publishDataISub host publishedDataISub
    let isubID := idAt stale 1 (byteAt stale 0).toNat
    let r := st.handleLocalRequest (.other publishDataISub) host isubID isubID.dropLast strategy
      st.defaultRV
    .ok (r.2, actions ++ [.read .entered])
  else .ok (st, [])

def handleLocalMessage (host : HostRef) : LocalMessage → Handled
  | .disconnect => do
    let r ← st.disconnect conf host
    return (r.1, r.2 ++ [.kill .entered])
  | .publishData ID strategy fid payload => st.handlePublishData conf host ID strategy fid payload
  | .publishDataISub ID strategy stale => st.handlePublishDataISub conf host ID strategy stale
  | .publishDataIMulticast ID _ nodeIDs => st.handleUserMulticastRequest conf ID publishData nodeIDs
  | .request type ID prefixID strategy => st.handleRequest conf host type ID prefixID strategy

def handleMappRequest (host : HostRef) : ManagementMessage → Handled
  | .getNodeID => .ok (st, [.reply (.nodeIDIs conf.nodeID) host, .kill .entered])
  | .getRVTMFID => .ok (st, [.reply (.rvTMFIDIs st.defaultRV) host, .kill .entered])
  | .setConnectionStatus status => do
    let r ← { st with status := status }.updateStates conf status
    return (r.1, r.2 ++ [.kill .entered])
  | .disconnect => do
    let r ← st.disconnect conf host
    return (r.1, r.2 ++ [.kill .entered])
  | .other _ => .ok (st, [.kill .entered])

def handleNetworkPacket (p : NetworkPacket) : Handled :=
  if p.type = publishData then
    if p.IDs = [conf.notificationIID] then do
      let r ← st.handleRVNotification conf (readNotification p.data)
      return (r.1, .read .entered :: r.2 ++ [.kill .entered])
    else if p.IDs = [pathMgmtIID] then st.processTMNotification conf (vectorAt fidLen p.data 0)
    else .ok (st, st.handleNetworkPublication conf p.IDs publishedData)
  else if p.type = publishDataISub then
    let nodeID := vectorAt nodeIDLen p.data 0
    let r := st.storeActiveNode nodeID p.IDs
    .ok (r.2, (if r.1 then [.implicitRequest [nodeID]] else []) ++
      r.2.handleNetworkPublication conf p.IDs publishedDataISub)
  else .ok (st, st.handleNetworkPublication conf p.IDs publishedData)

def dispatch : Input → Handled
  | .network packet => st.handleNetworkPacket conf (NetworkPacket.read packet)
  | .management descriptor m =>
    let r := st.getLocalHost conf .localProcess descriptor
    r.2.handleMappRequest conf r.1 m
  | .host type descriptor m =>
    let r := st.getLocalHost conf type descriptor
    r.2.handleLocalMessage conf r.1 m

/-- `LocalProxy::push`. The header of the packet is read first. -/
def push (input : Input) : Handled := do
  let r ← st.dispatch conf input
  return (r.1, .read .entered :: r.2)

end

/-! ### Runs -/

/-- Every input meets `P` in its state: the inputs, newest first, and the state. -/
inductive Run (conf : ProxyConf) (P : Proxy → Input → Prop) : List Input → Proxy → Prop
  | initial : Run conf P [] (Proxy.initial conf)
  | step {past : List Input} {st st' : Proxy} {input : Input} {actions : List Action} :
    Run conf P past st → P st input → st.push conf input = .ok (st', actions) →
    Run conf P (input :: past) st'

def ReachableIf (conf : ProxyConf) (P : Proxy → Input → Prop) (st : Proxy) : Prop :=
  ∃ past, Run conf P past st

abbrev Reachable (conf : ProxyConf) : Proxy → Prop := ReachableIf conf fun _ _ => True

end Proxy

end Blackadder
