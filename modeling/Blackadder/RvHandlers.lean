/-
**The request handlers of the rendezvous element.**

`src/localrv.cc`, with the checks in the order of the source. What is repeated in several handlers
is written once. A loop over a set that its body may shrink runs over the elements at its start.
-/

import Blackadder.RvState

namespace Blackadder

abbrev Result := Except Fault (RvReturnCode × State)

/-! ### Packets -/

def knownScope (gc : GlobalConf) (roots : List Id) : Except Fault Bool :=
  match gc.begin roots with
  | none => .error .emptyTable
  | some r => .ok (decide (r ∈ knownRootscopes))

def rendezvous (gc : GlobalConf) (st : State) (pub : ℕ) (subscribers : ListSet NodeID)
    (updateOnly : Bool) : Except Fault State :=
  let publishers := st.getPublishers (.item pub)
  let ids := st.ids (.item pub)
  let strategy := st.strategy (.item pub)
  if publishers.isEmpty then .ok st
  else if strategy = nodeLocal then
    .ok (st.emit (.localPublisher pub ids (!subscribers.isEmpty) updateOnly))
  else if strategy = domainLocal then do
    if ← knownScope gc (st.getRootScopes pub) then
      return publishers.toList.foldl
        (fun st p => st.emit (.unicastRequest pub strategy p subscribers ids updateOnly)) st
    else return st.emit (.rendezvousRequest pub strategy publishers subscribers ids updateOnly)
  else .ok st

def notifySubscribers (gc : GlobalConf) (st : State) (type : ScopeEvent) (ids : ListSet Id)
    (strategy : Strategy) (subscribers : ListSet NodeID) : State :=
  if strategy = nodeLocal then
    if gc.nodeID ∈ subscribers then st.emit (.localSubscriber type ids) else st
  else if subscribers.isEmpty then st
  else st.emit (.scopeRequest type ids subscribers strategy)

/-! ### Blocks shared by the handlers -/

/-- Add a host to an object and the identifier to the set of the host, and go on; or answer
`EXISTS`. -/
def addHost (st : State) (r : Role) (o : Obj) (fullID : Id) (h : NodeID)
    (andThen : State → Except Fault State) : Result :=
  match st.updateHosts r o fullID h with
  | (true, st) => do return (.success, ← andThen (st.insertOwn r o.kind h fullID))
  | (false, st) => .ok (.existsAlready, st)

def rendezvousAgain (gc : GlobalConf) (st : State) (roots : List Id) (pub : ℕ)
    (updateOnly : Bool) : Except Fault State := do
  if ← knownScope gc roots then return st
  else rendezvous gc st pub (st.interested pub) updateOnly

def rendezvousItems (gc : GlobalConf) (st : State) (sc : ℕ) (updateOnly : Bool) :
    Except Fault State :=
  (st.informationitems sc).toList.foldlM
    (fun st pub => rendezvous gc st pub (st.interested pub) updateOnly) st

def dropBranch (st : State) (o : Obj) (f : ℕ) : Except Fault State := do
  return st.deleteBranch o f (← st.suffixID o)

section
variable (gc : GlobalConf) (st : State)

/-- Delete a scope, or its branch under `father`, when nothing is left of it there, and notify the
father's subscribers. -/
def reclaimScope (sc : ℕ) (father : Option ℕ) (fullID : Id) : Except Fault State :=
  -- do not try to delete if there are subscopes or information items under the scope
  if (st.childrenScopes sc).isEmpty ∧ (st.informationitems sc).isEmpty then do
    if ← st.checkForOtherPubSub (.scope sc) father then return st
    else match father with
      | none => return st.delete (.scope sc) none
      | some f =>
        let ids := st.ids (.scope sc)
        let strategy := st.strategy (.scope sc)
        let subscribers := st.getSubscribers (.scope f)
        if (st.fatherScopes (.scope sc)).size = 1 then
          let st := notifySubscribers gc st .scopeUnpublished ids strategy subscribers
          return st.delete (.scope sc) (some f)
        else
          -- the identifiers of all other branches are not notified
          let st := notifySubscribers gc st .scopeUnpublished
            (ids.filter fun k => decide (k = fullID)) strategy subscribers
          dropBranch st (.scope sc) f
  else .ok st

/-! ### Unpublishing information -/

def unpublishInfo (publisher : NodeID) (ID prefixID : Id)
    (strategy : Strategy) (updateOnly : Bool) : Result :=
  let fullID := prefixID ++ ID
  match st.pubIndex fullID with
  | none => .ok (.infoDoesNotExist, st)
  | some pub =>
    match st.scopeIndex prefixID with
    | none => .error .nullPointer
    | some f =>
      if st.strategy (.scope f) = strategy then do
        let roots := st.getRootScopes pub
        if publisher ∈ (← st.getPair .pub (.item pub) fullID) then
          let st := st.withdraw .pub (.item pub) fullID publisher
          let other ← st.checkForOtherPubSub (.item pub) (some f)
          if (st.fatherScopes (.item pub)).size = 1 then
            if other then
              return (.success, ← rendezvousAgain gc st roots pub updateOnly)
            else return (.success, st.delete (.item pub) (some f))
          else
            let st ← if other then pure st else dropBranch st (.item pub) f
            return (.success, ← rendezvousAgain gc st roots pub updateOnly)
        else return (.doesNotExist, st)
      else .ok (.strategyMismatch, st)

def oneShot (pub : ℕ) (ID prefixID : Id) (strategy : Strategy)
    (updateOnly : Bool) : Except Fault State :=
  (st.getPublishers (.item pub)).toList.foldlM (fun st p => do
      let (_, st) ← unpublishInfo gc st p ID prefixID strategy updateOnly
      return st) st

/-- The same after a subscription to a scope, with the last fragment of each item. -/
def oneShotUnder (pub : ℕ) (prefixID : Id) (strategy : Strategy)
    (updateOnly : Bool) : Except Fault State :=
  (st.getPublishers (.item pub)).toList.foldlM (fun st p => do
      let suffixID ← st.suffixID (.item pub)
      let (_, st) ← unpublishInfo gc st p suffixID prefixID strategy updateOnly
      return st) st

def matchPublication (pub : ℕ) (subscribers : ListSet NodeID)
    (ID prefixID : Id) (strategy : Strategy) (updateOnly : Bool) : Except Fault State := do
  let known ← knownScope gc (st.getRootScopes pub)
  let st ← rendezvous gc st pub subscribers updateOnly
  if known ∧ ¬ subscribers.isEmpty then oneShot gc st pub ID prefixID strategy updateOnly
  else return st

end

/-! ### Publishing scopes -/

def publishRootScope (st : State) (publisher : NodeID) (ID : Id) (strategy : Strategy) : Result :=
  match st.scopeIndex ID with
  | none =>
    let (sc, st) := st.newScope strategy none
    let st := st.setIndex (.scope sc) ID
    addHost st .pub (.scope sc) ID publisher .ok
  | some sc =>
    if st.strategy (.scope sc) = strategy then
      addHost st .pub (.scope sc) ID publisher .ok
    else .ok (.strategyMismatch, st)

section
variable (gc : GlobalConf)

section
variable (fuel : ℕ) (st : State) (publisher : NodeID) (ID prefixID : Id) (strategy : Strategy)

def publishInnerScope : Result :=
  let fullID := prefixID ++ ID
  if (st.pubIndex fullID).isSome then .ok (.infoItemWithSameID, st)
  else match st.scopeIndex prefixID with
    | none => .ok (.fatherDoesNotExist, st)
    | some f =>
      match st.scopeIndex fullID with
      | none =>
        if st.strategy (.scope f) = strategy then do
          let (sc, st) := st.newScope strategy (some f)
          let st ← st.recursivelyUpdateIDs fuel sc (lastFragment fullID)
          addHost st .pub (.scope sc) fullID publisher fun st =>
            .ok (notifySubscribers gc st .scopePublished (st.ids (.scope sc))
              (st.strategy (.scope sc)) (st.getSubscribers (.scope f)))
        else .ok (.strategyMismatch, st)
      | some sc =>
        if st.strategy (.scope sc) = strategy then
          addHost st .pub (.scope sc) fullID publisher .ok
        else .ok (.strategyMismatch, st)

def republishInnerScope : Result :=
  let suffixID := lastFragment ID
  let fullID := prefixID ++ suffixID
  let existingPrefixID := ID.take (ID.length - 1)
  if (st.pubIndex fullID).isSome then .ok (.infoItemWithSameID, st)
  else match st.scopeIndex prefixID with
    | none => .ok (.fatherDoesNotExist, st)
    | some f =>
      match st.scopeIndex ID with
      | none => .ok (.scopeDoesNotExist, st)
      | some sc =>
        match st.scopeIndex fullID with
        | none =>
          if st.strategy (.scope f) = strategy then do
            let st := st.link (.scope sc) f
            let st ← st.recursivelyUpdateIDs fuel sc suffixID
            addHost st .pub (.scope sc) fullID publisher fun st =>
              .ok (notifySubscribers gc st .scopePublished
                ((st.ids (.scope sc)).erase (existingPrefixID ++ suffixID))
                (st.strategy (.scope sc)) (st.getSubscribers (.scope f)))
          else .ok (.strategyMismatch, st)
        | some equivalent =>
          if st.strategy (.scope equivalent) = strategy then
            addHost st .pub (.scope equivalent) fullID publisher .ok
          else .ok (.strategyMismatch, st)

def publishScope : Result :=
  if prefixID.length = 0 ∧ ID.length = 1 then publishRootScope st publisher ID strategy
  else if 0 < prefixID.length ∧ ID.length = 1 then
    publishInnerScope gc fuel st publisher ID prefixID strategy
  else if 0 < prefixID.length ∧ 1 < ID.length then
    republishInnerScope gc fuel st publisher ID prefixID strategy
  else .ok (.wrongIDs, st)

end

/-! ### Publishing information -/

section
variable (st : State) (publisher : NodeID) (ID prefixID : Id) (strategy : Strategy)
  (updateOnly : Bool)

def advertiseInfo : Result :=
  let fullID := prefixID ++ ID
  match st.scopeIndex prefixID with
  | none => .ok (.fatherDoesNotExist, st)
  | some f =>
    match st.pubIndex fullID with
    | none =>
      if (st.scopeIndex fullID).isSome then .ok (.scopeWithSameID, st)
      else if st.strategy (.scope f) = strategy then
        let (pub, st) := st.newItem (st.strategy (.scope f)) f
        let st := st.updateIDs (.item pub) (lastFragment fullID)
        addHost st .pub (.item pub) fullID publisher fun st =>
          matchPublication gc st pub
            ((st.getSubscribers (.item pub)).union (st.getSubscribers (.scope f)))
            ID prefixID strategy updateOnly
      else .ok (.strategyMismatch, st)
    | some pub =>
      if st.strategy (.scope f) = strategy then
        addHost st .pub (.item pub) fullID publisher fun st =>
          matchPublication gc st pub (st.interested pub) ID prefixID strategy updateOnly
      else .ok (.strategyMismatch, st)

def readvertiseInfo : Result :=
  let suffixID := lastFragment ID
  let fullID := prefixID ++ suffixID
  if (st.scopeIndex fullID).isSome then .ok (.scopeWithSameID, st)
  else match st.scopeIndex prefixID with
    | none => .ok (.fatherDoesNotExist, st)
    | some f =>
      match st.pubIndex ID with
      | none => .ok (.infoDoesNotExist, st)
      | some pub =>
        match st.pubIndex fullID with
        | none =>
          if st.strategy (.scope f) = strategy then
            let st := st.link (.item pub) f
            let st := st.updateIDs (.item pub) suffixID
            addHost st .pub (.item pub) fullID publisher fun st =>
              matchPublication gc st pub (st.interested pub) suffixID prefixID strategy updateOnly
          else .ok (.strategyMismatch, st)
        | some equivalent =>
          if st.strategy (.scope f) = strategy then
            addHost st .pub (.item equivalent) fullID publisher fun st =>
              matchPublication gc st equivalent (st.interested equivalent) suffixID prefixID
                strategy updateOnly
          else .ok (.strategyMismatch, st)

def publishInfo : Result :=
  if 0 < prefixID.length ∧ ID.length = 1 then
    advertiseInfo gc st publisher ID prefixID strategy updateOnly
  else if 0 < prefixID.length ∧ 1 < ID.length then
    readvertiseInfo gc st publisher ID prefixID strategy updateOnly
  else .ok (.wrongIDs, st)

end

/-! ### Unpublishing scopes -/

/-- Try to unpublish all items under a scope, for all its identifiers. -/
def unpublishItems (st : State) (publisher : NodeID) (sc : ℕ)
    (strategy : Strategy) (updateOnly : Bool) : Except Fault State :=
  (st.informationitems sc).toList.foldlM (fun st pub => do
      let pubSuffixID ← st.suffixID (.item pub)
      (st.ids (.scope sc)).toList.foldlM (fun st scPrefixID => do
          let (_, st) ← unpublishInfo gc st publisher pubSuffixID scPrefixID strategy updateOnly
          return st) st) st

/-- `LocalRV::unpublish_scope`. Root and inner scopes differ in the deletion only. -/
def unpublishScope (st : State) (publisher : NodeID) (ID prefixID : Id)
    (strategy : Strategy) (updateOnly : Bool) : Result :=
  let fullID := prefixID ++ ID
  match st.scopeIndex fullID with
  | none => .ok (.scopeDoesNotExist, st)
  | some sc =>
    if st.strategy (.scope sc) = strategy then do
      let father := st.scopeIndex prefixID
      let st ← unpublishItems gc st publisher sc strategy updateOnly
      if publisher ∈ (← st.getPair .pub (.scope sc) fullID) then
        let st := st.withdraw .pub (.scope sc) fullID publisher
        return (.success, ← reclaimScope gc st sc father fullID)
      else return (.doesNotExist, st)
    else .ok (.strategyMismatch, st)

/-! ### Subscribing -/

def notifySubscopes (st : State) (sc : ℕ) (subscriber : NodeID) : State :=
  (st.childrenScopes sc).toList.foldl
    (fun st c => notifySubscribers gc st .scopePublished (st.ids (.scope c))
      (st.strategy (.scope c)) ((∅ : ListSet NodeID).insert subscriber)) st

def subscribeRootScope (st : State) (subscriber : NodeID) (ID : Id)
    (strategy : Strategy) (updateOnly : Bool) : Result :=
  match st.scopeIndex ID with
  | none =>
    let (sc, st) := st.newScope strategy none
    let st := st.setIndex (.scope sc) ID
    addHost st .sub (.scope sc) ID subscriber .ok
  | some sc =>
    if st.strategy (.scope sc) = strategy then
      addHost st .sub (.scope sc) ID subscriber fun st =>
        let st := notifySubscopes gc st sc subscriber
        (st.informationitems sc).toList.foldlM (fun st pub => do
            let st ← rendezvous gc st pub (st.interested pub) updateOnly
            if ID ∈ knownRootscopes then oneShotUnder gc st pub ID strategy updateOnly
            else return st) st
    else .ok (.strategyMismatch, st)

/-- `LocalRV::subscribe_inner_scope`. The set of root scopes is not cleared between the items. -/
def subscribeInnerScope (fuel : ℕ) (st : State) (subscriber : NodeID)
    (ID prefixID : Id) (strategy : Strategy) (updateOnly : Bool) : Result :=
  let fullID := prefixID ++ ID
  if (st.pubIndex fullID).isSome then .ok (.infoItemWithSameID, st)
  else match st.scopeIndex prefixID with
    | none => .ok (.fatherDoesNotExist, st)
    | some f =>
      match st.scopeIndex fullID with
      | none =>
        if st.strategy (.scope f) = strategy then do
          let (sc, st) := st.newScope strategy (some f)
          let st ← st.recursivelyUpdateIDs fuel sc (lastFragment fullID)
          addHost st .sub (.scope sc) fullID subscriber fun st =>
            .ok (notifySubscribers gc st .scopePublished (st.ids (.scope sc))
              (st.strategy (.scope sc)) (st.getSubscribers (.scope f)))
        else .ok (.strategyMismatch, st)
      | some sc =>
        if st.strategy (.scope sc) = strategy then
          addHost st .sub (.scope sc) fullID subscriber fun st => do
            let st := notifySubscopes gc st sc subscriber
            let (_, st) ← (st.informationitems sc).toList.foldlM
              (fun (acc : List Id × State) pub => do
                let (roots, st) := acc
                let subscribers := st.interested pub
                let roots := roots ++ st.getRootScopes pub
                let known ← knownScope gc roots
                let st ← rendezvous gc st pub subscribers updateOnly
                if known then
                  return (roots, ← oneShotUnder gc st pub fullID strategy updateOnly)
                else return (roots, st)) ([], st)
            return st
        else .ok (.strategyMismatch, st)

def subscribeScope (fuel : ℕ) (st : State) (subscriber : NodeID)
    (ID prefixID : Id) (strategy : Strategy) (updateOnly : Bool) : Result :=
  if prefixID.length = 0 ∧ ID.length = 1 then
    subscribeRootScope gc st subscriber ID strategy updateOnly
  else if 0 < prefixID.length ∧ ID.length = 1 then
    subscribeInnerScope gc fuel st subscriber ID prefixID strategy updateOnly
  else .ok (.wrongIDs, st)

section
variable (st : State) (subscriber : NodeID) (ID prefixID : Id) (strategy : Strategy)
  (updateOnly : Bool)

def subscribeInfo : Result :=
  if 0 < prefixID.length ∧ ID.length = 1 then
    let fullID := prefixID ++ ID
    match st.scopeIndex prefixID with
    | none => .ok (.fatherDoesNotExist, st)
    | some f =>
      match st.pubIndex fullID with
      | none =>
        if (st.scopeIndex fullID).isSome then .ok (.scopeWithSameID, st)
        else if st.strategy (.scope f) = strategy then
          let (pub, st) := st.newItem (st.strategy (.scope f)) f
          let st := st.updateIDs (.item pub) (lastFragment fullID)
          addHost st .sub (.item pub) fullID subscriber .ok
        else .ok (.strategyMismatch, st)
      | some pub =>
        if st.strategy (.scope f) = strategy then
          addHost st .sub (.item pub) fullID subscriber fun st => do
            let known ← knownScope gc (st.getRootScopes pub)
            let st ← rendezvous gc st pub (st.interested pub) updateOnly
            if known then oneShot gc st pub ID prefixID strategy updateOnly
            else return st
        else .ok (.strategyMismatch, st)
  else .ok (.wrongIDs, st)

/-! ### Unsubscribing -/

/-- `LocalRV::unsubscribe_scope`. Whether the items are announced is decided on the first fragment.
-/
def unsubscribeScope : Result :=
  let fullID := prefixID ++ ID
  match st.scopeIndex fullID with
  | none => .ok (.scopeDoesNotExist, st)
  | some sc =>
    if st.strategy (.scope sc) = strategy then do
      let father := st.scopeIndex prefixID
      let rootScopeid := if father.isSome then rootFragment prefixID else fullID
      if subscriber ∈ (← st.getPair .sub (.scope sc) fullID) then
        let st := st.withdraw .sub (.scope sc) fullID subscriber
        let st ← if rootScopeid ∈ knownRootscopes then pure st
          else rendezvousItems gc st sc updateOnly
        return (.success, ← reclaimScope gc st sc father fullID)
      else return (.doesNotExist, st)
    else .ok (.strategyMismatch, st)

/-- `LocalRV::unsubscribe_info`. The rendezvous comes before the deletion. -/
def unsubscribeInfo : Result :=
  let fullID := prefixID ++ ID
  match st.pubIndex fullID with
  | none => .ok (.infoDoesNotExist, st)
  | some pub =>
    match st.scopeIndex prefixID with
    | none => .error .nullPointer
    | some f =>
      if st.strategy (.scope f) = strategy then do
        if subscriber ∈ (← st.getPair .sub (.item pub) fullID) then
          let st := st.withdraw .sub (.item pub) fullID subscriber
          let st ← rendezvousAgain gc st (st.getRootScopes pub) pub updateOnly
          let other ← st.checkForOtherPubSub (.item pub) (some f)
          if other then return (.success, st)
          else if (st.fatherScopes (.item pub)).size = 1 then
            return (.success, st.delete (.item pub) (some f))
          else return (.success, ← dropBranch st (.item pub) f)
        else return (.doesNotExist, st)
      else .ok (.strategyMismatch, st)

end

end

/-! ### Requests and runs -/

structure Request where
  nodeID : NodeID
  type : RequestType
  ID : Id
  prefixID : Id
  strategy : Strategy
deriving DecidableEq

def push (gc : GlobalConf) (fuel : ℕ) (r : Request) (st : State) : Result :=
  let st := st.getRemoteHost r.nodeID
  match r.type with
  | .publishScope => publishScope gc fuel st r.nodeID r.ID r.prefixID r.strategy
  | .publishInfo => publishInfo gc st r.nodeID r.ID r.prefixID r.strategy false
  | .unpublishScope => unpublishScope gc st r.nodeID r.ID r.prefixID r.strategy false
  | .unpublishInfo => unpublishInfo gc st r.nodeID r.ID r.prefixID r.strategy false
  | .subscribeScope => subscribeScope gc fuel st r.nodeID r.ID r.prefixID r.strategy false
  | .subscribeInfo => subscribeInfo gc st r.nodeID r.ID r.prefixID r.strategy false
  | .unsubscribeScope => unsubscribeScope gc st r.nodeID r.ID r.prefixID r.strategy true
  | .unsubscribeInfo => unsubscribeInfo gc st r.nodeID r.ID r.prefixID r.strategy true
  | .other _ => .ok (.unknownRequestType, st)

def RequestType.oneFragment : RequestType → Bool
  | .publishScope | .publishInfo | .other _ => false
  | _ => true

/-- Clients name more than one fragment only in publications. -/
def Request.Shaped (r : Request) : Prop := r.type.oneFragment = true → r.ID.length = 1

instance (r : Request) : Decidable r.Shaped :=
  inferInstanceAs (Decidable (r.type.oneFragment = true → r.ID.length = 1))

/-- Every request completes and meets `P` in its state: the earlier states, newest first, and the
last one. -/
inductive RunIf (gc : GlobalConf) (P : Request → State → Prop) : List State → State → Prop
  | initial : RunIf gc P [] (State.initial gc)
  | step {past : List State} {st st' : State} {r : Request} {fuel : ℕ} {code : RvReturnCode} :
    RunIf gc P past st → r.Shaped → P r st → push gc fuel r st = .ok (code, st') →
    RunIf gc P (st :: past) st'

def ReachableIf (gc : GlobalConf) (P : Request → State → Prop) (st : State) : Prop :=
  ∃ past, RunIf gc P past st

abbrev Reachable (gc : GlobalConf) : State → Prop := ReachableIf gc fun _ _ => True

end Blackadder
