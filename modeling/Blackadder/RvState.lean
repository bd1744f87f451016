/-
**The information graph of the rendezvous element.**

`src/localrv.hh` keeps `Scope` and `InformationItem` objects that point to each other, two hash
tables from identifiers to them, and a `RemoteHost` per node. The heap has one map per field; a
pointer is a number that is never used twice, and `delete` clears the fields. Objects are written
once for either `Kind`, hosts for either `Role`. A null pointer, the first element of an empty
table and an exhausted stack are faults.
-/

import Blackadder.Enums
import Blackadder.ListSet
import Blackadder.Outcome

namespace Blackadder

/-! ### Objects and packets -/

inductive Kind
  | scope
  | item
deriving DecidableEq, Repr

inductive Role
  | pub
  | sub
deriving DecidableEq, Repr

@[ext] structure Obj where
  kind : Kind
  ptr : ℕ
deriving DecidableEq, Repr

abbrev Obj.scope (p : ℕ) : Obj := ⟨Kind.scope, p⟩

abbrev Obj.item (p : ℕ) : Obj := ⟨Kind.item, p⟩

inductive Fault
  | nullPointer
  | emptyTable
  | stackOverflow
deriving DecidableEq, Repr

inductive Packet
  | rendezvousRequest (pub : ℕ) (strategy : Strategy) (publishers subscribers : ListSet NodeID)
    (ids : ListSet Id) (updateOnly : Bool)
  | unicastRequest (pub : ℕ) (strategy : Strategy) (publisher : NodeID)
    (subscribers : ListSet NodeID) (ids : ListSet Id) (updateOnly : Bool)
  | localPublisher (pub : ℕ) (ids : ListSet Id) (fid : Bool) (updateOnly : Bool)
  | scopeRequest (type : ScopeEvent) (ids : ListSet Id) (subscribers : ListSet NodeID)
    (strategy : Strategy)
  | localSubscriber (type : ScopeEvent) (ids : ListSet Id)
deriving DecidableEq

/-! ### The heap -/

structure State where
  /-- `scopeIndex` and `pubIndex`. -/
  index : Kind → Id → Option ℕ
  strategy : Obj → Strategy
  isRoot : ℕ → Bool
  ids : Obj → ListSet Id
  pair : Role → Obj → Id → ListSet NodeID
  fatherScopes : Obj → ListSet ℕ
  /-- `childrenScopes` and `informationitems` of a scope. -/
  children : Kind → ℕ → ListSet ℕ
  /-- `publishedScopes`, `publishedInformationItems` and the like of a remote host. -/
  own : Role → Kind → NodeID → ListSet Id
  pubSubIndex : ListSet NodeID
  next : Kind → ℕ
  out : List Packet

namespace State

def initial (gc : GlobalConf) : State where
  index := fun _ _ => none
  strategy := fun _ => 0
  isRoot := fun _ => false
  ids := fun _ => ∅
  pair := fun _ _ _ => ∅
  fatherScopes := fun _ => ∅
  children := fun _ _ => ∅
  own := fun _ _ _ => ∅
  pubSubIndex := (∅ : ListSet NodeID).insert gc.nodeID
  next := fun _ => 0
  out := []

section
variable (st : State)

abbrev scopeIndex : Id → Option ℕ := st.index .scope

abbrev pubIndex : Id → Option ℕ := st.index .item

abbrev childrenScopes : ℕ → ListSet ℕ := st.children .scope

abbrev informationitems : ℕ → ListSet ℕ := st.children .item

/-! ### Writing single fields -/

@[simps] def setIndex (o : Obj) (k : Id) : State :=
  { st with
    index := fun κ k' => if κ = o.kind ∧ k' = k then some o.ptr else st.index κ k' }

@[simps] def newPair (o : Obj) (k : Id) : State :=
  { st with
    ids := fun o' => if o' = o then (st.ids o).insert k else st.ids o'
    pair := fun r o' k' => if o' = o ∧ k' = k then ∅ else st.pair r o' k' }

@[simps] def insertHost (r : Role) (o : Obj) (k : Id) (h : NodeID) : State :=
  { st with
    pair := fun r' o' k' =>
      if r' = r ∧ o' = o ∧ k' = k then (st.pair r o k).insert h else st.pair r' o' k' }

@[simps] def insertOwn (r : Role) (κ : Kind) (h : NodeID) (k : Id) : State :=
  { st with
    own := fun r' κ' h' =>
      if r' = r ∧ κ' = κ ∧ h' = h then (st.own r κ h).insert k else st.own r' κ' h' }

@[simps] def withdraw (r : Role) (o : Obj) (k : Id) (h : NodeID) : State :=
  { st with
    pair := fun r' o' k' =>
      if r' = r ∧ o' = o ∧ k' = k then (st.pair r o k).erase h else st.pair r' o' k'
    own := fun r' κ' h' =>
      if r' = r ∧ κ' = o.kind ∧ h' = h then (st.own r o.kind h).erase k else st.own r' κ' h' }

@[simps] def link (o : Obj) (f : ℕ) : State :=
  { st with
    fatherScopes := fun o' => if o' = o then (st.fatherScopes o).insert f else st.fatherScopes o'
    children := fun κ f' =>
      if κ = o.kind ∧ f' = f then (st.children κ f).insert o.ptr else st.children κ f' }

@[simps] def alloc (κ : Kind) (strategy : Strategy) (root : Bool) : State :=
  { st with
    strategy := fun o => if o = ⟨κ, st.next κ⟩ then strategy else st.strategy o
    isRoot := fun p => if κ = .scope ∧ p = st.next κ then root else st.isRoot p
    next := fun κ' => if κ' = κ then st.next κ + 1 else st.next κ' }

@[simps] def emit (p : Packet) : State := { st with out := st.out ++ [p] }

@[simps] def getRemoteHost (h : NodeID) : State :=
  { st with pubSubIndex := st.pubSubIndex.insert h }

/-! ### Constructors and destructors -/

def newScope (strategy : Strategy) : Option ℕ → ℕ × State
  | none => (st.next .scope, st.alloc .scope strategy true)
  | some f =>
    (st.next .scope, (st.alloc .scope strategy false).link (.scope (st.next .scope)) f)

def newItem (strategy : Strategy) (f : ℕ) : ℕ × State :=
  (st.next .item, (st.alloc .item strategy false).link (.item (st.next .item)) f)

/-- Erase the object from `f` and its identifiers from the index. A scope with children is not
deleted. -/
@[simps] def delete (o : Obj) (f : Option ℕ) : State :=
  { st with
    children := fun κ f' =>
      if κ = o.kind ∧ f = some f' then (st.children κ f').erase o.ptr else st.children κ f'
    index := fun κ k => if κ = o.kind ∧ k ∈ st.ids o then none else st.index κ k
    ids := fun o' => if o' = o then ∅ else st.ids o'
    pair := fun r o' k => if o' = o then ∅ else st.pair r o' k
    fatherScopes := fun o' => if o' = o then ∅ else st.fatherScopes o' }

/-- Unlink the object from its father `f` and erase the identifiers it has through it. -/
@[simps] def deleteBranch (o : Obj) (f : ℕ) (suffixID : Id) : State :=
  { st with
    children := fun κ f' =>
      if κ = o.kind ∧ f' = f then (st.children κ f).erase o.ptr else st.children κ f'
    fatherScopes := fun o' => if o' = o then (st.fatherScopes o).erase f else st.fatherScopes o'
    ids := fun o' =>
      if o' = o then
        (st.ids o).filter fun k => decide (k ∉ (st.ids (.scope f)).toList.map (· ++ suffixID))
      else st.ids o'
    pair := fun r o' k =>
      if o' = o ∧ k ∈ (st.ids (.scope f)).toList.map (· ++ suffixID) then ∅ else st.pair r o' k
    index := fun κ k =>
      if κ = o.kind ∧ k ∈ (st.ids (.scope f)).toList.map (· ++ suffixID) then none
      else st.index κ k }

/-! ### Publishers and subscribers -/

/-- `updatePublishers` and `updateSubscribers`: false when the host was there;
`Scope::updateSubscribers` is always true. -/
def updateHosts (r : Role) (o : Obj) (fullID : Id) (h : NodeID) : Bool × State :=
  if fullID ∈ st.ids o then
    if h ∈ st.pair r o fullID then (decide (r = .sub ∧ o.kind = .scope), st)
    else (true, st.insertHost r o fullID h)
  else (true, (st.newPair o fullID).insertHost r o fullID h)

abbrev updatePublishers : Obj → Id → NodeID → Bool × State := st.updateHosts .pub

abbrev updateSubscribers : Obj → Id → NodeID → Bool × State := st.updateHosts .sub

def getHosts (r : Role) (o : Obj) : ListSet NodeID :=
  ListSet.biUnion (st.ids o).toList (st.pair r o)

def getPublishers (o : Obj) : ListSet NodeID := st.getHosts .pub o

def getSubscribers (o : Obj) : ListSet NodeID := st.getHosts .sub o

def interested (i : ℕ) : ListSet NodeID :=
  (st.getSubscribers (.item i)).union
    (ListSet.biUnion (st.fatherScopes (.item i)).toList fun f => st.getSubscribers (.scope f))

def getRootScopes (i : ℕ) : List Id := (st.ids (.item i)).toList.map rootFragment

/-! ### Identifiers -/

def suffixID (o : Obj) : Except Fault Id :=
  match (st.ids o).toList with
  | [] => .error .emptyTable
  | k :: _ => .ok (lastFragment k)

def addID (o : Obj) (k : Id) : State :=
  if k ∈ st.ids o then st else (st.setIndex o k).newPair o k

def updateIDs (o : Obj) (suffixID : Id) : State :=
  (st.fatherScopes o).toList.foldl
    (fun st f => (st.ids (.scope f)).toList.foldl (fun st fid => st.addID o (fid ++ suffixID)) st)
    st

end

/-- `Scope::recursivelyUpdateIDs`, without a visited set; `fuel` is the depth of the stack. -/
def recursivelyUpdateIDs : ℕ → State → ℕ → Id → Except Fault State
  | 0, _, _, _ => .error .stackOverflow
  | fuel + 1, st, sc, suffixID => do
    let st := st.updateIDs (.scope sc) suffixID
    let st ← (st.childrenScopes sc).toList.foldlM
      (fun st c => do
        let tempSuffix ← st.suffixID (.scope c)
        recursivelyUpdateIDs fuel st c tempSuffix) st
    (st.informationitems sc).toList.foldlM (fun st i => do
        let tempSuffix ← st.suffixID (.item i)
        return st.updateIDs (.item i) tempSuffix) st

def getPair (st : State) (r : Role) (o : Obj) (k : Id) : Except Fault (ListSet NodeID) :=
  if k ∈ st.ids o then .ok (st.pair r o k) else .error .nullPointer

def anyPubSub (st : State) (o : Obj) (suffixID : Id) : List Id → Except Fault Bool
  | [] => .ok false
  | fid :: l => do
    let first ← st.getPair .pub o (fid ++ suffixID)
    let second ← st.getPair .sub o (fid ++ suffixID)
    if !first.isEmpty || !second.isEmpty then return true else st.anyPubSub o suffixID l

/-- `checkForOtherPubSub` of both classes; only a root scope is checked without a father. -/
def checkForOtherPubSub (st : State) (o : Obj) : Option ℕ → Except Fault Bool
  | some f => do
    let suffixID ← st.suffixID o
    st.anyPubSub o suffixID (st.ids (.scope f)).toList
  | none =>
    .ok ((st.ids o).toList.any fun k =>
      !(st.pair .pub o k).isEmpty || !(st.pair .sub o k).isEmpty)

end State

end Blackadder
