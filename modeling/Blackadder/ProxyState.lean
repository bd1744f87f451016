/-
**The tables of the local proxy.**

`src/localproxy.hh` stores a registration twice, in the entry of an identifier and in the set of a
host. Publications and subscriptions are written once, for either `Role`; a subscription does not
use the states of `hosts` and `fid`. A pointer to a `LocalHost` is an address. `new` returns an
address that is not in use; tables may keep one after `delete`, and are traversed in any order.
What else a handler does is a list of actions.
-/

import Blackadder.RvState
import Blackadder.Table

namespace Blackadder

/-! ### Bit vectors -/

inductive ProxyFault
  | nullPointer
  | outOfBounds
  | assertion
deriving DecidableEq, Repr

/-- `BABitvector()` has no bits, all others those of a forwarding identifier. -/
inductive BABitvector
  | empty
  | bits (v : FID)
deriving DecidableEq

namespace BABitvector

def zeros : BABitvector := bits (List.Vector.replicate fidLen 0)

/-- `zero()`, and a comparison with `NULL`. -/
def zero : BABitvector → Bool
  | empty => true
  | bits v => v.toList.all fun b => b == 0

/-- `(affected_LID & FID) == affected_LID`; both must have the same size. -/
def contains (lid : FID) : BABitvector → Except ProxyFault Bool
  | empty => .error .assertion
  | bits v => .ok (decide (List.Vector.map₂ (fun a b => a &&& b) lid v = lid))

/-- `FID | other`. The operator reads as many words of the second vector as the first has: of a
vector that was emptied those that are left in its memory. -/
def or (fid left : FID) : BABitvector → FID
  | empty => List.Vector.map₂ (fun a b => a ||| b) fid left
  | bits v => List.Vector.map₂ (fun a b => a ||| b) fid v

end BABitvector

/-! ### Entries -/

abbrev HostRef := ℕ

inductive HostType
  | localProcess
  | clickElement
deriving DecidableEq, Repr

structure LocalHost where
  type : HostType
  id : ℕ
  /-- `activePublications` and `activeSubscriptions`. -/
  own : Role → ListSet Id

inductive PublisherState
  | startPublish
  | stopPublish
  | rePublish
  | pausePublish
  | resumePublish
deriving DecidableEq, Repr

/-- `ActivePublication` and `ActiveSubscription`. -/
structure ActiveEntry where
  fullID : Id
  strategy : Strategy
  isScope : Bool
  hosts : Table HostRef PublisherState
  allKnownIDs : List Id
  /-- `FID_to_subscribers`. -/
  fid : BABitvector
  rvFID : BABitvector

inductive NodePublisherState
  | startPublishISub
  | stopPublishISub
deriving DecidableEq, Repr

structure ActiveNode where
  publishers : Table HostRef NodePublisherState
  /-- `FID_to_node`. -/
  fid : BABitvector
  /-- The words that are left of `FID_to_node` when it is empty. -/
  left : FID

/-- `FID_to_node = BABitvector()` clears two words of four bytes, and keeps the memory of the others.
-/
def ActiveNode.emptied (an : ActiveNode) : ActiveNode :=
  match an.fid with
  | .empty => an
  | .bits v => { an with
      fid := .empty
      left := List.Vector.ofFn fun i => if i.val < 8 then 0 else v.get i }

@[simp] theorem ActiveNode.publishers_emptied (an : ActiveNode) :
    an.emptied.publishers = an.publishers := by
  unfold emptied
  split <;> rfl

/-! ### Configuration and state -/

/-- What the proxy reads of the global configuration, the order of its tables, and the addresses of
`new`. -/
structure ProxyConf extends GlobalConf where
  rv : Bool
  defaultRV : FID
  hasTMFID : Bool
  hostOrder : Traversal HostRef
  idOrder : Traversal Id
  nodeOrder : Traversal NodeID
  malloc : ListSet HostRef → HostRef
  malloc_fresh : ∀ s, malloc s ∉ s

def managementFragment (b : UInt8) : Fragment := ⟨List.replicate 7 255 ++ [b], rfl⟩

def NodeID.fragment (n : NodeID) : Fragment := n

namespace ProxyConf

variable (conf : ProxyConf)

def notificationIID : Id := [managementFragment 253, conf.nodeID.fragment]

def nodeTMScope : Id := [managementFragment 254, conf.nodeID.fragment]

def nodeTMScopeUC : Id := [managementFragment 254, managementFragment 253, conf.nodeID.fragment]

def inListOrder (gc : GlobalConf) (rv : Bool) (defaultRV : FID) : ProxyConf where
  toGlobalConf := gc
  rv := rv
  defaultRV := defaultRV
  hasTMFID := false
  hostOrder := .inListOrder
  idOrder := .inListOrder
  nodeOrder := .inListOrder
  malloc := fun s => s.toList.foldr max 0 + 1
  malloc_fresh := fun s hmem => by
    have hle : ∀ (l : List ℕ) (n : ℕ), n ∈ l → n ≤ l.foldr max 0 := by
      intro l
      induction l with
      | nil => simp
      | cons m l ih =>
        intro n hn
        rcases List.mem_cons.1 hn with rfl | hn
        · exact le_max_left _ _
        · exact (ih n hn).trans (le_max_right _ _)
    have hcontra := hle s.toList _ hmem
    omega

end ProxyConf

def pathMgmtIID : Id := [managementFragment 249, managementFragment 249]

/-- The state of the local proxy, and what it changes of the global configuration. -/
structure Proxy where
  localPubSubIndex : Table ℕ HostRef
  hosts : Table HostRef LocalHost
  /-- `activePublicationIndex` and `activeSubscriptionIndex`. -/
  index : Role → Table Id ActiveEntry
  activeNodeIndex : Table NodeID ActiveNode
  /-- `defaultRV_dl`. -/
  defaultRV : BABitvector
  tmFID : BABitvector
  status : UInt8

/-! ### What the element does -/

inductive PacketRef
  | entered
  | copy (n : ℕ)
deriving DecidableEq, Repr

/-- A request to the rendezvous element, as it is written into a packet. -/
structure RvRequest where
  type : RequestType
  idLength : UInt8
  ID : Id
  prefixIDLength : UInt8
  prefixID : Id
  strategy : Strategy
deriving DecidableEq

/-- Output 1 is the rendezvous element of the node, output 2 the forwarder. -/
inductive Destination
  | localRV
  | network (fid : BABitvector)
deriving DecidableEq

inductive LocalEvent
  | scope (type : ScopeEvent)
  | publisher (state : PublisherState)
  | updatePublish
  | nodePublisher (state : NodePublisherState)
deriving DecidableEq

inductive ManagementReply
  | nodeIDIs (nodeID : NodeID)
  | rvTMFIDIs (fid : BABitvector)
deriving DecidableEq

inductive Action
  | read (p : PacketRef)
  | clone (n : ℕ)
  | kill (p : PacketRef)
  | deliver (p : PacketRef) (host : HostRef) (ID : Id) (type : UInt8)
  | forward (p : PacketRef) (IDs : List Id) (fid : BABitvector)
  | send (IDs : List Id) (type : UInt8) (fid : BABitvector)
  | request (p : Option PacketRef) (dest : Destination) (r : RvRequest)
  | implicitRequest (nodeIDs : List NodeID)
  | notify (event : LocalEvent) (host : HostRef) (ID : Id)
  | reply (answer : ManagementReply) (host : HostRef)
deriving DecidableEq

/-! ### Reading and writing the tables -/

namespace Proxy

def initial (conf : ProxyConf) : Proxy where
  localPubSubIndex := ∅
  hosts := ∅
  index := fun _ => ∅
  activeNodeIndex := ∅
  defaultRV := .bits conf.defaultRV
  tmFID := if conf.hasTMFID then .bits conf.tmFID else .empty
  status := connected

section
variable (st : Proxy)

abbrev activePublicationIndex : Table Id ActiveEntry := st.index .pub

abbrev activeSubscriptionIndex : Table Id ActiveEntry := st.index .sub

def own (r : Role) (h : HostRef) : ListSet Id :=
  ((st.hosts.get h).map fun host => host.own r).getD ∅

def Registered (r : Role) (h : HostRef) (f : Id) : Prop :=
  ∃ a, (st.index r).get f = some a ∧ h ∈ a.hosts

def setEntry (r : Role) (f : Id) (a : ActiveEntry) : Proxy :=
  { st with index := fun r' => if r' = r then (st.index r).set f a else st.index r' }

def eraseEntry (r : Role) (f : Id) : Proxy :=
  { st with index := fun r' => if r' = r then (st.index r).erase f else st.index r' }

def modifyOwn (r : Role) (h : HostRef) (g : ListSet Id → ListSet Id) : Proxy :=
  { st with
    hosts := st.hosts.modify h fun host =>
      { host with own := fun r' => if r' = r then g (host.own r) else host.own r' } }

def insertOwn (r : Role) (h : HostRef) (f : Id) : Proxy :=
  st.modifyOwn r h fun s => s.insert f

def eraseOwn (r : Role) (h : HostRef) (f : Id) : Proxy :=
  st.modifyOwn r h fun s => s.erase f

end

end Proxy

end Blackadder
