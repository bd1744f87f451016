/-
**Identifiers, strategies and return codes of the platform.**

The lengths and codes of `lib/blackadder_enums.hpp`. An information identifier is the list of its
fragments of `PURSUIT_ID_LEN` bytes, since requests carry the number of fragments; `substring` is
`take` and `drop`.
-/

import Mathlib.Data.Vector.Basic

namespace Blackadder

/-! ### Lengths -/

def pursuitIDLen : ℕ := 8

def nodeIDLen : ℕ := 8

def fidLen : ℕ := 32

/-! ### Identifiers -/

abbrev Fragment := List.Vector UInt8 pursuitIDLen

/-- An information identifier: a string of whole fragments. -/
abbrev Id := List Fragment

instance : LawfulBEq Id := inferInstance

abbrev NodeID := List.Vector UInt8 nodeIDLen

/-- A forwarding identifier, as the bytes of its bit vector. -/
abbrev FID := List.Vector UInt8 fidLen

/-- `ID.substring(ID.length() - PURSUIT_ID_LEN, PURSUIT_ID_LEN)`. -/
def lastFragment (k : Id) : Id := k.drop (k.length - 1)

def rootFragment (k : Id) : Id := k.take 1

@[simp] theorem lastFragment_append (j : Id) (a : Fragment) : lastFragment (j ++ [a]) = [a] := by
  simp [lastFragment]

theorem rootFragment_append {j : Id} (hj : j ≠ []) (l : Id) :
    rootFragment (j ++ l) = rootFragment j := by
  obtain ⟨b, j, rfl⟩ := List.exists_cons_of_ne_nil hj
  rfl

def Fragment.ofByte (b : UInt8) : Fragment := ⟨[0, 0, 0, 0, 0, 0, 0, b], rfl⟩

def NodeID.ofByte (b : UInt8) : NodeID := ⟨[0, 0, 0, 0, 0, 0, 0, b], rfl⟩

/-! ### Codes -/

/-- A dissemination strategy; requests carry it as one byte. -/
abbrev Strategy := UInt8

def linkLocal : Strategy := 1

def domainLocal : Strategy := 2

def implicitRendezvous : Strategy := 3

def broadcastIF : Strategy := 4

def nodeLocal : Strategy := 5

/-- `RvReturnCodes`: what a request handler of the rendezvous element returns. -/
inductive RvReturnCode
  | success
  | wrongIDs
  | strategyMismatch
  | existsAlready
  | fatherDoesNotExist
  | infoItemWithSameID
  | scopeDoesNotExist
  | scopeWithSameID
  | infoDoesNotExist
  | doesNotExist
  | unknownRequestType
deriving DecidableEq, Repr

/-- The type byte of a request to the rendezvous element. -/
inductive RequestType
  | publishScope
  | publishInfo
  | unpublishScope
  | unpublishInfo
  | subscribeScope
  | subscribeInfo
  | unsubscribeScope
  | unsubscribeInfo
  | other (type : UInt8)
deriving DecidableEq, Repr

inductive ScopeEvent
  | scopePublished
  | scopeUnpublished
deriving DecidableEq, Repr

def ScopeEvent.code : ScopeEvent → UInt8
  | scopePublished => 102
  | scopeUnpublished => 103

def publishData : UInt8 := 8

def publishDataISub : UInt8 := 9

def removeLink : UInt8 := 15

def disconnected : UInt8 := 16

def reconnected : UInt8 := 17

def connected : UInt8 := 18

def updateRVFID : UInt8 := 55

def updateTMFID : UInt8 := 56

def updateDelivery : UInt8 := 57

def discoverFailure : UInt8 := 58

def startPublish : UInt8 := 100

def stopPublish : UInt8 := 101

def publishedData : UInt8 := 104

def matchPubSubs : UInt8 := 105

def updateFID : UInt8 := 107

def publishedDataISub : UInt8 := 109

def matchPubISubs : UInt8 := 110

def updateFIDISub : UInt8 := 112

/-! ### Configuration -/

def ipRootScope : Id := [.ofByte 0]

def httpRootScope : Id := [.ofByte 1]

/-- `known_rootscopes`: the root scopes of the *-over-ICN abstractions. -/
def knownRootscopes : List Id := [ipRootScope, httpRootScope]

theorem not_mem_knownRootscopes {k : Id} (hk : 1 < k.length) : k ∉ knownRootscopes := by
  have hlen : ∀ r ∈ knownRootscopes, r.length = 1 := by decide
  intro hmem
  rw [hlen k hmem] at hk
  exact absurd hk (by simp)

/-- The global configuration, and the iteration order of hash tables: `begin` is any element of a
set of strings. -/
structure GlobalConf where
  nodeID : NodeID
  tmFID : FID
  iLID : FID
  /-- The first element of a set of strings in the iteration order of its hash table. -/
  begin : List Id → Option Id
  begin_mem : ∀ l k, begin l = some k → k ∈ l
  begin_ne_none : ∀ l, l ≠ [] → begin l ≠ none

def GlobalConf.inListOrder (nodeID : NodeID) (tmFID iLID : FID) : GlobalConf where
  nodeID := nodeID
  tmFID := tmFID
  iLID := iLID
  begin := List.head?
  begin_mem := fun _ _ h => List.mem_of_head? h
  begin_ne_none := fun _ hl h => hl (List.head?_eq_none_iff.1 h)

end Blackadder
