/-
**The IP namespace of a NAP.**

The CID of an IP packet has a routing prefix, the first one from the end of the table that matches,
and the destination. The table is sorted by masked addresses, as they are in memory: with
contiguous netmasks a longer prefix comes later in either order of the bytes.

The key of a CID is a number modulo 2 ^ 32. CIDs with the same number share their state.
-/

import Blackadder.OrderedMap

namespace Blackadder

open List OrderedMap

/-! ### Routing prefixes -/

inductive ByteOrder
  | big
  | little

def ByteOrder.load : ByteOrder → BitVec 32 → BitVec 32
  | .big, w => w
  | .little, w =>
    w.extractLsb' 0 8 ++ w.extractLsb' 8 8 ++ w.extractLsb' 16 8 ++ w.extractLsb' 24 8

def netmask (order : ByteOrder) (cidr : Fin 33) : BitVec 32 :=
  order.load (BitVec.allOnes 32 <<< (32 - cidr.val))

structure RoutingPrefix where
  networkAddress : BitVec 32
  cidr : Fin 33
deriving DecidableEq

namespace RoutingPrefix

variable (order : ByteOrder) (p : RoutingPrefix)

def uint : BitVec 32 := p.networkAddress &&& netmask order p.cidr

def Matches (a : BitVec 32) : Prop := a &&& netmask order p.cidr = p.uint order

instance (a : BitVec 32) : Decidable (p.Matches order a) := inferInstanceAs (Decidable (_ = _))

end RoutingPrefix

variable {order : ByteOrder} {p q : RoutingPrefix} {a : BitVec 32} {k : ℕ}
  {m : OrderedMap ℕ RoutingPrefix}

/-- The routing prefixes; of those with the same masked address the first one is kept. -/
def routingPrefixes (order : ByteOrder) (l : List RoutingPrefix) : OrderedMap ℕ RoutingPrefix :=
  l.foldl (fun m p => m.insert (p.uint order).toNat p) ∅

/-- `_routingPrefix`: the loop runs from the end of the table. -/
def routingPrefix (order : ByteOrder) (m : OrderedMap ℕ RoutingPrefix) (a : BitVec 32) :
    Option RoutingPrefix :=
  (m.entries.reverse.find? fun e => e.2.Matches order a).map Prod.snd

theorem netmask_and {n n' : Fin 33} (h : n ≤ n') :
    netmask order n &&& netmask order n' = netmask order n := by
  revert n n'
  cases order <;> decide +kernel

theorem uint_le_of_matches (hp : p.Matches order a) (hq : q.Matches order a) (h : p.cidr ≤ q.cidr) :
    (p.uint order).toNat ≤ (q.uint order).toNat := by
  rw [← hp, ← hq, ← netmask_and h, BitVec.and_comm (netmask order p.cidr), ← BitVec.and_assoc]
  exact Nat.and_le_left

theorem uint_of_get {l : List RoutingPrefix} (h : (routingPrefixes order l).get k = some p) :
    k = (p.uint order).toNat := by
  refine foldlRecOn (motive := fun m : OrderedMap ℕ RoutingPrefix => ∀ k p, m.get k = some p →
    k = (p.uint order).toNat) l _ (by simp) (fun m hm q _ k p hget => ?_) k p h
  rw [get_insert] at hget
  split at hget
  case isTrue hk =>
    subst hk
    cases hq : m.get (q.uint order).toNat with
    | none =>
      rw [hq] at hget
      cases hget
      rfl
    | some p' =>
      rw [hq] at hget
      cases hget
      exact hm _ _ hq
  · exact hm k p hget

/-- **The prefix that is found is the longest one that matches**, if one matches. -/
theorem routingPrefix_longest (order : ByteOrder) (l : List RoutingPrefix) (a : BitVec 32) :
    let m := routingPrefixes order l
    (routingPrefix order m a = none ↔ ∀ k p, m.get k = some p → ¬ p.Matches order a) ∧
    ∀ p, routingPrefix order m a = some p → (∃ k, m.get k = some p) ∧ p.Matches order a ∧
      ∀ k q, m.get k = some q → q.Matches order a → q.cidr ≤ p.cidr := by
  intro m
  constructor
  · simp [routingPrefix, mem_entries_iff]
  · intro p hp
    obtain ⟨⟨k, p⟩, hfind, rfl⟩ := Option.map_eq_some_iff.1 hp
    have hget : m.get k = some p := mem_entries_iff.1 (mem_reverse.1 (mem_of_find?_eq_some hfind))
    have hmatch : p.Matches order a := by simpa using find?_some hfind
    refine ⟨⟨k, hget⟩, hmatch, fun k' q hget' hmat' => Fin.not_lt.1 fun hlt => ?_⟩
    -- the longer prefix has the greater key, and is met first
    have hle := uint_le_of_matches hmatch hmat' (Fin.le_of_lt hlt)
    rw [← uint_of_get hget, ← uint_of_get hget'] at hle
    obtain heq | hlt' := hle.eq_or_lt
    · subst heq
      cases hget.symm.trans hget'
      exact Fin.lt_irrefl _ hlt
    · exact absurd (le_of_find_reverse hfind (mem_entries_iff.2 hget')
        (decide_eq_true hmat')) (not_le_of_gt hlt')

/-! ### Content ids -/

structure Cid where
  routingPrefix : BitVec 32
  address : BitVec 32
deriving DecidableEq

def padded (n : ℕ) : List Char :=
  List.replicate (16 - (Nat.toDigits 10 n).length) '0' ++ Nat.toDigits 10 n

/-- `_hashIcnId`, for the string of the CID; `NAMESPACE_IP` is zero. -/
def Cid.uint (c : Cid) : BitVec 32 :=
  (padded 0 ++ padded c.routingPrefix.toNat ++ padded c.address.toNat).foldl
    (fun h ch => h * 31 + BitVec.ofNat 32 ch.toNat) 0

def Cid.key (c : Cid) : ℕ := c.uint.toNat

structure IpPacket where
  destination : Cid
  bytes : List UInt8
deriving DecidableEq

/-- The forwarding states, the buffered packets, and what was published under which CID. -/
structure Ip where
  icnIds : OrderedMap ℕ Bool
  packetBuffer : OrderedMap ℕ IpPacket
  published : List (Cid × IpPacket)

namespace Ip

variable (s : Ip)

def handle (c : Cid) (bytes : List UInt8) : Ip :=
  match s.icnIds.get c.key with
  | none =>
    { s with
      icnIds := s.icnIds.set c.key false
      packetBuffer := s.packetBuffer.set c.key ⟨c, bytes⟩ }
  | some false => { s with packetBuffer := s.packetBuffer.set c.key ⟨c, bytes⟩ }
  | some true => { s with published := s.published ++ [(c, ⟨c, bytes⟩)] }

def forwarding (c : Cid) (state : Bool) : Ip :=
  { s with icnIds := s.icnIds.modify c.key fun _ => state }

def publishFromBuffer (c : Cid) : Ip :=
  match s.packetBuffer.get c.key with
  | none => s
  | some packet =>
    { s with
      packetBuffer := s.packetBuffer.erase c.key
      published := s.published ++ [(c, packet)] }

inductive Action
  | handle (c : Cid) (bytes : List UInt8)
  | forwarding (c : Cid) (state : Bool)
  | publishFromBuffer (c : Cid)

def Action.cid : Action → Cid
  | .handle c _ => c
  | .forwarding c _ => c
  | .publishFromBuffer c => c

def step : Action → Ip
  | .handle c bytes => s.handle c bytes
  | .forwarding c state => s.forwarding c state
  | .publishFromBuffer c => s.publishFromBuffer c

def init (icnIds : OrderedMap ℕ Bool) : Ip := ⟨icnIds, ∅, []⟩

def view (c : Cid) : Option Bool × Option IpPacket :=
  (s.icnIds.get c.key, s.packetBuffer.get c.key)

variable {s} {c : Cid} {S : Set Cid} {x : Action}

theorem view_step (h : c.key ≠ x.cid.key) : (s.step x).view c = s.view c := by
  cases x with
  | handle c' bytes =>
    change c.key ≠ c'.key at h
    rw [step, handle]
    split
    · simp [view, get_set, if_neg h]
    · simp [view, get_set, if_neg h]
    · rfl
  | forwarding c' state =>
    change c.key ≠ c'.key at h
    simp [step, forwarding, view, get_modify, if_neg h]
  | publishFromBuffer c' =>
    change c.key ≠ c'.key at h
    rw [step, publishFromBuffer]
    split
    · rfl
    · simp [view, get_erase, if_neg h]

structure Right (S : Set Cid) (s : Ip) : Prop where
  buffered : ∀ k p, s.packetBuffer.get k = some p → p.destination ∈ S ∧ p.destination.key = k
  published : ∀ y ∈ s.published, y.2.destination = y.1

theorem Right.step (hinj : Set.InjOn Cid.key S) (h : s.Right S) (hx : x.cid ∈ S) :
    (s.step x).Right S := by
  cases x with
  | handle c bytes =>
    have hset : ∀ k p, (s.packetBuffer.set c.key ⟨c, bytes⟩).get k = some p →
        p.destination ∈ S ∧ p.destination.key = k := by
      intro k p hget
      rw [get_set] at hget
      split at hget
      case isTrue hk =>
        cases hget
        exact ⟨hx, hk.symm⟩
      · exact h.buffered k p hget
    rw [step, handle]
    split
    · exact ⟨hset, h.published⟩
    · exact ⟨hset, h.published⟩
    · refine ⟨h.buffered, fun y hy => ?_⟩
      obtain hy | hy := mem_append.1 hy
      · exact h.published y hy
      · rw [mem_singleton.1 hy]
  | forwarding c state => exact ⟨h.buffered, h.published⟩
  | publishFromBuffer c =>
    rw [step, publishFromBuffer]
    split
    case h_1 => exact h
    case h_2 p hp =>
      refine ⟨fun k q hq => ?_, fun y hy => ?_⟩
      · rw [get_erase] at hq
        split at hq
        · cases hq
        · exact h.buffered k q hq
      · obtain hy | hy := mem_append.1 hy
        · exact h.published y hy
        · rw [mem_singleton.1 hy]
          obtain ⟨hmem, hkey⟩ := h.buffered _ p hp
          exact hinj hmem hx hkey

/-- **CIDs do not interfere** exactly when their numbers are different: operations leave other CIDs
alone, and packets are published under the right CID. -/
theorem isolated_iff (S : Set Cid) :
    (∀ icnIds, ∀ actions : List Action, (∀ x ∈ actions, x.cid ∈ S) →
      let s := actions.foldl step (init icnIds)
      (∀ y ∈ s.published, y.2.destination = y.1) ∧
      ∀ x : Action, x.cid ∈ S → ∀ c ∈ S, c ≠ x.cid → (s.step x).view c = s.view c) ↔
    Set.InjOn Cid.key S := by
  constructor
  · intro hall c hc c' hc' hkey
    by_contra hne
    -- the packet for `c` replaces the one for `c'`
    have hview := (hall ∅ [.handle c' []] (by simpa [Action.cid] using hc')).2 (.handle c []) hc
      c' hc' (Ne.symm hne)
    simp [step, handle, init, view, hkey, get_set] at hview
    exact hne hview
  · intro hinj icnIds actions hS
    have hright : (actions.foldl step (init icnIds)).Right S :=
      foldlRecOn (motive := Right S) actions step ⟨by simp [init], by simp [init]⟩
        fun s hs x hx => hs.step hinj (hS x hx)
    refine ⟨hright.published, fun x hx c hc hne => view_step fun hkey => hne (hinj hc hx hkey)⟩

/-- Behind the default route are 218.187.196.4 and 7.119.115.6, with the first byte last in a word:
the packet for the second is published under the CID of the first. -/
theorem not_isolated : let c : Cid := ⟨0, 80002010⟩
    let c' : Cid := ⟨0, 108230407⟩
    c.key = c'.key ∧ (List.foldl step (init ∅) [.handle c [1], .handle c' [2],
      .publishFromBuffer c]).published = [(c, ⟨c', [2]⟩)] := by
  decide +kernel

end Ip

end Blackadder
