/-
**The receive buffer of the lightweight transport protocol.**

`_icnPacketBuffer` holds fragments by rCID (`IcnId::uint()`), a number that is always 0, node,
session key and sequence number. A test of `retrievePacket` is inverted: when the last session of a
node has gone and other nodes are left, it takes out everything under the rCID; else it leaves an
empty table.
-/

import Blackadder.LtpWire

namespace Blackadder

open Option OrderedMap

structure PacketDescriptor where
  block : Option (List UInt8)
  length : ℕ
deriving DecidableEq

namespace PacketDescriptor

def read (memory : ℕ → UInt8) (d : PacketDescriptor) : List UInt8 :=
  d.block.getD ((List.range d.length).map memory)

def free (d : PacketDescriptor) : PacketDescriptor := { d with block := none }

end PacketDescriptor

abbrev SequenceMap := OrderedMap ℕ PacketDescriptor

abbrev SessionKeyMap := OrderedMap ℕ SequenceMap

abbrev NodeIdMap := OrderedMap ℕ SessionKeyMap

/-- `icn_packet_buffer_t`: rCID, 0, node, session key and sequence number. -/
abbrev IcnPacketBuffer := OrderedMap ℕ (OrderedMap ℕ NodeIdMap)

namespace IcnPacketBuffer

/-! ### The operations -/

def find (buffer : IcnPacketBuffer) (rCId ripd nodeId sessionKey : ℕ) : Option SequenceMap :=
  (buffer.get rCId).bind fun pridMap => (pridMap.get ripd).bind fun nodeIdMap =>
    (nodeIdMap.get nodeId).bind fun sessionKeyMap => sessionKeyMap.get sessionKey

/-- A fragment whose number is there is not put in. If the lengths differ, the old block is freed,
but its descriptor stays. -/
def putFragment (descriptor : PacketDescriptor) : Option PacketDescriptor → PacketDescriptor
  | none => descriptor
  | some old => if old.length = descriptor.length then old else old.free

def bufferIcnPacket (buffer : IcnPacketBuffer) (rCId ripd nodeId sessionKey sequenceNumber : ℕ)
    (packet : List UInt8) : IcnPacketBuffer :=
  buffer.upsert rCId fun pridMap => pridMap.upsert ripd fun nodeIdMap =>
    nodeIdMap.upsert nodeId fun sessionKeyMap => sessionKeyMap.upsert sessionKey fun sequenceMap =>
      sequenceMap.alter sequenceNumber fun o => some (putFragment ⟨some packet, packet.length⟩ o)

def copyFragments (memory : ℕ → UInt8) : ℕ → List UInt8 → List (ℕ × PacketDescriptor) → List UInt8
  | _, packet, [] => packet
  | offset, packet, (_, d) :: l =>
    copyFragments memory ((offset + d.length) % 65536) (Buffer.write offset (d.read memory) packet)
      l

def packetSize (l : List (ℕ × PacketDescriptor)) : ℕ :=
  l.foldl (fun size e => (size + e.2.length) % 65536) 0

/-- The buffer without a session. The test of the table of the nodes is inverted. -/
def takeOut (buffer : IcnPacketBuffer) (rCId nodeId sessionKey : ℕ)
    (pridMap : OrderedMap ℕ NodeIdMap) (nodeIdMap : NodeIdMap) (sessionKeyMap : SessionKeyMap) :
    IcnPacketBuffer :=
  let sessionKeyMap := sessionKeyMap.erase sessionKey
  if sessionKeyMap.entries.length = 0 then
    let nodeIdMap := nodeIdMap.erase nodeId
    let pridMap := if nodeIdMap.entries.length ≠ 0 then pridMap.erase 0 else pridMap.set 0 nodeIdMap
    if pridMap.entries.length = 0 then buffer.erase rCId else buffer.set rCId pridMap
  else buffer.set rCId (pridMap.set 0 (nodeIdMap.set nodeId sessionKeyMap))

/-- `retrievePacket`: the caller's memory and the size of the packet, unless nothing is found. -/
def retrievePacket (memory : ℕ → UInt8) (packet : List UInt8) (buffer : IcnPacketBuffer)
    (rCId nodeId sessionKey : ℕ) : Option (List UInt8 × ℕ) × IcnPacketBuffer :=
  match buffer.get rCId with
  | none => (none, buffer)
  | some pridMap =>
    match pridMap.get 0 with
    | none => (none, buffer)
    | some nodeIdMap =>
      match nodeIdMap.get nodeId with
      | none => (none, buffer)
      | some sessionKeyMap =>
        match sessionKeyMap.get sessionKey with
        | none => (none, buffer)
        | some sequenceMap =>
          (some (copyFragments memory 0 packet sequenceMap.entries, packetSize sequenceMap.entries),
            buffer.takeOut rCId nodeId sessionKey pridMap nodeIdMap sessionKeyMap)

/-! ### Where a fragment is put -/

section
variable {buf : IcnPacketBuffer} {rCId ripd nid sk seq : ℕ}
  {pkt : List UInt8}

theorem find_bufferIcnPacket (rCId' ripd' nodeId' sessionKey' : ℕ) :
    (buf.bufferIcnPacket rCId ripd nid sk seq pkt).find rCId' ripd' nodeId' sessionKey' =
      if rCId' = rCId ∧ ripd' = ripd ∧ nodeId' = nid ∧ sessionKey' = sk then
        some (((buf.find rCId ripd nid sk).getD ∅).alter seq fun o =>
          some (putFragment ⟨some pkt, pkt.length⟩ o))
      else buf.find rCId' ripd' nodeId' sessionKey' := by
  let put (o : Option SequenceMap) : Option SequenceMap :=
    some ((o.getD ∅).alter seq fun o => some (putFragment ⟨some pkt, pkt.length⟩ o))
  refine bind_get_upsert (u := put) (fun prids => ?_) rfl rfl
  refine bind_get_upsert (u := put) (fun nids => ?_) rfl rfl
  refine bind_get_upsert (u := put) (fun skm => ?_) rfl rfl
  exact get_upsert _ _ _ _

end

/-! ### What is taken out -/

section
variable {buf : IcnPacketBuffer} {rCId nid sk : ℕ} {mem : ℕ → UInt8}
  {pkt : List UInt8} {nids : NodeIdMap} {skm : SessionKeyMap}

theorem retrievePacket_cases (mem : ℕ → UInt8) (pkt : List UInt8) (buf : IcnPacketBuffer)
    (rCId nid sk : ℕ) :
    (buf.find rCId 0 nid sk = none ∧ buf.retrievePacket mem pkt rCId nid sk = (none, buf)) ∨
    ∃ prids nids skm seqs, buf.get rCId = some prids ∧
      prids.get 0 = some nids ∧ nids.get nid = some skm ∧
      skm.get sk = some seqs ∧
      buf.retrievePacket mem pkt rCId nid sk =
        (some (copyFragments mem 0 pkt seqs.entries, packetSize seqs.entries),
          buf.takeOut rCId nid sk prids nids skm) := by
  rw [find, retrievePacket]
  cases hr : buf.get rCId with
  | none => exact .inl ⟨rfl, rfl⟩
  | some prids =>
    cases hp : prids.get 0 with
    | none => exact .inl ⟨by rw [bind_some, hp, bind_none], by simp [hp]⟩
    | some nids =>
      cases hn : nids.get nid with
      | none => exact .inl ⟨by simp [hp, hn], by simp [hp, hn]⟩
      | some skm =>
        cases hs : skm.get sk with
        | none => exact .inl ⟨by simp [hp, hn, hs], by simp [hp, hn, hs]⟩
        | some seqs =>
          simp [hp, hn, hs]

def Filled (nodeIdMap : NodeIdMap) : Prop :=
  ∀ n sessionKeyMap, nodeIdMap.get n = some sessionKeyMap →
    sessionKeyMap ≠ ∅ ∧ ∀ s sequenceMap, sessionKeyMap.get s = some sequenceMap → sequenceMap ≠ ∅

/-- Below an rCID is only the number 0, and only the table of the nodes may be empty. -/
def WellFormed (buffer : IcnPacketBuffer) : Prop :=
  ∀ r pridMap, buffer.get r = some pridMap →
    ∃ nodeIdMap, pridMap = OrderedMap.set ∅ 0 nodeIdMap ∧ Filled nodeIdMap

def NoEmpty (buffer : IcnPacketBuffer) : Prop :=
  ∀ r pridMap, buffer.get r = some pridMap → pridMap ≠ ∅ ∧
    ∀ p nodeIdMap, pridMap.get p = some nodeIdMap → nodeIdMap ≠ ∅ ∧ Filled nodeIdMap

/-- A session is taken out, and nothing else; no empty table is left. -/
def Removes (buffer buffer' : IcnPacketBuffer) (rCId nodeId sessionKey : ℕ) : Prop :=
  (∀ r p n s, buffer'.find r p n s =
    if r = rCId ∧ p = 0 ∧ n = nodeId ∧ s = sessionKey then none else buffer.find r p n s) ∧
  buffer'.NoEmpty

theorem wellFormed_empty : WellFormed ∅ := by
  intro r prids h
  simp at h

theorem get_single (p : ℕ) (nids : NodeIdMap) :
    (OrderedMap.set ∅ 0 nids).get p = if p = 0 then some nids else none :=
  get_set ∅ 0 p nids

theorem single_inj {m m' : NodeIdMap} (h : OrderedMap.set ∅ 0 m = OrderedMap.set ∅ 0 m') :
    m = m' := by
  have hget := congrArg (fun a => get a 0) h
  simpa [get_single] using hget

theorem Filled.set (h : Filled nids) {n : ℕ} (hne : skm ≠ ∅)
    (hs : ∀ s seqs, skm.get s = some seqs → seqs ≠ ∅) : Filled (nids.set n skm) := by
  intro n' c hc
  rw [get_set] at hc
  split at hc
  · obtain rfl := some.inj hc
    exact ⟨hne, hs⟩
  · exact h n' c hc

theorem WellFormed.set (h : WellFormed buf) (r : ℕ) (hm : Filled nids) :
    WellFormed (buf.set r (OrderedMap.set ∅ 0 nids)) := by
  intro r' a ha
  rw [get_set] at ha
  split at ha
  · exact ⟨nids, (some.inj ha).symm, hm⟩
  · exact h r' a ha

theorem WellFormed.erase (h : WellFormed buf) (r : ℕ) : WellFormed (buf.erase r) := by
  intro r' a ha
  rw [get_erase] at ha
  split at ha
  · simp at ha
  · exact h r' a ha

theorem takeOut_eq (buf : IcnPacketBuffer) (rCId nid sk : ℕ) (nids : NodeIdMap)
    (skm : SessionKeyMap) :
    buf.takeOut rCId nid sk (OrderedMap.set ∅ 0 nids) nids skm = if skm.erase sk = ∅ then
        if nids.erase nid = ∅ then buf.set rCId (OrderedMap.set ∅ 0 ∅)
        else buf.erase rCId
      else buf.set rCId (OrderedMap.set ∅ 0 (nids.set nid (skm.erase sk))) := by
  have hempty {ν : Type} {m : OrderedMap ℕ ν} : m.entries.length = 0 ↔ m = ∅ := by
    rw [List.length_eq_zero_iff, entries_eq_nil_iff]
  have hzero : (set ∅ 0 nids).erase 0 = ∅ := erase_set rfl nids
  have hsin (m : NodeIdMap) : set (∅ : OrderedMap ℕ NodeIdMap) 0 m ≠ ∅ :=
    ne_empty_of_get (get_single 0 m)
  rw [takeOut]
  simp only [ne_eq, hempty, set_set]
  split
  case isTrue hs =>
    by_cases hn : nids.erase nid = ∅
    · simp [hn, hsin]
    · simp [hn, hzero]
  · rfl

theorem Filled.erase (h : Filled nids) {n s : ℕ} (hc : nids.get n = some skm)
    (hne : skm.erase s ≠ ∅) : Filled (nids.set n (skm.erase s)) := by
  refine h.set hne ?_
  intro s' d hd
  rw [get_erase] at hd
  split at hd
  · simp at hd
  · exact (h n skm hc).2 s' d hd

theorem filled_empty : Filled ∅ := by
  intro n c hc
  simp at hc

theorem WellFormed.retrievePacket (h : WellFormed buf) (mem : ℕ → UInt8) (pkt : List UInt8)
    (r n s : ℕ) : WellFormed (buf.retrievePacket mem pkt r n s).2 := by
  obtain ⟨-, heq⟩ | ⟨a, m, c, d, ha, hm, hc, -, heq⟩ := retrievePacket_cases mem pkt buf r n s
  · rw [heq]
    exact h
  · obtain ⟨m', rfl, hfil⟩ := h r a ha
    obtain rfl : m' = m := by simpa [get_single] using hm
    rw [heq, takeOut_eq]
    split_ifs with hs hn
    · exact h.set r filled_empty
    · exact h.erase r
    · exact h.set r (hfil.erase hc hs)

theorem Filled.putFragment (h : Filled nids) (n s seq : ℕ) (fd : PacketDescriptor) :
    Filled (nids.upsert n fun c => c.upsert s fun d =>
      d.alter seq fun o => some (putFragment fd o)) := by
  rw [upsert_eq_set]
  refine h.set (upsert_ne_empty _ s _) ?_
  intro s' d hd
  rw [get_upsert] at hd
  split at hd
  · obtain rfl := some.inj hd
    exact ne_empty_of_get (get_alter_self _ seq _)
  · cases hc : nids.get n with
    | none => simp [hc] at hd
    | some c => exact (h n c hc).2 s' d (by simpa [hc] using hd)

theorem WellFormed.bufferIcnPacket (h : WellFormed buf) (r n s seq : ℕ) (pkt : List UInt8) :
    WellFormed (buf.bufferIcnPacket r 0 n s seq pkt) := by
  rw [IcnPacketBuffer.bufferIcnPacket, upsert_eq_set]
  cases hr : buf.get r with
  | none =>
    exact h.set r (filled_empty.putFragment n s seq _)
  | some a =>
    obtain ⟨m, rfl, hm⟩ := h r a hr
    exact h.set r (hm.putFragment n s seq _)

theorem find_set (buf : IcnPacketBuffer) (rCId : ℕ) (nids : NodeIdMap) (r p n s : ℕ) :
    find (buf.set rCId (OrderedMap.set ∅ 0 nids)) r p n s =
      if r = rCId then if p = 0 then (nids.get n).bind fun c => c.get s else none
      else buf.find r p n s := by
  rw [find, get_set]
  split
  · rw [bind_some, get_single]
    split
    case isTrue | isFalse => rfl
  · rfl

theorem find_erase (buf : IcnPacketBuffer) (rCId r p n s : ℕ) :
    find (buf.erase rCId) r p n s = if r = rCId then none else buf.find r p n s := by
  rw [find, get_erase]
  split
  case isTrue | isFalse => rfl

theorem find_of_get (h : buf.get rCId = some (OrderedMap.set ∅ 0 nids)) (p n s : ℕ) :
    buf.find rCId p n s = if p = 0 then (nids.get n).bind fun c => c.get s else none := by
  rw [find, h, bind_some, get_single]
  split
  case isTrue | isFalse => rfl

theorem WellFormed.ripd_eq_zero (h : WellFormed buf) {r p n s : ℕ} {seqs : SequenceMap}
    (hfind : buf.find r p n s = some seqs) : p = 0 := by
  obtain ⟨a, ha, -⟩ := bind_eq_some_iff.1 hfind
  obtain ⟨m, rfl, -⟩ := h r a ha
  rw [find_of_get ha] at hfind
  by_contra hp
  simp [hp] at hfind

/-- A reachable buffer has empty tables only where an rCID has no node. -/
theorem WellFormed.noEmpty_iff (h : WellFormed buf) :
    buf.NoEmpty ↔ ∀ r, buf.get r ≠ some (OrderedMap.set ∅ 0 ∅) := by
  constructor
  · intro hno r hr
    exact ((hno r _ hr).2 0 ∅ (get_single 0 ∅)).1 rfl
  · intro hno r a ha
    obtain ⟨m, rfl, hm⟩ := h r a ha
    refine ⟨ne_empty_of_get (get_single 0 m), ?_⟩
    intro p m' hm'
    rw [get_single] at hm'
    split at hm'
    · obtain rfl := some.inj hm'
      exact ⟨fun hempty => hno r (hempty ▸ ha), hm⟩
    · simp at hm'

theorem find_takeOut_session (hr : buf.get rCId = some (OrderedMap.set ∅ 0 nids))
    (hn : nids.get nid = some skm) (r p n s : ℕ) :
    find (buf.set rCId (OrderedMap.set ∅ 0 (nids.set nid (skm.erase sk)))) r p n s =
      if r = rCId ∧ p = 0 ∧ n = nid ∧ s = sk then none else buf.find r p n s := by
  rw [find_set]
  by_cases hr' : r = rCId
  · rw [hr', find_of_get hr, get_set]
    by_cases hn' : n = nid
    · rw [if_pos hn', hn', hn, bind_some, get_erase]
      by_cases hp : p = 0 <;> simp [hp]
    · simp [hn']
  · simp [hr']

section
variable (h : WellFormed buf)
include h

theorem WellFormed.removes_session (hr : buf.get rCId = some (OrderedMap.set ∅ 0 nids))
    (hn : nids.get nid = some skm) (hs : skm.erase sk ≠ ∅) :
    Removes buf (buf.set rCId (OrderedMap.set ∅ 0 (nids.set nid (skm.erase sk)))) rCId nid sk ↔
      buf.NoEmpty := by
  obtain ⟨m, hm, hfil⟩ := h rCId _ hr
  obtain rfl := single_inj hm
  rw [Removes, and_iff_right (find_takeOut_session hr hn),
    (h.set rCId (hfil.erase hn hs)).noEmpty_iff, h.noEmpty_iff]
  -- neither before nor after is the table of the nodes empty
  have hbef : OrderedMap.set (∅ : OrderedMap ℕ NodeIdMap) 0 nids ≠ OrderedMap.set ∅ 0 ∅ :=
    fun heq => ne_empty_of_get hn (single_inj heq)
  have hafter : OrderedMap.set (∅ : OrderedMap ℕ NodeIdMap) 0
      (nids.set nid (skm.erase sk)) ≠ OrderedMap.set ∅ 0 ∅ :=
    fun heq => ne_empty_of_get (get_alter_self _ nid _) (single_inj heq)
  refine forall_congr' ?_
  intro r
  rw [get_set]
  by_cases hr' : r = rCId
  · rw [if_pos hr', hr', hr, Ne, Ne, some_inj, some_inj]
    exact iff_of_true hafter hbef
  · rw [if_neg hr']

theorem WellFormed.find_retrievePacket (mem : ℕ → UInt8)
    (pkt : List UInt8) (rCId nid sk r p n s : ℕ) :
    (buf.retrievePacket mem pkt rCId nid sk).2.find r p n s = none ∨
      (buf.retrievePacket mem pkt rCId nid sk).2.find r p n s = buf.find r p n s := by
  obtain ⟨-, heq⟩ | ⟨a, m, c, d, ha, hm, hc, -, heq⟩ := retrievePacket_cases mem pkt buf rCId nid sk
  · rw [heq]
    exact .inr rfl
  · obtain ⟨m', rfl, -⟩ := h rCId a ha
    obtain rfl : m' = m := by simpa [get_single] using hm
    rw [heq, takeOut_eq]
    split_ifs
    · rw [find_set]
      split_ifs <;> simp
    · rw [find_erase]
      split_ifs <;> simp
    · rw [find_takeOut_session ha hc]
      split_ifs <;> simp

/-- **When exactly a session is taken out**: it is not there, or its node has another one. -/
theorem WellFormed.retrievePacket_removes_iff (mem : ℕ → UInt8)
    (pkt : List UInt8) (rCId nid sk : ℕ) :
    Removes buf (buf.retrievePacket mem pkt rCId nid sk).2 rCId nid sk ↔
      buf.NoEmpty ∧ (buf.find rCId 0 nid sk = none ∨ ∃ s ≠ sk, buf.find rCId 0 nid s ≠ none) := by
  obtain ⟨hnone, heq⟩ | ⟨a, m, c, d, ha, hm, hc, hd, heq⟩ :=
    retrievePacket_cases mem pkt buf rCId nid sk
  · rw [heq, Removes, and_iff_right, and_iff_left (.inl hnone)]
    intro r p n s
    split
    · next hk => rw [hk.1, hk.2.1, hk.2.2.1, hk.2.2.2, hnone]
    · rfl
  · obtain ⟨m', rfl, hfil⟩ := h rCId a ha
    obtain rfl : m' = m := by simpa [get_single] using hm
    have hfind (s : ℕ) : buf.find rCId 0 nid s = c.get s := by
      rw [find_of_get ha, if_pos rfl, hc, bind_some]
    simp only [hfind, hd, reduceCtorEq, false_or]
    rw [heq, takeOut_eq]
    by_cases hs : c.erase sk = ∅
    · -- no other session of the node: something is lost, or an empty table is left
      have hnot : ¬ ∃ s ≠ sk, c.get s ≠ none := by
        rintro ⟨s, hne, hget⟩
        exact hget (get_of_erase_eq_empty hs hne)
      rw [if_pos hs, iff_false_intro hnot, and_false, iff_false]
      rintro ⟨hkept, hempty⟩
      split at hempty
      case isTrue hn =>
        exact (hempty rCId _ (get_set _ _ _ _ |>.trans (if_pos rfl))).2 0 ∅
          (get_single 0 ∅) |>.1 rfl
      case isFalse hn =>
        rw [if_neg hn] at hkept
        obtain ⟨n, c', hne, hc'⟩ := exists_get_of_erase_ne hn
        obtain ⟨s, d', hd'⟩ := ne_empty_iff.1 (hfil n c' hc').1
        have hlost := hkept rCId 0 n s
        rw [find_erase, if_pos rfl, if_neg (fun h => hne h.2.2.1), find_of_get ha, hc',
          bind_some, hd'] at hlost
        simp at hlost
    · rw [if_neg hs, h.removes_session ha hc hs, and_iff_left]
      obtain ⟨s, d', hne, hd'⟩ := exists_get_of_erase_ne hs
      exact ⟨s, hne, by simp [hd']⟩

end

end

/-! ### What is put together -/

section
variable {mem : ℕ → UInt8} {l : List (ℕ × PacketDescriptor)}

def total (l : List (ℕ × PacketDescriptor)) : ℕ := (l.map fun e => e.2.length).sum

theorem total_cons (e : ℕ × PacketDescriptor) (l : List (ℕ × PacketDescriptor)) :
    total (e :: l) = e.2.length + total l := by
  rw [total, List.map_cons, List.sum_cons, total]

theorem packetSize_eq (h : total l < 65536) : packetSize l = total l := by
  have hloop : ∀ size, size + total l < 65536 →
      l.foldl (fun size e => (size + e.2.length) % 65536) size = size + total l := by
    clear h
    induction l with
    | nil => simp [total]
    | cons e l ih =>
      intro size h
      rw [total_cons] at h ⊢
      rw [List.foldl_cons, Nat.mod_eq_of_lt (by omega), ih (size + e.2.length) (by omega)]
      omega
  rw [packetSize, hloop 0 (by omega), Nat.zero_add]

section
variable (hlen : ∀ e ∈ l, (e.2.read mem).length = e.2.length)
include hlen

theorem copyFragments_append : ∀ front rest : List UInt8, front.length + total l < 65536 →
      copyFragments mem front.length (front ++ rest) l =
        front ++ (l.map fun e => e.2.read mem).flatten ++ rest.drop (total l) := by
  induction l with
  | nil => simp [copyFragments, total]
  | cons e l ih =>
    intro front rest h
    have he : (e.2.read mem).length = e.2.length := hlen e List.mem_cons_self
    rw [total_cons] at h
    have hih := ih (fun e' he' => hlen e' (List.mem_cons_of_mem _ he'))
      (front ++ e.2.read mem) (rest.drop e.2.length) (by rw [List.length_append]; omega)
    rw [List.length_append, he] at hih
    rw [copyFragments, Nat.mod_eq_of_lt (by omega), Buffer.write_append rfl, he, hih,
      total_cons, List.map_cons]
    simp [List.append_assoc]

theorem take_copyFragments (h : total l < 65536) (pkt : List UInt8) :
    (copyFragments mem 0 pkt l).take (packetSize l) = (l.map fun e => e.2.read mem).flatten := by
  have hsum : (l.map fun e => e.2.read mem).flatten.length = total l := by
    rw [List.length_flatten, List.map_map]
    congr 1
    exact List.map_congr_left hlen
  have hcopy := copyFragments_append hlen [] pkt (by simpa using h)
  rw [List.length_nil, List.nil_append, List.nil_append] at hcopy
  rw [hcopy, packetSize_eq h, ← hsum, List.take_left]

end

end

end IcnPacketBuffer

end Blackadder
