/-
**Repairs for a group.**

The missing fragments should be published again when every node has answered. The handler of a
CTRL-NACK adds the numbers of nodes that confirmed and that sent a CTRL-NACK: a node that does both
counts twice. The handler of a CTRL-WED does not count: when it is the last answer, the repair does
not come.
-/

import Blackadder.LtpSender

namespace Blackadder

open Option List

/-! ### A range of fragments -/

namespace LtpPacketBuffer

variable {pkts : SentMap} {stop : ℕ}

/-- The loop stops behind the range; a counter that wraps around finds no fragment 0. -/
theorem rangeLoop_end (hzero : pkts.get 0 = none) (hstop : stop < 65536) (fuel : ℕ) :
    rangeLoop pkts stop fuel ((stop + 1) % 65536) = [] := by
  cases fuel with
  | zero => rfl
  | succ fuel =>
    rw [rangeLoop]
    split
    case isFalse => rfl
    case isTrue hle =>
      obtain hlt | rfl : stop < 65535 ∨ stop = 65535 := by omega
      · rw [Nat.mod_eq_of_lt (by omega)] at hle
        omega
      · rw [hzero]

theorem rangeLoop_eq (hzero : pkts.get 0 = none) (hstop : stop < 65536) (n : ℕ) :
    ∀ fuel sequence, sequence + n = stop → n < fuel →
      (∀ k, sequence ≤ k → k ≤ stop → pkts.get k ≠ none) →
      (rangeLoop pkts stop fuel sequence).map some =
        (List.range' sequence (n + 1)).map pkts.get := by
  induction n with
  | zero =>
    intro fuel sequence hn hfuel hget
    obtain ⟨fuel, rfl⟩ := Nat.exists_eq_succ_of_ne_zero (by omega : fuel ≠ 0)
    obtain ⟨p, hp⟩ := ne_none_iff_exists'.1 (hget sequence le_rfl (by omega))
    obtain rfl : sequence = stop := by omega
    rw [rangeLoop]
    rw [rangeLoop_end hzero hstop]
    simp [hp]
  | succ n ih =>
    intro fuel sequence hn hfuel hget
    obtain ⟨fuel, rfl⟩ := Nat.exists_eq_succ_of_ne_zero (by omega : fuel ≠ 0)
    obtain ⟨p, hp⟩ := ne_none_iff_exists'.1 (hget sequence le_rfl (by omega))
    have hrest := ih fuel (sequence + 1) (by omega) (by omega)
      (fun k hk hle => hget k (by omega) hle)
    rw [rangeLoop, if_pos (by omega), hp]
    rw [Nat.mod_eq_of_lt (by omega), map_cons, hrest, ← hp, ← map_cons, ← range'_succ]

/-- **When a range is published as a whole**: all its numbers are in the buffer. -/
theorem range_eq_iff {buf : LtpPacketBuffer} {rCId key start : ℕ}
    (hzero : ((buf.find rCId 0 key).getD ∅).get 0 = none) (hstop : stop < 65536) :
    (buf.range rCId 0 key start stop).map some = (List.range' start (stop + 1 - start)).map
          ((buf.find rCId 0 key).getD ∅).get ↔
      ∀ k, start ≤ k → k ≤ stop → ((buf.find rCId 0 key).getD ∅).get k ≠ none := by
  constructor
  · intro h k hstart hle hnone
    have hmem : none ∈ (range' start (stop + 1 - start)).map
        ((buf.find rCId 0 key).getD ∅).get :=
      mem_map.2 ⟨k, mem_range'_1.2 ⟨hstart, by omega⟩, hnone⟩
    rw [← h] at hmem
    simp at hmem
  · intro hget
    by_cases hle : start ≤ stop
    · rw [range]
      cases hfind : buf.find rCId 0 key with
      | none =>
        rw [hfind] at hget
        exact absurd rfl (hget start le_rfl hle)
      | some pkts =>
        rw [hfind] at hget hzero
        -- the number 0 is not in the range, so the fuel is enough
        have hloop := rangeLoop_eq hzero hstop (stop - start) 65536 start (by omega) (by omega) hget
        rw [show stop + 1 - start = stop - start + 1 by omega]
        exact hloop
    · have hempty : buf.range rCId 0 key start stop = [] := by
        rw [range]
        split
        case h_1 => rfl
        case h_2 => rw [rangeLoop, if_neg hle]
      rw [hempty, show stop + 1 - start = 0 by omega]
      rfl

end LtpPacketBuffer

/-! ### Answers -/

inductive RepairBody
  | nack (first last : UInt16)
  | windowEnded
deriving DecidableEq

def RepairBody.message (sessionKey : UInt16) : RepairBody → LtpMessage
  | .nack first last => .nack 0 sessionKey first last
  | .windowEnded => .windowEnded 0 sessionKey

structure RepairEvent where
  nodeId : ℕ
  body : RepairBody
  memory : ℕ → UInt8
  rest : List UInt8

namespace Lightweight

section
variable (l : Lightweight) (rCId : ℕ) (sessionKey : UInt16) (group : List ℕ)

def repair (e : RepairEvent) : LtpHandled :=
  l.handleISub e.memory rCId e.nodeId ((e.body.message sessionKey).bytes ++ e.rest)

def repairAll (events : List RepairEvent) : Lightweight :=
  events.foldl (fun l e => (l.repair rCId sessionKey e).state) l

def pending : Option NackGroup := l.nackGroups.find rCId 0 sessionKey.toNat

def confirmed (nodeId : ℕ) : Bool :=
  l.windowEndedResponses.find rCId 0 nodeId sessionKey.toNat = some true

def kept : SentMap := (l.ltpPacketBuffer.find rCId 0 sessionKey.toNat).getD ∅

def pendingWith (e : RepairEvent) : Option NackGroup :=
  match e.body with
  | .nack first last =>
    match l.pending rCId sessionKey with
    | none => some ⟨[e.nodeId], first.toNat, last.toNat⟩
    | some nacks => some (nacks.add e.nodeId first.toNat last.toNat)
  | .windowEnded => l.pending rCId sessionKey

/-- Every node of the group has sent a CTRL-NACK that waits, or has confirmed. -/
def Settled (nacks : NackGroup) : Prop :=
  ∀ n ∈ group, n ∈ nacks.nodeIds ∨ l.confirmed rCId sessionKey n = true

def Republished (nacks : NackGroup) (published : List LtpPublication) : Prop :=
  ∃ packets : List (List UInt8),
    packets.map some = (List.range' nacks.startSequence
      (nacks.endSequence + 1 - nacks.startSequence)).map (l.kept rCId sessionKey).get ∧
    published = packets.map (.data rCId nacks.nodeIds)

/-- **The property**: if a CTRL-NACK waits and every node has answered, all is published; otherwise
everything waits. -/
def Repairs (e : RepairEvent) : Prop :=
  (∀ nacks, l.pendingWith rCId sessionKey e = some nacks →
    (l.repair rCId sessionKey e).state.Settled rCId sessionKey group nacks →
    (l.repair rCId sessionKey e).state.pending rCId sessionKey = none ∧
      l.Republished rCId sessionKey nacks (l.repair rCId sessionKey e).published) ∧
  ((¬ ∃ nacks, l.pendingWith rCId sessionKey e = some nacks ∧
      (l.repair rCId sessionKey e).state.Settled rCId sessionKey group nacks) →
    (l.repair rCId sessionKey e).state.pending rCId sessionKey = l.pendingWith rCId sessionKey e ∧
      (l.repair rCId sessionKey e).published = [])

def silent (nacks : NackGroup) : ℕ :=
  group.countP fun n => n ∉ nacks.nodeIds ∧ l.confirmed rCId sessionKey n = false

def twice (nacks : NackGroup) : ℕ :=
  group.countP fun n => n ∈ nacks.nodeIds ∧ l.confirmed rCId sessionKey n = true

def uncounted : ℕ := 65536 * (group.countP (l.confirmed rCId sessionKey) / 65536)

/-- At a CTRL-NACK fewer nodes count twice than are silent, or none is silent and the fragments are
there. A CTRL-WED is not the last answer that a CTRL-NACK waits for. -/
def Repairable (e : RepairEvent) : Prop :=
  match e.body with
  | .nack _ _ => ∀ nacks, l.pendingWith rCId sessionKey e = some nacks →
    (l.silent rCId sessionKey group nacks ≠ 0 → l.twice rCId sessionKey group nacks <
      l.silent rCId sessionKey group nacks + l.uncounted rCId sessionKey group) ∧
    (l.silent rCId sessionKey group nacks = 0 →
      l.uncounted rCId sessionKey group ≤ l.twice rCId sessionKey group nacks ∧
        ∀ k, nacks.startSequence ≤ k → k ≤ nacks.endSequence →
          (l.kept rCId sessionKey).get k ≠ none)
  | .windowEnded => ∀ nacks, l.pending rCId sessionKey = some nacks →
    ∃ n ∈ group, n ≠ e.nodeId ∧ n ∉ nacks.nodeIds ∧ l.confirmed rCId sessionKey n = false

/-- No other session of the rCID has a group that waits, or the memory held the right number. -/
def Fresh (e : RepairEvent) : Prop :=
  ∀ first last, e.body = .nack first last → l.pending rCId sessionKey = none →
    l.nackGroups.newEnd (garbage e.memory) rCId 0 last.toNat = last.toNat

structure Session : Prop where
  grouped : l.getCmcGroup rCId sessionKey.toNat = some group
  asked : ∀ n ∈ group, l.windowEndedResponses.find rCId 0 n sessionKey.toNat ≠ none
  numbered : (l.kept rCId sessionKey).get 0 = none
  nodup : ∀ nacks, l.pending rCId sessionKey = some nacks → nacks.nodeIds.Nodup
  members : ∀ nacks, l.pending rCId sessionKey = some nacks → ∀ n ∈ nacks.nodeIds, n ∈ group
  bounded : ∀ nacks, l.pending rCId sessionKey = some nacks → nacks.endSequence < 65536

end

/-! ### Counting -/

section
variable {l : Lightweight} {rCId : ℕ} {key : UInt16} {group : List ℕ} {nacks : NackGroup}

theorem silent_add (l : Lightweight) (rCId : ℕ) (key : UInt16) (group : List ℕ)
    (nacks : NackGroup) :
    group.countP (l.confirmed rCId key) + group.countP (fun n => n ∈ nacks.nodeIds) +
        l.silent rCId key group nacks =
      group.length + l.twice rCId key group nacks := by
  induction group with
  | nil => rfl
  | cons n group ih =>
    simp only [silent, twice, countP_cons, length_cons] at ih ⊢
    by_cases hmem : n ∈ nacks.nodeIds <;> cases hcon : l.confirmed rCId key n
    all_goals
      simp only [hmem, not_true_eq_false, not_false_eq_true, and_true, and_false,
        decide_true, decide_false, reduceCtorEq, if_true, if_false]
      omega

theorem countP_mem {ids : List ℕ} (hgroup : group.Nodup) (hids : ids.Nodup)
    (hsub : ∀ n ∈ ids, n ∈ group) : group.countP (fun n => n ∈ ids) = ids.length := by
  rw [countP_eq_length_filter]
  refine Perm.length_eq ((perm_ext_iff_of_nodup (hgroup.filter _) hids).2 ?_)
  intro n
  rw [mem_filter, decide_eq_true_eq]
  exact ⟨fun h => h.2, fun h => ⟨hsub n h, h⟩⟩

/-- **What the counter says**: it is too small while fewer nodes count twice than are silent or
lost. -/
theorem early_iff (l : Lightweight) (rCId : ℕ) (key : UInt16) (hgroup : group.Nodup)
    (hnodup : nacks.nodeIds.Nodup) (hmemb : ∀ n ∈ nacks.nodeIds, n ∈ group) :
    group.length > group.countP (l.confirmed rCId key) % 65536 + nacks.nodeIds.length ↔
      l.twice rCId key group nacks <
        l.silent rCId key group nacks + l.uncounted rCId key group := by
  have hsum := silent_add l rCId key group nacks
  rw [countP_mem hgroup hnodup hmemb] at hsum
  rw [uncounted]
  omega

theorem silent_eq_zero_iff :
    l.silent rCId key group nacks = 0 ↔ l.Settled rCId key group nacks := by
  rw [silent, countP_eq_zero]
  refine forall₂_congr fun n _ => ?_
  cases l.confirmed rCId key n <;> simp

end

/-! ### A CTRL-NACK -/

section
variable {l : Lightweight} {rCId : ℕ} {key : UInt16} {group : List ℕ} {nacks : NackGroup}
  {e : RepairEvent} {first last : UInt16}

theorem repair_nack (hbody : e.body = .nack first last) :
    l.repair rCId key e = (l.addNodeId e.nodeId).handleNackISub e.memory rCId e.nodeId 0
      key first last := by
  rw [repair, hbody, handleISub, LtpMessage.read_bytes_append]
  rfl

theorem repair_windowEnded (hbody : e.body = .windowEnded) : l.repair rCId key e =
      (l.addNodeId e.nodeId).handleWindowEndedISub rCId e.nodeId key := by
  rw [repair, hbody, handleISub, LtpMessage.read_bytes_append]
  rfl

/-- The CTRL-NACK messages that wait once one more is in, as the code has them. -/
def nacksWith (l : Lightweight) (rCId : ℕ) (sessionKey : UInt16) (e : RepairEvent)
    (first last : UInt16) : NackGroup :=
  NackGroups.added (garbage e.memory) l.nackGroups rCId 0 e.nodeId first.toNat last.toNat
    (l.pending rCId sessionKey)

theorem Fresh.pendingWith_eq (h : l.Fresh rCId key e) (hbody : e.body = .nack first last) :
    l.pendingWith rCId key e = some (l.nacksWith rCId key e first last) := by
  rw [pendingWith, hbody, nacksWith]
  cases hpen : l.pending rCId key with
  | none =>
    rw [NackGroups.added, h first last hbody hpen]
  | some nacks => rfl

theorem Session.exists_nidMap (h : l.Session rCId key group) {n : ℕ} (hn : n ∈ group) :
    ∃ nm, ((l.windowEndedResponses.get rCId).bind fun prids => prids.get 0) = some nm ∧
      confirmedWeds group nm key.toNat = group.countP (l.confirmed rCId key) % 65536 := by
  cases hnid : (l.windowEndedResponses.get rCId).bind fun prids => prids.get 0 with
  | none =>
    refine absurd ?_ (h.asked n hn)
    rw [WindowEnded.find, ← bind_assoc, hnid, bind_none]
  | some nm =>
    refine ⟨nm, rfl, ?_⟩
    have hfind (n : ℕ) : l.windowEndedResponses.find rCId 0 n key.toNat =
        (nm.get n).bind fun skMap => skMap.get key.toNat := by
      rw [WindowEnded.find, ← bind_assoc, hnid, bind_some]
    have hcon : (fun n => decide (((nm.get n).bind fun skMap =>
        skMap.get key.toNat) = some true)) = l.confirmed rCId key := by
      funext n
      rw [confirmed, hfind]
    rw [confirmedWeds, hcon]

theorem handleNackISub_eq {mem : ℕ → UInt8} {nid : ℕ} {ripd : UInt32} {grps : NackGroups}
    {nm : OrderedMap ℕ (OrderedMap ℕ Bool)}
    (hgro : grps = l.nackGroups.addNackNodeId (garbage mem) rCId ripd.toNat
      key.toNat nid first.toNat last.toNat)
    (hgroup : l.getCmcGroup rCId key.toNat = some group)
    (hnid : ((l.windowEndedResponses.get rCId).bind fun prids => prids.get ripd.toNat) = some nm)
    (hnacks : grps.find rCId ripd.toNat key.toNat = some nacks) :
    l.handleNackISub mem rCId nid ripd key first last =
      if group.length > confirmedWeds group nm key.toNat + nacks.nodeIds.length then
        noAction { l with nackGroups := grps } []
      else
        outstanding { l with nackGroups := grps.deleteNackGroup rCId ripd.toNat key.toNat }
          ((l.ltpPacketBuffer.range rCId 0 key.toNat nacks.startSequence
            nacks.endSequence).map (.data rCId nacks.nodeIds)) := by
  have hgroup' : ({ l with nackGroups := grps } : Lightweight).getCmcGroup rCId
      key.toNat = some group := hgroup
  rw [handleNackISub, ← hgro]
  rw [hgroup', hnid]
  rw [NackGroups.nackGroup, hnacks, getD_some]

theorem Session.repair_nack_cases (h : l.Session rCId key group) (hbody : e.body = .nack first last)
    (he : e.nodeId ∈ group) (hnacks : nacks = l.nacksWith rCId key e first last) :
    (group.length > group.countP (l.confirmed rCId key) % 65536 + nacks.nodeIds.length ∧
        (l.repair rCId key e).state.pending rCId key = some nacks ∧
        (l.repair rCId key e).published = []) ∨
      (¬ group.length > group.countP (l.confirmed rCId key) % 65536 + nacks.nodeIds.length ∧
        (l.repair rCId key e).state.pending rCId key = none ∧
        (l.repair rCId key e).published =
          (l.ltpPacketBuffer.range rCId 0 key.toNat nacks.startSequence
            nacks.endSequence).map (.data rCId nacks.nodeIds)) := by
  obtain ⟨nm, hnid, hweds⟩ := h.exists_nidMap he
  have hsame := sameSender_addNodeId l e.nodeId
  have hfind : ((l.addNodeId e.nodeId).nackGroups.addNackNodeId (garbage e.memory) rCId 0
      key.toNat e.nodeId first.toNat last.toNat).find rCId 0 key.toNat = some nacks := by
    rw [nackGroups_addNodeId, NackGroups.find_addNackNodeId, if_pos ⟨rfl, rfl, rfl⟩, hnacks]
    rfl
  have hgroup := (getCmcGroup_addNodeId l e.nodeId rCId key.toNat).trans h.grouped
  rw [repair_nack hbody, handleNackISub_eq rfl hgroup (hsame.windowEndedResponses ▸ hnid) hfind,
    hweds, hsame.ltpPacketBuffer]
  split
  · next hearly => exact .inl ⟨hearly, hfind, rfl⟩
  case isFalse hearly =>
    refine .inr ⟨hearly, ?_, rfl⟩
    rw [pending, outstanding]
    rw [NackGroups.find_deleteNackGroup, if_pos ⟨rfl, rfl, rfl⟩]

theorem sameSender_repair_nack (hbody : e.body = .nack first last) :
    SameSender l (l.repair rCId key e).state := by
  refine sameSender_handleISub ?_
  rw [hbody]
  nofun

theorem SameSender.confirmed_eq {l' : Lightweight} (h : SameSender l l') :
    l'.confirmed rCId key = l.confirmed rCId key := by
  funext n
  rw [confirmed, h.windowEndedResponses, confirmed]

theorem SameSender.kept_eq {l' : Lightweight} (h : SameSender l l') :
    l'.kept rCId key = l.kept rCId key := by
  rw [kept, h.ltpPacketBuffer, kept]

/-! ### A CTRL-WED -/

theorem frame_repair_windowEnded (l : Lightweight) (rCId : ℕ) (key : UInt16)
    (hbody : e.body = .windowEnded) :
    (l.repair rCId key e).state.pending rCId key = l.pending rCId key ∧
      (l.repair rCId key e).published = [] := by
  obtain ⟨hpub, responses, buf, hstate, -⟩ :=
    (l.addNodeId e.nodeId).handleWindowEndedISub_cases rCId e.nodeId key
  rw [repair_windowEnded hbody, pending, hstate]
  exact ⟨by rw [nackGroups_addNodeId, pending], hpub⟩

theorem find_repair_windowEnded (hbody : e.body = .windowEnded) (n : ℕ) :
    (l.repair rCId key e).state.windowEndedResponses.find rCId 0 n key.toNat = if n = e.nodeId then
        (l.windowEndedResponses.find rCId 0 e.nodeId key.toNat).map fun _ => true
      else l.windowEndedResponses.find rCId 0 n key.toNat := by
  have hfla (l : Lightweight) (nid : ℕ) :
      (l.handleWindowEndedISub rCId nid key).state.windowEndedResponses =
        (l.confirmWindowEnded rCId nid key.toNat).1.windowEndedResponses := by
    rw [handleWindowEndedISub]
    split
    all_goals
      rename_i l' heq
      rw [heq]
      rfl
  rw [repair_windowEnded hbody, hfla, windowEndedResponses_confirmWindowEnded,
    (sameSender_addNodeId l e.nodeId).windowEndedResponses]
  simp

theorem Session.confirmed_windowEnded (h : l.Session rCId key group)
    (hbody : e.body = .windowEnded) (he : e.nodeId ∈ group) (n : ℕ) :
    (l.repair rCId key e).state.confirmed rCId key n =
      (decide (n = e.nodeId) || l.confirmed rCId key n) := by
  obtain ⟨b, hb⟩ := ne_none_iff_exists'.1 (h.asked e.nodeId he)
  rw [confirmed, find_repair_windowEnded hbody, confirmed]
  by_cases hn : n = e.nodeId
  · simp [hb]
  · simp [hn]

end

/-! ### Runs -/

section
variable {l : Lightweight} {rCId : ℕ} {key : UInt16} {group : List ℕ} {e : RepairEvent}

theorem garbage_lt (mem : ℕ → UInt8) : garbage mem < 65536 := by
  have hfirst := (mem 0).toNat_lt
  have hsec := (mem 1).toNat_lt
  rw [garbage]
  omega

theorem Session.nacksWith_wellFormed (h : l.Session rCId key group) (he : e.nodeId ∈ group)
    (first last : UInt16) :
    (l.nacksWith rCId key e first last).nodeIds.Nodup ∧
      (∀ n ∈ (l.nacksWith rCId key e first last).nodeIds, n ∈ group) ∧
      (l.nacksWith rCId key e first last).endSequence < 65536 := by
  have hlast := last.toNat_lt
  rw [nacksWith]
  cases hpen : l.pending rCId key with
  | none =>
    refine ⟨nodup_singleton _, ?_, ?_⟩
    · intro n hn
      rw [mem_singleton.1 hn]
      exact he
    · rw [NackGroups.added, NackGroups.newEnd]
      split
      case h_1 => exact hlast
      case h_2 => exact garbage_lt e.memory
  | some nacks =>
    have hnodup := h.nodup nacks hpen
    have hmemb := h.members nacks hpen
    have hbou := h.bounded nacks hpen
    rw [NackGroups.added, NackGroup.add]
    dsimp only
    refine ⟨?_, ?_, by split <;> omega⟩
    · split
      · exact hnodup
      case isFalse hmem =>
        rw [nodup_append]
        refine ⟨hnodup, nodup_singleton _, ?_⟩
        rintro n hn m hm rfl
        rw [mem_singleton.1 hm] at hn
        exact hmem hn
    · intro n hn
      split at hn
      · exact hmemb n hn
      · obtain hn | hn := mem_append.1 hn
        · exact hmemb n hn
        · rw [mem_singleton.1 hn]
          exact he

theorem getCmcGroup_repair (l : Lightweight) (rCId : ℕ) (key : UInt16) (e : RepairEvent) :
    (l.repair rCId key e).state.getCmcGroup rCId key.toNat = l.getCmcGroup rCId key.toNat := by
  rw [← getCmcGroup_addNodeId l e.nodeId]
  cases hbody : e.body with
  | nack first last =>
    rw [repair_nack hbody, handleNackISub]
    dsimp only
    repeat' split
    all_goals rfl
  | windowEnded =>
    have hgro (l : Lightweight) : (l.confirmWindowEnded rCId e.nodeId
        key.toNat).1.cmcGroups = l.cmcGroups := by
      rw [confirmWindowEnded]
      dsimp only
      repeat' split
      all_goals rfl
    have hgro := hgro (l.addNodeId e.nodeId)
    rw [repair_windowEnded hbody, handleWindowEndedISub, getCmcGroup, getCmcGroup, ← hgro]
    split
    all_goals
      rename_i l' heq
      rw [heq]
      rfl

theorem kept_repair_windowEnded (l : Lightweight) (rCId : ℕ) (key : UInt16)
    (hbody : e.body = .windowEnded) :
    (l.repair rCId key e).state.kept rCId key = l.kept rCId key ∨
      (l.repair rCId key e).state.kept rCId key = ∅ := by
  have hbuf : ((l.addNodeId e.nodeId).confirmWindowEnded rCId e.nodeId
      key.toNat).1.ltpPacketBuffer = l.ltpPacketBuffer := by
    rw [ltpPacketBuffer_confirmWindowEnded, (sameSender_addNodeId l e.nodeId).ltpPacketBuffer]
  have hdel (l : Lightweight) : (l.deleteBuffered rCId key.toNat).kept rCId key = ∅ := by
    rw [kept, deleteBuffered, LtpPacketBuffer.find_deleteBufferedLtpPacket, if_pos ⟨rfl, rfl, rfl⟩]
    rfl
  rw [repair_windowEnded hbody, handleWindowEndedISub]
  split
  case h_1 l' heq =>
    rw [heq] at hbuf
    refine .inl ?_
    rw [kept, noAction, hbuf, kept]
  case h_2 l' _ | h_3 l' _ => exact .inr (hdel l')

section
variable (h : l.Session rCId key group)
include h

theorem Session.repair (he : e.nodeId ∈ group) :
    (l.repair rCId key e).state.Session rCId key group := by
  have hgro := (getCmcGroup_repair l rCId key e).trans h.grouped
  cases hbody : e.body with
  | nack first last =>
    have hsame : SameSender l (l.repair rCId key e).state := sameSender_repair_nack hbody
    obtain ⟨hnodup, hmemb, hbou⟩ := h.nacksWith_wellFormed he first last
    have hpen : ∀ nacks, (l.repair rCId key e).state.pending rCId key =
        some nacks → nacks = l.nacksWith rCId key e first last := by
      intro nacks hnacks
      obtain ⟨-, hsome, -⟩ | ⟨-, hnone, -⟩ := h.repair_nack_cases hbody he rfl
      · exact some.inj (hnacks.symm.trans hsome)
      · rw [hnone] at hnacks
        simp at hnacks
    exact
      { grouped := hgro
        asked := fun n hn => by rw [hsame.windowEndedResponses]; exact h.asked n hn
        numbered := by rw [hsame.kept_eq]; exact h.numbered
        nodup := fun nacks hnacks => by rw [hpen nacks hnacks]; exact hnodup
        members := fun nacks hnacks => by rw [hpen nacks hnacks]; exact hmemb
        bounded := fun nacks hnacks => by rw [hpen nacks hnacks]; exact hbou }
  | windowEnded =>
    have hpen := (frame_repair_windowEnded l rCId key hbody).1
    exact
      { grouped := hgro
        asked := fun n hn => by
          rw [find_repair_windowEnded hbody]
          split
          · simpa using h.asked e.nodeId he
          · exact h.asked n hn
        numbered := by
          obtain hkept | hkept := kept_repair_windowEnded l rCId key hbody
          · rw [hkept]
            exact h.numbered
          · rw [hkept]
            rfl
        nodup := fun nacks hnacks => h.nodup nacks (hpen ▸ hnacks)
        members := fun nacks hnacks => h.members nacks (hpen ▸ hnacks)
        bounded := fun nacks hnacks => h.bounded nacks (hpen ▸ hnacks) }

theorem Session.repairAll {evs : List RepairEvent} (heve : ∀ e ∈ evs, e.nodeId ∈ group) :
    (l.repairAll rCId key evs).Session rCId key group := by
  induction evs generalizing l with
  | nil => exact h
  | cons e evs ih =>
    exact ih (h.repair (heve e mem_cons_self)) (fun e' he' => heve e' (mem_cons_of_mem _ he'))

theorem Session.republished_iff {nacks : NackGroup} (hbou : nacks.endSequence < 65536) :
    l.Republished rCId key nacks ((l.ltpPacketBuffer.range rCId 0 key.toNat
        nacks.startSequence nacks.endSequence).map (.data rCId nacks.nodeIds)) ↔
      ∀ k, nacks.startSequence ≤ k → k ≤ nacks.endSequence → (l.kept rCId key).get k ≠ none := by
  rw [kept, ← LtpPacketBuffer.range_eq_iff h.numbered hbou]
  constructor
  · rintro ⟨pkts, hpac, hpub⟩
    have hinj : Function.Injective (LtpPublication.data rCId nacks.nodeIds) := by
      intro p p' heq
      exact (LtpPublication.data.inj heq).2.2
    rw [hinj.list_map hpub]
    exact hpac
  · intro hpac
    exact ⟨_, hpac, rfl⟩

theorem Session.repairs_nack_iff (hgroup : group.Nodup) (he : e.nodeId ∈ group)
    (hfresh : l.Fresh rCId key e) {first last : UInt16} (hbody : e.body = .nack first last) :
    l.Repairs rCId key group e ↔ l.Repairable rCId key group e := by
  obtain ⟨nacks, hnacks⟩ : ∃ nacks, nacks = l.nacksWith rCId key e first last := ⟨_, rfl⟩
  obtain ⟨hnodup, hmemb, hbou⟩ := hnacks ▸ h.nacksWith_wellFormed he first last
  have hwith : l.pendingWith rCId key e = some nacks := hnacks ▸ hfresh.pendingWith_eq hbody
  have hset : (l.repair rCId key e).state.Settled rCId key group nacks ↔
      l.silent rCId key group nacks = 0 := by
    rw [silent_eq_zero_iff, Settled, (sameSender_repair_nack hbody).confirmed_eq, Settled]
  have hearly := early_iff l rCId key hgroup hnodup hmemb
  rw [Repairs, Repairable, hbody, hwith]
  simp only [some.injEq, forall_eq', exists_eq_left', hset]
  obtain ⟨hless, hpen, hpub⟩ | ⟨hless, hpen, hpub⟩ := h.repair_nack_cases hbody he hnacks
  · -- the handler waits, which is right if some node is silent
    rw [hearly] at hless
    rw [hpen, hpub]
    by_cases hsil : l.silent rCId key group nacks = 0
    · simp [hsil]
      omega
    · simp [hsil, hless]
  · -- the handler publishes, which is right if no node is silent
    rw [hpen, hpub, h.republished_iff hbou]
    by_cases hsil : l.silent rCId key group nacks = 0
    · simp [hsil]
      omega
    · simp [hsil]
      omega

theorem Session.repairs_windowEnded_iff (he : e.nodeId ∈ group) (hbody : e.body = .windowEnded) :
    l.Repairs rCId key group e ↔ l.Repairable rCId key group e := by
  obtain ⟨hpen, hpub⟩ := frame_repair_windowEnded l rCId key hbody
  have hwith : l.pendingWith rCId key e = l.pending rCId key := by rw [pendingWith, hbody]
  have hset (nacks : NackGroup) : (l.repair rCId key e).state.Settled rCId key group nacks ↔
        ¬ ∃ n ∈ group, n ≠ e.nodeId ∧ n ∉ nacks.nodeIds ∧ l.confirmed rCId key n = false := by
    simp only [Settled, h.confirmed_windowEnded hbody he]
    push Not
    refine forall₂_congr fun n _ => ?_
    cases l.confirmed rCId key n <;> simp
    tauto
  rw [Repairs, Repairable, hbody, hwith, hpen, hpub]
  constructor
  · rintro ⟨hdone, -⟩ nacks hnacks
    by_contra hsil
    obtain ⟨hnone, -⟩ := hdone nacks hnacks ((hset nacks).2 hsil)
    rw [hnone] at hnacks
    simp at hnacks
  · intro hsil
    refine ⟨?_, fun _ => ⟨rfl, rfl⟩⟩
    intro nacks hnacks hdone
    exact absurd (hsil nacks hnacks) ((hset nacks).1 hdone)

end

/-- **When a group is repaired.** After any answers to a CTRL-WE, the next one is handled as it
should exactly if the condition is met. -/
theorem repairs_iff (hgroup : group.Nodup) (hsession : l.Session rCId sessionKey group)
    (before : List RepairEvent) (hbefore : ∀ e ∈ before, e.nodeId ∈ group) (e : RepairEvent)
    (he : e.nodeId ∈ group) (hfresh : (l.repairAll rCId sessionKey before).Fresh rCId sessionKey e) :
    (l.repairAll rCId sessionKey before).Repairs rCId sessionKey group e ↔
      (l.repairAll rCId sessionKey before).Repairable rCId sessionKey group e := by
  have hses' := hsession.repairAll hbefore
  cases hbody : e.body with
  | nack first last => exact hses'.repairs_nack_iff hgroup he hfresh hbody
  | windowEnded => exact hses'.repairs_windowEnded_iff he hbody

def oneFragment (group : List ℕ) : Lightweight :=
  { init 9 with
    cmcGroups := OrderedMap.set ∅ 7 (OrderedMap.set ∅ 0 (OrderedMap.set ∅ 3 group))
    windowEndedResponses := WindowEnded.addWindowEnd ∅ 7 0 3 group
    ltpPacketBuffer := LtpPacketBuffer.bufferLtpPacket ∅ 7 0 3 1 [5] }

def lacks (nodeId : ℕ) : RepairEvent := ⟨nodeId, .nack 1 1, fun _ => 0, []⟩

def has (nodeId : ℕ) : RepairEvent := ⟨nodeId, .windowEnded, fun _ => 0, []⟩

theorem session_oneFragment (group : List ℕ) : (oneFragment group).Session 7 3 group where
  grouped := by
    simp [getCmcGroup, oneFragment, OrderedMap.get_set]
  asked := by
    intro n hn
    rw [oneFragment, WindowEnded.find_addWindowEnd, if_pos ⟨rfl, rfl, hn, rfl⟩]
    simp
  numbered := by
    rfl
  nodup := nofun
  members := nofun
  bounded := nofun

/-- Both nodes of a group lack the fragment: it is published again, once, to both. -/
theorem repairs_iff_two_nacks :
    (oneFragment [1, 2]).Session 7 3 [1, 2] ∧
      ((oneFragment [1, 2]).repairAll 7 3 [lacks 1]).Fresh 7 3 (lacks 2) ∧
      ((oneFragment [1, 2]).repairAll 7 3 [lacks 1]).Repairs 7 3 [1, 2] (lacks 2) := by
  have hfresh : ((oneFragment [1, 2]).repairAll 7 3 [lacks 1]).Fresh 7 3 (lacks 2) := by
    intro first last _ hpen
    have hsome : ((oneFragment [1, 2]).repairAll 7 3 [lacks 1]).pending 7 3 = some ⟨[1], 1, 1⟩ := by
      decide +kernel
    rw [hpen] at hsome
    simp at hsome
  refine ⟨session_oneFragment _, hfresh, (repairs_iff (by decide) (session_oneFragment _) [lacks 1]
    (by decide) (lacks 2) (by decide) hfresh).2 ?_⟩
  intro nacks hnacks
  have hwith : ((oneFragment [1, 2]).repairAll 7 3 [lacks 1]).pendingWith 7 3 (lacks 2) =
      some ⟨[1, 2], 1, 1⟩ := by decide +kernel
  obtain rfl := some.inj (hwith.symm.trans hnacks)
  refine ⟨fun hsil => absurd (by decide +kernel) hsil, fun _ => ⟨by decide +kernel, ?_⟩⟩
  intro k hstart hstop
  obtain rfl : k = 1 := le_antisymm hstop hstart
  decide +kernel

/-- One node lacks the fragment, and no repair comes; a node counts twice, and it comes too early.
-/
theorem not_repairs :
    ¬ ((oneFragment [1, 2]).repairAll 7 3 [lacks 1]).Repairs 7 3 [1, 2] (has 2) ∧
      ¬ ((oneFragment [1, 2, 3]).repairAll 7 3 [lacks 1, has 1]).Repairs 7 3 [1, 2, 3]
        (lacks 2) := by
  constructor
  · rintro ⟨hdone, -⟩
    have hset : (((oneFragment [1, 2]).repairAll 7 3 [lacks 1]).repair 7 3
        (has 2)).state.Settled 7 3 [1, 2] ⟨[1], 1, 1⟩ := by
      rw [← silent_eq_zero_iff]
      decide +kernel
    have hnone := (hdone ⟨[1], 1, 1⟩ (by decide +kernel) hset).1
    revert hnone
    decide +kernel
  · rintro ⟨-, hwait⟩
    have hsil : ¬ ∃ nacks, ((oneFragment [1, 2, 3]).repairAll 7 3 [lacks 1, has 1]).pendingWith 7 3
        (lacks 2) = some nacks ∧ (((oneFragment [1, 2, 3]).repairAll 7 3
          [lacks 1, has 1]).repair 7 3 (lacks 2)).state.Settled 7 3 [1, 2, 3] nacks := by
      rintro ⟨nacks, hnacks, hset⟩
      have hwith : ((oneFragment [1, 2, 3]).repairAll 7 3 [lacks 1, has 1]).pendingWith 7 3
          (lacks 2) = some ⟨[1, 2], 1, 1⟩ := by decide +kernel
      obtain rfl := some.inj (hwith.symm.trans hnacks)
      rw [← silent_eq_zero_iff] at hset
      revert hset
      decide +kernel
    have hpub := (hwait hsil).2
    revert hpub
    decide +kernel

end

end Lightweight

end Blackadder
