/-
**How repairs are addressed.**

Repairs should go to the nodes that asked for them, in the way in which the fragments were
published. For responses they do. The repair of a request is published under the rCID and to the
own node, as if it were a response: the CID is looked up, but not used.
-/

import Blackadder.LtpRequester
import Mathlib.Data.List.Induction

namespace Blackadder

open Option List

def LtpMessage.nackKey : LtpMessage → Option (ℕ × ℕ)
  | .nack ripd sessionKey _ _ => some (ripd.toNat, sessionKey.toNat)
  | _ => none

namespace LtpPublication

def nodeIds : LtpPublication → List ℕ
  | .data _ nodeIds _ => nodeIds
  | .iSub _ _ _ => []

/-- The same packet is published by the same primitive, with the same identifiers. -/
def SameTarget : LtpPublication → LtpPublication → Prop
  | .data rCId _ packet, .data rCId' _ packet' => rCId = rCId' ∧ packet = packet'
  | .iSub cId rCId packet, .iSub cId' rCId' packet' => cId = cId' ∧ rCId = rCId' ∧ packet = packet'
  | _, _ => False

end LtpPublication

/-! ### The system -/

/-- The tables, the calls, what was published, and the nodes that wait for a repair of a session
(rCID, 0, session key). -/
structure LtpNode where
  tables : Lightweight
  requests : List RequestCall
  responses : List PublishCall
  requested : List LtpPublication
  responded : List LtpPublication
  nacks : List ((ℕ × ℕ × ℕ) × ℕ)

inductive NodeAction
  | request (m : LtpRequest)
  | response (m : LtpResponse)
  | advanceRequest (i : ℕ) (timeout : Bool)
  | advanceResponse (i : ℕ) (timeout : Bool)
  | arrive (e : LtpEvent)

/-- A packet is handled, or other threads change the other tables. -/
def Lightweight.arrive (l : Lightweight) : LtpEvent → Lightweight
  | .otherThreads l' =>
    { l' with
      nodeId := l.nodeId
      icnPacketBuffer := l.icnPacketBuffer
      ltpPacketBuffer := l.ltpPacketBuffer
      proxyPacketBuffer := l.proxyPacketBuffer
      nackGroups := l.nackGroups }
  | e => (l.step e).state

namespace LtpNode

def start (nodeId : ℕ) : LtpNode := ⟨.init nodeId, [], [], [], [], []⟩

/-- The nodes that have asked for fragments; with a repair those of its session go. -/
def nacksAfter (s : LtpNode) : LtpEvent → List ((ℕ × ℕ × ℕ) × ℕ)
  | .publishedDataISub memory rCId nodeId packet =>
    match (LtpMessage.read packet).nackKey with
    | none => s.nacks
    | some key =>
      if (s.tables.handleISub memory rCId nodeId packet).state.nackGroups.find rCId key.1 key.2 =
          none then
        s.nacks.filter fun a => a.1 ≠ (rCId, key)
      else ((rCId, key), nodeId) :: s.nacks
  | _ => s.nacks

def step (s : LtpNode) : NodeAction → LtpNode
  | .request m => { s with requests := s.requests ++ [⟨m, .start⟩] }
  | .response m => { s with responses := s.responses ++ [⟨m, .sending m.fragments⟩] }
  | .advanceRequest i timeout =>
    match s.requests[i]? with
    | none => s
    | some c =>
      let r := s.tables.advanceRequest c.request timeout c.pc
      { s with
        tables := r.1
        requests := s.requests.set i ⟨c.request, r.2.1⟩
        requested := s.requested ++ r.2.2 }
  | .advanceResponse i timeout =>
    match s.responses[i]? with
    | none => s
    | some c =>
      let r := s.tables.advance c.message timeout c.pc
      { s with
        tables := r.1
        responses := s.responses.set i ⟨c.message, r.2.1⟩
        responded := s.responded ++ r.2.2 }
  | .arrive e => { s with tables := s.tables.arrive e, nacks := s.nacksAfter e }

def run (s : LtpNode) (actions : List NodeAction) : LtpNode := actions.foldl step s

/-- A CTRL-NACK is answered with packets that were published by the same primitive and with the same
identifiers, and to the nodes that have asked. -/
def Repaired (s : LtpNode) : LtpEvent → Prop
  | .publishedData memory rCId packet =>
    (LtpMessage.read packet).nackKey ≠ none →
      ∀ p ∈ (s.tables.handle memory rCId packet).published, ∃ q ∈ s.requested, q.SameTarget p
  | .publishedDataISub memory rCId nodeId packet =>
    ∀ key, (LtpMessage.read packet).nackKey = some key →
      ∀ p ∈ (s.tables.handleISub memory rCId nodeId packet).published,
        (∃ q ∈ s.responded, q.SameTarget p) ∧
          ∀ n, n ∈ p.nodeIds ↔ n = nodeId ∨ ((rCId, key), n) ∈ s.nacks
  | .retrieve _ _ _ _ _ | .otherThreads _ => True

end LtpNode

/-- Nothing is published again for this part of a request: the CID is not known, the range has no
numbers, or its first fragment is not kept. -/
def Lightweight.RangeEmpty (l : Lightweight) (rCId ripd sessionKey start stop : ℕ) : Prop :=
  l.cIdReverseLookUp.get rCId = none ∨ stop < start ∨
    ∀ packets, l.proxyPacketBuffer.find rCId ripd sessionKey = some packets →
      packets.get start = none

/-! ### What happens to the tables -/

namespace Lightweight

variable {l : Lightweight} {mem : ℕ → UInt8} {rCId nid : ℕ}

theorem handleNackISub_cases (l : Lightweight) (mem : ℕ → UInt8) (rCId nid : ℕ) (ripd : UInt32)
    (sk first last : UInt16) {grps : NackGroups} {handled : LtpHandled}
    (hgro : grps = l.nackGroups.addNackNodeId (garbage mem) rCId ripd.toNat sk.toNat
      nid first.toNat last.toNat)
    (hhan : handled = l.handleNackISub mem rCId nid ripd sk first last) :
    (handled.state.nackGroups = grps ∧ handled.published = []) ∨
    (handled.state.nackGroups = grps.deleteNackGroup rCId ripd.toNat sk.toNat ∧
      ∃ start stop, handled.published =
        (l.ltpPacketBuffer.range rCId 0 sk.toNat start stop).map (.data rCId
          (grps.nackGroup (garbage mem) rCId ripd.toNat sk.toNat).nodeIds)) := by
  rw [hhan, handleNackISub, ← hgro]
  dsimp only
  repeat' split
  · exact .inl ⟨rfl, rfl⟩
  · exact .inl ⟨rfl, rfl⟩
  · exact .inl ⟨rfl, rfl⟩
  · exact .inr ⟨rfl, _, _, rfl⟩

theorem nackGroups_handleISub {packet : List UInt8} (h : (LtpMessage.read packet).nackKey = none) :
    (l.handleISub mem rCId nid packet).state.nackGroups = l.nackGroups := by
  obtain ⟨_, _, _, _, _, _, hstate, -, -, hgro⟩ := l.handleISub_frame mem rCId nid packet
  rw [hstate]
  refine hgro ?_
  intro ripd sk first last hread
  simp [hread, LtpMessage.nackKey] at h

theorem nackGroups_handle (packet : List UInt8) :
    (l.handle mem rCId packet).state.nackGroups = l.nackGroups := by
  obtain ⟨requests, proxyBuffer, hstate, -⟩ := l.handle_frame mem rCId packet
  rw [hstate]

theorem find_ltpPacketBuffer_arrive (l : Lightweight) (e : LtpEvent) (r s : ℕ) :
    (l.arrive e).ltpPacketBuffer.find r 0 s = none ∨
      (l.arrive e).ltpPacketBuffer.find r 0 s = l.ltpPacketBuffer.find r 0 s := by
  cases e with
  | otherThreads | retrieve => exact .inr rfl
  | publishedData mem rCId packet =>
    refine .inr ?_
    change (l.handle mem rCId packet).state.ltpPacketBuffer.find r 0 s = _
    rw [(sameSender_handle packet).ltpPacketBuffer]
  | publishedDataISub mem rCId nid packet =>
    obtain ⟨_, buffer, _, _, _, _, hstate, -, hbuf, -⟩ := l.handleISub_frame mem rCId nid packet
    have hfind : (l.arrive (.publishedDataISub mem rCId nid packet)).ltpPacketBuffer = buffer :=
      congrArg ltpPacketBuffer hstate
    rw [hfind]
    obtain rfl | ⟨sk, rfl⟩ := hbuf
    · exact .inr rfl
    · rw [LtpPacketBuffer.find_deleteBufferedLtpPacket]
      split_ifs
      · exact .inl rfl
      · exact .inr rfl

theorem advanceRequest_frame (l : Lightweight) (m : LtpRequest) (tmo : Bool) (pc : RequestPc) :
    (l.advanceRequest m tmo pc).1.ltpPacketBuffer = l.ltpPacketBuffer ∧
      (l.advanceRequest m tmo pc).1.nackGroups = l.nackGroups ∧
      ∀ p ∈ (l.advanceRequest m tmo pc).2.2, ∃ packet, p = .iSub m.cId m.rCId packet := by
  cases pc with
  | sending frags => cases frags <;> exact ⟨rfl, rfl, by simp [advanceRequest]⟩
  | waiting tries =>
    cases tries with
    | zero => exact ⟨rfl, rfl, by simp [advanceRequest]⟩
    | succ tries =>
      rw [advanceRequest]
      split_ifs
      all_goals exact ⟨rfl, rfl, by simp⟩
  | start | buffering | publishingWindowEnd | addingWindowEnd | confirmed | unknown | unanswered =>
    exact ⟨rfl, rfl, by simp [advanceRequest]⟩

theorem nackGroups_advance (l : Lightweight) (m : LtpResponse) (tmo : Bool) (pc : PublishPc) :
    (l.advance m tmo pc).1.nackGroups = l.nackGroups := by
  cases pc with
  | sending frags => cases frags <;> rfl
  | waiting tries => rw [advance_waiting]
  | buffering | addingWindowEnd | publishingWindowEnd | confirmed | unknown | unanswered => rfl

theorem published_of_buffering {m : LtpResponse} {tmo : Bool} {pc : PublishPc} {f : Ltp.Fragment}
    {rest : List Ltp.Fragment} (h : (l.advance m tmo pc).2.1 = .buffering f rest) :
    .data m.rCId m.nodeIds f.packet ∈ (l.advance m tmo pc).2.2 := by
  cases pc with
  | sending frags =>
    cases frags with
    | nil => simp [advance] at h
    | cons f' rest' =>
      obtain ⟨rfl, rfl⟩ : f' = f ∧ rest' = rest := by simpa [advance] using h
      exact mem_singleton.2 rfl
  | waiting tries =>
    cases tries with
    | zero => simp [advance] at h
    | succ tries =>
      rw [advance] at h
      split at h
      · simp at h
      · split at h <;> simp at h
  | buffering | addingWindowEnd | publishingWindowEnd | confirmed | unknown | unanswered =>
    simp [advance] at h

end Lightweight

theorem LtpPacketBuffer.range_eq_nil_iff {buffer : LtpPacketBuffer}
    {rCId ripd sk start stop : ℕ} : buffer.range rCId ripd sk start stop = [] ↔
      stop < start ∨ ∀ pkts, buffer.find rCId ripd sk = some pkts → pkts.get start = none := by
  rw [range]
  cases buffer.find rCId ripd sk with
  | none => simp
  | some pkts =>
    change rangeLoop pkts stop (65535 + 1) start = [] ↔ _
    rw [rangeLoop]
    cases hget : pkts.get start <;> simp [hget]

theorem Lightweight.published_handleNack_eq_nil_iff (mem : ℕ → UInt8) {l : Lightweight} {rCId : ℕ}
    {packet : List UInt8} {ripd : UInt32} {sk first last : UInt16}
    (hread : LtpMessage.read packet = .nack ripd sk first last) :
    (l.handle mem rCId packet).published = [] ↔
      l.RangeEmpty rCId ripd.toNat sk.toNat first.toNat last.toNat := by
  rw [handle, hread, RangeEmpty, ← LtpPacketBuffer.range_eq_nil_iff]
  dsimp only
  rw [handleNack]
  cases l.cIdReverseLookUp.get rCId <;> simp [noAction]

theorem NackGroups.mem_added {garbage : ℕ} {grps : NackGroups} {rCId ripd nid start stop n : ℕ}
    {o : Option NackGroup} :
    n ∈ (added garbage grps rCId ripd nid start stop o).nodeIds ↔
      n = nid ∨ ∃ group, o = some group ∧ n ∈ group.nodeIds := by
  cases o with
  | none => simp [added]
  | some group =>
    simp only [added, NackGroup.add, some_inj, exists_eq_left']
    split
    case isTrue hmem =>
      constructor
      · exact .inr
      · rintro (rfl | hn)
        · exact hmem
        · exact hn
    · rw [mem_append, mem_singleton, or_comm]

theorem LtpMessage.nackKey_eq_some {msg : LtpMessage} {key : ℕ × ℕ} (h : msg.nackKey = some key) :
    ∃ ripd sk first last, msg = .nack ripd sk first last ∧ key = (ripd.toNat, sk.toNat) := by
  cases msg with
  | nack ripd sk first last =>
    exact ⟨ripd, sk, first, last, rfl, (some.inj h).symm⟩
  | data | sessionEnd | sessionEnded | windowEnd | windowEnded | windowUpdate | windowUpdated
  | unknownControl | unknown => simp [LtpMessage.nackKey] at h

/-! ### Where everything comes from -/

namespace LtpNode

/-- Responses that are kept were published, requests are implicit subscriptions, and groups have the
nodes that asked. -/
structure Tracked (s : LtpNode) : Prop where
  kept : ∀ r sk packets i packet, s.tables.ltpPacketBuffer.find r 0 sk = some packets →
    packets.get i = some packet → ∃ nodeIds, .data r nodeIds packet ∈ s.responded
  buffering : ∀ c ∈ s.responses, ∀ f rest, c.pc = .buffering f rest →
    .data c.message.rCId c.message.nodeIds f.packet ∈ s.responded
  requested : ∀ p ∈ s.requested, ∃ cId rCId packet, p = .iSub cId rCId packet
  nacked : ∀ r key n, ((r, key), n) ∈ s.nacks ↔
    ∃ group, s.tables.nackGroups.find r key.1 key.2 = some group ∧ n ∈ group.nodeIds

section
variable {s : LtpNode}

theorem tracked_start (nid : ℕ) : (start nid).Tracked := by
  constructor
  · intro r sk pkts i packet hfind
    simp [start, Lightweight.init, LtpPacketBuffer.find] at hfind
  · simp [start]
  · simp [start]
  · simp [start, Lightweight.init, NackGroups.find]

section
variable (h : s.Tracked)
include h

theorem Tracked.advanceResponse {i : ℕ} {c : PublishCall} (hc : s.responses[i]? = some c)
    (tmo : Bool) : (s.step (.advanceResponse i tmo)).Tracked := by
  have hstep : s.step (.advanceResponse i tmo) = { s with
        tables := (s.tables.advance c.message tmo c.pc).1
        responses := s.responses.set i ⟨c.message, (s.tables.advance c.message tmo c.pc).2.1⟩
        responded := s.responded ++ (s.tables.advance c.message tmo c.pc).2.2 } := by
    rw [step, hc]
  rw [hstep]
  refine ⟨?_, ?_, h.requested, ?_⟩
  · intro r sk pkts k packet hfind hget
    have hold (hget : ((s.tables.ltpPacketBuffer.find r 0 sk).getD ∅).get k = some packet) :
        ∃ nodeIds, .data r nodeIds packet ∈
          s.responded ++ (s.tables.advance c.message tmo c.pc).2.2 := by
      cases hfind : s.tables.ltpPacketBuffer.find r 0 sk with
      | none => simp [hfind] at hget
      | some pkts =>
        obtain ⟨nodeIds, hmem⟩ := h.kept r sk pkts k packet hfind (by simpa [hfind] using hget)
        exact ⟨nodeIds, mem_append_left _ hmem⟩
    by_cases hpc : ∃ f rest, c.pc = .buffering f rest
    · obtain ⟨f, rest, hpc⟩ := hpc
      have hpub := h.buffering c (mem_of_getElem? hc) f rest hpc
      rw [hpc, Lightweight.advance, LtpPacketBuffer.find_bufferLtpPacket] at hfind
      split at hfind
      case isFalse => exact hold (by rw [hfind]; exact hget)
      case isTrue hkey =>
        obtain ⟨rfl, -, rfl⟩ := hkey
        obtain rfl := some.inj hfind
        rw [OrderedMap.get_insert] at hget
        split at hget
        case isFalse => exact hold hget
        case isTrue hk =>
          subst hk
          cases ho : ((s.tables.ltpPacketBuffer.find c.message.rCId 0 c.message.sessionKey.toNat).getD
              ∅).get f.sequenceNumber.toNat with
          | none =>
            rw [ho, getD_none, some_inj] at hget
            exact ⟨_, mem_append_left _ (hget ▸ hpub)⟩
          | some old =>
            rw [ho, getD_some] at hget
            exact hold (by rw [ho, hget])
    · push Not at hpc
      rw [Lightweight.ltpPacketBuffer_advance hpc] at hfind
      exact hold (by rw [hfind]; exact hget)
  · intro c' hc' f rest hpc
    rcases mem_or_eq_of_mem_set hc' with hc' | rfl
    · exact mem_append_left _ (h.buffering c' hc' f rest hpc)
    · exact mem_append_right _ (Lightweight.published_of_buffering hpc)
  · intro r key n
    rw [Lightweight.nackGroups_advance]
    exact h.nacked r key n

theorem Tracked.nacked_handleISub (mem : ℕ → UInt8) (rCId nid : ℕ)
    (packet : List UInt8) (r : ℕ) (key : ℕ × ℕ) (n : ℕ) :
    ((r, key), n) ∈ s.nacksAfter (.publishedDataISub mem rCId nid packet) ↔
      ∃ group, (s.tables.handleISub mem rCId nid packet).state.nackGroups.find r key.1 key.2 =
        some group ∧ n ∈ group.nodeIds := by
  rw [nacksAfter]
  cases hkey : (LtpMessage.read packet).nackKey with
  | none =>
    rw [Lightweight.nackGroups_handleISub hkey]
    exact h.nacked r key n
  | some key₀ =>
    obtain ⟨ripd, sk, first, last, hread, rfl⟩ := LtpMessage.nackKey_eq_some hkey
    have hgro := Lightweight.nackGroups_addNodeId s.tables nid
    have hhan : s.tables.handleISub mem rCId nid packet =
        (s.tables.addNodeId nid).handleNackISub mem rCId nid ripd sk first last := by
      rw [Lightweight.handleISub, hread]
    dsimp only
    rw [hhan]
    have hsame : (r, key) = (rCId, (ripd.toNat, sk.toNat)) ↔
        r = rCId ∧ key.1 = ripd.toNat ∧ key.2 = sk.toNat := by
      rw [Prod.mk.injEq, Prod.ext_iff]
    obtain ⟨hstate, -⟩ | ⟨hstate, -⟩ := (s.tables.addNodeId nid).handleNackISub_cases mem rCId
      nid ripd sk first last rfl rfl
    · rw [hgro] at hstate
      rw [hstate, if_neg, NackGroups.find_addNackNodeId, mem_cons, Prod.mk.injEq, hsame]
      · by_cases heq : r = rCId ∧ key.1 = ripd.toNat ∧ key.2 = sk.toNat
        · obtain ⟨rfl, hp, hs⟩ := heq
          simp [hp, hs, NackGroups.mem_added, h.nacked]
        · simp [heq, h.nacked]
      · rw [NackGroups.find_addNackNodeId, if_pos ⟨rfl, rfl, rfl⟩]
        exact some_ne_none _
    · rw [hgro] at hstate
      rw [hstate, if_pos, NackGroups.find_deleteNackGroup, mem_filter, decide_eq_true_iff, Ne,
        hsame]
      · by_cases heq : r = rCId ∧ key.1 = ripd.toNat ∧ key.2 = sk.toNat
        · simp [heq]
        · simp [heq, NackGroups.find_addNackNodeId, h.nacked]
      · rw [NackGroups.find_deleteNackGroup, if_pos ⟨rfl, rfl, rfl⟩]

theorem Tracked.arrive (e : LtpEvent) : (s.step (.arrive e)).Tracked := by
  refine ⟨?_, h.buffering, h.requested, ?_⟩
  · intro r sk pkts i packet hfind hget
    obtain hnone | hsame := s.tables.find_ltpPacketBuffer_arrive e r sk
    · rw [step, hnone] at hfind
      simp at hfind
    · rw [step, hsame] at hfind
      exact h.kept r sk pkts i packet hfind hget
  · intro r key n
    cases e with
    | retrieve | otherThreads => exact h.nacked r key n
    | publishedData mem rCId packet =>
      change ((r, key), n) ∈ s.nacks ↔
        ∃ group, (s.tables.handle mem rCId packet).state.nackGroups.find r key.1 key.2 = some group ∧ _
      rw [h.nacked, Lightweight.nackGroups_handle]
    | publishedDataISub mem rCId nid packet => exact h.nacked_handleISub _ _ _ _ r key n

theorem Tracked.step (a : NodeAction) : (s.step a).Tracked := by
  cases a with
  | request m => exact ⟨h.kept, h.buffering, h.requested, h.nacked⟩
  | response m =>
    refine ⟨h.kept, ?_, h.requested, h.nacked⟩
    intro c hc f rest hpc
    rcases mem_append.1 hc with hc | hc
    · exact h.buffering c hc f rest hpc
    · rw [mem_singleton.1 hc] at hpc
      simp at hpc
  | advanceRequest i tmo =>
    rw [LtpNode.step]
    split
    case h_1 => exact h
    case h_2 c _ =>
      obtain ⟨hbuf, hgro, hpub⟩ := s.tables.advanceRequest_frame c.request tmo c.pc
      refine ⟨?_, h.buffering, ?_, ?_⟩
      · dsimp only
        rw [hbuf]
        exact h.kept
      · intro p hp
        rcases mem_append.1 hp with hp | hp
        · exact h.requested p hp
        · obtain ⟨packet, rfl⟩ := hpub p hp
          exact ⟨_, _, _, rfl⟩
      · dsimp only
        rw [hgro]
        exact h.nacked
  | advanceResponse i tmo =>
    cases hc : s.responses[i]? with
    | none =>
      rw [LtpNode.step, hc]
      exact h
    | some c => exact h.advanceResponse hc tmo
  | arrive e => exact h.arrive e

end

end

theorem tracked_run (nid : ℕ) (acts : List NodeAction) : ((start nid).run acts).Tracked := by
  induction acts using reverseRecOn with
  | nil => exact tracked_start nid
  | append_singleton acts a ih =>
    rw [run, foldl_append]
    exact ih.step a

theorem Tracked.repaired_response {s : LtpNode} (h : s.Tracked) (mem : ℕ → UInt8) (rCId nid : ℕ)
    (packet : List UInt8) : s.Repaired (.publishedDataISub mem rCId nid packet) := by
  intro key hkey p hp
  obtain ⟨ripd, sk, first, last, hread, rfl⟩ := LtpMessage.nackKey_eq_some hkey
  rw [Lightweight.handleISub, hread] at hp
  obtain ⟨-, hnone⟩ | ⟨-, start, stop, hpub⟩ := (s.tables.addNodeId nid).handleNackISub_cases
    mem rCId nid ripd sk first last rfl rfl
  · rw [hnone] at hp
    simp at hp
  · rw [hpub, (Lightweight.sameSender_addNodeId _ _).ltpPacketBuffer] at hp
    obtain ⟨packet', hpac, rfl⟩ := mem_map.1 hp
    constructor
    · obtain ⟨pkts, hfind, i, hget⟩ := LtpPacketBuffer.mem_range hpac
      obtain ⟨nodeIds, hmem⟩ := h.kept rCId sk.toNat pkts i packet' hfind hget
      exact ⟨_, hmem, rfl, rfl⟩
    · intro n
      rw [LtpPublication.nodeIds, NackGroups.nackGroup, Lightweight.nackGroups_addNodeId,
        NackGroups.find_addNackNodeId, if_pos ⟨rfl, rfl, rfl⟩, getD_some, NackGroups.mem_added,
        h.nacked]

/-- **Which repairs are addressed in the right way**: those of responses; one of a request if and
only if there is nothing to repair. -/
theorem repaired_iff (nodeId : ℕ) (actions : List NodeAction) (e : LtpEvent) :
    ((start nodeId).run actions).Repaired e ↔
      ∀ memory rCId packet ripd sessionKey first last, e = .publishedData memory rCId packet →
        LtpMessage.read packet = .nack ripd sessionKey first last →
        ((start nodeId).run actions).tables.RangeEmpty rCId ripd.toNat sessionKey.toNat first.toNat
          last.toNat := by
  have h := tracked_run nodeId actions
  cases e with
  | retrieve | otherThreads => exact iff_of_true trivial nofun
  | publishedDataISub memory rCId node packet =>
    exact iff_of_true (h.repaired_response memory rCId node packet) nofun
  | publishedData memory rCId packet =>
    constructor
    · rintro hrepa _ _ _ ripd sessionKey first last ⟨⟩ hread
      rw [← Lightweight.published_handleNack_eq_nil_iff memory hread]
      refine eq_nil_iff_forall_not_mem.2 ?_
      intro p hp
      obtain ⟨q, hq, hsame⟩ := hrepa (by simp [hread, LtpMessage.nackKey]) p hp
      -- the request was published with an implicit subscription, and the repair is not
      obtain ⟨cId, rCId', packet', rfl⟩ := h.requested q hq
      rw [Lightweight.handle, hread] at hp
      dsimp only at hp
      rw [Lightweight.handleNack] at hp
      split at hp
      case h_1 => simp [Lightweight.noAction] at hp
      case h_2 =>
        obtain ⟨packet'', -, rfl⟩ := mem_map.1 hp
        exact hsame
    · intro hempty hnack p hp
      obtain ⟨key, hkey⟩ := ne_none_iff_exists'.1 hnack
      obtain ⟨ripd, sessionKey, first, last, hread, -⟩ := LtpMessage.nackKey_eq_some hkey
      have hnil := (Lightweight.published_handleNack_eq_nil_iff memory hread).2
        (hempty memory rCId packet ripd sessionKey first last rfl hread)
      rw [hnil] at hp
      cases hp

/-- A response of one byte to node 1, whose CMC group is known, and its CTRL-WE. -/
def smallResponse : List NodeAction :=
  [.arrive (.otherThreads { Lightweight.init 9 with
      cmcGroups := OrderedMap.set ∅ 7 (OrderedMap.set ∅ 0 (OrderedMap.set ∅ 3 [1])) }),
    .response ⟨7, 3, [1], [5], LtpRequester.small.size, 8, fun _ => 0, _, LtpRequester.small.made⟩,
      .advanceResponse 0 false,
    .advanceResponse 0 false, .advanceResponse 0 false, .advanceResponse 0 false,
    .advanceResponse 0 false]

theorem repaired_smallResponse : ((start 9).run smallResponse).Repaired
        (.publishedDataISub (fun _ => 0) 7 1 (LtpMessage.nack 0 3 1 1).bytes) ∧
      (((start 9).run smallResponse).tables.handleISub (fun _ => 0) 7 1
          (LtpMessage.nack 0 3 1 1).bytes).published =
        [.data 7 [1] (Ltp.fragment 8 3 [5] (fun _ => 0) 0).packet] :=
  ⟨(repaired_iff 9 smallResponse _).2 nofun, by decide +kernel⟩

def smallRequest : List NodeAction :=
  [.request LtpRequester.small, .advanceRequest 0 false, .advanceRequest 0 false,
    .advanceRequest 0 false]

/-- The fragment is published to the client-side NAP itself. -/
theorem not_repaired_smallRequest : ¬ ((start 9).run smallRequest).Repaired
        (.publishedData (fun _ => 0) 7 (LtpMessage.nack 0 3 1 1).bytes) ∧
      ((start 9).run smallRequest).requested =
        [.iSub 1 7 (Ltp.fragment 8 3 [5] (fun _ => 0) 0).packet] ∧
      (((start 9).run smallRequest).tables.handle (fun _ => 0) 7
          (LtpMessage.nack 0 3 1 1).bytes).published =
        [.data 7 [9] (Ltp.fragment 8 3 [5] (fun _ => 0) 0).packet] := by
  have hreq : ((start 9).run smallRequest).requested =
      [.iSub 1 7 (Ltp.fragment 8 3 [5] (fun _ => 0) 0).packet] := by decide +kernel
  have hpub : (((start 9).run smallRequest).tables.handle (fun _ => 0) 7
      (LtpMessage.nack 0 3 1 1).bytes).published =
        [.data 7 [9] (Ltp.fragment 8 3 [5] (fun _ => 0) 0).packet] := by decide +kernel
  refine ⟨?_, hreq, hpub⟩
  intro hrepa
  obtain ⟨q, hq, hsame⟩ := hrepa (by decide +kernel)
    (.data 7 [9] (Ltp.fragment 8 3 [5] (fun _ => 0) 0).packet)
    (by rw [hpub]; exact mem_singleton.2 rfl)
  rw [hreq, mem_singleton] at hq
  rw [hq] at hsame
  exact hsame

end LtpNode

end Blackadder
