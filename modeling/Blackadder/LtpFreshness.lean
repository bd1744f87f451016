/-
**Two messages of one session.**

They use the same sequence numbers. When the first one was retrieved, a duplicate of one of its
fragments takes the place of a fragment of the second. This module says when that does not happen.
-/

import Blackadder.Runs
import Blackadder.LtpDelivery

namespace Blackadder.Lightweight

open OrderedMap
open Buffer (piece pieceCount)
open IcnPacketBuffer (putFragment total)

section
variable {lim : ℕ} {data : List UInt8} {l : Lightweight} {rCId nodeId key : ℕ}
  {e : LtpEvent}

/-- A fragment that arrives belongs to the message, or its number is there, with its length. -/
def Harmless (rCId nodeId sessionKey limit : ℕ) (data : List UInt8) (l : Lightweight) (e : LtpEvent) :
    Prop :=
  ∀ i bytes, e.received l.nodeId = some ⟨rCId, nodeId, sessionKey, i, bytes⟩ →
    (∃ j < pieceCount limit data, i = j + 1 ∧ bytes = piece limit data j) ∨
    ∃ d, ((l.icnPacketBuffer.find rCId 0 nodeId sessionKey).getD ∅).get i = some d ∧
      d.length = bytes.length

theorem find_step_received {i : ℕ} {bytes : List UInt8}
    (h : e.received l.nodeId = some ⟨rCId, nodeId, key, i, bytes⟩) :
    (l.step e).state.icnPacketBuffer.find rCId 0 nodeId key =
      some (((l.icnPacketBuffer.find rCId 0 nodeId key).getD ∅).alter i fun o =>
        some (putFragment ⟨some bytes, bytes.length⟩ o)) := by
  obtain ⟨-, ⟨f, hf, hbuf⟩ | ⟨mem, packet, r, n, s, rfl, -⟩ | ⟨hnone, -⟩⟩ := l.step_cases e
  · obtain rfl := Option.some.inj (h.symm.trans hf)
    rw [hbuf, IcnPacketBuffer.find_bufferIcnPacket, if_pos ⟨rfl, rfl, rfl, rfl⟩]
  · simp [LtpEvent.received] at h
  · simp [hnone] at h

theorem HoldsPieces.step_iff (hl : l.icnPacketBuffer.WellFormed)
    (h : l.HoldsPieces rCId nodeId key lim data) (e : LtpEvent) :
    Harmless rCId nodeId key lim data l e ↔
      (l.step e).state.HoldsPieces rCId nodeId key lim data := by
  constructor
  · intro hhar
    by_cases hpiece : ∀ i bytes, e.received l.nodeId = some ⟨rCId, nodeId, key, i, bytes⟩ →
        ∃ j < pieceCount lim data, i = j + 1 ∧ bytes = piece lim data j
    · exact h.step hl hpiece
    · -- a fragment of another message, which leaves the one that is there
      push Not at hpiece
      obtain ⟨i, bytes, hrec, hnot⟩ := hpiece
      obtain ⟨j, hj, hi, hbytes⟩ | ⟨d, hd, hlen⟩ := hhar i bytes hrec
      · exact absurd hbytes (hnot j hj hi)
      · intro sequenceMap hfind i' d' hget
        rw [find_step_received hrec, Option.some_inj] at hfind
        refine h.get ?_
        rw [← hget, ← hfind, get_alter]
        split
        · next hi => rw [hi, hd, putFragment, if_pos hlen]
        · rfl
  · intro hholds i bytes hrec
    have hput := find_step_received hrec
    have hpiece := hholds _ hput i _ (get_alter_self _ i _)
    cases ho : ((l.icnPacketBuffer.find rCId 0 nodeId key).getD ∅).get i with
    | none =>
      obtain ⟨j, hj, hi, hd⟩ := hpiece
      rw [ho, putFragment, PacketDescriptor.mk.injEq, Option.some_inj] at hd
      exact .inl ⟨j, hj, hi, hd.1⟩
    | some d' =>
      refine .inr ⟨d', rfl, ?_⟩
      -- with another length the block would have been freed
      by_contra hlen
      obtain ⟨j, -, -, hd⟩ := hpiece
      rw [ho, putFragment, if_neg hlen, PacketDescriptor.free] at hd
      simp at hd

/-- **When no fragment of the first message appears in the second one**: the session holds, and
`retrievePacket` returns, pieces of the second message if and only if every packet is harmless. -/
theorem fresh_iff (hl : l.icnPacketBuffer = ∅) (before events : List LtpEvent)
    (hfree : (l.run before).icnPacketBuffer.find rCId 0 nodeId sessionKey = none) (limit : ℕ)
    {data : List UInt8} (hsize : data.length ≤ 65535) :
    (Runs.Along (fun l e => (l.step e).state) (Harmless rCId nodeId sessionKey limit data)
        (l.run before) events ↔
      ∀ k, ((l.run before).run (events.take k)).HoldsPieces rCId nodeId sessionKey limit data) ∧
    (Runs.Along (fun l e => (l.step e).state) (Harmless rCId nodeId sessionKey limit data)
        (l.run before) events →
      ∀ (k : ℕ) (memory : ℕ → UInt8) (block block' : List UInt8) (size : ℕ),
        (((l.run before).run (events.take k)).icnPacketBuffer.retrievePacket memory block rCId nodeId
          sessionKey).1 = some (block', size) →
        ∃ numbers : List ℕ, numbers.Sublist (List.range (pieceCount limit data)) ∧
          block'.take size = (numbers.map (piece limit data)).flatten) := by
  have hempty : l.icnPacketBuffer.WellFormed := hl ▸ IcnPacketBuffer.wellFormed_empty
  have hstart : (l.run before).HoldsPieces rCId nodeId sessionKey limit data := by
    intro sequenceMap hfind
    simp [hfree] at hfind
  have hiff := Runs.along_iff (J := fun l => l.icnPacketBuffer.WellFormed)
    (I := fun l => l.HoldsPieces rCId nodeId sessionKey limit data)
    (fun l e hl => wellFormed_run hl [e]) (fun l e hl hpie => hpie.step_iff hl e) events
    (l.run before) (wellFormed_run hempty before) hstart
  refine ⟨hiff, ?_⟩
  intro halong k memory block block' size hret
  obtain ⟨_, -, hnum⟩ := (hiff.1 halong k).retrieved (by omega) hret
  exact ⟨_, hnum⟩

def single (b : UInt8) : LtpEvent :=
  .publishedDataISub (fun _ => 0) 7 1 (Ltp.exampleFragment b).packet

def retrieveSingle : LtpEvent := .retrieve (fun _ => 0) [] 7 1 3

/-- A duplicate of the first message after the second: the second is retrieved. -/
theorem fresh_late_duplicate :
    ((init 9).run [single 5, retrieveSingle]).icnPacketBuffer.find 7 0 1 3 = none ∧
      ∃ numbers : List ℕ, numbers.Sublist (List.range (pieceCount 8 [6])) ∧
        [6] = (numbers.map (piece 8 ([6] : List UInt8))).flatten := by
  have hfree : ((init 9).run [single 5, retrieveSingle]).icnPacketBuffer.find 7 0 1 3 = none := by
    decide +kernel
  have hrec (b : UInt8) : (single b).received 9 = some ⟨7, 1, 3, 1, [b]⟩ := by
    have hsize : [b].length < 65536 := by simp
    exact (fragmentIn_fragment Ltp.limitOk_eight hsize 3 (fun _ => 0) (i := 0) (by simp [pieceCount])
      (fun _ => 0) 7 1).2
  have halong : Runs.Along (fun l e => (l.step e).state) (Harmless 7 1 3 8 [6])
      ((init 9).run [single 5, retrieveSingle]) [single 6, single 5] := by
    refine ⟨?_, ?_, trivial⟩
    · intro i bytes h
      obtain ⟨-, -, -, rfl, rfl⟩ :=
        ReceivedFragment.mk.inj (Option.some.inj ((hrec 6).symm.trans h))
      exact .inl ⟨0, by decide, rfl, rfl⟩
    · intro i bytes h
      obtain ⟨-, -, -, rfl, rfl⟩ :=
        ReceivedFragment.mk.inj (Option.some.inj ((hrec 5).symm.trans h))
      exact .inr ⟨⟨some [6], 1⟩, by decide +kernel, rfl⟩
  exact ⟨hfree, (fresh_iff rfl [single 5, retrieveSingle] [single 6, single 5] hfree 8
    (by decide : ([6] : List UInt8).length ≤ 65535)).2 halong 2 (fun _ => 0) [] [6] 1
      (by decide +kernel)⟩

/-- A duplicate of the first message before the second: the first is retrieved. -/
theorem not_fresh : ((init 9).run [single 5, retrieveSingle]).icnPacketBuffer.find 7 0 1 3 = none ∧
      ((((init 9).run [single 5, retrieveSingle]).run [single 5, single 6]).step (ended 1)).tpState =
        .allFragmentsReceived ∧
      ((((init 9).run [single 5, retrieveSingle]).run [single 5, single 6]).icnPacketBuffer
        |>.retrievePacket (fun _ => 0) [] 7 1 3).1 = some ([5], 1) ∧
      ¬ (((init 9).run [single 5, retrieveSingle]).run [single 5, single 6]).HoldsPieces 7 1 3 8
        [6] := by
  refine ⟨by decide +kernel, by decide +kernel, by decide +kernel, ?_⟩
  intro hpie
  have hfind : (((init 9).run [single 5, retrieveSingle]).run [single 5, single 6]).icnPacketBuffer.find
      7 0 1 3 = some (set ∅ 1 ⟨some [5], 1⟩) := by decide +kernel
  obtain ⟨j, -, hj, hd⟩ := hpie _ hfind 1 ⟨some [5], 1⟩ (by decide)
  obtain rfl : j = 0 := by omega
  revert hd
  decide

end

end Blackadder.Lightweight
