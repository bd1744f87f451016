/-
**Delivery by the lightweight transport protocol.**

A message that is alone in its session is delivered as it was published. But a CTRL-WED is also
sent without a look at the fragments, for a session or a node that is not in the buffer, and the
fragments of an earlier message count as well.
-/

import Blackadder.Lightweight
import Mathlib.Data.List.Flatten
import Mathlib.Data.List.Induction
import Mathlib.Data.List.Sort

namespace Blackadder

open OrderedMap List
open LtpEvent (fragmentIn)
open Buffer (piece pieceCount)
open IcnPacketBuffer (get_single putFragment total wellFormed_empty)
open Option (bind_some some_inj)

/-! ### The receive buffer along a run -/

namespace Lightweight

theorem run_concat (l : Lightweight) (evs : List LtpEvent) (e : LtpEvent) :
    l.run (evs ++ [e]) = ((l.run evs).step e).state := by
  rw [run, foldl_append]
  rfl

theorem nodeId_run (l : Lightweight) (evs : List LtpEvent) : (l.run evs).nodeId = l.nodeId := by
  induction evs using reverseRecOn with
  | nil => rfl
  | append_singleton evs e ih => rw [run_concat, ((l.run evs).step_cases e).1, ih]

theorem wellFormed_run {l : Lightweight} (h : l.icnPacketBuffer.WellFormed)
    (evs : List LtpEvent) : (l.run evs).icnPacketBuffer.WellFormed := by
  induction evs using reverseRecOn with
  | nil => exact h
  | append_singleton evs e ih =>
    rw [run_concat]
    obtain ⟨-, ⟨f, -, hf⟩ | ⟨mem, packet, r, n, s, -, hr⟩ | ⟨-, hsame⟩⟩ := (l.run evs).step_cases e
    · rw [hf]
      exact ih.bufferIcnPacket _ _ _ _ _
    · rw [hr]
      exact ih.retrievePacket _ _ _ _ _
    · rw [hsame]
      exact ih

theorem find_step {l : Lightweight} (h : l.icnPacketBuffer.WellFormed) (e : LtpEvent) (r n s : ℕ) :
    (l.step e).state.icnPacketBuffer.find r 0 n s = none ∨
    (l.step e).state.icnPacketBuffer.find r 0 n s = l.icnPacketBuffer.find r 0 n s ∨
    ∃ i bytes, e.received l.nodeId = some ⟨r, n, s, i, bytes⟩ ∧
      (l.step e).state.icnPacketBuffer.find r 0 n s =
        some (((l.icnPacketBuffer.find r 0 n s).getD ∅).alter i fun o =>
          some (putFragment ⟨some bytes, bytes.length⟩ o)) := by
  obtain ⟨-, ⟨f, hrec, hf⟩ | ⟨mem, packet, r', n', s', -, hr⟩ | ⟨-, hsame⟩⟩ := l.step_cases e
  · rw [hf, IcnPacketBuffer.find_bufferIcnPacket]
    split
    case isTrue hk =>
      obtain ⟨rfl, -, rfl, rfl⟩ := hk
      exact .inr (.inr ⟨f.sequenceNumber, f.bytes, hrec, rfl⟩)
    · exact .inr (.inl rfl)
  · rw [hr]
    exact (h.find_retrievePacket mem packet r' n' s' r 0 n s).imp_right Or.inl
  · rw [hsame]
    exact .inr (.inl rfl)

def oneByte (nodeId : ℕ) (sessionKey : UInt16) (b : UInt8) : LtpEvent :=
  .publishedDataISub (fun _ => 0) 7 nodeId (LtpMessage.data sessionKey 1 1 [b]).bytes

end Lightweight

/-! ### Messages and sessions -/

namespace LtpEvent

def packet : LtpEvent → List UInt8
  | .publishedData _ _ packet | .publishedDataISub _ _ _ packet => packet
  | .retrieve _ _ _ _ _ | .otherThreads _ => []

def sessionIn (rCId nodeId : ℕ) (packet : List UInt8) : Option (ℕ × ℕ × ℕ) :=
  match LtpMessage.read packet with
  | .data sessionKey _ _ _ | .windowEnd _ sessionKey _ => some (rCId, nodeId, sessionKey.toNat)
  | _ => none

def session (own : ℕ) : LtpEvent → Option (ℕ × ℕ × ℕ)
  | .publishedData _ rCId packet => sessionIn rCId own packet
  | .publishedDataISub _ rCId nodeId packet => sessionIn rCId nodeId packet
  | .retrieve _ _ _ _ _ | .otherThreads _ => none

structure WindowEnd where
  rCId : ℕ
  ripd : ℕ
  nodeId : ℕ
  sessionKey : UInt16
  sequenceNumber : ℕ

def windowEndIn (rCId nodeId : ℕ) (packet : List UInt8) : Option WindowEnd :=
  match LtpMessage.read packet with
  | .windowEnd ripd sessionKey sequenceNumber =>
    some ⟨rCId, ripd.toNat, nodeId, sessionKey, sequenceNumber.toNat⟩
  | _ => none

def windowEnd (own : ℕ) : LtpEvent → Option WindowEnd
  | .publishedData _ rCId packet => windowEndIn rCId own packet
  | .publishedDataISub _ rCId nodeId packet => windowEndIn rCId nodeId packet
  | .retrieve _ _ _ _ _ | .otherThreads _ => none

end LtpEvent

namespace LtpPublication

def packet : LtpPublication → List UInt8
  | .data _ _ packet | .iSub _ _ packet => packet

def rCId : LtpPublication → ℕ
  | .data rCId _ _ | .iSub _ rCId _ => rCId

def Confirms (published : List LtpPublication) (rCId : ℕ) (sessionKey : UInt16) : Prop :=
  ∃ p ∈ published, p.rCId = rCId ∧ ∃ ripd, LtpMessage.read p.packet = .windowEnded ripd sessionKey

end LtpPublication

namespace Lightweight

section
variable {l : Lightweight} {e : LtpEvent} {w : LtpEvent.WindowEnd} {seqs : SequenceMap}

variable {mem : ℕ → UInt8} {rCId nid : ℕ} {key : UInt16} {buf : IcnPacketBuffer}
  {ripd : UInt32}

theorem not_confirms_nack {check : SequenceCheck} {p : LtpPublication}
    (hp : p.packet = packControl mem (check.nack key)) :
    ¬ LtpPublication.Confirms [p] rCId key := by
  rintro ⟨p', hp', -, ripd, hread⟩
  rw [mem_singleton.1 hp', hp, packControl] at hread
  exact LtpMessage.noConfusion hread

theorem not_confirms_nil : ¬ LtpPublication.Confirms [] rCId key := by
  rintro ⟨p, hp, -⟩
  simp at hp

theorem find_eq_some {r p n s : ℕ} (h : buf.find r p n s = some seqs) :
    ∃ nids skm, ((buf.get r).bind fun pridMap => pridMap.get p) = some nids ∧
      nids.get n = some skm ∧ skm.get s = some seqs := by
  obtain ⟨pridMap, hr, h⟩ := Option.bind_eq_some_iff.1 h
  obtain ⟨nids, hp, h⟩ := Option.bind_eq_some_iff.1 h
  obtain ⟨skm, hn, hs⟩ := Option.bind_eq_some_iff.1 h
  exact ⟨nids, skm, by rw [hr, bind_some, hp], hn, hs⟩

theorem handleWindowEnd_of_find
    (h : l.icnPacketBuffer.find rCId ripd.toNat l.nodeId key.toNat = some seqs)
    (n : UInt16) : l.handleWindowEnd mem rCId ripd key n = match l.cIdReverseLookUp.get rCId with
      | none => noAction l []
      | some _ =>
        if (checkSequences seqs n.toNat).allFragmentsReceived then
          ⟨l, .allFragmentsReceived, some key.toNat, toCId mem l rCId (.windowEnded ripd key)⟩
        else
          noAction l (toCId mem l rCId ((checkSequences seqs n.toNat).nack key)) := by
  obtain ⟨nids, skm, hr, hn, hs⟩ := find_eq_some h
  rw [handleWindowEnd, hr]
  dsimp only
  rw [hn]
  dsimp only
  cases l.cIdReverseLookUp.get rCId with
  | none | some cId => rw [hs]

theorem handleWindowEndISub_of_find
    (h : l.icnPacketBuffer.find rCId ripd.toNat nid key.toNat = some seqs)
    (n : UInt16) : l.handleWindowEndISub mem rCId nid ripd key n =
      if (checkSequences seqs n.toNat).allFragmentsReceived then
        ⟨l.enableNIdInCmcGroup rCId nid, .allFragmentsReceived, some key.toNat,
          (l.enableNIdInCmcGroup rCId nid).publishWindowEnded mem rCId nid key⟩
      else
        outstanding (l.enableNIdInCmcGroup rCId nid) [.data rCId [nid] (packControl mem
          ((checkSequences seqs n.toNat).nack key))] := by
  have hfind : (l.enableNIdInCmcGroup rCId nid).icnPacketBuffer.find rCId ripd.toNat nid
      key.toNat = some seqs := h
  rw [handleWindowEndISub]
  simp [hfind]

theorem windowEndIn_eq_some {pkt : List UInt8} (h : LtpEvent.windowEndIn rCId nid pkt = some w) :
    ∃ ripd n, LtpMessage.read pkt = .windowEnd ripd w.sessionKey n ∧
      w = ⟨rCId, ripd.toNat, nid, w.sessionKey, n.toNat⟩ := by
  rw [LtpEvent.windowEndIn] at h
  split at h
  case h_1 ripd key n hread =>
    obtain rfl := Option.some.inj h
    exact ⟨ripd, n, hread, rfl⟩
  case h_2 => simp at h

theorem check_of_confirms (hwe : e.windowEnd l.nodeId = some w)
    (hfind : l.icnPacketBuffer.find w.rCId w.ripd w.nodeId w.sessionKey.toNat = some seqs)
    (hsent : LtpPublication.Confirms (l.step e).published w.rCId w.sessionKey) :
    (checkSequences seqs w.sequenceNumber).allFragmentsReceived = true := by
  cases e with
  | publishedData mem rCId pkt =>
    obtain ⟨ripd, n, hread, hw⟩ := windowEndIn_eq_some hwe
    rw [hw] at hfind hsent ⊢
    rw [step, handle, hread] at hsent
    dsimp only at hfind hsent ⊢
    rw [handleWindowEnd_of_find hfind] at hsent
    by_contra hnot
    rw [if_neg hnot] at hsent
    split at hsent
    case h_1 => exact not_confirms_nil hsent
    case h_2 cId hcId =>
      rw [toCId, hcId] at hsent
      exact not_confirms_nack rfl hsent
  | publishedDataISub mem rCId nid pkt =>
    obtain ⟨ripd, n, hread, hw⟩ := windowEndIn_eq_some hwe
    rw [hw] at hfind hsent ⊢
    rw [step, handleISub, hread] at hsent
    dsimp only at hfind hsent ⊢
    rw [← (sameReceiver_addNodeId l nid).icnPacketBuffer] at hfind
    rw [handleWindowEndISub_of_find hfind] at hsent
    by_contra hnot
    rw [if_neg hnot] at hsent
    exact not_confirms_nack rfl hsent
  | retrieve | otherThreads => simp [LtpEvent.windowEnd] at hwe

theorem find_of_get {r p n s : ℕ} {nids : NodeIdMap} {skm : SessionKeyMap}
    (hr : ((buf.get r).bind fun pridMap => pridMap.get p) = some nids)
    (hn : nids.get n = some skm) : buf.find r p n s = skm.get s := by
  rw [IcnPacketBuffer.find]
  simp only [← Option.bind_assoc]
  rw [hr, bind_some, hn, bind_some]

theorem check_of_handleWindowEnd {n : UInt16}
    (h : (l.handleWindowEnd mem rCId ripd key n).tpState = .allFragmentsReceived) :
    ∃ seqs, l.icnPacketBuffer.find rCId ripd.toNat l.nodeId key.toNat = some seqs ∧
      (checkSequences seqs n.toNat).allFragmentsReceived = true := by
  cases hfind : l.icnPacketBuffer.find rCId ripd.toNat l.nodeId key.toNat with
  | none =>
    rw [handleWindowEnd] at h
    split at h
    case h_1 => simp [noAction] at h
    case h_2 nids hr =>
      split at h
      case h_1 => simp [noAction] at h
      case h_2 skm hn =>
        rw [find_of_get hr hn] at hfind
        simp [hfind, noAction] at h
  | some seqs =>
    rw [handleWindowEnd_of_find hfind] at h
    refine ⟨seqs, rfl, ?_⟩
    by_contra hnot
    split at h
    case h_1 => simp [noAction] at h
    case h_2 => simp [hnot, noAction] at h

theorem check_of_handleWindowEndISub {n : UInt16}
    (h : (l.handleWindowEndISub mem rCId nid ripd key n).tpState = .allFragmentsReceived) :
    ∃ seqs, l.icnPacketBuffer.find rCId ripd.toNat nid key.toNat = some seqs ∧
      (checkSequences seqs n.toNat).allFragmentsReceived = true := by
  cases hfind : l.icnPacketBuffer.find rCId ripd.toNat nid key.toNat with
  | none =>
    have hfind' : (l.enableNIdInCmcGroup rCId nid).icnPacketBuffer.find rCId ripd.toNat nid
        key.toNat = none := hfind
    rw [handleWindowEndISub] at h
    simp [hfind', outstanding] at h
  | some seqs =>
    rw [handleWindowEndISub_of_find hfind] at h
    refine ⟨seqs, rfl, ?_⟩
    by_contra hnot
    simp [hnot, outstanding] at h

end

/-! ### What is confirmed -/

section
variable {l : Lightweight}

theorem received_of_find (hl : l.icnPacketBuffer = ∅) (evs : List LtpEvent) {r n s i : ℕ}
    {seqs : SequenceMap} {d : PacketDescriptor} {bytes : List UInt8}
    (hfind : (l.run evs).icnPacketBuffer.find r 0 n s = some seqs)
    (hget : seqs.get i = some d) (hblock : d.block = some bytes) :
    ∃ e ∈ evs, e.received l.nodeId = some ⟨r, n, s, i, bytes⟩ := by
  have hempty : l.icnPacketBuffer.WellFormed := hl ▸ wellFormed_empty
  induction evs using reverseRecOn generalizing seqs d with
  | nil =>
    rw [run, foldl_nil, hl] at hfind
    simp [IcnPacketBuffer.find] at hfind
  | append_singleton evs e ih =>
    have hear : (∃ e ∈ evs, e.received l.nodeId = some ⟨r, n, s, i, bytes⟩) →
        ∃ e' ∈ evs ++ [e], e'.received l.nodeId = some ⟨r, n, s, i, bytes⟩ := by
      rintro ⟨e', he', h⟩
      exact ⟨e', mem_append_left _ he', h⟩
    rw [run_concat] at hfind
    obtain hnone | hsame | ⟨i', bytes', hrec, hput⟩ := find_step (wellFormed_run hempty evs) e r n s
    · simp [hnone] at hfind
    · exact hear (ih (hsame ▸ hfind) hget hblock)
    · rw [hput, some_inj] at hfind
      rw [← hfind, get_alter] at hget
      -- an older fragment was received before
      have hold {d' : PacketDescriptor} (hd' : d'.block = some bytes)
          (h : ((((l.run evs).icnPacketBuffer.find r 0 n s).getD ∅).get i) = some d') :
          ∃ e ∈ evs, e.received l.nodeId = some ⟨r, n, s, i, bytes⟩ := by
        cases hmap : (l.run evs).icnPacketBuffer.find r 0 n s with
        | none => simp [hmap] at h
        | some old => exact ih hmap (by simpa [hmap] using h) hd'
      split at hget
      case isFalse => exact hear (hold hblock hget)
      case isTrue hi =>
        subst hi
        cases ho : (((l.run evs).icnPacketBuffer.find r 0 n s).getD ∅).get i with
        | none =>
          rw [ho, putFragment, some_inj] at hget
          rw [← hget, some_inj] at hblock
          exact ⟨e, by simp, hblock ▸ (nodeId_run l evs ▸ hrec)⟩
        | some d' =>
          rw [ho, putFragment, some_inj] at hget
          split at hget
          · exact hear (hold (hget ▸ hblock) ho)
          · rw [← hget] at hblock
            simp [PacketDescriptor.free] at hblock

/-- The session of a CTRL-WE is in the buffer with fragments of `message` only. -/
def Holds (l : Lightweight) (w : LtpEvent.WindowEnd) (message : ℕ → List UInt8) : Prop :=
  ∃ sequenceMap, l.icnPacketBuffer.find w.rCId w.ripd w.nodeId w.sessionKey.toNat =
      some sequenceMap ∧
    ∀ i d, sequenceMap.get i = some d → d.block = some (message i)

theorem received_of_holds (hl : l.icnPacketBuffer = ∅) {evs : List LtpEvent} {e : LtpEvent}
    {w : LtpEvent.WindowEnd} {msg : ℕ → List UInt8} (hwe : e.windowEnd l.nodeId = some w)
    (hholds : (l.run evs).Holds w msg)
    (hsent : LtpPublication.Confirms ((l.run evs).step e).published w.rCId w.sessionKey)
    {i : ℕ} (hi : 1 ≤ i) (hn : i ≤ w.sequenceNumber) :
    ∃ e' ∈ evs, e'.received l.nodeId = some ⟨w.rCId, w.nodeId, w.sessionKey.toNat, i, msg i⟩ := by
  have hempty : l.icnPacketBuffer.WellFormed := hl ▸ wellFormed_empty
  obtain ⟨seqs, hfind, hmes⟩ := hholds
  have hcheck := check_of_confirms (nodeId_run l evs ▸ hwe) hfind hsent
  obtain ⟨hkeys, hle⟩ := (checkSequences_all_iff _ _).1 hcheck
  have hmem : i ∈ seqs.entries.map Prod.fst := by
    rw [hkeys, mem_range'_1]
    omega
  obtain ⟨⟨i', d⟩, hentry, rfl⟩ := mem_map.1 hmem
  have hget : seqs.get i' = some d := mem_entries_iff.1 hentry
  rw [(wellFormed_run hempty evs).ripd_eq_zero hfind] at hfind
  exact received_of_find hl evs hfind hget (hmes i' d hget)

/-- The session of a CTRL-WE holds fragments of its message only, or did when the CTRL-WE was
confirmed before. -/
def Grounded (l : Lightweight) (events : List LtpEvent) (w : LtpEvent.WindowEnd)
    (message : ℕ → List UInt8) : Prop :=
  (l.run events).Holds w message ∨
    ∃ before e after, events = before ++ e :: after ∧ e.windowEnd l.nodeId = some w ∧
      (l.run before).Holds w message ∧
      LtpPublication.Confirms ((l.run before).step e).published w.rCId w.sessionKey

/-- **When a confirmation is right.** In every run a CTRL-WED means that all fragments were
received, if the session holds fragments of this message only. -/
theorem received_of_confirms (hl : l.icnPacketBuffer = ∅) (events : List LtpEvent) (e : LtpEvent)
    (w : LtpEvent.WindowEnd) (message : ℕ → List UInt8) (hwe : e.windowEnd l.nodeId = some w)
    (hgrounded : l.Grounded events w message)
    (hsent : LtpPublication.Confirms ((l.run events).step e).published w.rCId w.sessionKey) :
    ∀ i, 1 ≤ i → i ≤ w.sequenceNumber → ∃ e' ∈ events, e'.received l.nodeId =
      some ⟨w.rCId, w.nodeId, w.sessionKey.toNat, i, message i⟩ := by
  intro i hi hn
  obtain hholds | ⟨before, e₀, after, rfl, hwe₀, hholds, hsent₀⟩ := hgrounded
  · exact received_of_holds hl hwe hholds hsent hi hn
  · obtain ⟨e', he', h⟩ := received_of_holds hl hwe₀ hholds hsent₀ hi hn
    exact ⟨e', mem_append_left _ he', h⟩

def forwarding : Lightweight := { init 9 with knownNIds := OrderedMap.set ∅ 1 true }

def ended (n : UInt16) : LtpEvent :=
  .publishedDataISub (fun _ => 0) 7 1 (LtpMessage.windowEnd 0 3 n).bytes

theorem confirms_of_published {published : List LtpPublication}
    (h : published = [.data 7 [1] (packControl (fun _ => 0) (.windowEnded 0 3))]) :
    LtpPublication.Confirms published 7 3 := by
  rw [h]
  exact ⟨_, mem_singleton.2 rfl, rfl, 0, LtpMessage.read_bytes_append (.windowEnded 0 3) _⟩

theorem received_of_confirms_one :
    LtpPublication.Confirms ((forwarding.run [oneByte 1 3 5]).step (ended 1)).published 7 3 ∧
      ∀ i, 1 ≤ i → i ≤ 1 → ∃ e' ∈ [oneByte 1 3 5], e'.received 9 = some ⟨7, 1, 3, i, [5]⟩ := by
  have hsent : LtpPublication.Confirms
      ((forwarding.run [oneByte 1 3 5]).step (ended 1)).published 7 3 :=
    confirms_of_published (by decide +kernel)
  have hholds : (forwarding.run [oneByte 1 3 5]).Holds ⟨7, 0, 1, 3, 1⟩ fun _ => [5] := by
    refine ⟨set ∅ 1 ⟨some [5], 1⟩, by decide +kernel, ?_⟩
    intro i d hd
    rw [get_set] at hd
    split at hd
    · exact (Option.some.inj hd) ▸ rfl
    · simp at hd
  exact ⟨hsent, received_of_confirms rfl _ (ended 1) ⟨7, 0, 1, 3, 1⟩ (fun _ => [5]) rfl
    (.inl hholds) hsent⟩

/-- Nothing was received, and five fragments are confirmed; a fragment of another message is
confirmed as `[6]`. -/
theorem confirms_without_receiving :
    (LtpPublication.Confirms ((forwarding.run []).step (ended 5)).published 7 3 ∧
      ¬ ∃ e' ∈ ([] : List LtpEvent), e'.received 9 = some ⟨7, 1, 3, 1, [6]⟩) ∧
    (LtpPublication.Confirms ((forwarding.run [oneByte 1 3 5]).step (ended 1)).published 7 3 ∧
      ¬ ∃ e' ∈ [oneByte 1 3 5], e'.received 9 = some ⟨7, 1, 3, 1, [6]⟩) := by
  refine ⟨⟨confirms_of_published (by decide +kernel), by simp⟩,
    confirms_of_published (by decide +kernel), ?_⟩
  rintro ⟨e', he', h⟩
  obtain rfl := mem_singleton.1 he'
  have hbytes := congrArg (Option.map ReceivedFragment.bytes) h
  revert hbytes
  decide +kernel

end

/-! ### What is delivered -/

end Lightweight

namespace Ltp

def packets (limit : ℕ) (sessionKey : UInt16) (data : List UInt8) (junk : ℕ → UInt8) :
    Option (List (List UInt8)) :=
  (fragments limit sessionKey data junk).map fun fs =>
    fs.map Fragment.packet ++ [(LtpMessage.windowEnd 0 sessionKey (UInt16.ofNat fs.length)).bytes]

end Ltp

namespace Lightweight

section
variable {lim : ℕ} {data : List UInt8} {key : UInt16} {junk : ℕ → UInt8}
  {packets : List (List UInt8)} {l : Lightweight} {rCId nid : ℕ} {e : LtpEvent}

theorem mem_packets (hlimit : Ltp.LimitOk lim) (hsize : data.length < 65536)
    (hpac : Ltp.packets lim key data junk = some packets) {pkt : List UInt8} (h : pkt ∈ packets) :
    (∃ i < pieceCount lim data, pkt = (Ltp.fragment lim key data junk i).packet) ∨
    pkt = (LtpMessage.windowEnd 0 key (UInt16.ofNat (pieceCount lim data))).bytes := by
  rw [Ltp.packets, hlimit.fragments_eq hsize, Option.map_some, some_inj] at hpac
  rw [← hpac, length_map] at h
  simpa [eq_comm] using h

theorem session_of_received {own : ℕ} {f : ReceivedFragment} (h : e.received own = some f) :
    e.session own = some (f.rCId, f.nodeId, f.sessionKey) := by
  have hin {mem : ℕ → UInt8} {r n : ℕ} {pkt : List UInt8} (h : fragmentIn mem r n pkt = some f) :
      LtpEvent.sessionIn r n pkt = some (f.rCId, f.nodeId, f.sessionKey) := by
    rw [fragmentIn] at h
    rw [LtpEvent.sessionIn]
    split at h
    case h_1 hread =>
      obtain rfl := Option.some.inj h
      rw [hread]
    case h_2 => simp at h
  cases e with
  | publishedData mem r pkt | publishedDataISub mem r n pkt => exact hin h
  | retrieve | otherThreads => simp [LtpEvent.received] at h

variable {i s : ℕ}

section
variable (hlimit : Ltp.LimitOk lim) (hsize : data.length < 65536)
include hlimit hsize

theorem fragmentIn_fragment (key : UInt16) (junk : ℕ → UInt8) (hi : i < pieceCount lim data)
    (mem : ℕ → UInt8) (r n : ℕ) :
    LtpEvent.sessionIn r n (Ltp.fragment lim key data junk i).packet = some (r, n, key.toNat) ∧
      fragmentIn mem r n (Ltp.fragment lim key data junk i).packet =
        some ⟨r, n, key.toNat, i + 1, piece lim data i⟩ := by
  obtain ⟨payload, hread, hcopy⟩ := hlimit.read_fragment
    ((Buffer.lt_pieceCount_iff hlimit.pos).1 hi) key junk
  have hnum : (UInt16.ofNat (i + 1)).toNat = i + 1 := by
    have := hlimit.pieceCount_lt hsize
    rw [UInt16.toNat_ofNat', Nat.mod_eq_of_lt (by omega)]
  refine ⟨by rw [LtpEvent.sessionIn, hread], ?_⟩
  rw [fragmentIn, hread]
  dsimp only
  rw [hcopy, hnum]

section
variable (hpac : Ltp.packets lim key data junk = some packets)
include hpac

theorem read_packet {pkt : List UInt8} (h : pkt ∈ packets) (mem : ℕ → UInt8) (r n : ℕ) :
    LtpEvent.sessionIn r n pkt = some (r, n, key.toNat) ∧
      ((∃ i < pieceCount lim data, fragmentIn mem r n pkt =
          some ⟨r, n, key.toNat, i + 1, piece lim data i⟩) ∨
        LtpMessage.read pkt = .windowEnd 0 key (UInt16.ofNat (pieceCount lim data))) := by
  obtain ⟨i, hi, rfl⟩ | rfl := mem_packets hlimit hsize hpac h
  · obtain ⟨hses, hfra⟩ := fragmentIn_fragment hlimit hsize key junk hi mem r n
    exact ⟨hses, .inl ⟨i, hi, hfra⟩⟩
  · have hread := LtpMessage.read_bytes_append
      (.windowEnd 0 key (UInt16.ofNat (pieceCount lim data))) []
    rw [append_nil] at hread
    exact ⟨by rw [LtpEvent.sessionIn, hread]; rfl, .inr hread⟩

theorem piece_of_received {own : ℕ} {bytes : List UInt8} (hmem : e.packet ∈ packets)
    (h : e.received own = some ⟨rCId, nid, key.toNat, i, bytes⟩) :
    ∃ j < pieceCount lim data, i = j + 1 ∧ bytes = piece lim data j := by
  have hin {mem : ℕ → UInt8} {r n : ℕ} {pkt : List UInt8} (hmem : pkt ∈ packets)
      (h : fragmentIn mem r n pkt = some ⟨rCId, nid, key.toNat, i, bytes⟩) :
      ∃ j < pieceCount lim data, i = j + 1 ∧ bytes = piece lim data j := by
    obtain ⟨-, ⟨j, hj, hfra⟩ | hread⟩ := read_packet hlimit hsize hpac hmem mem r n
    · rw [hfra, some_inj, ReceivedFragment.mk.injEq] at h
      exact ⟨j, hj, h.2.2.2.1.symm, h.2.2.2.2.symm⟩
    · rw [fragmentIn, hread] at h
      simp at h
  cases e with
  | publishedData mem r pkt | publishedDataISub mem r n pkt => exact hin hmem h
  | retrieve | otherThreads => simp [LtpEvent.received] at h

end

end

/-- The buffer holds pieces of the message for a session, and nothing else. -/
def HoldsPieces (l : Lightweight) (rCId nodeId sessionKey limit : ℕ) (data : List UInt8) : Prop :=
  ∀ sequenceMap, l.icnPacketBuffer.find rCId 0 nodeId sessionKey = some sequenceMap →
    ∀ i d, sequenceMap.get i = some d → ∃ j < pieceCount limit data, i = j + 1 ∧
      d = ⟨some (piece limit data j), (piece limit data j).length⟩

theorem HoldsPieces.get {d : PacketDescriptor} (h : l.HoldsPieces rCId nid s lim data)
    (hd : ((l.icnPacketBuffer.find rCId 0 nid s).getD ∅).get i = some d) :
    ∃ j < pieceCount lim data, i = j + 1 ∧
      d = ⟨some (piece lim data j), (piece lim data j).length⟩ := by
  cases hmap : l.icnPacketBuffer.find rCId 0 nid s with
  | none => simp [hmap] at hd
  | some old => exact h old hmap i d (by simpa [hmap] using hd)

theorem HoldsPieces.step (h : l.HoldsPieces rCId nid s lim data) (hl : l.icnPacketBuffer.WellFormed)
    (hrec : ∀ i bytes, e.received l.nodeId = some ⟨rCId, nid, s, i, bytes⟩ →
      ∃ j < pieceCount lim data, i = j + 1 ∧ bytes = piece lim data j) :
    (l.step e).state.HoldsPieces rCId nid s lim data := by
  intro seqs hfind i d hget
  obtain hnone | hsame | ⟨i', bytes, hbytes, hput⟩ := find_step hl e rCId nid s
  · simp [hnone] at hfind
  · exact h seqs (hsame ▸ hfind) i d hget
  · obtain ⟨j, hj, rfl, rfl⟩ := hrec i' bytes hbytes
    rw [hput, some_inj] at hfind
    rw [← hfind, get_alter] at hget
    split at hget
    case isFalse => exact h.get hget
    case isTrue hi =>
      subst hi
      refine ⟨j, hj, rfl, ?_⟩
      cases ho : ((l.icnPacketBuffer.find rCId 0 nid s).getD ∅).get (j + 1) with
      | none =>
        rw [ho, some_inj] at hget
        exact hget.symm
      | some d' =>
        -- a fragment that arrives again has the length of the first one
        obtain ⟨j', -, hj', rfl⟩ := h.get ho
        obtain rfl : j = j' := by omega
        rw [ho, putFragment, if_pos rfl, some_inj] at hget
        exact hget.symm

theorem holdsPieces_run (hl : l.icnPacketBuffer.WellFormed) (hlimit : Ltp.LimitOk lim)
    (hsize : data.length < 65536) (hpac : Ltp.packets lim key data junk = some packets)
    (hfree : l.icnPacketBuffer.find rCId 0 nid key.toNat = none) (evs : List LtpEvent)
    (heve : ∀ e ∈ evs, e.session l.nodeId = some (rCId, nid, key.toNat) → e.packet ∈ packets) :
    (l.run evs).HoldsPieces rCId nid key.toNat lim data := by
  induction evs using reverseRecOn with
  | nil =>
    intro seqs hfind
    rw [run, foldl_nil, hfree] at hfind
    simp at hfind
  | append_singleton evs e ih =>
    rw [run_concat]
    refine (ih fun e' he' => heve e' (mem_append_left _ he')).step (wellFormed_run hl evs) ?_
    intro i bytes hrec
    rw [nodeId_run] at hrec
    exact piece_of_received hlimit hsize hpac (heve e (by simp) (session_of_received hrec)) hrec

theorem HoldsPieces.retrieved (h : l.HoldsPieces rCId nid s lim data) (hsize : data.length < 65536)
    {mem : ℕ → UInt8} {block block' : List UInt8} {size : ℕ}
    (hret : (l.icnPacketBuffer.retrievePacket mem block rCId nid s).1 = some (block', size)) :
    ∃ seqs, l.icnPacketBuffer.find rCId 0 nid s = some seqs ∧
      (seqs.entries.map fun e => e.1 - 1).Sublist (List.range (pieceCount lim data)) ∧
      block'.take size = ((seqs.entries.map fun e => e.1 - 1).map (piece lim data)).flatten := by
  obtain ⟨-, heq⟩ | ⟨a, m, c, seqs, ha, hm, hc, hs, heq⟩ :=
    IcnPacketBuffer.retrievePacket_cases mem block l.icnPacketBuffer rCId nid s
  · simp [heq] at hret
  · rw [heq, Option.some_inj, Prod.mk.injEq] at hret
    have hfind : l.icnPacketBuffer.find rCId 0 nid s = some seqs := by
      rw [IcnPacketBuffer.find, ha, bind_some, hm, bind_some, hc, bind_some, hs]
    have hentry : ∀ e ∈ seqs.entries, ∃ j < pieceCount lim data, e.1 = j + 1 ∧
        e.2 = ⟨some (piece lim data j), (piece lim data j).length⟩ := by
      intro e he
      exact h seqs hfind e.1 e.2 (mem_entries_iff.1 he)
    have hread : ∀ e ∈ seqs.entries, e.2.read mem = piece lim data (e.1 - 1) ∧
          (e.2.read mem).length = e.2.length := by
      intro e he
      obtain ⟨j, -, hj, hd⟩ := hentry e he
      rw [hd, hj]
      exact ⟨rfl, rfl⟩
    have hsubl : (seqs.entries.map fun e => e.1 - 1).Sublist
        (range (pieceCount lim data)) := by
      have hsor : (seqs.entries.map fun e => e.1 - 1).Pairwise (· < ·) := by
        refine pairwise_map.2 (seqs.sorted.imp_of_mem ?_)
        intro e e' he he' hlt
        obtain ⟨j, -, hj, -⟩ := hentry e he
        omega
      refine sublist_of_subperm_of_pairwise ?_ hsor pairwise_lt_range
      refine subperm_of_subset (hsor.imp Nat.ne_of_lt) ?_
      intro i hi
      obtain ⟨e, he, rfl⟩ := mem_map.1 hi
      obtain ⟨j, hj, hj', -⟩ := hentry e he
      rw [mem_range]
      omega
    have hbytes : (seqs.entries.map fun e => e.2.read mem) =
        (seqs.entries.map fun e => e.1 - 1).map (piece lim data) := by
      rw [map_map]
      exact map_congr_left fun e he => (hread e he).1
    have htot : total seqs.entries < 65536 := by
      have hlen := ((hsubl.map (piece lim data)).flatten).length_le
      rw [← hbytes, Buffer.flatten_pieces, length_take, length_flatten, map_map] at hlen
      rw [total, ← map_congr_left fun e he => (hread e he).2]
      exact Nat.lt_of_le_of_lt (hlen.trans (Nat.min_le_right _ _)) hsize
    refine ⟨_, hfind, hsubl, ?_⟩
    rw [← hret.1, ← hret.2,
      IcnPacketBuffer.take_copyFragments (fun e he => (hread e he).2) htot, hbytes]

theorem HoldsPieces.retrievePacket (h : l.HoldsPieces rCId nid s lim data)
    (hlimit : Ltp.LimitOk lim) (hsize : data.length < 65536) {seqs : SequenceMap}
    (hfind : l.icnPacketBuffer.find rCId 0 nid s = some seqs)
    (hcheck : (checkSequences seqs (pieceCount lim data)).allFragmentsReceived = true)
    (mem : ℕ → UInt8) (block : List UInt8) :
    ∃ block' size, (l.icnPacketBuffer.retrievePacket mem block rCId nid s).1 =
      some (block', size) ∧ block'.take size = data := by
  obtain ⟨hnone, -⟩ | ⟨a, m, c, d, -, -, -, -, heq⟩ :=
    IcnPacketBuffer.retrievePacket_cases mem block l.icnPacketBuffer rCId nid s
  · simp [hfind] at hnone
  refine ⟨_, _, congrArg Prod.fst heq, ?_⟩
  obtain ⟨d', hd', hsubl, hbytes⟩ := h.retrieved hsize (congrArg Prod.fst heq)
  obtain rfl := Option.some.inj (hfind.symm.trans hd')
  rw [hbytes, hsubl.eq_of_length_le, Buffer.flatten_pieces,
    take_of_length_le (Buffer.length_le_pieceCount_mul hlimit.pos)]
  rw [length_range, length_map]
  exact ((checkSequences_all_iff _ _).1 hcheck).2

theorem check_of_tpState (hlimit : Ltp.LimitOk lim) (hsize : data.length < 65536)
    (hpac : Ltp.packets lim key data junk = some packets)
    (hses : e.session l.nodeId = some (rCId, nid, key.toNat))
    (hmem : e.packet ∈ packets) (hall : (l.step e).tpState = .allFragmentsReceived) :
    (l.step e).state.icnPacketBuffer = l.icnPacketBuffer ∧
    ∃ seqs, l.icnPacketBuffer.find rCId 0 nid key.toNat = some seqs ∧
      (checkSequences seqs (pieceCount lim data)).allFragmentsReceived = true := by
  have hcount : (UInt16.ofNat (pieceCount lim data)).toNat = pieceCount lim data := by
    rw [UInt16.toNat_ofNat', Nat.mod_eq_of_lt (hlimit.pieceCount_lt hsize)]
  have hdata {mem : ℕ → UInt8} {r n : ℕ} {pkt : List UInt8} {f : ReceivedFragment}
      (h : fragmentIn mem r n pkt = some f) :
      ∃ s k m payload, LtpMessage.read pkt = .data s k m payload := by
    rw [fragmentIn] at h
    split at h
    case h_1 s k m payload hread => exact ⟨s, k, m, payload, hread⟩
    case h_2 => simp at h
  cases e with
  | publishedData mem r pkt =>
    have hmem : pkt ∈ packets := hmem
    obtain ⟨hin, ⟨i, -, hfra⟩ | hread⟩ := read_packet hlimit hsize hpac hmem mem r l.nodeId
    · obtain ⟨s, k, m, payload, hread⟩ := hdata hfra
      rw [step, handle, hread] at hall
      simp [handleData, noAction] at hall
    · rw [LtpEvent.session, hin] at hses
      simp only [some_inj, Prod.mk.injEq] at hses
      obtain ⟨requests, proxyBuffer, hstate, -⟩ := l.handle_frame mem r pkt
      rw [fragmentIn, hread] at hstate
      refine ⟨by rw [step, hstate]; rfl, ?_⟩
      rw [step, handle, hread] at hall
      obtain ⟨seqs, hfind, hcheck⟩ := check_of_handleWindowEnd hall
      rw [hcount] at hcheck
      exact ⟨seqs, hses.1 ▸ hses.2.1 ▸ hfind, hcheck⟩
  | publishedDataISub mem r n pkt =>
    have hmem : pkt ∈ packets := hmem
    obtain ⟨hin, ⟨i, -, hfra⟩ | hread⟩ := read_packet hlimit hsize hpac hmem mem r n
    · obtain ⟨s, k, m, payload, hread⟩ := hdata hfra
      rw [step, handleISub, hread] at hall
      simp [handleDataISub, noAction] at hall
    · rw [LtpEvent.session, hin] at hses
      simp only [some_inj, Prod.mk.injEq] at hses
      obtain ⟨_, _, _, _, _, _, hstate, -⟩ := l.handleISub_frame mem r n pkt
      rw [fragmentIn, hread] at hstate
      refine ⟨by rw [step, hstate]; rfl, ?_⟩
      rw [step, handleISub, hread] at hall
      obtain ⟨seqs, hfind, hcheck⟩ := check_of_handleWindowEndISub hall
      rw [(sameReceiver_addNodeId l n).icnPacketBuffer] at hfind
      rw [hcount] at hcheck
      exact ⟨seqs, hses.1 ▸ hses.2.1 ▸ hfind, hcheck⟩
  | retrieve | otherThreads => simp [LtpEvent.session] at hses

/-- **Delivery.** If only packets of a message arrive for a free session, in any order and number,
`retrievePacket` returns the message after `TP_STATE_ALL_FRAGMENTS_RECEIVED`. -/
theorem retrievePacket_published {unit idLength icnHeaderLength : ℕ} (hunit : unit < 65536)
    (hpos : 0 < Ltp.room unit idLength icnHeaderLength - Ltp.room unit idLength icnHeaderLength % 8)
    {data : List UInt8} (hsize : data.length ≤ 65535) (sessionKey : UInt16) (junk : ℕ → UInt8) :
    ∃ packets, Ltp.packets (Ltp.payloadLimit unit idLength icnHeaderLength).toNat sessionKey data
        junk = some packets ∧
      ∀ (l : Lightweight) (before events : List LtpEvent) (last : LtpEvent) (rCId nodeId : ℕ),
        l.icnPacketBuffer = ∅ →
        (l.run before).icnPacketBuffer.find rCId 0 nodeId sessionKey.toNat = none →
        (∀ e ∈ events ++ [last], e.session l.nodeId = some (rCId, nodeId, sessionKey.toNat) →
          e.packet ∈ packets) →
        last.session l.nodeId = some (rCId, nodeId, sessionKey.toNat) →
        (((l.run before).run events).step last).tpState = .allFragmentsReceived →
        ∀ (memory : ℕ → UInt8) (block : List UInt8), ∃ block' size,
          ((((l.run before).run events).step last).state.icnPacketBuffer.retrievePacket memory block
            rCId nodeId sessionKey.toNat).1 = some (block', size) ∧ block'.take size = data := by
  have hlimit := Ltp.limitOk_payloadLimit hunit hpos
  have hlt : data.length < 65536 := by omega
  obtain ⟨packets, hpac⟩ : ∃ packets, Ltp.packets
      (Ltp.payloadLimit unit idLength icnHeaderLength).toNat sessionKey data junk = some packets :=
    ⟨_, by rw [Ltp.packets, hlimit.fragments_eq hlt, Option.map_some]⟩
  refine ⟨packets, hpac, ?_⟩
  intro l before events last rCId nodeId hl hfree heve hlast hall memory block
  have hwell : (l.run before).icnPacketBuffer.WellFormed :=
    wellFormed_run (hl ▸ wellFormed_empty) before
  have hpie : ((l.run before).run events).HoldsPieces rCId nodeId sessionKey.toNat
      (Ltp.payloadLimit unit idLength icnHeaderLength).toNat data := by
    refine holdsPieces_run hwell hlimit hlt hpac hfree events ?_
    intro e he hses
    rw [nodeId_run] at hses
    exact heve e (mem_append_left _ he) hses
  have hnode : ((l.run before).run events).nodeId = l.nodeId := by rw [nodeId_run, nodeId_run]
  obtain ⟨hsame, sequenceMap, hfind, hcheck⟩ := check_of_tpState hlimit hlt hpac
    (hnode ▸ hlast) (heve last (by simp) hlast) hall
  rw [hsame]
  exact hpie.retrievePacket hlimit hlt hfind hcheck memory block

def tenBytes : List UInt8 := [1, 2, 3, 4, 5, 6, 7, 8, 9, 10]

/-- The second fragment, the CTRL-WE, the second fragment, the first one, and the CTRL-WE. -/
theorem retrievePacket_published_reordered : 0 < Ltp.room 72 8 20 - Ltp.room 72 8 20 % 8 ∧
      ∃ block size,
        ((((({ init 9 with cIdReverseLookUp := OrderedMap.set ∅ 7 1 } : Lightweight).run []).run
          [.publishedData (fun _ => 0) 7 (Ltp.fragment 8 3 tenBytes (fun _ => 0) 1).packet,
            .publishedData (fun _ => 0) 7 (LtpMessage.windowEnd 0 3 2).bytes,
            .publishedData (fun _ => 0) 7 (Ltp.fragment 8 3 tenBytes (fun _ => 0) 1).packet,
            .publishedData (fun _ => 0) 7 (Ltp.fragment 8 3 tenBytes (fun _ => 0) 0).packet]).step
          (.publishedData (fun _ => 0) 7 (LtpMessage.windowEnd 0 3 2).bytes)).state.icnPacketBuffer
            |>.retrievePacket (fun _ => 0) [] 7 9 3).1 = some (block, size) ∧
        block.take size = tenBytes := by
  have hpos : 0 < Ltp.room 72 8 20 - Ltp.room 72 8 20 % 8 := by decide
  obtain ⟨packets, hpac, h⟩ :=
    retrievePacket_published (by decide : 72 < 65536) hpos (by decide : tenBytes.length ≤ 65535) 3
      (fun _ => 0)
  have heq : Ltp.packets (Ltp.payloadLimit 72 8 20).toNat 3 tenBytes (fun _ => 0) =
      some [(Ltp.fragment 8 3 tenBytes (fun _ => 0) 0).packet,
        (Ltp.fragment 8 3 tenBytes (fun _ => 0) 1).packet,
        (LtpMessage.windowEnd 0 3 2).bytes] := by decide +kernel
  obtain rfl := Option.some.inj (heq.symm.trans hpac)
  refine ⟨hpos, h _ [] _ _ 7 9 rfl rfl ?_ rfl (by decide +kernel) _ _⟩
  intro e he _
  simp only [cons_append, nil_append, mem_cons, not_mem_nil, or_false] at he
  obtain rfl | rfl | rfl | rfl | rfl := he <;> simp [LtpEvent.packet]

end

end Lightweight

end Blackadder
