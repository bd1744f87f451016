/-
**Repairs come to an end.**

A range may leave out missing fragments, but its lower bound is missing
(`rangeBounds_checkSequences`). So each repair brings one, and a message of `n` fragments needs
less than `n` repairs.
-/

import Blackadder.LtpGaps
import Blackadder.LtpRepair

namespace Blackadder

open List OrderedMap

/-! ### What the sender publishes again -/

def LtpEvent.arrival (own : ℕ) : LtpEvent → Option (ℕ × ℕ × List UInt8)
  | .publishedData _ rCId packet => some (rCId, own, packet)
  | .publishedDataISub _ rCId nodeId packet => some (rCId, nodeId, packet)
  | .retrieve _ _ _ _ _ | .otherThreads _ => none

namespace LtpPacketBuffer

def Keeps (buffer : LtpPacketBuffer) (rCId : ℕ) (sessionKey : UInt16) (fs : List Ltp.Fragment) :
    Prop :=
  ∃ packets, buffer.find rCId 0 sessionKey.toNat = some packets ∧ packets.get 0 = none ∧
    ∀ i, packets.get (i + 1) = fs[i]?.map Ltp.Fragment.packet

def repairs (buffer : LtpPacketBuffer) (rCId : ℕ) (nacks : List (UInt16 × UInt16 × UInt16)) :
    List (List UInt8) :=
  nacks.flatMap fun r => buffer.range rCId 0 r.1.toNat r.2.1.toNat r.2.2.toNat

theorem Keeps.mem_range {buffer : LtpPacketBuffer} {rCId : ℕ} {sk : UInt16} {fs : List Ltp.Fragment}
    (h : buffer.Keeps rCId sk fs) {first last : ℕ} (hfirst : 1 ≤ first) (hlast : last ≤ fs.length)
    (hlength : fs.length < 65536) {packet : List UInt8} :
    packet ∈ buffer.range rCId 0 sk.toNat first last ↔
      ∃ i, first ≤ i + 1 ∧ i + 1 ≤ last ∧ fs[i]?.map Ltp.Fragment.packet = some packet := by
  obtain ⟨pkts, hfind, hzero, hget⟩ := h
  have hkept : ∀ k, first ≤ k → k ≤ last → pkts.get k ≠ none := by
    intro k hk hle
    obtain ⟨i, rfl⟩ : ∃ i, k = i + 1 := ⟨k - 1, by omega⟩
    rw [hget, getElem?_eq_getElem (by omega)]
    simp
  have hrange := (range_eq_iff (by rw [hfind]; exact hzero) (by omega : last < 65536)).2
    (by rw [hfind]; exact hkept)
  rw [hfind, Option.getD_some] at hrange
  rw [← mem_map_of_injective (Option.some_injective _), hrange, mem_map]
  constructor
  · rintro ⟨k, hk, hpac⟩
    rw [mem_range'_1] at hk
    obtain ⟨i, rfl⟩ : ∃ i, k = i + 1 := ⟨k - 1, by omega⟩
    exact ⟨i, by omega, by omega, by rw [← hget, hpac]⟩
  · rintro ⟨i, hi, hle, hpac⟩
    exact ⟨i + 1, mem_range'_1.2 (by omega), by rw [hget, hpac]⟩

end LtpPacketBuffer

/-! ### Rounds -/

structure RepairRound where
  windowEnd : LtpEvent
  deliveries : List LtpEvent

namespace Lightweight

def afterRound (l : Lightweight) (r : RepairRound) : Lightweight :=
  (l.step r.windowEnd).state.run r.deliveries

def missingIn (l : Lightweight) (w : LtpEvent.WindowEnd) : Finset ℕ :=
  missing (((l.icnPacketBuffer.find w.rCId w.ripd w.nodeId w.sessionKey.toNat).getD
    ∅).entries.map Prod.fst) w.sequenceNumber

end Lightweight

/-- The CTRL-WE of the message can be answered, and exactly the fragments for the CTRL-NACK arrive,
in any order. -/
def RepairRound.Proper (sender : LtpPacketBuffer) (w : LtpEvent.WindowEnd)
    (l : Lightweight) (r : RepairRound) : Prop :=
  r.windowEnd.windowEnd l.nodeId = some w ∧ l.Answers r.windowEnd ∧
    ∀ a, a ∈ r.deliveries.map (LtpEvent.arrival l.nodeId) ↔
      a ∈ (sender.repairs w.rCId (LtpPublication.nacks (l.step r.windowEnd).published)).map
        fun packet => some (w.rCId, w.nodeId, packet)

namespace Lightweight

section
variable {l : Lightweight} {rCId nodeId : ℕ} {key : UInt16} {w : LtpEvent.WindowEnd}
  {seqs : SequenceMap} {r : RepairRound} {sender : LtpPacketBuffer}

theorem find_run_received {s : ℕ} (evs : List LtpEvent) : ∀ (l : Lightweight) (seqs : SequenceMap),
      l.icnPacketBuffer.find rCId 0 nodeId s = some seqs →
      (∀ e ∈ evs, ∃ i bytes, e.received l.nodeId = some ⟨rCId, nodeId, s, i, bytes⟩) →
      ∃ sequenceMap', (l.run evs).icnPacketBuffer.find rCId 0 nodeId s = some sequenceMap' ∧
        ∀ i, sequenceMap'.get i ≠ none ↔ seqs.get i ≠ none ∨
          ∃ e ∈ evs, ∃ bytes, e.received l.nodeId = some ⟨rCId, nodeId, s, i, bytes⟩ := by
  induction evs with
  | nil =>
    intro l seqs hfind _
    exact ⟨seqs, hfind, by simp⟩
  | cons e evs ih =>
    intro l seqs hfind heve
    obtain ⟨k, bytes, hrec⟩ := heve e mem_cons_self
    have hnode := (l.step_cases e).1
    have hput : (l.step e).state.icnPacketBuffer.find rCId 0 nodeId s = some (seqs.alter k fun o =>
          some (IcnPacketBuffer.putFragment ⟨some bytes, bytes.length⟩ o)) := by
      obtain ⟨-, ⟨f, hf, hbuf⟩ | ⟨mem, packet, r, n, s, rfl, -⟩ | ⟨hnone, -⟩⟩ := l.step_cases e
      · obtain rfl := Option.some.inj (hf.symm.trans hrec)
        rw [hbuf, IcnPacketBuffer.find_bufferIcnPacket, if_pos ⟨rfl, rfl, rfl, rfl⟩, hfind,
          Option.getD_some]
      · simp [LtpEvent.received] at hrec
      · simp [hnone] at hrec
    obtain ⟨sequenceMap', hfind', hget⟩ := ih (l.step e).state _ hput (by
      rw [hnode]
      exact fun e' he' => heve e' (mem_cons_of_mem _ he'))
    refine ⟨sequenceMap', hfind', ?_⟩
    intro i
    rw [hget, hnode, get_alter]
    by_cases hi : i = k
    · subst hi
      refine iff_of_true (.inl (by simp)) (.inr ⟨e, mem_cons_self, bytes, hrec⟩)
    · rw [if_neg hi]
      refine or_congr_right ?_
      constructor
      · rintro ⟨e', he', h⟩
        exact ⟨e', mem_cons_of_mem _ he', h⟩
      · rintro ⟨e', he', bytes', h⟩
        obtain rfl | he' := mem_cons.1 he'
        · rw [hrec, Option.some_inj, ReceivedFragment.mk.injEq] at h
          exact absurd h.2.2.2.1.symm hi
        · exact ⟨e', he', bytes', h⟩

theorem received_of_arrival {e : LtpEvent} {own : ℕ} {packet : List UInt8}
    (h : e.arrival own = some (rCId, nodeId, packet)) :
    ∃ mem, e.received own = LtpEvent.fragmentIn mem rCId nodeId packet := by
  cases e with
  | publishedData mem r p | publishedDataISub mem r n p =>
    obtain ⟨rfl, rfl, rfl⟩ := h
    exact ⟨mem, rfl⟩
  | retrieve | otherThreads => simp [LtpEvent.arrival] at h

theorem sameReceiver_windowEnd {e : LtpEvent} (hwe : e.windowEnd l.nodeId = some w) :
    SameReceiver l (l.step e).state := by
  have hrec : e.received l.nodeId = none := by
    cases e with
    | publishedData mem r p | publishedDataISub mem r n p =>
      obtain ⟨ripd, n, hread, -⟩ := windowEndIn_eq_some hwe
      rw [LtpEvent.received, LtpEvent.fragmentIn, hread]
    | retrieve | otherThreads => rfl
  obtain ⟨hnode, ⟨f, hf, -⟩ | ⟨mem, packet, r, n, s, rfl, -⟩ | ⟨-, hbuf⟩⟩ := l.step_cases e
  · simp [hrec] at hf
  · simp [LtpEvent.windowEnd] at hwe
  · exact ⟨hbuf, hnode⟩

def HoldsPart (l : Lightweight) (w : LtpEvent.WindowEnd) : Prop :=
  ∃ sequenceMap, l.icnPacketBuffer.find w.rCId w.ripd w.nodeId w.sessionKey.toNat =
      some sequenceMap ∧
    sequenceMap ≠ ∅ ∧ ∀ i ∈ sequenceMap.entries.map Prod.fst, 1 ≤ i ∧ i ≤ w.sequenceNumber

section
variable {lim : ℕ} {data : List UInt8} {junk : ℕ → UInt8} {fs : List Ltp.Fragment}

theorem received_of_proper (hlimit : Ltp.LimitOk lim) (hsize : data.length < 65536)
    (hfs : Ltp.fragments lim key data junk = some fs) (hsender : sender.Keeps w.rCId key fs)
    (hpro : r.Proper sender w l) {first last : UInt16}
    (hnacks : LtpPublication.nacks (l.step r.windowEnd).published = [(key, first, last)])
    (hfirst : 1 ≤ first.toNat) (hlast : last.toNat ≤ fs.length) :
    (∀ e ∈ r.deliveries, ∃ i bytes, first.toNat ≤ i ∧ i ≤ last.toNat ∧
        e.received l.nodeId = some ⟨w.rCId, w.nodeId, key.toNat, i, bytes⟩) ∧
      ∀ i, first.toNat ≤ i → i ≤ last.toNat → ∃ e ∈ r.deliveries, ∃ bytes,
        e.received l.nodeId = some ⟨w.rCId, w.nodeId, key.toNat, i, bytes⟩ := by
  rw [hlimit.fragments_eq hsize, Option.some_inj] at hfs
  have hcount : fs.length = Buffer.pieceCount lim data := by rw [← hfs, length_map, length_range]
  have hlt := hlimit.pieceCount_lt hsize
  have hmem (packet : List UInt8) :
      packet ∈ sender.repairs w.rCId (LtpPublication.nacks (l.step r.windowEnd).published) ↔
        ∃ i, first.toNat ≤ i + 1 ∧ i + 1 ≤ last.toNat ∧
          (Ltp.fragment lim key data junk i).packet = packet := by
    rw [hnacks, LtpPacketBuffer.repairs, flatMap_singleton,
      hsender.mem_range hfirst hlast (by omega)]
    refine exists_congr fun i => and_congr_right fun _ => and_congr_right fun hi => ?_
    rw [← hfs, getElem?_map, getElem?_range (by omega)]
    simp
  -- a packet that arrives is read as the fragment with its number
  have hread {e : LtpEvent} {i : ℕ} (hi : i + 1 ≤ last.toNat) (he : e.arrival l.nodeId =
        some (w.rCId, w.nodeId, (Ltp.fragment lim key data junk i).packet)) :
      e.received l.nodeId = some ⟨w.rCId, w.nodeId, key.toNat, i + 1, Buffer.piece lim data i⟩ := by
    obtain ⟨mem, hrec⟩ := received_of_arrival he
    rw [hrec]
    exact (fragmentIn_fragment hlimit hsize key junk (by omega) mem _ _).2
  constructor
  · intro e he
    obtain ⟨packet, hpac, harr⟩ := mem_map.1 ((hpro.2.2 _).1 (mem_map_of_mem he))
    obtain ⟨i, hi, hle, rfl⟩ := (hmem packet).1 hpac
    exact ⟨i + 1, _, hi, hle, hread hle harr.symm⟩
  · intro k hk hle
    obtain ⟨i, rfl⟩ : ∃ i, k = i + 1 := ⟨k - 1, by omega⟩
    have hpac := (hmem _).2 ⟨i, hk, hle, rfl⟩
    obtain ⟨e, he, harr⟩ := mem_map.1 ((hpro.2.2 _).2 (mem_map_of_mem hpac))
    exact ⟨e, he, _, hread hle harr⟩

theorem afterRound_of_complete
    (hfind : l.icnPacketBuffer.find w.rCId w.ripd w.nodeId w.sessionKey.toNat = some seqs)
    (hpro : r.Proper sender w l)
    (hall : (checkSequences seqs w.sequenceNumber).allFragmentsReceived = true) :
    (l.afterRound r).icnPacketBuffer = l.icnPacketBuffer ∧
      (l.step r.windowEnd).tpState = .allFragmentsReceived := by
  obtain ⟨-, htp, hnacks⟩ | ⟨hnot, -⟩ := answer_windowEnd hpro.1 hfind hpro.2.1 rfl
  · -- no CTRL-NACK, so nothing arrives
    have hnoth : r.deliveries = [] := by
      refine eq_nil_iff_forall_not_mem.2 fun e he => ?_
      have harr := (hpro.2.2 _).1 (mem_map_of_mem he)
      rw [hnacks] at harr
      simp [LtpPacketBuffer.repairs] at harr
    refine ⟨?_, htp⟩
    rw [afterRound, hnoth, run, foldl_nil, (sameReceiver_windowEnd hpro.1).icnPacketBuffer]
  · rw [hall] at hnot
    exact absurd hnot.symm Bool.false_ne_true

section
variable (hlimit : Ltp.LimitOk lim) (hsize : data.length < 65536)
  (hfs : Ltp.fragments lim w.sessionKey data junk = some fs)
  (hsender : sender.Keeps w.rCId w.sessionKey fs) (hripd : w.ripd = 0)
  (hlength : w.sequenceNumber = fs.length)
include hlimit hsize hfs hsender hripd hlength

theorem afterRound_of_missing
    (hfind : l.icnPacketBuffer.find w.rCId w.ripd w.nodeId w.sessionKey.toNat = some seqs)
    (hpro : r.Proper sender w l) {check : SequenceCheck}
    (hcheck : check = checkSequences seqs w.sequenceNumber)
    (hall : check.allFragmentsReceived = false)
    (hfirst : 1 ≤ check.firstMissingSequence ∧ check.firstMissingSequence ≤ w.sequenceNumber)
    (hlast : check.lastMissingSequence ≤ w.sequenceNumber) :
    ∃ sequenceMap', (l.afterRound r).icnPacketBuffer.find w.rCId w.ripd w.nodeId
        w.sessionKey.toNat = some sequenceMap' ∧
      ∀ i, i ∈ sequenceMap'.entries.map Prod.fst ↔ i ∈ seqs.entries.map Prod.fst ∨
        check.firstMissingSequence ≤ i ∧ i ≤ check.lastMissingSequence := by
  have hlt := sequenceNumber_lt hpro.1
  have htoN {k : ℕ} (hk : k ≤ w.sequenceNumber) : (UInt16.ofNat k).toNat = k := by
    rw [UInt16.toNat_ofNat', Nat.mod_eq_of_lt (by omega)]
  have hsame := sameReceiver_windowEnd hpro.1
  obtain ⟨hnot, -⟩ | ⟨-, hnacks⟩ := answer_windowEnd hpro.1 hfind hpro.2.1 hcheck
  · rw [hall] at hnot
    exact absurd hnot Bool.false_ne_true
  · obtain ⟨hbro, hbri⟩ := received_of_proper hlimit hsize hfs hsender hpro hnacks
      (by rw [htoN hfirst.2]; exact hfirst.1) (by rw [htoN hlast, ← hlength]; exact hlast)
    rw [htoN hfirst.2, htoN hlast] at hbro hbri
    rw [← hsame.icnPacketBuffer, hripd] at hfind
    obtain ⟨sequenceMap', hrun, hget⟩ := find_run_received r.deliveries _ seqs hfind (by
      intro e he
      obtain ⟨i, bytes, -, -, hrec⟩ := hbro e he
      exact ⟨i, bytes, hsame.nodeId ▸ hrec⟩)
    refine ⟨sequenceMap', hripd ▸ hrun, ?_⟩
    intro i
    rw [mem_keys_iff, mem_keys_iff, hget, hsame.nodeId]
    refine or_congr_right ⟨?_, fun hi => hbri i hi.1 hi.2⟩
    rintro ⟨e, he, bytes, hrec⟩
    obtain ⟨i', bytes', hi, hi', hrec'⟩ := hbro e he
    rw [hrec, Option.some_inj, ReceivedFragment.mk.injEq] at hrec'
    rw [hrec'.2.2.2.1]
    exact ⟨hi, hi'⟩

/-- **A round**: less is missing, and when nothing is missing the receiver says so. -/
theorem HoldsPart.afterRound (hpart : l.HoldsPart w) (hpro : r.Proper sender w l) :
    (l.afterRound r).HoldsPart w ∧
      ((l.missingIn w).Nonempty → (l.afterRound r).missingIn w ⊂ l.missingIn w) ∧
      (l.missingIn w = ∅ → (l.afterRound r).missingIn w = ∅ ∧
        (l.step r.windowEnd).tpState = .allFragmentsReceived) := by
  obtain ⟨seqs, hfind, hne, hkeys⟩ := hpart
  have hmis : l.missingIn w = missing (seqs.entries.map Prod.fst) w.sequenceNumber := by
    rw [missingIn, hfind, Option.getD_some]
  have hall := checkSequences_all_iff_missing hkeys
  rw [← hmis] at hall
  rcases (l.missingIn w).eq_empty_or_nonempty with hempty | hnon
  · obtain ⟨hafter, htp⟩ := afterRound_of_complete hfind hpro (hall.2 hempty)
    refine ⟨⟨seqs, hafter ▸ hfind, hne, hkeys⟩, ?_, fun _ => ⟨?_, htp⟩⟩
    · intro hnon
      exact absurd hempty hnon.ne_empty
    · rw [missingIn, hafter, ← missingIn, hempty]
  · have hbou := rangeBounds_checkSequences hne hkeys (hmis ▸ hnon)
    have hfirst := (mem_missing.1 hbou.first_mem).1
    have hlast := (mem_missing.1 hbou.last_mem).1
    have hle := hbou.le
    obtain ⟨sequenceMap', hfind', hmem⟩ := afterRound_of_missing hlimit hsize hfs hsender hripd
      hlength hfind hpro rfl (Bool.eq_false_iff.2 fun h => hnon.ne_empty (hall.1 h)) hfirst
      hlast.2
    -- the lower bound is in the buffer now
    have hnew := (hmem _).2 (.inr ⟨le_rfl, hle⟩)
    refine ⟨⟨sequenceMap', hfind', ?_, ?_⟩, fun _ => ?_, fun hempty => ?_⟩
    · rintro rfl
      simp at hnew
    · intro i hi
      obtain hi | hi := (hmem i).1 hi
      · exact hkeys i hi
      · omega
    · rw [hmis, missingIn, hfind', Option.getD_some]
      refine (Finset.ssubset_iff_of_subset ?_).2 ⟨_, hbou.first_mem, fun h => ?_⟩
      · intro i hi
        rw [mem_missing, hmem, not_or] at hi
        exact mem_missing.2 ⟨hi.1, hi.2.1⟩
      · exact (mem_missing.1 h).2 hnew
    · exact absurd hempty hnon.ne_empty

theorem HoldsPart.rounds (rounds : List RepairRound) :
    ∀ (l : Lightweight) (b : ℕ), l.HoldsPart w → (l.missingIn w).card < b →
      Runs.Along Lightweight.afterRound (RepairRound.Proper sender w) l rounds →
      ∀ k r, rounds[k]? = some r →
        ((((rounds.take k).foldl Lightweight.afterRound l).missingIn w).Nonempty →
          (((rounds.take k).foldl Lightweight.afterRound l).afterRound r).missingIn w ⊂
            ((rounds.take k).foldl Lightweight.afterRound l).missingIn w) ∧
        (b ≤ k + 1 → (((rounds.take k).foldl Lightweight.afterRound l).step r.windowEnd).tpState =
          .allFragmentsReceived) := by
  induction rounds with
  | nil =>
    intro l b _ _ _ k r hr
    simp at hr
  | cons r₀ rounds ih =>
    intro l b hpart hcard halong k r hr
    obtain ⟨hpart', hshr, hcom⟩ := hpart.afterRound hlimit hsize hfs hsender hripd hlength halong.1
    cases k with
    | zero =>
      obtain rfl : r₀ = r := by simpa using hr
      refine ⟨hshr, fun hb => (hcom ?_).2⟩
      exact Finset.card_eq_zero.1 (by omega)
    | succ k =>
      have hcard' : ((l.afterRound r₀).missingIn w).card < max (b - 1) 1 := by
        rcases (l.missingIn w).eq_empty_or_nonempty with hempty | hnon
        · rw [(hcom hempty).1, Finset.card_empty]
          omega
        · have := Finset.card_lt_card (hshr hnon)
          omega
      obtain ⟨hnext, hend⟩ := ih (l.afterRound r₀) _ hpart' hcard' halong.2 k r (by simpa using hr)
      exact ⟨hnext, fun hb => hend (by omega)⟩

end

end

/-- **Repairs come to an end.** Each round of a CTRL-WE and a repair makes the missing fragments
fewer, and from the `n`-th on there are none. -/
theorem repair_terminates {unit idLength icnHeaderLength : ℕ} (hunit : unit < 65536)
    (hpos : 0 < Ltp.room unit idLength icnHeaderLength - Ltp.room unit idLength icnHeaderLength % 8)
    {data : List UInt8} (hsize : data.length ≤ 65535) {junk : ℕ → UInt8} {fs : List Ltp.Fragment}
    (hfs : Ltp.fragments (Ltp.payloadLimit unit idLength icnHeaderLength).toNat sessionKey data
      junk = some fs)
    (hsender : sender.Keeps rCId sessionKey fs)
    (hfind : l.icnPacketBuffer.find rCId 0 nodeId sessionKey.toNat = some sequenceMap)
    (hne : sequenceMap ≠ ∅)
    (hkeys : ∀ i ∈ sequenceMap.entries.map Prod.fst, 1 ≤ i ∧ i ≤ fs.length)
    {rounds : List RepairRound}
    (hrounds : Runs.Along afterRound
      (RepairRound.Proper sender ⟨rCId, 0, nodeId, sessionKey, fs.length⟩) l rounds)
    {k : ℕ} (hr : rounds[k]? = some r) :
    ((((rounds.take k).foldl afterRound l).missingIn
        ⟨rCId, 0, nodeId, sessionKey, fs.length⟩).Nonempty →
      (((rounds.take k).foldl afterRound l).afterRound r).missingIn
          ⟨rCId, 0, nodeId, sessionKey, fs.length⟩ ⊂
        ((rounds.take k).foldl afterRound l).missingIn ⟨rCId, 0, nodeId, sessionKey, fs.length⟩) ∧
    (fs.length ≤ k + 1 → (((rounds.take k).foldl afterRound l).step r.windowEnd).tpState =
      .allFragmentsReceived) := by
  have hlimit := Ltp.limitOk_payloadLimit hunit hpos
  have hcard : (l.missingIn ⟨rCId, 0, nodeId, sessionKey, fs.length⟩).card < fs.length := by
    rw [missingIn, hfind]
    obtain ⟨i, d, hd⟩ := ne_empty_iff.1 hne
    have hi : i ∈ sequenceMap.entries.map Prod.fst :=
      mem_keys_iff.2 (by rw [hd]; exact Option.some_ne_none d)
    have hssu : missing (sequenceMap.entries.map Prod.fst) fs.length ⊂ Finset.Icc 1 fs.length :=
      (Finset.ssubset_iff_of_subset (Finset.filter_subset _ _)).2
        ⟨i, Finset.mem_Icc.2 (hkeys i hi), fun hmem => (mem_missing.1 hmem).2 hi⟩
    simpa using Finset.card_lt_card hssu
  have hpart : l.HoldsPart ⟨rCId, 0, nodeId, sessionKey, fs.length⟩ :=
    ⟨sequenceMap, hfind, hne, hkeys⟩
  have hsize' : data.length < 65536 := by omega
  exact HoldsPart.rounds (w := ⟨rCId, 0, nodeId, sessionKey, fs.length⟩) hlimit hsize' hfs hsender
    rfl rfl rounds l fs.length hpart hcard hrounds k r hr

def requesting : Lightweight := { init 9 with cIdReverseLookUp := OrderedMap.set ∅ 7 1 }

def tenBytesPart (i : ℕ) : LtpEvent :=
  .publishedData (fun _ => 0) 7 (Ltp.fragment 8 3 tenBytes (fun _ => 0) i).packet

def tenBytesEnd : LtpEvent := .publishedData (fun _ => 0) 7 (LtpMessage.windowEnd 0 3 2).bytes

def tenBytesKept : LtpPacketBuffer :=
  (LtpPacketBuffer.bufferLtpPacket ∅ 7 0 3 1
    (Ltp.fragment 8 3 tenBytes (fun _ => 0) 0).packet).bufferLtpPacket 7 0 3 2
      (Ltp.fragment 8 3 tenBytes (fun _ => 0) 1).packet

theorem keeps_tenBytesKept : tenBytesKept.Keeps 7 3 [Ltp.fragment 8 3 tenBytes (fun _ => 0) 0,
    Ltp.fragment 8 3 tenBytes (fun _ => 0) 1] := by
  obtain ⟨pkts, hpac⟩ := Option.ne_none_iff_exists'.1
    (by decide +kernel : tenBytesKept.find 7 0 3 ≠ none)
  have hget : ∀ i, pkts.get i = ((tenBytesKept.find 7 0 3).getD ∅).get i := by
    intro i
    rw [hpac, Option.getD_some]
  have hkeys : ((tenBytesKept.find 7 0 3).getD ∅).entries.map Prod.fst = [1, 2] := by decide +kernel
  have hnone {i : ℕ} (hi : i ∉ [1, 2]) : ((tenBytesKept.find 7 0 3).getD ∅).get i = none := by
    rw [← hkeys, mem_keys_iff, not_not] at hi
    exact hi
  refine ⟨pkts, hpac, ?_, ?_⟩
  · rw [hget, hnone (by decide)]
  · intro i
    rw [hget]
    match i with
    | 0 => decide +kernel
    | 1 => decide +kernel
    | i + 2 =>
      rfl

/-- The second fragment and the CTRL-WE, then the first fragment and the CTRL-WE. -/
theorem repair_terminates_two_rounds : 0 < Ltp.room 72 8 20 - Ltp.room 72 8 20 % 8 ∧
      (((requesting.run [tenBytesPart 1]).afterRound ⟨tenBytesEnd, [tenBytesPart 0]⟩).step
        tenBytesEnd).tpState = .allFragmentsReceived := by
  have hpos : 0 < Ltp.room 72 8 20 - Ltp.room 72 8 20 % 8 := by decide
  have hfs : Ltp.fragments (Ltp.payloadLimit 72 8 20).toNat 3 tenBytes (fun _ => 0) =
      some [Ltp.fragment 8 3 tenBytes (fun _ => 0) 0, Ltp.fragment 8 3 tenBytes (fun _ => 0) 1] := by
    decide +kernel
  have hfind : (requesting.run [tenBytesPart 1]).icnPacketBuffer.find 7 0 9 3 =
      some (OrderedMap.set ∅ 2 ⟨some [9, 10], 2⟩) := by decide +kernel
  have hpro {l : Lightweight} {r : RepairRound}
      (hwe : r.windowEnd.windowEnd l.nodeId = some ⟨7, 0, 9, 3, 2⟩) (hans : l.Answers r.windowEnd)
      (hdeli : r.deliveries.map (LtpEvent.arrival l.nodeId) =
        (tenBytesKept.repairs 7 (LtpPublication.nacks (l.step r.windowEnd).published)).map
          fun packet => some (7, 9, packet)) :
      r.Proper tenBytesKept ⟨7, 0, 9, 3, 2⟩ l :=
    ⟨hwe, hans, fun a => by rw [hdeli]⟩
  have hrou : Runs.Along afterRound (RepairRound.Proper tenBytesKept ⟨7, 0, 9, 3, 2⟩)
      (requesting.run [tenBytesPart 1])
      [⟨tenBytesEnd, [tenBytesPart 0]⟩, ⟨tenBytesEnd, []⟩] := by
    have hknown : (requesting.run [tenBytesPart 1]).cIdReverseLookUp.get 7 ≠ none ∧
        ((requesting.run [tenBytesPart 1]).afterRound
          ⟨tenBytesEnd, [tenBytesPart 0]⟩).cIdReverseLookUp.get 7 ≠ none := by decide +kernel
    exact ⟨hpro rfl hknown.1 (by decide +kernel), hpro rfl hknown.2 (by decide +kernel), trivial⟩
  exact ⟨hpos, (repair_terminates (by decide) hpos (by decide) hfs keeps_tenBytesKept hfind
    (by decide) (by decide) hrou (k := 1) rfl).2 le_rfl⟩

end

end Lightweight

end Blackadder
