/-
**The sender of the lightweight transport protocol.**

`publish` sends the fragments, which are kept for repairs, and then a CTRL-WE until all nodes have
confirmed or the attempts are used up. Threads interleave between the sections under a mutex.

A call is modelled by where it stands. The handler of a CTRL-WED unlocks the flags before it locks
the buffer. A CTRL-WED may arrive late, more than once or not at all; it belongs to the call that
it answers. Waiting for credit is not modelled, since no table changes in it.
-/

import Blackadder.Runs
import Blackadder.Lightweight

namespace Blackadder

open Option List

/-! ### Fragments have different numbers -/

namespace Ltp

variable {limit : ℕ} {key : UInt16} {data : List UInt8} {junk : ℕ → UInt8}

theorem numbers_fragmentLoop (fuel : ℕ) : ∀ (seq : UInt16) (sentBytes : ℕ) (fs : List Fragment),
      seq.toNat + fuel ≤ 65536 →
      fragmentLoop limit key data junk fuel seq sentBytes = some fs →
      fs.map (fun f => f.sequenceNumber.toNat) = List.range' (seq.toNat + 1) fs.length := by
  induction fuel with
  | zero =>
    intro seq sentBytes fs _ hloop
    simp [fragmentLoop] at hloop
  | succ fuel ih =>
    intro seq sentBytes fs hfuel hloop
    rw [fragmentLoop] at hloop
    split at hloop
    · obtain ⟨rest, hrest, rfl⟩ := map_eq_some_iff.1 hloop
      -- the last unit of fuel makes no fragment, so that the number does not wrap around
      have hpos : 0 < fuel := by
        cases fuel with
        | zero => simp [fragmentLoop] at hrest
        | succ fuel => omega
      have hnext : (seq + 1).toNat = seq.toNat + 1 := by
        rw [UInt16.toNat_add, UInt16.toNat_one, Nat.mod_eq_of_lt (by omega)]
      have hnum := ih (seq + 1) _ rest (by omega) hrest
      rw [map_cons, length_cons, range'_succ, hnum, hnext]
    · obtain rfl := some.inj hloop
      rfl

theorem numbers_fragments {fs : List Fragment} (hsize : data.length < 65536)
    (h : fragments limit key data junk = some fs) :
    fs.map (fun f => f.sequenceNumber.toNat) = List.range' 1 fs.length :=
  numbers_fragmentLoop (data.length + 1) 0 0 fs (by rw [UInt16.toNat_zero]; omega) h

end Ltp

/-- A call `publish(rCid, sessionKey, nodeIds, data)` and its fragments. The size is a number of 16
bits. -/
structure LtpResponse where
  rCId : ℕ
  sessionKey : UInt16
  nodeIds : List ℕ
  data : List UInt8
  size : data.length < 65536
  limit : ℕ
  junk : ℕ → UInt8
  fragments : List Ltp.Fragment
  made : Ltp.fragments limit sessionKey data junk = some fragments

namespace LtpResponse

def key (m : LtpResponse) : ℕ × ℕ := (m.rCId, m.sessionKey.toNat)

theorem fragment_inj (m : LtpResponse) {f f' : Ltp.Fragment} (hf : f ∈ m.fragments)
    (hf' : f' ∈ m.fragments) (h : f.sequenceNumber.toNat = f'.sequenceNumber.toNat) : f = f' := by
  have hnodup : (m.fragments.map fun f => f.sequenceNumber.toNat).Nodup := by
    rw [Ltp.numbers_fragments m.size m.made]
    exact nodup_range' 1
  exact inj_on_of_nodup_map hnodup hf hf' h

end LtpResponse

/-! ### A call of publish -/

def enigma : ℕ := 23

/-- Before which section a call stands, or how it has ended. Before the loop there is no number of
attempts. -/
inductive PublishPc
  | sending (fragments : List Ltp.Fragment)
  | buffering (f : Ltp.Fragment) (rest : List Ltp.Fragment)
  | addingWindowEnd (attempts : Option ℕ)
  | publishingWindowEnd (attempts : Option ℕ)
  | waiting (attempts : ℕ)
  | confirmed
  | unknown
  | unanswered
deriving DecidableEq

namespace PublishPc

def ended : PublishPc → Bool
  | .confirmed | .unknown | .unanswered => true
  | _ => false

def flagged : PublishPc → Bool
  | .sending _ | .buffering _ _ | .addingWindowEnd none => false
  | _ => true

def asked : PublishPc → Bool
  | .sending _ | .buffering _ _ | .addingWindowEnd none | .publishingWindowEnd none => false
  | _ => true

/-- The fragments that are not yet in the buffer, until the flags are made. -/
def remaining : PublishPc → Option (List Ltp.Fragment)
  | .sending fs => some fs
  | .buffering f rest => some (f :: rest)
  | .addingWindowEnd none => some []
  | _ => none

theorem flagged_of_asked {pc : PublishPc} (h : pc.asked = true) : pc.flagged = true := by
  cases pc with
  | addingWindowEnd tries => cases tries <;> simp_all [asked, flagged]
  | sending | buffering => simp [asked] at h
  | publishingWindowEnd | waiting | confirmed | unknown | unanswered => rfl

end PublishPc

namespace Lightweight

/-- The check of the flags. Without an entry for the rCID there is no answer. -/
def allConfirmed (l : Lightweight) (m : LtpResponse) : Option Bool :=
  (l.windowEndedResponses.get m.rCId).map fun pridMap =>
    confirmedWeds m.nodeIds ((pridMap.get 0).getD ∅) m.sessionKey.toNat = m.nodeIds.length

/-- The next section: the tables, where the call stands then, and what it publishes. Whether the
time is up is open. -/
def advance (l : Lightweight) (m : LtpResponse) (timeout : Bool) :
    PublishPc → Lightweight × PublishPc × List LtpPublication
  | .sending [] => (l, .addingWindowEnd none, [])
  | .sending (f :: rest) => (l, .buffering f rest, [.data m.rCId m.nodeIds f.packet])
  | .buffering f rest =>
    let buffer := l.ltpPacketBuffer.bufferLtpPacket m.rCId 0 m.sessionKey.toNat
      f.sequenceNumber.toNat f.packet
    ({ l with ltpPacketBuffer := buffer }, .sending rest, [])
  | .addingWindowEnd attempts =>
    let responses := l.windowEndedResponses.addWindowEnd m.rCId 0 m.sessionKey.toNat m.nodeIds
    ({ l with windowEndedResponses := responses }, .publishingWindowEnd attempts, [])
  | .publishingWindowEnd attempts =>
    (l, .waiting (attempts.getD enigma), [.data m.rCId m.nodeIds
        (LtpMessage.windowEnd 0 m.sessionKey (UInt16.ofNat m.fragments.length)).bytes])
  | .waiting 0 => (l, .unanswered, [])
  | .waiting (attempts + 1) =>
    if timeout then (l, .addingWindowEnd (some attempts), [])
    else
      match l.allConfirmed m with
      | none => (l, .unknown, [])
      | some true => (l, .confirmed, [])
      | some false => (l, .waiting (attempts + 1), [])
  | .confirmed => (l, .confirmed, [])
  | .unknown => (l, .unknown, [])
  | .unanswered => (l, .unanswered, [])

/-! ### What else happens to the tables -/

theorem getCmcGroup_addNodeId (l : Lightweight) (nid rCId key : ℕ) :
    (l.addNodeId nid).getCmcGroup rCId key = l.getCmcGroup rCId key := by
  rw [addNodeId]
  split <;> rfl

theorem nackGroups_addNodeId (l : Lightweight) (nid : ℕ) :
    (l.addNodeId nid).nackGroups = l.nackGroups := by
  obtain ⟨nodes, hnodes⟩ := l.addNodeId_eq nid
  rw [hnodes]

/-- Other packets arrive, and other threads change the other tables. CTRL-WEDs have an action of
their own. -/
def others (l : Lightweight) : LtpEvent → Lightweight
  | .otherThreads l' =>
    { l' with
      nodeId := l.nodeId
      icnPacketBuffer := l.icnPacketBuffer
      ltpPacketBuffer := l.ltpPacketBuffer
      windowEndedResponses := l.windowEndedResponses }
  | .publishedDataISub memory rCId nodeId packet =>
    match LtpMessage.read packet with
    | .windowEnded _ _ => l
    | _ => (l.handleISub memory rCId nodeId packet).state
  | e => (l.step e).state

structure SameSender (l l' : Lightweight) : Prop where
  ltpPacketBuffer : l'.ltpPacketBuffer = l.ltpPacketBuffer
  windowEndedResponses : l'.windowEndedResponses = l.windowEndedResponses

section
variable {l : Lightweight} {mem : ℕ → UInt8} {rCId nid : ℕ}

theorem sameSender_addNodeId (l : Lightweight) (nid : ℕ) : SameSender l (l.addNodeId nid) := by
  obtain ⟨nodes, hnodes⟩ := l.addNodeId_eq nid
  rw [hnodes]
  exact ⟨rfl, rfl⟩

theorem sameSender_handle (pkt : List UInt8) : SameSender l (l.handle mem rCId pkt).state := by
  obtain ⟨requests, proxyBuffer, hstate, -⟩ := l.handle_frame mem rCId pkt
  rw [hstate]
  exact ⟨rfl, rfl⟩

theorem sameSender_handleISub {pkt : List UInt8}
    (h : ∀ ripd key, LtpMessage.read pkt ≠ .windowEnded ripd key) :
    SameSender l (l.handleISub mem rCId nid pkt).state := by
  obtain ⟨_, _, _, _, _, _, hstate, hsame, -⟩ := l.handleISub_frame mem rCId nid pkt
  rw [hstate]
  exact ⟨(hsame h).2, (hsame h).1⟩

theorem sameSender_others (l : Lightweight) (e : LtpEvent) : SameSender l (l.others e) := by
  cases e with
  | otherThreads | retrieve => exact ⟨rfl, rfl⟩
  | publishedDataISub mem rCId nid pkt =>
    rw [others]
    split
    case h_1 => exact ⟨rfl, rfl⟩
    case h_2 h => exact sameSender_handleISub h
  | publishedData mem rCId pkt => exact sameSender_handle pkt

end

end Lightweight

/-! ### The system -/

structure PublishCall where
  message : LtpResponse
  pc : PublishPc

structure LtpDeletion where
  key : ℕ × ℕ
  reason : Lightweight.Deletion
deriving DecidableEq

structure LtpSender where
  tables : Lightweight
  calls : List PublishCall
  answers : List (ℕ × ℕ)
  deletions : List LtpDeletion
  published : List LtpPublication

inductive SenderAction
  | call (m : LtpResponse)
  | advance (i : ℕ) (timeout : Bool)
  | answer (i nodeId : ℕ)
  | deliver (k : ℕ)
  | delete (k : ℕ)
  | other (e : LtpEvent)

namespace LtpSender

def start (l : Lightweight) : LtpSender := ⟨l, [], [], [], []⟩

section
variable (s : LtpSender)

def confirm (m : LtpResponse) (nodeId : ℕ) : LtpSender :=
  let r := (s.tables.addNodeId nodeId).confirmWindowEnded m.rCId nodeId m.sessionKey.toNat
  { s with
    tables := r.1
    deletions := if r.2 = .none then s.deletions else s.deletions ++ [⟨m.key, r.2⟩] }

def step : SenderAction → LtpSender
  | .call m => { s with calls := s.calls ++ [⟨m, .sending m.fragments⟩] }
  | .advance i timeout =>
    match s.calls[i]? with
    | none => s
    | some c =>
      let r := s.tables.advance c.message timeout c.pc
      { s with
        tables := r.1
        calls := s.calls.set i ⟨c.message, r.2.1⟩
        published := s.published ++ r.2.2 }
  | .answer i nodeId =>
    match s.calls[i]? with
    | none => s
    | some c =>
      if c.pc.asked = true ∧ nodeId ∈ c.message.nodeIds then
        { s with answers := s.answers ++ [(i, nodeId)] }
      else s
  | .deliver k =>
    match s.answers[k]? with
    | none => s
    | some a =>
      match s.calls[a.1]? with
      | none => s
      | some c => s.confirm c.message a.2
  | .delete k =>
    match s.deletions[k]? with
    | none => s
    | some d =>
      { s with
        tables := s.tables.deleteBuffered d.key.1 d.key.2
        deletions := s.deletions.eraseIdx k }
  | .other e => { s with tables := s.tables.others e }

def run (actions : List SenderAction) : LtpSender := actions.foldl step s

def entry (key : ℕ × ℕ) : SentMap :=
  (s.tables.ltpPacketBuffer.find key.1 0 key.2).getD ∅

def flag (key : ℕ × ℕ) (nodeId : ℕ) : Option Bool :=
  s.tables.windowEndedResponses.find key.1 0 nodeId key.2

def keys : List (ℕ × ℕ) := s.calls.map fun c => c.message.key

/-- A call is the latest one with its key: its message is the current one. -/
def Latest (i : ℕ) : Prop :=
  i < s.keys.length ∧ ∀ j < s.keys.length, s.keys[j]? = s.keys[i]? → j ≤ i

instance (s : LtpSender) (i : ℕ) : Decidable (s.Latest i) :=
  inferInstanceAs (Decidable (_ ∧ _))

def EndedBefore (m : LtpResponse) : Prop :=
  ∀ c ∈ s.calls, c.message.key = m.key → c.pc.ended = true

end

instance (s : LtpSender) (m : LtpResponse) : Decidable (s.EndedBefore m) :=
  inferInstanceAs (Decidable (∀ c ∈ s.calls, _))

section
variable {s : LtpSender} {a : SenderAction} {i j : ℕ} {c c' : PublishCall}

theorem getElem?_keys (hc : s.calls[i]? = some c) : s.keys[i]? = some c.message.key := by
  rw [keys, getElem?_map, hc, map_some]

theorem Latest.unique (hi : s.Latest i) (hj : s.Latest j) (hc : s.calls[i]? = some c)
    (hc' : s.calls[j]? = some c') (hkey : c'.message.key = c.message.key) : i = j := by
  have heq : s.keys[i]? = s.keys[j]? := by rw [getElem?_keys hc, getElem?_keys hc', hkey]
  exact le_antisymm (hj.2 i hi.1 heq) (hi.2 j hj.1 heq.symm)

theorem calls_step (s : LtpSender) (a : SenderAction) :
    (∃ m, a = .call m ∧ (s.step a).calls = s.calls ++ [⟨m, .sending m.fragments⟩]) ∨
      (∃ i tmo c, a = .advance i tmo ∧ s.calls[i]? = some c ∧ (s.step a).calls =
          s.calls.set i ⟨c.message, (s.tables.advance c.message tmo c.pc).2.1⟩) ∨
      ((∀ m, a ≠ .call m) ∧ (∀ i tmo, a = .advance i tmo → s.calls[i]? = none) ∧
        (s.step a).calls = s.calls) := by
  cases a with
  | call m => exact .inl ⟨m, rfl, rfl⟩
  | advance i tmo =>
    rw [step]
    split
    case h_1 hnone =>
      refine .inr (.inr ⟨nofun, ?_, rfl⟩)
      rintro j _ ⟨⟩
      exact hnone
    case h_2 c hc => exact .inr (.inl ⟨i, tmo, c, rfl, hc, rfl⟩)
  | answer i nid | deliver k =>
    rw [step]
    repeat' split
    all_goals exact .inr (.inr ⟨nofun, nofun, rfl⟩)
  | delete k =>
    rw [step]
    split <;> exact .inr (.inr ⟨nofun, nofun, rfl⟩)
  | other e => exact .inr (.inr ⟨nofun, nofun, rfl⟩)

theorem call_of_step (hc : (s.step a).calls[i]? = some c) :
    ((∀ tmo, a ≠ .advance i tmo) ∧ s.calls[i]? = some c) ∨
      (∃ m, a = .call m ∧ i = s.calls.length ∧ c = ⟨m, .sending m.fragments⟩) ∨
      ∃ tmo c₀, a = .advance i tmo ∧ s.calls[i]? = some c₀ ∧
        c = ⟨c₀.message, (s.tables.advance c₀.message tmo c₀.pc).2.1⟩ := by
  obtain ⟨m, rfl, hcal⟩ | ⟨j, tmo, c₀, rfl, hc₀, hcal⟩ | ⟨-, hnone, hcal⟩ := calls_step s a
  · rw [hcal] at hc
    rcases Nat.lt_trichotomy i s.calls.length with hi | hi | hi
    · rw [getElem?_append_left hi] at hc
      exact .inl ⟨nofun, hc⟩
    · rw [getElem?_append_right hi.ge, hi, Nat.sub_self] at hc
      exact .inr (.inl ⟨m, rfl, hi, (some.inj hc).symm⟩)
    · rw [getElem?_eq_none (by rw [length_append, length_singleton]; omega)] at hc
      simp at hc
  · rw [hcal] at hc
    by_cases hij : j = i
    · subst hij
      rw [getElem?_set_self (List.getElem?_eq_some_iff.1 hc₀).1] at hc
      exact .inr (.inr ⟨tmo, c₀, rfl, hc₀, (some.inj hc).symm⟩)
    · rw [getElem?_set_ne hij] at hc
      refine .inl ⟨?_, hc⟩
      rintro _ ⟨⟩
      exact hij rfl
  · rw [hcal] at hc
    refine .inl ⟨?_, hc⟩
    rintro tmo rfl
    rw [hnone i tmo rfl] at hc
    simp at hc

theorem keys_step (s : LtpSender) (a : SenderAction) :
    (∃ m, a = .call m ∧ (s.step a).keys = s.keys ++ [m.key]) ∨
      ((∀ m, a ≠ .call m) ∧ (s.step a).keys = s.keys) := by
  obtain ⟨m, rfl, hcal⟩ | ⟨j, tmo, c, rfl, hc, hcal⟩ | ⟨hne, -, hcal⟩ := calls_step s a
  · exact .inl ⟨m, rfl, by rw [keys, hcal, map_append]; rfl⟩
  · refine .inr ⟨nofun, ?_⟩
    obtain ⟨hj, hkey⟩ := List.getElem?_eq_some_iff.1 (getElem?_keys hc)
    have hset : s.keys.set j s.keys[j] = s.keys := set_getElem_self hj
    rw [hkey] at hset
    rw [keys, hcal, map_set]
    exact hset
  · exact .inr ⟨hne, by rw [keys, hcal]; rfl⟩

theorem Latest.of_step (h : (s.step a).Latest i) (hc : s.calls[i]? = some c) : s.Latest i := by
  have hi : i < s.keys.length := (List.getElem?_eq_some_iff.1 (getElem?_keys hc)).1
  obtain ⟨m, rfl, hkeys⟩ | ⟨-, hkeys⟩ := keys_step s a
  · refine ⟨hi, ?_⟩
    intro j hj heq
    refine h.2 j (by rw [hkeys, length_append]; omega) ?_
    rw [hkeys, getElem?_append_left hj, getElem?_append_left hi, heq]
  · rwa [Latest, hkeys] at h

theorem Latest.step (h : s.Latest i) (hc : s.calls[i]? = some c)
    (hnew : ∀ m, a = .call m → c.message.key ≠ m.key) : (s.step a).Latest i := by
  obtain ⟨m, rfl, hkeys⟩ | ⟨-, hkeys⟩ := keys_step s a
  · have hlen : (s.keys ++ [m.key]).length = s.keys.length + 1 := by simp
    refine ⟨by rw [hkeys, hlen]; exact Nat.lt_succ_of_lt h.1, ?_⟩
    intro j hj heq
    rw [hkeys, hlen] at hj
    rw [hkeys, getElem?_append_left h.1, getElem?_keys hc] at heq
    rcases Nat.lt_succ_iff_lt_or_eq.1 hj with hj | rfl
    · rw [getElem?_append_left hj, ← getElem?_keys hc] at heq
      exact h.2 j hj heq
    · rw [getElem?_append_right le_rfl, Nat.sub_self] at heq
      exact absurd (some.inj heq).symm (hnew m rfl)
  · rwa [Latest, hkeys]

theorem latest_call (s : LtpSender) (m : LtpResponse) :
    (s.step (.call m)).Latest s.calls.length := by
  have hlen : (s.step (.call m)).keys.length = s.calls.length + 1 := by simp [keys, step]
  refine ⟨by omega, ?_⟩
  omega

end

end LtpSender

/-! ### What a step does to the tables -/

namespace Lightweight

variable {l : Lightweight} {m : LtpResponse} {tmo : Bool} {pc : PublishPc}

theorem advance_of_ended (h : pc.ended = true) : (l.advance m tmo pc).2.1 = pc := by
  cases pc with
  | confirmed | unknown | unanswered => rfl
  | sending | buffering | addingWindowEnd | publishingWindowEnd | waiting => simp [PublishPc.ended] at h

theorem advance_waiting (tries : ℕ) : (l.advance m tmo (.waiting tries)).1 = l := by
  cases tries with
  | zero => rfl
  | succ tries =>
    rw [advance]
    repeat' split
    all_goals rfl

theorem ltpPacketBuffer_advance (h : ∀ f rest, pc ≠ .buffering f rest) :
    (l.advance m tmo pc).1.ltpPacketBuffer = l.ltpPacketBuffer := by
  cases pc with
  | buffering f rest => exact absurd rfl (h f rest)
  | sending fs => cases fs <;> rfl
  | waiting tries => rw [advance_waiting]
  | addingWindowEnd | publishingWindowEnd | confirmed | unknown | unanswered => rfl

theorem windowEndedResponses_advance (h : ∀ tries, pc ≠ .addingWindowEnd tries) :
    (l.advance m tmo pc).1.windowEndedResponses = l.windowEndedResponses := by
  cases pc with
  | addingWindowEnd tries => exact absurd rfl (h tries)
  | sending fs => cases fs <;> rfl
  | waiting tries => rw [advance_waiting]
  | buffering | publishingWindowEnd | confirmed | unknown | unanswered => rfl

theorem ltpPacketBuffer_confirmWindowEnded (rCId nid key : ℕ) :
    (l.confirmWindowEnded rCId nid key).1.ltpPacketBuffer = l.ltpPacketBuffer := by
  rw [confirmWindowEnded]
  dsimp only
  repeat' split
  all_goals rfl

theorem windowEndedResponses_confirmWindowEnded (rCId nid key r n s : ℕ) :
    (l.confirmWindowEnded rCId nid key).1.windowEndedResponses.find r 0 n s =
      if r = rCId ∧ n = nid ∧ s = key then
        (l.windowEndedResponses.find rCId 0 nid key).map fun _ => true
      else l.windowEndedResponses.find r 0 n s := by
  have hset := WindowEnded.find_confirm l.windowEndedResponses rCId 0 nid key r 0 n s
  rw [confirmWindowEnded]
  cases hfind : l.windowEndedResponses.find rCId 0 nid key with
  | none =>
    dsimp only
    split
    · next h => rw [h.1, h.2.1, h.2.2, hfind, map_none]
    · rfl
  | some b =>
    dsimp only
    repeat' split
    all_goals simp_all

end Lightweight

namespace LtpSender

section
variable {s : LtpSender} {i : ℕ} {c : PublishCall}

theorem entry_eq {s s' : LtpSender} (h : s'.tables.ltpPacketBuffer = s.tables.ltpPacketBuffer)
    (key : ℕ × ℕ) : s'.entry key = s.entry key := by
  rw [entry, h, entry]

theorem flag_eq {s s' : LtpSender}
    (h : s'.tables.windowEndedResponses = s.tables.windowEndedResponses) (key : ℕ × ℕ) (n : ℕ) :
    s'.flag key n = s.flag key n := by
  rw [flag, h, flag]

section
variable (hc : s.calls[i]? = some c)
include hc

theorem entry_buffering {f : Ltp.Fragment} {rest : List Ltp.Fragment}
    (hpc : c.pc = .buffering f rest) (tmo : Bool) (key : ℕ × ℕ) :
    (s.step (.advance i tmo)).entry key =
      if key = c.message.key then (s.entry key).insert f.sequenceNumber.toNat f.packet
      else s.entry key := by
  rw [step, hc]
  dsimp only
  rw [hpc, entry, Lightweight.advance, LtpPacketBuffer.find_bufferLtpPacket]
  simp only [true_and, LtpResponse.key, Prod.ext_iff]
  split
  · next h => rw [entry, ← h.1, ← h.2, getD_some]
  · rfl

theorem entry_advance (hpc : ∀ f rest, c.pc ≠ .buffering f rest) (tmo : Bool) (key : ℕ × ℕ) :
    (s.step (.advance i tmo)).entry key = s.entry key := by
  refine entry_eq ?_ key
  rw [step, hc]
  exact Lightweight.ltpPacketBuffer_advance hpc

theorem flag_addingWindowEnd {tries : Option ℕ}
    (hpc : c.pc = .addingWindowEnd tries) (tmo : Bool) (key : ℕ × ℕ) (n : ℕ) :
    (s.step (.advance i tmo)).flag key n =
      if key = c.message.key ∧ n ∈ c.message.nodeIds then some false else s.flag key n := by
  rw [step, hc]
  dsimp only
  rw [hpc, flag, Lightweight.advance, WindowEnded.find_addWindowEnd]
  simp only [LtpResponse.key, flag]
  grind

theorem flag_advance (hpc : ∀ tries, c.pc ≠ .addingWindowEnd tries) (tmo : Bool) (key : ℕ × ℕ)
    (n : ℕ) : (s.step (.advance i tmo)).flag key n = s.flag key n := by
  refine flag_eq ?_ key n
  rw [step, hc]
  exact Lightweight.windowEndedResponses_advance hpc

end

theorem entry_step (s : LtpSender) (a : SenderAction) :
    (∀ key, (s.step a).entry key = s.entry key) ∨
      (∃ i tmo c f rest, a = .advance i tmo ∧ s.calls[i]? = some c ∧
        c.pc = .buffering f rest ∧ ∀ key, (s.step a).entry key =
          if key = c.message.key then (s.entry key).insert f.sequenceNumber.toNat f.packet
          else s.entry key) ∨
      ∃ k d, a = .delete k ∧ s.deletions[k]? = some d ∧ ∀ key, (s.step a).entry key =
        if key = d.key then ∅ else s.entry key := by
  cases a with
  | call m => exact .inl (entry_eq rfl)
  | answer i nid =>
    rw [step]
    repeat' split
    all_goals exact .inl (entry_eq rfl)
  | deliver k =>
    refine .inl (entry_eq ?_)
    rw [step]
    repeat' split
    case h_2 =>
      rw [confirm, Lightweight.ltpPacketBuffer_confirmWindowEnded,
        (Lightweight.sameSender_addNodeId _ _).ltpPacketBuffer]
    all_goals rfl
  | other e => exact .inl (entry_eq (Lightweight.sameSender_others _ e).ltpPacketBuffer)
  | advance i tmo =>
    cases hc : s.calls[i]? with
    | none =>
      rw [step, hc]
      exact .inl (entry_eq rfl)
    | some c =>
      by_cases hpc : ∃ f rest, c.pc = .buffering f rest
      · obtain ⟨f, rest, hpc⟩ := hpc
        exact .inr (.inl ⟨i, tmo, c, f, rest, rfl, hc, hpc, entry_buffering hc hpc _⟩)
      · exact .inl (entry_advance hc (fun f rest h => hpc ⟨f, rest, h⟩) tmo)
  | delete k =>
    rw [step]
    cases hd : s.deletions[k]? with
    | none => exact .inl (entry_eq rfl)
    | some d =>
      refine .inr (.inr ⟨k, d, rfl, hd, ?_⟩)
      intro key
      dsimp only
      rw [entry, Lightweight.deleteBuffered, LtpPacketBuffer.find_deleteBufferedLtpPacket]
      simp only [true_and, Prod.ext_iff]
      split <;> rfl

theorem flag_step (s : LtpSender) (a : SenderAction) :
    (∀ key n, (s.step a).flag key n = s.flag key n) ∨
      (∃ i tmo c tries, a = .advance i tmo ∧ s.calls[i]? = some c ∧
        c.pc = .addingWindowEnd tries ∧ ∀ key n, (s.step a).flag key n =
          if key = c.message.key ∧ n ∈ c.message.nodeIds then some false else s.flag key n) ∨
      ∃ k p c, a = .deliver k ∧ s.answers[k]? = some p ∧ s.calls[p.1]? = some c ∧
        ∀ key n, (s.step a).flag key n =
          if key = c.message.key ∧ n = p.2 then (s.flag c.message.key p.2).map fun _ => true
          else s.flag key n := by
  cases a with
  | call m => exact .inl (flag_eq rfl)
  | answer i nid =>
    rw [step]
    repeat' split
    all_goals exact .inl (flag_eq rfl)
  | delete k =>
    rw [step]
    split <;> exact .inl (flag_eq rfl)
  | other e => exact .inl (flag_eq (Lightweight.sameSender_others _ e).windowEndedResponses)
  | advance i tmo =>
    cases hc : s.calls[i]? with
    | none =>
      rw [step, hc]
      exact .inl (flag_eq rfl)
    | some c =>
      by_cases hpc : ∃ tries, c.pc = .addingWindowEnd tries
      · obtain ⟨tries, hpc⟩ := hpc
        exact .inr (.inl ⟨i, tmo, c, tries, rfl, hc, hpc, flag_addingWindowEnd hc hpc tmo⟩)
      · exact .inl (flag_advance hc (fun tries h => hpc ⟨tries, h⟩) tmo)
  | deliver k =>
    rw [step]
    cases hp : s.answers[k]? with
    | none => exact .inl (flag_eq rfl)
    | some p =>
      dsimp only
      cases hc : s.calls[p.1]? with
      | none => exact .inl (flag_eq rfl)
      | some c =>
        refine .inr (.inr ⟨k, p, c, rfl, hp, hc, ?_⟩)
        intro key n
        dsimp only
        rw [flag, confirm, Lightweight.windowEndedResponses_confirmWindowEnded,
          (Lightweight.sameSender_addNodeId _ _).windowEndedResponses]
        simp only [LtpResponse.key, flag]
        grind

/-- The calls that have not ended are the latest ones with their keys. -/
def ActiveLatest (s : LtpSender) : Prop :=
  ∀ i c, s.calls[i]? = some c → c.pc.ended = false → s.Latest i

theorem ActiveLatest.step {a : SenderAction} (h : s.ActiveLatest)
    (hcall : ∀ m, a = .call m → s.EndedBefore m) : (s.step a).ActiveLatest := by
  intro i c hc hact
  obtain ⟨-, hc₀⟩ | ⟨m, rfl, rfl, -⟩ | ⟨tmo, c₀, rfl, hc₀, rfl⟩ := call_of_step hc
  · refine (h i c hc₀ hact).step hc₀ ?_
    intro m hm hkey
    have hende := hcall m hm c (mem_of_getElem? hc₀) hkey
    rw [hende] at hact
    simp at hact
  · exact latest_call s m
  · refine (h i c₀ hc₀ ?_).step hc₀ nofun
    by_contra hende
    have hpc : c₀.pc.ended = true := by simpa using hende
    rw [Lightweight.advance_of_ended hpc, hpc] at hact
    simp at hact

end

end LtpSender

end Blackadder
