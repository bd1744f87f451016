/-
**What the sender of the lightweight transport protocol keeps, and when it stops.**

The tables know an rCID and a session key, but no message. The fragments and the CTRL-WED messages
of an earlier message may be taken for those of the current one. We say under which conditions on
single steps this does no harm; nothing in the protocol makes sure of them.
-/

import Blackadder.LtpSender

namespace Blackadder.LtpSender

open OrderedMap Option List
open Lightweight (advance confirmedWeds)

/-! ### What is kept for repairs -/

section
variable {s : LtpSender} {sent : SentMap} {fs : List Ltp.Fragment}

def Within (sent : SentMap) (fs : List Ltp.Fragment) : Prop :=
  ∀ e ∈ sent.entries, ∃ f ∈ fs, f.sequenceNumber.toNat = e.1 ∧ f.packet = e.2

instance (sent : SentMap) (fs : List Ltp.Fragment) : Decidable (Within sent fs) :=
  inferInstanceAs (Decidable (∀ e ∈ sent.entries, _))

theorem within_iff : Within sent fs ↔
    ∀ k p, sent.get k = some p → ∃ f ∈ fs, f.sequenceNumber.toNat = k ∧ f.packet = p := by
  constructor
  · intro h k p hget
    exact h (k, p) (mem_entries_iff.2 hget)
  · intro h e he
    exact h e.1 e.2 (mem_entries_iff.1 he)

def Covers (sent : SentMap) (fs : List Ltp.Fragment) : Prop :=
  ∀ f ∈ fs, sent.get f.sequenceNumber.toNat = some f.packet

variable {m : LtpResponse} {f : Ltp.Fragment}

section
variable (hf : f ∈ m.fragments) (hwit : Within sent m.fragments)
include hf hwit

theorem get_insert_fragment (k : ℕ) : (sent.insert f.sequenceNumber.toNat f.packet).get k =
      if k = f.sequenceNumber.toNat then some f.packet else sent.get k := by
  rw [get_insert]
  split
  case isFalse => rfl
  case isTrue hk =>
    cases hget : sent.get f.sequenceNumber.toNat with
    | none => rfl
    | some p =>
      obtain ⟨f', hf', hnum, rfl⟩ := within_iff.1 hwit _ p hget
      rw [m.fragment_inj hf' hf hnum, getD_some]

theorem within_insert : Within (sent.insert f.sequenceNumber.toNat f.packet) m.fragments := by
  rw [within_iff]
  intro k p hget
  rw [get_insert_fragment hf hwit] at hget
  split at hget
  · next hk => exact ⟨f, hf, hk.symm, some.inj hget⟩
  · exact within_iff.1 hwit k p hget

end

theorem covers_insert {done : List Ltp.Fragment} (hf : f ∈ m.fragments)
    (hwit : Within sent m.fragments) (hcov : Covers sent done)
    (hdone : ∀ f' ∈ done, f' ∈ m.fragments) :
    Covers (sent.insert f.sequenceNumber.toNat f.packet) (done ++ [f]) := by
  intro f' hf'
  rw [get_insert_fragment hf hwit]
  obtain hf' | hf' := mem_append.1 hf'
  · split
    · next hk => rw [m.fragment_inj (hdone f' hf') hf hk]
    · exact hcov f' hf'
  · rw [mem_singleton.1 hf', if_pos rfl]

/-- A call finds no fragment of another message, and no deletion comes while it puts its fragments
in. -/
def Clean (s : LtpSender) : SenderAction → Prop
  | .call m => s.EndedBefore m ∧ Within (s.entry m.key) m.fragments
  | .delete k => ∀ d ∈ s.deletions[k]?, ∀ i < s.calls.length, s.Latest i →
    ∀ c ∈ s.calls[i]?, c.message.key = d.key → c.pc.remaining = none
  | .advance _ _ | .answer _ _ | .deliver _ | .other _ => True

instance (s : LtpSender) : ∀ a, Decidable (s.Clean a)
  | .call m => inferInstanceAs (Decidable (s.EndedBefore m ∧ Within (s.entry m.key) m.fragments))
  | .delete k => inferInstanceAs (Decidable (∀ d ∈ s.deletions[k]?, _))
  | .advance _ _ | .answer _ _ | .deliver _ | .other _ => isTrue trivial

/-- The buffer has only fragments of the current message, and those that were put in. -/
def Kept (s : LtpSender) : Prop :=
  ∀ i c, s.calls[i]? = some c → s.Latest i → Within (s.entry c.message.key) c.message.fragments ∧
      ∀ rest, c.pc.remaining = some rest → ∃ done, c.message.fragments = done ++ rest ∧
        Covers (s.entry c.message.key) done

theorem remaining_advance {l : Lightweight} {tmo : Bool} {pc : PublishPc}
    {rest : List Ltp.Fragment} (hpc : ∀ f rest, pc ≠ .buffering f rest)
    (h : (l.advance m tmo pc).2.1.remaining = some rest) : pc.remaining = some rest := by
  cases pc with
  | buffering f rest => exact absurd rfl (hpc f rest)
  | sending fs => cases fs <;> exact h
  | waiting attempts =>
    -- the call of `_publishWindowEnd` in the loop has a number of attempts
    cases attempts with
    | zero => simp [advance, PublishPc.remaining] at h
    | succ attempts =>
      rw [advance] at h
      repeat' split at h
      all_goals simp [PublishPc.remaining] at h
  | addingWindowEnd | publishingWindowEnd | confirmed | unknown | unanswered =>
    simp [advance, PublishPc.remaining] at h

theorem Kept.step {a : SenderAction} (h : s.Kept) (hact : s.ActiveLatest) (ha : s.Clean a) :
    (s.step a).Kept := by
  intro i c hc hlat
  obtain ⟨hne, hc₀⟩ | ⟨m, rfl, rfl, rfl⟩ | ⟨tmo, c₀, rfl, hc₀, rfl⟩ := call_of_step hc
  · have hlat₀ := hlat.of_step hc₀
    obtain ⟨hwit, hcov⟩ := h i c hc₀ hlat₀
    obtain hsame | ⟨j, tmo, c', f, rest, rfl, hc', hpc, hentry⟩ | ⟨k, d, rfl, hd, hentry⟩ :=
      entry_step s a
    · rw [hsame]
      exact ⟨hwit, hcov⟩
    · -- a call that puts a fragment in is the latest one with its key
      have hj : s.Latest j := hact j c' hc' (by rw [hpc]; rfl)
      rw [hentry, if_neg]
      · exact ⟨hwit, hcov⟩
      · intro hkey
        obtain rfl := hlat₀.unique hj hc₀ hc' hkey.symm
        exact hne tmo rfl
    · rw [hentry]
      split
      case isFalse => exact ⟨hwit, hcov⟩
      case isTrue hkey =>
        have hi : i < s.calls.length := (List.getElem?_eq_some_iff.1 hc₀).1
        have hnone := ha d hd i hi hlat₀ c hc₀ hkey
        refine ⟨by simp [Within], ?_⟩
        intro rest hrest
        rw [hnone] at hrest
        simp at hrest
  · refine ⟨ha.2, ?_⟩
    intro rest hrest
    exact ⟨[], by rw [← some.inj hrest]; rfl, by simp [Covers]⟩
  · obtain ⟨hwit, hcov⟩ := h i c₀ hc₀ (hlat.of_step hc₀)
    by_cases hpc : ∃ f rest, c₀.pc = .buffering f rest
    · obtain ⟨f, rest, hpc⟩ := hpc
      obtain ⟨done, hdone, hcov⟩ := hcov (f :: rest) (by rw [hpc]; rfl)
      have hf : f ∈ c₀.message.fragments := by rw [hdone]; simp
      rw [entry_buffering hc₀ hpc, if_pos rfl]
      refine ⟨within_insert hf hwit, ?_⟩
      intro rest' hrest
      rw [hpc] at hrest
      obtain rfl := some.inj hrest
      refine ⟨done ++ [f], by rw [hdone]; simp, covers_insert hf hwit hcov ?_⟩
      intro f' hf'
      rw [hdone]
      exact mem_append_left _ hf'
    · have hne : ∀ f rest, c₀.pc ≠ .buffering f rest := fun f rest h => hpc ⟨f, rest, h⟩
      rw [entry_advance hc₀ hne]
      exact ⟨hwit, fun rest hrest => hcov rest (remaining_advance hne hrest)⟩

theorem published_handleNackISub {l : Lightweight} {mem : ℕ → UInt8} {rCId nid : ℕ}
    {ripd : UInt32} {sk first last : UInt16} {p : LtpPublication}
    (h : p ∈ (l.handleNackISub mem rCId nid ripd sk first last).published) :
    ∃ nodeIds start stop, ∃ packet ∈ l.ltpPacketBuffer.range rCId 0 sk.toNat start stop,
      p = .data rCId nodeIds packet := by
  rw [Lightweight.handleNackISub] at h
  dsimp only at h
  repeat' split at h
  case isFalse =>
    obtain ⟨packet, hpac, rfl⟩ := mem_map.1 h
    exact ⟨_, _, _, packet, hpac, rfl⟩
  all_goals simp [Lightweight.noAction] at h

/-- **What is kept for repairs.** In every such run the buffer holds the fragments of the current
message once they are sent, and only they are published again. -/
theorem kept_of_clean (l : Lightweight) (actions : List SenderAction)
    (hclean : Runs.Along step Clean (start l) actions) (i : ℕ) (c : PublishCall)
    (hc : ((start l).run actions).calls[i]? = some c) (hlatest : ((start l).run actions).Latest i) :
    (c.pc.remaining = some [] →
      ∀ k p, (((start l).run actions).entry c.message.key).get k = some p ↔
        ∃ f ∈ c.message.fragments, f.sequenceNumber.toNat = k ∧ f.packet = p) ∧
    ∀ (memory : ℕ → UInt8) (nodeId : ℕ) (ripd : UInt32) (first last : UInt16),
      ∀ p ∈ (((start l).run actions).tables.handleNackISub memory c.message.rCId nodeId ripd
        c.message.sessionKey first last).published,
      ∃ nodeIds, ∃ f ∈ c.message.fragments, p = .data c.message.rCId nodeIds f.packet := by
  have hrun : ((start l).run actions).ActiveLatest ∧ ((start l).run actions).Kept := by
    refine Runs.Along.invariant (I := fun s => s.ActiveLatest ∧ s.Kept) ?_ actions (start l) ?_
      hclean
    · intro s a hs ha
      refine ⟨hs.1.step ?_, hs.2.step hs.1 ha⟩
      rintro m rfl
      exact ha.1
    · exact ⟨by simp [ActiveLatest, start], by simp [Kept, start]⟩
  obtain ⟨hwit, hcov⟩ := hrun.2 i c hc hlatest
  constructor
  · intro hdone k p
    obtain ⟨done, hfra, hcov⟩ := hcov [] hdone
    rw [append_nil] at hfra
    constructor
    · exact within_iff.1 hwit k p
    · rintro ⟨f, hf, rfl, rfl⟩
      exact hcov f (hfra ▸ hf)
  · intro memory nodeId ripd first last p hp
    obtain ⟨nodeIds, from', to', packet, hpac, rfl⟩ := published_handleNackISub hp
    obtain ⟨packets, hfind, k, hget⟩ := LtpPacketBuffer.mem_range hpac
    have hkept : (((start l).run actions).entry c.message.key).get k = some packet := by
      rw [entry, LtpResponse.key, hfind]
      exact hget
    obtain ⟨f, hf, -, rfl⟩ := within_iff.1 hwit k packet hkept
    exact ⟨nodeIds, f, hf, rfl⟩

theorem length_single (b : UInt8) : [b].length < 65536 := Nat.lt_of_sub_eq_succ rfl

def single (b : UInt8) : LtpResponse where
  rCId := 7
  sessionKey := 3
  nodeIds := [1]
  data := [b]
  size := length_single b
  limit := 8
  junk := fun _ => 0
  fragments := [Ltp.exampleFragment b]
  made := by
    rw [Ltp.limitOk_eight.fragments_eq (length_single b)]
    simp [Buffer.pieceCount, Ltp.exampleFragment]

def grouped : Lightweight :=
  { Lightweight.init 9 with
    cmcGroups := OrderedMap.set ∅ 7 (OrderedMap.set ∅ 0 (OrderedMap.set ∅ 3 [1])) }

def sendAll (i : ℕ) : List SenderAction := List.replicate 5 (.advance i true)

def oneAfterTheOther : List SenderAction :=
  [.call (single 5)] ++ sendAll 0 ++
    [.answer 0 1, .deliver 0, .advance 0 false, .delete 0, .call (single 6)] ++
    List.replicate 3 (.advance 1 true)

theorem kept_of_clean_second : Runs.Along step Clean (start grouped) oneAfterTheOther ∧
      ∀ k p, (((start grouped).run oneAfterTheOther).entry (7, 3)).get k = some p ↔
        ∃ f ∈ (single 6).fragments, f.sequenceNumber.toNat = k ∧ f.packet = p := by
  have hclean : Runs.Along step Clean (start grouped) oneAfterTheOther := by decide +kernel
  exact ⟨hclean, (kept_of_clean grouped oneAfterTheOther hclean 1 ⟨single 6, .addingWindowEnd none⟩
    rfl (by decide +kernel)).1 rfl⟩

/-- No one answers the first message; its fragment is still there when the second is sent. -/
def unansweredFirst : List SenderAction :=
  [.call (single 5)] ++ sendAll 0 ++ List.replicate 70 (.advance 0 true) ++ [.call (single 6)] ++
    List.replicate 3 (.advance 1 true)

theorem stale_fragment_kept : ((start grouped).run unansweredFirst).calls.map PublishCall.pc =
        [.unanswered, .addingWindowEnd none] ∧
      ((start grouped).run unansweredFirst).Latest 1 ∧
      (¬ ∀ k p, (((start grouped).run unansweredFirst).entry (7, 3)).get k = some p ↔
        ∃ f ∈ (single 6).fragments, f.sequenceNumber.toNat = k ∧ f.packet = p) ∧
      (((start grouped).run (unansweredFirst ++ List.replicate 2 (.advance 1 true))
        ).tables.handleNackISub (fun _ => 0) 7 1 0 3 1 1).published =
          [.data 7 [1] (Ltp.fragment 8 3 [5] (fun _ => 0) 0).packet] := by
  refine ⟨by decide +kernel, by decide +kernel, ?_, by decide +kernel⟩
  intro h
  have hstale := (h 1 (Ltp.fragment 8 3 [5] (fun _ => 0) 0).packet).1 (by decide +kernel)
  revert hstale
  decide +kernel

end

/-! ### Completion -/

section
variable {s : LtpSender} {a : SenderAction} {i : ℕ} {c : PublishCall}

def Answered (s : LtpSender) (i : ℕ) (c : PublishCall) : Prop :=
  ∀ n ∈ c.message.nodeIds, (i, n) ∈ s.answers

/-- A call finds no deletion on its way, a CTRL-WED answers the current message, and the group has
all its nodes. -/
def Orderly (s : LtpSender) : SenderAction → Prop
  | .call m => s.EndedBefore m ∧ ∀ d ∈ s.deletions, d.key ≠ m.key
  | .deliver k => ∀ p ∈ s.answers[k]?, ∀ c ∈ s.calls[p.1]?, s.Latest p.1 ∧
    ∀ group ∈ s.tables.getCmcGroup c.message.rCId c.message.sessionKey.toNat,
      ∀ n ∈ c.message.nodeIds, n ∈ group
  | .advance _ _ | .answer _ _ | .delete _ | .other _ => True

instance (s : LtpSender) : ∀ a, Decidable (s.Orderly a)
  | .call m => inferInstanceAs (Decidable (s.EndedBefore m ∧ ∀ d ∈ s.deletions, _))
  | .deliver k => inferInstanceAs (Decidable (∀ p ∈ s.answers[k]?, _))
  | .advance _ _ | .answer _ _ | .delete _ | .other _ => isTrue trivial

structure Honest (s : LtpSender) : Prop where
  active : s.ActiveLatest
  asked : ∀ p ∈ s.answers, ∃ c, s.calls[p.1]? = some c ∧ c.pc.asked = true
  flags : ∀ i c, s.calls[i]? = some c → s.Latest i → c.pc.flagged = true →
    ∀ n ∈ c.message.nodeIds, ∃ b, s.flag c.message.key n = some b ∧ (b = true → (i, n) ∈ s.answers)
  confirmed : ∀ i c, s.calls[i]? = some c → c.pc = .confirmed → s.Answered i c
  deletions : ∀ d ∈ s.deletions, d.reason = .confirmed → ∀ i c, s.calls[i]? = some c →
    s.Latest i → c.message.key = d.key → s.Answered i c

/-! The sections of a call -/

variable {l : Lightweight} {m : LtpResponse} {tmo : Bool} {pc : PublishPc}

theorem asked_advance (h : pc.asked = true) : (l.advance m tmo pc).2.1.asked = true := by
  cases pc with
  | sending | buffering => simp [PublishPc.asked] at h
  | addingWindowEnd attempts =>
    cases attempts with
    | none => simp [PublishPc.asked] at h
    | some attempts => rfl
  | waiting attempts =>
    cases attempts with
    | zero => rfl
    | succ attempts =>
      rw [advance]
      repeat' split
      all_goals rfl
  | publishingWindowEnd | confirmed | unknown | unanswered => rfl

theorem flagged_of_advance (hpc : ∀ attempts, pc ≠ .addingWindowEnd attempts)
    (h : (l.advance m tmo pc).2.1.flagged = true) : pc.flagged = true := by
  cases pc with
  | sending fs => cases fs <;> simp [advance, PublishPc.flagged] at h
  | buffering => simp [advance, PublishPc.flagged] at h
  | addingWindowEnd attempts => exact absurd rfl (hpc attempts)
  | publishingWindowEnd | waiting | confirmed | unknown | unanswered => rfl

theorem confirmed_of_advance (h : (l.advance m tmo pc).2.1 = .confirmed) :
    pc = .confirmed ∨ (∃ attempts, pc = .waiting attempts) ∧ l.allConfirmed m = some true := by
  cases pc with
  | confirmed => exact .inl rfl
  | sending fs => cases fs <;> simp [advance] at h
  | waiting attempts =>
    cases attempts with
    | zero => simp [advance] at h
    | succ attempts =>
      rw [advance] at h
      repeat' split at h
      case h_2 hall => exact .inr ⟨⟨_, rfl⟩, hall⟩
      all_goals simp at h
  | buffering | addingWindowEnd | publishingWindowEnd | unknown | unanswered =>
    simp [advance] at h

theorem forall_of_confirmedWeds {group : List ℕ} {nidMap : OrderedMap ℕ (OrderedMap ℕ Bool)}
    {sk : ℕ} (h : confirmedWeds group nidMap sk = group.length) :
    ∀ n ∈ group, ((nidMap.get n).bind fun skMap => skMap.get sk) = some true := by
  have hle : group.countP (fun n =>
      ((nidMap.get n).bind fun skMap => skMap.get sk) = some true) ≤ group.length :=
    countP_le_length
  rw [confirmedWeds] at h
  have hcount : group.countP (fun n =>
      ((nidMap.get n).bind fun skMap => skMap.get sk) = some true) = group.length := by
    omega
  intro n hn
  exact of_decide_eq_true (countP_eq_length.1 hcount n hn)

theorem flag_of_allConfirmed (h : s.tables.allConfirmed m = some true) :
    ∀ n ∈ m.nodeIds, s.flag m.key n = some true := by
  obtain ⟨pridMap, hget, hcount⟩ := map_eq_some_iff.1 h
  intro n hn
  have hn := forall_of_confirmedWeds (of_decide_eq_true hcount) n hn
  rw [flag, LtpResponse.key, WindowEnded.find, hget, bind_some]
  cases hzero : pridMap.get 0 with
  | none => simp [hzero] at hn
  | some nidMap =>
    rw [hzero] at hn
    exact hn

theorem flag_of_confirmWindowEnded {rCId nid sk : ℕ}
    (h : (l.confirmWindowEnded rCId nid sk).2 = .confirmed) :
    ∃ group, l.getCmcGroup rCId sk = some group ∧ ∀ n ∈ group,
      (l.confirmWindowEnded rCId nid sk).1.windowEndedResponses.find rCId 0 n sk ≠ some false := by
  rw [Lightweight.confirmWindowEnded] at h ⊢
  split at h
  case h_1 => simp at h
  case h_2 =>
    dsimp only at h ⊢
    split at h
    case h_1 => simp at h
    case h_2 group hgroup =>
      refine ⟨group, hgroup, ?_⟩
      split at h
      · simp at h
      case isFalse hnone =>
        intro n hn hfal
        rw [if_neg hnone] at hfal
        exact hnone ⟨n, hn, hfal⟩

/-! Steps -/

theorem answers_step (s : LtpSender) (a : SenderAction) : (s.step a).answers = s.answers ∨
      ∃ i n c, a = .answer i n ∧ s.calls[i]? = some c ∧ c.pc.asked = true ∧
        (s.step a).answers = s.answers ++ [(i, n)] := by
  cases a with
  | answer i n =>
    rw [step]
    split
    case h_1 => exact .inl rfl
    case h_2 c hc =>
      split
      · next h => exact .inr ⟨i, n, c, rfl, hc, h.1, rfl⟩
      · exact .inl rfl
  | call | other => exact .inl rfl
  | advance | delete =>
    rw [step]
    split <;> exact .inl rfl
  | deliver k =>
    rw [step]
    repeat' split
    all_goals exact .inl rfl

theorem mem_answers_step {p : ℕ × ℕ} (hp : p ∈ s.answers) : p ∈ (s.step a).answers := by
  obtain hsame | ⟨i, n, c, -, -, -, hans⟩ := answers_step s a
  · rwa [hsame]
  · rw [hans]
    exact mem_append_left _ hp

theorem Answered.step {c' : PublishCall} (h : s.Answered i c) (hm : c'.message = c.message) :
    (s.step a).Answered i c' := by
  intro n hn
  rw [hm] at hn
  exact mem_answers_step (h n hn)

theorem call_step (hc : s.calls[i]? = some c) (a : SenderAction) :
    ∃ c', (s.step a).calls[i]? = some c' ∧ (c.pc.asked = true → c'.pc.asked = true) := by
  have hi := (List.getElem?_eq_some_iff.1 hc).1
  obtain ⟨m, -, hcal⟩ | ⟨j, tmo, c₀, -, hc₀, hcal⟩ | ⟨-, -, hcal⟩ := calls_step s a
  · exact ⟨c, by rw [hcal, getElem?_append_left hi, hc], id⟩
  · by_cases hij : j = i
    · subst hij
      obtain rfl := some.inj (hc.symm.trans hc₀)
      exact ⟨_, by rw [hcal, getElem?_set_self hi], asked_advance⟩
    · exact ⟨c, by rw [hcal, getElem?_set_ne hij, hc], id⟩
  · exact ⟨c, by rw [hcal, hc], id⟩

theorem Honest.asked_step (h : s.Honest) :
    ∀ p ∈ (s.step a).answers, ∃ c, (s.step a).calls[p.1]? = some c ∧ c.pc.asked = true := by
  have hcall {i : ℕ} {c : PublishCall} (hc : s.calls[i]? = some c) (hask : c.pc.asked = true) :
      ∃ c', (s.step a).calls[i]? = some c' ∧ c'.pc.asked = true := by
    obtain ⟨c', hc', hask'⟩ := call_step hc a
    exact ⟨c', hc', hask' hask⟩
  intro p hp
  obtain hsame | ⟨i, n, c, -, hc, hask, hans⟩ := answers_step s a
  · rw [hsame] at hp
    obtain ⟨c, hc, hask⟩ := h.asked p hp
    exact hcall hc hask
  · rw [hans] at hp
    obtain hp | hp := mem_append.1 hp
    · obtain ⟨c, hc, hask⟩ := h.asked p hp
      exact hcall hc hask
    · rw [mem_singleton.1 hp]
      exact hcall hc hask

theorem Honest.flags_step (h : s.Honest) (ha : s.Orderly a) (hc : (s.step a).calls[i]? = some c)
    (hlat : (s.step a).Latest i) (hfla : c.pc.flagged = true) {n : ℕ} (hn : n ∈ c.message.nodeIds) :
    ∃ b, (s.step a).flag c.message.key n = some b ∧ (b = true → (i, n) ∈ (s.step a).answers) := by
  obtain ⟨hne, hc₀⟩ | ⟨m, rfl, rfl, rfl⟩ | ⟨tmo, c₀, rfl, hc₀, rfl⟩ := call_of_step hc
  · have hlat₀ := hlat.of_step hc₀
    obtain ⟨b, hflag, hb⟩ := h.flags i c hc₀ hlat₀ hfla n hn
    have hold : s.flag c.message.key n = some b ∧ (b = true → (i, n) ∈ (s.step a).answers) :=
      ⟨hflag, fun htrue => mem_answers_step (hb htrue)⟩
    obtain hsame | ⟨j, tmo, c', attempts, rfl, hc', hpc, hflags⟩ |
      ⟨k, p, c', rfl, hp, hc', hflags⟩ := flag_step s a
    · rw [hsame]
      exact ⟨b, hold⟩
    · -- a call that resets flags is the latest one with its key
      have hj : s.Latest j := h.active j c' hc' (by rw [hpc]; rfl)
      rw [hflags, if_neg]
      · exact ⟨b, hold⟩
      · rintro ⟨hkey, -⟩
        obtain rfl := hlat₀.unique hj hc₀ hc' hkey.symm
        exact hne tmo rfl
    · rw [hflags]
      split
      case isFalse => exact ⟨b, hold⟩
      case isTrue heq =>
        -- the CTRL-WED answers the current message
        obtain rfl := hlat₀.unique (ha p hp c' hc').1 hc₀ hc' heq.1.symm
        obtain rfl := some.inj (hc₀.symm.trans hc')
        refine ⟨true, by rw [← heq.2, hflag, map_some], fun _ => mem_answers_step ?_⟩
        rw [heq.2]
        exact mem_of_getElem? hp
  · simp [PublishPc.flagged] at hfla
  · have hlat₀ := hlat.of_step hc₀
    by_cases hpc : ∃ attempts, c₀.pc = .addingWindowEnd attempts
    · obtain ⟨attempts, hpc⟩ := hpc
      refine ⟨false, ?_, by simp⟩
      rw [flag_addingWindowEnd hc₀ hpc, if_pos ⟨rfl, hn⟩]
    · have hne : ∀ attempts, c₀.pc ≠ .addingWindowEnd attempts := fun attempts h => hpc ⟨attempts, h⟩
      obtain ⟨b, hflag, hb⟩ := h.flags i c₀ hc₀ hlat₀ (flagged_of_advance hne hfla) n hn
      exact ⟨b, by rw [flag_advance hc₀ hne, hflag], fun htrue => mem_answers_step (hb htrue)⟩

theorem Honest.confirmed_step (h : s.Honest) (hc : (s.step a).calls[i]? = some c)
    (hpc : c.pc = .confirmed) : (s.step a).Answered i c := by
  obtain ⟨-, hc₀⟩ | ⟨m, rfl, rfl, rfl⟩ | ⟨tmo, c₀, rfl, hc₀, rfl⟩ := call_of_step hc
  · exact (h.confirmed i c hc₀ hpc).step rfl
  · simp at hpc
  · refine Answered.step (c := c₀) ?_ rfl
    obtain hpc₀ | ⟨⟨attempts, hpc₀⟩, hall⟩ := confirmed_of_advance hpc
    · exact h.confirmed i c₀ hc₀ hpc₀
    · have hlat := h.active i c₀ hc₀ (by rw [hpc₀]; rfl)
      intro n hn
      obtain ⟨b, hflag, hb⟩ := h.flags i c₀ hc₀ hlat (by rw [hpc₀]; rfl) n hn
      rw [flag_of_allConfirmed hall n hn] at hflag
      exact hb (some.inj hflag).symm

theorem deletions_step {d : LtpDeletion} (hd : d ∈ (s.step a).deletions) : d ∈ s.deletions ∨
      ∃ k p c, a = .deliver k ∧ s.answers[k]? = some p ∧ s.calls[p.1]? = some c ∧
        s.step a = s.confirm c.message p.2 ∧
        d = ⟨c.message.key, ((s.tables.addNodeId p.2).confirmWindowEnded c.message.rCId p.2
          c.message.sessionKey.toNat).2⟩ := by
  cases a with
  | call | other => exact .inl hd
  | advance | answer =>
    rw [step] at hd
    repeat' split at hd
    all_goals exact .inl hd
  | delete k =>
    rw [step] at hd
    split at hd
    case h_1 => exact .inl hd
    case h_2 => exact .inl (mem_of_mem_eraseIdx hd)
  | deliver k =>
    cases hp : s.answers[k]? with
    | none =>
      rw [step, hp] at hd
      exact .inl hd
    | some p =>
      cases hc : s.calls[p.1]? with
      | none =>
        rw [step, hp] at hd
        dsimp only at hd
        rw [hc] at hd
        exact .inl hd
      | some c =>
        have hstep : s.step (.deliver k) = s.confirm c.message p.2 := by
          rw [step, hp]
          dsimp only
          rw [hc]
        rw [hstep, confirm] at hd
        split at hd
        · exact .inl hd
        · obtain hd | hd := mem_append.1 hd
          · exact .inl hd
          · exact .inr ⟨k, p, c, rfl, hp, hc, hstep, mem_singleton.1 hd⟩

theorem Honest.deletions_step (h : s.Honest) (ha : s.Orderly a) {d : LtpDeletion}
    (hd : d ∈ (s.step a).deletions) (hrea : d.reason = .confirmed)
    (hc : (s.step a).calls[i]? = some c) (hlat : (s.step a).Latest i)
    (hkey : c.message.key = d.key) : (s.step a).Answered i c := by
  obtain hd₀ | ⟨k, p, c', rfl, hp, hc', hstep, rfl⟩ := LtpSender.deletions_step hd
  · obtain ⟨-, hc₀⟩ | ⟨m, rfl, rfl, rfl⟩ | ⟨tmo, c₀, rfl, hc₀, rfl⟩ := call_of_step hc
    · exact (h.deletions d hd₀ hrea i c hc₀ (hlat.of_step hc₀) hkey).step rfl
    · exact absurd hkey.symm (ha.2 d hd₀)
    · exact (h.deletions d hd₀ hrea i c₀ hc₀ (hlat.of_step hc₀) hkey).step rfl
  · obtain ⟨-, hc₀⟩ | ⟨m, hm, -⟩ | ⟨tmo, c₀, hm, -⟩ := call_of_step hc
    · obtain ⟨hlat', hgroup⟩ := ha p hp c' hc'
      obtain rfl := (hlat.of_step hc₀).unique hlat' hc₀ hc' hkey.symm
      obtain rfl := some.inj (hc₀.symm.trans hc')
      obtain ⟨c', hc', hask⟩ := h.asked p (mem_of_getElem? hp)
      obtain rfl := some.inj (hc₀.symm.trans hc')
      obtain ⟨group, hget, hset⟩ := flag_of_confirmWindowEnded hrea
      rw [Lightweight.getCmcGroup_addNodeId] at hget
      intro n hn
      obtain ⟨b, hflag, hb⟩ := h.flags_step ha hc hlat (PublishPc.flagged_of_asked hask) hn
      refine hb ?_
      cases b with
      | true => rfl
      | false =>
        rw [hstep] at hflag
        exact absurd hflag (hset n (hgroup group hget n hn))
    · simp at hm
    · simp at hm

theorem Honest.step (h : s.Honest) (ha : s.Orderly a) : (s.step a).Honest where
  active := by
    refine h.active.step ?_
    rintro m rfl
    exact ha.1
  asked := h.asked_step
  flags := fun _ _ hc hlat hfla _ hn => h.flags_step ha hc hlat hfla hn
  confirmed := fun _ _ hc hpc => h.confirmed_step hc hpc
  deletions := fun _ hd hrea _ _ hc hlat hkey =>
    h.deletions_step ha hd hrea hc hlat hkey

/-- **No premature completion.** In every such run a call is confirmed, and packets are deleted,
only if all nodes of the current message have answered. -/
theorem answered_of_orderly (l : Lightweight) (actions : List SenderAction)
    (horderly : Runs.Along step Orderly (start l) actions) :
    (∀ i c, ((start l).run actions).calls[i]? = some c → c.pc = .confirmed →
      ∀ n ∈ c.message.nodeIds, (i, n) ∈ ((start l).run actions).answers) ∧
    ∀ d ∈ ((start l).run actions).deletions, d.reason = .confirmed →
      ∀ i c, ((start l).run actions).calls[i]? = some c → ((start l).run actions).Latest i →
        c.message.key = d.key →
        ∀ n ∈ c.message.nodeIds, (i, n) ∈ ((start l).run actions).answers := by
  have hrun : ((start l).run actions).Honest := by
    refine Runs.Along.invariant (fun s a hs ha => hs.step ha) actions (start l) ?_ horderly
    exact ⟨by simp [ActiveLatest, start], by simp [start], by simp [start], by simp [start],
      by simp [start]⟩
  exact ⟨hrun.confirmed, hrun.deletions⟩

def answeredOnce : List SenderAction :=
  [.call (single 5)] ++ sendAll 0 ++ [.answer 0 1, .deliver 0, .advance 0 false]

theorem answered_of_orderly_once : Runs.Along step Orderly (start grouped) answeredOnce ∧
      ((start grouped).run answeredOnce).calls.map PublishCall.pc = [.confirmed] ∧
      ((start grouped).run answeredOnce).deletions = [⟨(7, 3), .confirmed⟩] ∧
      ∀ n ∈ (single 5).nodeIds, (0, n) ∈ ((start grouped).run answeredOnce).answers := by
  have hord : Runs.Along step Orderly (start grouped) answeredOnce := by decide +kernel
  exact ⟨hord, by decide +kernel, by decide +kernel,
    (answered_of_orderly grouped answeredOnce hord).1 0 ⟨single 5, .confirmed⟩ rfl rfl⟩

/-- A second message follows, and a duplicate of the answer to the first one arrives. -/
def duplicateAnswer : List SenderAction :=
  answeredOnce ++ [.delete 0, .call (single 6)] ++ sendAll 1 ++ [.deliver 0, .advance 1 false]

theorem confirmed_by_duplicate :
    ((start grouped).run duplicateAnswer).calls.map PublishCall.pc = [.confirmed, .confirmed] ∧
      ((start grouped).run duplicateAnswer).deletions = [⟨(7, 3), .confirmed⟩] ∧
      ((start grouped).run duplicateAnswer).Latest 1 ∧
      (1, 1) ∉ ((start grouped).run duplicateAnswer).answers := by
  decide +kernel

end

end Blackadder.LtpSender
