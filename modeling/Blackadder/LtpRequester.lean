/-
**Requests of the lightweight transport protocol.**

`publish` sends the fragments and then a CTRL-WE until a CTRL-WED has set a flag. For a response
the flags are made before the CTRL-WE, for a request after it: a CTRL-WED may find no flag, or set
one that is reset, and is lost. A step is a section under one mutex. One thread reads a socket, so
that the calls of a session come one after the other.
-/

import Blackadder.LtpSender

namespace Blackadder

open Option OrderedMap

/-! ### The flags -/

/-- `_windowEndedRequests`: rCID, 0 and session key. -/
abbrev WindowEndedRequests := OrderedMap ℕ (OrderedMap ℕ (OrderedMap ℕ Bool))

namespace WindowEndedRequests

section
variable (requests : WindowEndedRequests) (rCId : ℕ)

def find (ripd sessionKey : ℕ) : Option Bool :=
  (requests.get rCId).bind fun pridMap => (pridMap.get ripd).bind fun skMap => skMap.get sessionKey

def addWindowEnd (ripd sessionKey : ℕ) : WindowEndedRequests :=
  requests.upsert rCId fun pridMap => pridMap.upsert ripd fun skMap => skMap.set sessionKey false

def confirm (ripd sessionKey : ℕ) : WindowEndedRequests :=
  requests.modify rCId fun pridMap => pridMap.modify ripd fun skMap =>
    skMap.modify sessionKey fun _ => true

def remove (sessionKey : ℕ) : WindowEndedRequests :=
  requests.prune rCId fun pridMap => pridMap.prune 0 fun skMap => skMap.erase sessionKey

end

section
variable (requests : WindowEndedRequests) (rCId ripd sk r p s : ℕ)

theorem find_addWindowEnd : (requests.addWindowEnd rCId ripd sk).find r p s =
      if r = rCId ∧ p = ripd ∧ s = sk then some false else requests.find r p s := by
  refine bind_get_upsert (g := fun _ => none) (u := fun _ => some false) (fun pridMap => ?_) rfl rfl
  refine bind_get_upsert (g := fun _ => none) (u := fun _ => some false) (fun skMap => ?_) rfl rfl
  exact get_set _ _ _ _

theorem find_confirm : (requests.confirm rCId ripd sk).find r p s =
      if r = rCId ∧ p = ripd ∧ s = sk then
        (requests.find rCId ripd sk).map fun _ => true
      else requests.find r p s := by
  let set (o : Option Bool) : Option Bool := o.map fun _ => true
  refine bind_get_modify (u := set) (fun pridMap => ?_) rfl
  refine bind_get_modify (u := set) (fun skMap => ?_) rfl
  exact get_modify _ _ _ _

theorem find_remove : (requests.remove rCId sk).find r p s =
      if r = rCId ∧ p = 0 ∧ s = sk then none else requests.find r p s :=
  bind_get_prune_erase _ _ _ _ _ _ _

end

end WindowEndedRequests

open WindowEndedRequests (find find_addWindowEnd find_confirm find_remove)

/-! ### A call of publish -/

structure LtpRequest where
  cId : ℕ
  rCId : ℕ
  sessionKey : UInt16
  data : List UInt8
  size : data.length < 65536
  limit : ℕ
  junk : ℕ → UInt8
  fragments : List Ltp.Fragment
  made : Ltp.fragments limit sessionKey data junk = some fragments

def LtpRequest.key (m : LtpRequest) : ℕ × ℕ := (m.rCId, m.sessionKey.toNat)

/-- Before which section a call stands, or how it has ended. Before the loop there is no number of
attempts. -/
inductive RequestPc
  | start
  | sending (fragments : List Ltp.Fragment)
  | buffering (f : Ltp.Fragment) (rest : List Ltp.Fragment)
  | publishingWindowEnd (attempts : Option ℕ)
  | addingWindowEnd (attempts : Option ℕ)
  | waiting (attempts : ℕ)
  | confirmed
  | unknown
  | unanswered
deriving DecidableEq

namespace RequestPc

def ended : RequestPc → Bool
  | .confirmed | .unknown | .unanswered => true
  | _ => false

def adding : RequestPc → Bool
  | .addingWindowEnd _ => true
  | _ => false

def asked : RequestPc → Bool
  | .start | .sending _ | .buffering _ _ | .publishingWindowEnd none => false
  | _ => true

end RequestPc

namespace Lightweight

def requestFlag (l : Lightweight) (key : ℕ × ℕ) : Option Bool :=
  find l.windowEndedRequests key.1 0 key.2

/-- The next section: the tables, where the call stands then, and what it publishes. Whether the
time is up is open. -/
def advanceRequest (l : Lightweight) (m : LtpRequest) (timeout : Bool) :
    RequestPc → Lightweight × RequestPc × List LtpPublication
  | .start =>
    -- `_addReverseLookUp`
    ({ l with cIdReverseLookUp := l.cIdReverseLookUp.insert m.rCId m.cId }, .sending m.fragments, [])
  | .sending [] => (l, .publishingWindowEnd none, [])
  | .sending (f :: rest) => (l, .buffering f rest, [.iSub m.cId m.rCId f.packet])
  | .buffering f rest =>
    let buffer := l.proxyPacketBuffer.bufferLtpPacket m.rCId 0 m.sessionKey.toNat
      f.sequenceNumber.toNat f.packet
    ({ l with proxyPacketBuffer := buffer }, .sending rest, [])
  | .publishingWindowEnd attempts =>
    (l, .addingWindowEnd attempts, [.iSub m.cId m.rCId
        (LtpMessage.windowEnd 0 m.sessionKey (UInt16.ofNat m.fragments.length)).bytes])
  | .addingWindowEnd attempts =>
    let requests := WindowEndedRequests.addWindowEnd l.windowEndedRequests m.rCId 0
      m.sessionKey.toNat
    ({ l with windowEndedRequests := requests }, .waiting (attempts.getD enigma), [])
  | .waiting 0 => (l, .unanswered, [])
  | .waiting (attempts + 1) =>
    if timeout then (l, .publishingWindowEnd (some attempts), [])
    else if l.windowEndedRequests.get m.rCId = none then (l, .unknown, [])
    else if l.requestFlag m.key = some true then
      let requests := WindowEndedRequests.remove l.windowEndedRequests m.rCId m.sessionKey.toNat
      ({ l with windowEndedRequests := requests }, .confirmed, [])
    else (l, .waiting (attempts + 1), [])
  | .confirmed => (l, .confirmed, [])
  | .unknown => (l, .unknown, [])
  | .unanswered => (l, .unanswered, [])

/-- Other packets arrive, also CTRL-WEDs that answer nothing, and other threads change tables, but
not the flags. -/
def besideRequests (l : Lightweight) : LtpEvent → Lightweight
  | .otherThreads l' =>
    { l' with
      nodeId := l.nodeId
      icnPacketBuffer := l.icnPacketBuffer
      windowEndedRequests := l.windowEndedRequests }
  | e => (l.step e).state

end Lightweight

/-! ### What happens to the flags -/

namespace Lightweight

variable {l : Lightweight} {m : LtpRequest} {tmo : Bool} {pc : RequestPc}

theorem find_handleWindowEnded (l : Lightweight) (rCId : ℕ) (ripd : UInt32) (sk : UInt16)
    (r p s : ℕ) :
    find (l.handleWindowEnded rCId ripd sk).state.windowEndedRequests r p s =
      if r = rCId ∧ p = ripd.toNat ∧ s = sk.toNat then
        (find l.windowEndedRequests rCId ripd.toNat sk.toNat).map fun _ => true
      else find l.windowEndedRequests r p s := by
  rw [handleWindowEnded]
  split
  case h_1 hnone =>
    rw [bind_assoc] at hnone
    split
    case isTrue hkey =>
      rw [hkey.1, hkey.2.1, hkey.2.2]
      change _ = Option.map _ ((l.windowEndedRequests.get rCId).bind _)
      rw [hnone]
      exact hnone
    · rfl
  case h_2 => exact find_confirm _ _ _ _ _ _ _

theorem windowEndedRequests_handle {mem : ℕ → UInt8} {rCId : ℕ} {pkt : List UInt8}
    (h : ∀ ripd sk, LtpMessage.read pkt ≠ .windowEnded ripd sk) :
    (l.handle mem rCId pkt).state.windowEndedRequests = l.windowEndedRequests := by
  obtain ⟨requests, proxyBuffer, hstate, hreq⟩ := l.handle_frame mem rCId pkt
  rw [hstate, hreq h]

theorem windowEndedRequests_handleISub (mem : ℕ → UInt8) (rCId nid : ℕ) (pkt : List UInt8) :
    (l.handleISub mem rCId nid pkt).state.windowEndedRequests = l.windowEndedRequests := by
  obtain ⟨_, _, _, _, _, _, hstate, -⟩ := l.handleISub_frame mem rCId nid pkt
  rw [hstate]

theorem requestFlag_besideRequests {key : ℕ × ℕ} (h : l.requestFlag key = some true) (e : LtpEvent) :
    (l.besideRequests e).requestFlag key = some true := by
  cases e with
  | otherThreads | retrieve => exact h
  | publishedDataISub mem rCId nid pkt =>
    change find (l.handleISub mem rCId nid pkt).state.windowEndedRequests
      _ _ _ = _
    rw [windowEndedRequests_handleISub]
    exact h
  | publishedData mem rCId pkt =>
    by_cases hread : ∃ ripd sk, LtpMessage.read pkt = .windowEnded ripd sk
    · obtain ⟨ripd, sk, hread⟩ := hread
      change (l.handle mem rCId pkt).state.requestFlag key = _
      rw [handle, hread]
      rw [requestFlag, find_handleWindowEnded]
      split
      case isTrue hkey =>
        rw [requestFlag, hkey.1, hkey.2.1, hkey.2.2] at h
        rw [h, map_some]
      · exact h
    · push Not at hread
      change find (l.handle mem rCId pkt).state.windowEndedRequests
        _ _ _ = _
      rw [windowEndedRequests_handle hread]
      exact h

theorem requestFlag_advanceRequest (l : Lightweight) (m : LtpRequest) (tmo : Bool) (pc : RequestPc) :
    (pc.adding = true ∧ pc.ended = false ∧ (l.advanceRequest m tmo pc).2.1.ended = false ∧
      ∀ key, (l.advanceRequest m tmo pc).1.requestFlag key =
        if key = m.key then some false else l.requestFlag key) ∨
    (pc.adding = false ∧ pc.ended = false ∧ (l.advanceRequest m tmo pc).2.1 = .confirmed ∧
      ∀ key, (l.advanceRequest m tmo pc).1.requestFlag key =
        if key = m.key then none else l.requestFlag key) ∨
    (pc.adding = false ∧ (pc.ended = true → (l.advanceRequest m tmo pc).2.1.ended = true) ∧
      ∀ key, (l.advanceRequest m tmo pc).1.requestFlag key = l.requestFlag key) := by
  have hkey {key : ℕ × ℕ} : key = m.key ↔ key.1 = m.rCId ∧ 0 = 0 ∧ key.2 = m.sessionKey.toNat := by
    rw [LtpRequest.key, Prod.ext_iff]
    simp
  cases pc with
  | addingWindowEnd tries =>
    refine .inl ⟨rfl, rfl, rfl, ?_⟩
    intro key
    rw [requestFlag, advanceRequest, find_addWindowEnd]
    simp [hkey, requestFlag]
  | waiting tries =>
    cases tries with
    | zero => exact .inr (.inr ⟨rfl, nofun, fun _ => rfl⟩)
    | succ tries =>
      rw [advanceRequest]
      split_ifs
      · exact .inr (.inr ⟨rfl, nofun, fun _ => rfl⟩)
      · exact .inr (.inr ⟨rfl, nofun, fun _ => rfl⟩)
      · refine .inr (.inl ⟨rfl, rfl, rfl, ?_⟩)
        intro key
        rw [requestFlag, find_remove]
        simp [hkey, requestFlag]
      · exact .inr (.inr ⟨rfl, nofun, fun _ => rfl⟩)
  | sending fragments =>
    cases fragments with
    | nil | cons f rest => exact .inr (.inr ⟨rfl, nofun, fun _ => rfl⟩)
  | start | buffering | publishingWindowEnd => exact .inr (.inr ⟨rfl, nofun, fun _ => rfl⟩)
  | confirmed | unknown | unanswered => exact .inr (.inr ⟨rfl, fun h => h, fun _ => rfl⟩)

end Lightweight

/-! ### The system -/

structure RequestCall where
  request : LtpRequest
  pc : RequestPc

/-- The tables, the calls in order, and those for which a CTRL-WED was handled. -/
structure LtpRequester where
  tables : Lightweight
  calls : List RequestCall
  handled : List ℕ

inductive RequesterAction
  | call (m : LtpRequest)
  | advance (i : ℕ) (timeout : Bool)
  | answer (i : ℕ)
  | other (e : LtpEvent)

namespace LtpRequester

def start (l : Lightweight) : LtpRequester := ⟨l, [], []⟩

def Active (s : LtpRequester) (key : ℕ × ℕ) : Prop :=
  ∃ c ∈ s.calls, c.request.key = key ∧ c.pc.ended = false

instance (s : LtpRequester) (key : ℕ × ℕ) : Decidable (s.Active key) :=
  inferInstanceAs (Decidable (∃ c ∈ s.calls, _))

def step (s : LtpRequester) : RequesterAction → LtpRequester
  | .call m => if s.Active m.key then s else { s with calls := s.calls ++ [⟨m, .start⟩] }
  | .advance i timeout =>
    match s.calls[i]? with
    | none => s
    | some c =>
      let r := s.tables.advanceRequest c.request timeout c.pc
      { s with tables := r.1, calls := s.calls.set i ⟨c.request, r.2.1⟩ }
  | .answer i =>
    match s.calls[i]? with
    | none => s
    | some c =>
      if c.pc.asked then
        { s with
          tables := (s.tables.handleWindowEnded c.request.rCId 0 c.request.sessionKey).state
          handled := i :: s.handled }
      else s
  | .other e => { s with tables := s.tables.besideRequests e }

/-- **No confirmation is lost**: a confirmed call that has not ended has its flag set. -/
def NotLost (s : LtpRequester) : Prop :=
  ∀ i ∈ s.handled, ∀ c, s.calls[i]? = some c → c.pc.ended = false →
    s.tables.requestFlag c.request.key = some true

/-- A CTRL-WED finds a flag, and `_addWindowEnd` is called before it. -/
def Timely (s : LtpRequester) : RequesterAction → Prop
  | .answer i => ∀ c ∈ s.calls[i]?, c.pc.asked = true → c.pc.ended = false →
    s.tables.requestFlag c.request.key ≠ none
  | .advance i _ => ∀ c ∈ s.calls[i]?, c.pc.adding = true → i ∉ s.handled
  | .call _ | .other _ => True

instance (s : LtpRequester) : ∀ a, Decidable (s.Timely a)
  | .answer i => inferInstanceAs (Decidable (∀ c ∈ s.calls[i]?, _))
  | .advance i _ => inferInstanceAs (Decidable (∀ c ∈ s.calls[i]?, _))
  | .call _ | .other _ => isTrue trivial

/-! ### When a confirmation is lost -/

/-- The calls that have not ended belong to different sessions. -/
structure Orderly (s : LtpRequester) : Prop where
  handled_lt : ∀ i ∈ s.handled, i < s.calls.length
  unique : ∀ (i j : ℕ) (c c' : RequestCall), s.calls[i]? = some c → s.calls[j]? = some c' →
    c.request.key = c'.request.key → c.pc.ended = false → c'.pc.ended = false → i = j

section
variable {s : LtpRequester} {a : RequesterAction} {i j : ℕ} {c c₀ : RequestCall}

theorem orderly_start (l : Lightweight) : (start l).Orderly := ⟨by simp [start], by simp [start]⟩

theorem getElem?_set_calls {pc : RequestPc} (hc₀ : s.calls[j]? = some c₀)
    (hc : (s.calls.set j ⟨c₀.request, pc⟩)[i]? = some c) :
    (i = j ∧ c = ⟨c₀.request, pc⟩) ∨ (i ≠ j ∧ s.calls[i]? = some c) := by
  by_cases hij : i = j
  · subst hij
    rw [List.getElem?_set_self (List.getElem?_eq_some_iff.1 hc₀).1] at hc
    exact .inl ⟨rfl, (some.inj hc).symm⟩
  · rw [List.getElem?_set_ne (Ne.symm hij)] at hc
    exact .inr ⟨hij, hc⟩

theorem ended_advanceRequest {l : Lightweight} {m : LtpRequest} {tmo : Bool} {pc : RequestPc}
    (h : (l.advanceRequest m tmo pc).2.1.ended = false) : pc.ended = false := by
  obtain ⟨-, hpc, -⟩ | ⟨-, hpc, -⟩ | ⟨-, hende, -⟩ := l.requestFlag_advanceRequest m tmo pc
  · exact hpc
  · exact hpc
  · by_contra hnot
    rw [hende (by simpa using hnot)] at h
    simp at h

theorem active_of_step (hc : (s.step a).calls[i]? = some c) (hact : c.pc.ended = false) :
    (∃ c₀, s.calls[i]? = some c₀ ∧ c₀.request = c.request ∧ c₀.pc.ended = false) ∨
      (i = s.calls.length ∧ ¬ s.Active c.request.key) := by
  cases a with
  | call m =>
    rw [step] at hc
    split at hc
    · exact .inl ⟨c, hc, rfl, hact⟩
    case isFalse hidle =>
      rw [List.getElem?_append] at hc
      split at hc
      · exact .inl ⟨c, hc, rfl, hact⟩
      case isFalse hi =>
        obtain ⟨hlt, rfl⟩ := List.getElem?_eq_some_iff.1 hc
        refine .inr ⟨?_, ?_⟩
        · simp at hlt
          omega
        · simpa using hidle
  | advance j tmo =>
    rw [step] at hc
    split at hc
    case h_1 => exact .inl ⟨c, hc, rfl, hact⟩
    case h_2 c₀ hc₀ =>
      obtain ⟨rfl, rfl⟩ | ⟨-, hc⟩ := getElem?_set_calls hc₀ hc
      · exact .inl ⟨c₀, hc₀, rfl, ended_advanceRequest hact⟩
      · exact .inl ⟨c, hc, rfl, hact⟩
  | answer j =>
    rw [step] at hc
    repeat' split at hc
    all_goals exact .inl ⟨c, hc, rfl, hact⟩
  | other e => exact .inl ⟨c, hc, rfl, hact⟩

theorem length_le_step (s : LtpRequester) (a : RequesterAction) :
    s.calls.length ≤ (s.step a).calls.length := by
  rw [step.eq_def]
  repeat' split
  all_goals simp

theorem Orderly.step (h : s.Orderly) (a : RequesterAction) : (s.step a).Orderly := by
  constructor
  · intro i hi
    refine lt_of_lt_of_le ?_ (length_le_step s a)
    cases a with
    | answer j =>
      rw [LtpRequester.step] at hi
      split at hi
      case h_1 => exact h.handled_lt i hi
      case h_2 c hc =>
        split at hi
        case isFalse => exact h.handled_lt i hi
        case isTrue =>
          rcases List.mem_cons.1 hi with rfl | hi
          · exact (List.getElem?_eq_some_iff.1 hc).1
          · exact h.handled_lt i hi
    | call | advance | other =>
      refine h.handled_lt i ?_
      rw [LtpRequester.step] at hi
      repeat' split at hi
      all_goals exact hi
  · intro i j c c' hc hc' hkey hact hact'
    -- a new call has a session of its own
    have hne {i : ℕ} {c c₀ : RequestCall} (hc₀ : s.calls[i]? = some c₀) (hende : c₀.pc.ended = false)
        (hidle : ¬ s.Active c.request.key) : c₀.request.key ≠ c.request.key := fun heq =>
      hidle ⟨c₀, List.mem_of_getElem? hc₀, heq, hende⟩
    obtain ⟨c₀, hc₀, hr, he⟩ | ⟨hi, hidle⟩ := active_of_step hc hact
    · obtain ⟨c₀', hc₀', hr', he'⟩ | ⟨-, hidle⟩ := active_of_step hc' hact'
      · exact h.unique i j c₀ c₀' hc₀ hc₀' (by rw [hr, hr', hkey]) he he'
      · exact absurd (by rw [hr, hkey]) (hne hc₀ he hidle)
    · obtain ⟨c₀', hc₀', hr', he'⟩ | ⟨hj, -⟩ := active_of_step hc' hact'
      · exact absurd (by rw [hr', hkey]) (hne hc₀' he' hidle)
      · rw [hi, hj]

theorem NotLost.of_flags (ho : s.Orderly) (h : s.NotLost) (hhan : (s.step a).handled = s.handled)
    (hfla : ∀ i ∈ s.handled, ∀ c, (s.step a).calls[i]? = some c → c.pc.ended = false →
      s.tables.requestFlag c.request.key = some true →
      (s.step a).tables.requestFlag c.request.key = some true) : (s.step a).NotLost := by
  intro i hi c hc hact
  rw [hhan] at hi
  refine hfla i hi c hc hact ?_
  obtain ⟨c₀, hc₀, hr, he⟩ | ⟨rfl, -⟩ := active_of_step hc hact
  · rw [← hr]
    exact h i hi c₀ hc₀ he
  · exact absurd (ho.handled_lt _ hi) (Nat.lt_irrefl _)

theorem step_advance (hc₀ : s.calls[j]? = some c₀) (tmo : Bool) : s.step (.advance j tmo) = { s with
        tables := (s.tables.advanceRequest c₀.request tmo c₀.pc).1
        calls := s.calls.set j
          ⟨c₀.request, (s.tables.advanceRequest c₀.request tmo c₀.pc).2.1⟩ } := by
  rw [step, hc₀]

theorem NotLost.advance (ho : s.Orderly) (h : s.NotLost) (hc₀ : s.calls[j]? = some c₀)
    {tmo : Bool} (hact₀ : c₀.pc.ended = false) {o : Option Bool}
    (hflag : ∀ key, (s.tables.advanceRequest c₀.request tmo c₀.pc).1.requestFlag key =
      if key = c₀.request.key then o else s.tables.requestFlag key)
    (hself : j ∈ s.handled → (s.tables.advanceRequest c₀.request tmo c₀.pc).2.1.ended = true) :
    (s.step (.advance j tmo)).NotLost := by
  refine NotLost.of_flags ho h (by rw [step_advance hc₀]) ?_
  intro i hi c hc hact htrue
  rw [step_advance hc₀] at hc ⊢
  rw [hflag, if_neg, htrue]
  intro hkey
  obtain ⟨rfl, rfl⟩ | ⟨hij, hc⟩ := getElem?_set_calls hc₀ hc
  · rw [hself hi] at hact
    simp at hact
  · exact hij (ho.unique i j c c₀ hc hc₀ hkey hact hact₀)

theorem NotLost.advance_iff (ho : s.Orderly) (h : s.NotLost) (j : ℕ) (tmo : Bool) :
    s.Timely (.advance j tmo) ↔ (s.step (.advance j tmo)).NotLost := by
  cases hc₀ : s.calls[j]? with
  | none =>
    have hsame : s.step (.advance j tmo) = s := by rw [step, hc₀]
    rw [hsame]
    refine iff_of_true ?_ h
    intro c hc
    simp [hc₀] at hc
  | some c₀ =>
    have htim : s.Timely (.advance j tmo) ↔ (c₀.pc.adding = true → j ∉ s.handled) := by
      rw [Timely, hc₀]
      simp only [mem_some_iff, forall_eq']
    rw [htim]
    obtain ⟨hpc, hact, hende, hflag⟩ | ⟨hpc, hact, hende, hflag⟩ | ⟨hpc, -, hflag⟩ :=
      s.tables.requestFlag_advanceRequest c₀.request tmo c₀.pc
    · constructor
      · intro hnot
        exact h.advance ho hc₀ hact hflag fun hj => absurd hj (hnot hpc)
      · intro hnotL _ hj
        have hloo := List.getElem?_set_self (a := RequestCall.mk c₀.request
          (s.tables.advanceRequest c₀.request tmo c₀.pc).2.1) (List.getElem?_eq_some_iff.1 hc₀).1
        rw [step_advance hc₀] at hnotL
        have hrese := hnotL j hj _ hloo hende
        rw [hflag] at hrese
        simp at hrese
    · refine iff_of_true (fun haddi => by simp [hpc] at haddi) ?_
      exact h.advance ho hc₀ hact hflag fun _ => by rw [hende]; rfl
    · refine iff_of_true (fun haddi => by simp [hpc] at haddi) ?_
      refine NotLost.of_flags ho h (by rw [step_advance hc₀]) ?_
      intro i _ c _ _ htrue
      rw [step_advance hc₀]
      rw [hflag, htrue]

theorem NotLost.answer_iff (h : s.NotLost) (j : ℕ) :
    s.Timely (.answer j) ↔ (s.step (.answer j)).NotLost := by
  have hsame (hstep : s.step (.answer j) = s) (htim : s.Timely (.answer j)) :
      s.Timely (.answer j) ↔ (s.step (.answer j)).NotLost := by
    rw [hstep]
    exact iff_of_true htim h
  cases hc₀ : s.calls[j]? with
  | none => exact hsame (by rw [step, hc₀]) (fun c hc => by simp [hc₀] at hc)
  | some c₀ =>
    by_cases hask : c₀.pc.asked = true
    · have hstep : s.step (.answer j) = { s with
            tables := (s.tables.handleWindowEnded c₀.request.rCId 0 c₀.request.sessionKey).state
            handled := j :: s.handled } := by
        rw [step, hc₀]
        dsimp only
        rw [if_pos hask]
      have hflag (key : ℕ × ℕ) : (s.step (.answer j)).tables.requestFlag key =
          if key = c₀.request.key then (s.tables.requestFlag key).map fun _ => true
          else s.tables.requestFlag key := by
        rw [hstep]
        rw [Lightweight.requestFlag, Lightweight.find_handleWindowEnded]
        by_cases hkey : key = c₀.request.key
        · rw [if_pos hkey, hkey, if_pos ⟨rfl, rfl, rfl⟩]
          rfl
        · rw [if_neg hkey, if_neg fun heq => hkey (Prod.ext heq.1 heq.2.2)]
          rfl
      have htim : s.Timely (.answer j) ↔
          (c₀.pc.ended = false → s.tables.requestFlag c₀.request.key ≠ none) := by
        rw [Timely, hc₀]
        simp only [mem_some_iff, forall_eq', hask, true_imp_iff]
      rw [htim]
      constructor
      · intro hthe i hi c hc hact
        rw [hstep] at hi hc
        rw [hflag]
        rcases List.mem_cons.1 hi with rfl | hi
        · obtain rfl := some.inj (hc₀.symm.trans hc)
          obtain ⟨b, hb⟩ := ne_none_iff_exists'.1 (hthe hact)
          rw [if_pos rfl, hb, map_some]
        · rw [h i hi c hc hact, map_some, ite_self]
      · intro hnotL hact hnone
        have hset := hnotL j (by rw [hstep]; exact List.mem_cons_self) c₀ (by rw [hstep]; exact hc₀)
          hact
        rw [hflag, hnone] at hset
        simp at hset
    · refine hsame (by rw [step, hc₀]; simp [hask]) ?_
      intro c hc hask'
      obtain rfl := some.inj (hc₀.symm.trans hc)
      exact absurd hask' hask

theorem NotLost.step_iff (ho : s.Orderly) (h : s.NotLost) (a : RequesterAction) :
    s.Timely a ↔ (s.step a).NotLost := by
  cases a with
  | call m =>
    refine iff_of_true trivial (NotLost.of_flags ho h ?_ ?_)
    · rw [step]
      split <;> rfl
    · intro i _ c _ _ htrue
      rw [step]
      split <;> exact htrue
  | advance j tmo => exact h.advance_iff ho j tmo
  | answer j => exact h.answer_iff j
  | other e =>
    refine iff_of_true trivial (NotLost.of_flags ho h rfl ?_)
    intro i _ c _ _ htrue
    exact Lightweight.requestFlag_besideRequests htrue e

end

/-- **When no confirmation is lost**, in any interleaving: if and only if every CTRL-WED finds its
flag, and no flag is made or reset after that. -/
theorem notLost_iff (l : Lightweight) (actions : List RequesterAction) :
    Runs.Along step Timely (start l) actions ↔
      ∀ k, ((actions.take k).foldl step (start l)).NotLost := by
  refine Runs.along_iff (J := Orderly) (fun s a h => h.step a)
    (fun s a ho h => NotLost.step_iff ho h a) actions (start l) (orderly_start l) ?_
  intro i hi
  simp [start] at hi

def small : LtpRequest :=
  ⟨1, 7, 3, [5], by decide, 8, fun _ => 0, _, rfl⟩

/-- The call, `_addReverseLookUp`, the fragment, which is kept, and the CTRL-WE. -/
def sent : List RequesterAction :=
  [.call small, .advance 0 false, .advance 0 false, .advance 0 false, .advance 0 false,
    .advance 0 false]

/-- The flag is made, and then the CTRL-WED is handled and observed. -/
theorem notLost_observed :
    (∀ k, (((sent ++ [RequesterAction.advance 0 false, .answer 0, .advance 0 false]).take k).foldl step
        (start (.init 9))).NotLost) ∧
      (((sent ++ [RequesterAction.advance 0 false, .answer 0, .advance 0 false]).foldl step
        (start (.init 9))).calls.map RequestCall.pc) = [.confirmed] := by
  exact ⟨(notLost_iff _ _).1 (by decide +kernel), by decide +kernel⟩

/-- The CTRL-WED comes before the flag is made, and the call goes on waiting. -/
theorem confirmation_lost :
    ¬ ((sent ++ [RequesterAction.answer 0, .advance 0 false]).foldl step (start (.init 9))).NotLost ∧
      ((sent ++ [RequesterAction.answer 0, .advance 0 false]).foldl step
        (start (.init 9))).calls.map RequestCall.pc = [.waiting enigma] ∧
      ((sent ++ [RequesterAction.answer 0, .advance 0 false]).foldl step
        (start (.init 9))).tables.requestFlag (7, 3) = some false := by
  have hflag : ((sent ++ [RequesterAction.answer 0, .advance 0 false]).foldl step
      (start (.init 9))).tables.requestFlag (7, 3) = some false := by decide +kernel
  refine ⟨?_, by decide +kernel, hflag⟩
  intro hnotL
  have hset := hnotL 0 (by decide +kernel) ⟨small, .waiting enigma⟩ rfl rfl
  exact absurd (hflag.symm.trans hset) (by decide)

end LtpRequester

end Blackadder
