/-
**The connections of a NAP to web servers.**

For each HTTP request that arrives over ICN, a functor finds or opens a TCP connection and writes
the request; the one that opened it reads from it and closes it. The key is the node and the remote
session key, but not the CID: a client that goes on to another server is answered by the first one.
Sections of functors interleave, and a closed descriptor may be given to the next connection, or to
another part of the NAP.
-/

import Blackadder.Runs
import Blackadder.OrderedMap

namespace Blackadder

open List OrderedMap Option

/-! ### The functors -/

abbrev Endpoint := ℕ × ℕ

inductive File
  | connection (endpoint : Endpoint)
  | unconnected
  | other
deriving DecidableEq

structure TcpRequest where
  cId : ℕ
  rCId : ℕ
  nodeId : ℕ
  remoteSocketFd : ℕ
  packet : List UInt8
deriving DecidableEq

/-- The next section of `operator()`. The flag is `callRead`. -/
inductive TcpPc
  | start
  | opened (fd : ℕ)
  | checking (fd : ℕ) (callRead : Bool)
  | writing (fd : ℕ) (callRead : Bool)
  | written (fd : ℕ) (callRead : Bool)
  | reading (fd : ℕ)
  | deletingState (fd : ℕ)
  | erasingLookup (fd : ℕ)
  | erasingFds (fd : ℕ)
  | closing (fd : ℕ)
  | ended

def TcpPc.holds : TcpPc → Option ℕ
  | .opened fd | .checking fd _ | .writing fd _ => some fd
  | _ => none

def TcpPc.erases : TcpPc → Option ℕ
  | .erasingLookup fd => some fd
  | _ => none

/-- What the system calls of a section return. -/
structure TcpEnv where
  socket : Option ℕ
  again : Option ℕ
  connected : Bool
  wrote : Bool
  readFails : Bool

/-- A request, what it was written to and the configured endpoint. -/
structure TcpWrite where
  request : TcpRequest
  file : File
  endpoint : Option Endpoint

/-- The tables that the functors share, the descriptors of the NAP, and what was written. -/
structure TcpClient where
  fqdns : List (ℕ × Endpoint)
  socketFds : OrderedMap ℕ (OrderedMap ℕ ℕ)
  socketState : OrderedMap ℕ Bool
  reverseLookup : OrderedMap ℕ ℕ
  files : OrderedMap ℕ File
  functors : List (TcpRequest × TcpPc)
  writes : List TcpWrite

namespace TcpClient

variable (s : TcpClient)

def endpoint (cId : ℕ) : Option Endpoint := (s.fqdns.find? fun e => e.1 == cId).map Prod.snd

def localSocketFd (r : TcpRequest) : Option ℕ :=
  (s.socketFds.get r.nodeId).bind fun rSks => rSks.get r.remoteSocketFd

def unused (fd : Option ℕ) : Option ℕ := fd.filter fun fd => s.files.get fd = none

/-- `_tcpSocket`, which is one section but for the call of `_setSocketState` at its end. -/
def tcpSocket (r : TcpRequest) (env : TcpEnv) : TcpClient × TcpPc :=
  match s.localSocketFd r with
  | some fd => (s, .checking fd false)
  | none =>
    match s.endpoint r.cId with
    | none => (s, .ended)
    | some e =>
      match s.unused env.socket with
      | none =>
        match s.unused env.again with
        | none => (s, .ended)
        | some fd => ({ s with files := s.files.set fd .unconnected }, .checking fd true)
      | some fd =>
        if env.connected then
          ({ s with
            files := s.files.set fd (.connection e)
            socketFds := s.socketFds.upsert r.nodeId fun rSks =>
              rSks.insert r.remoteSocketFd (fd % 65536) }, .opened fd)
        else (s, .ended)

/-- `write`. It fails for a descriptor that is closed or not connected. -/
def write (r : TcpRequest) (env : TcpEnv) (fd : ℕ) (callRead : Bool) : TcpClient × TcpPc :=
  match s.files.get fd with
  | none | some .unconnected => (s, .ended)
  | some file =>
    if env.wrote then
      ({ s with writes := s.writes ++ [⟨r, file, s.endpoint r.cId⟩] }, .written fd callRead)
    else (s, .ended)

/-- One section of `operator()`. Responses that are read and sent on change nothing here. -/
def advance (r : TcpRequest) (env : TcpEnv) : TcpPc → TcpClient × TcpPc
  | .start => s.tcpSocket r env
  | .opened fd => ({ s with socketState := s.socketState.set (fd % 65536) true }, .checking fd true)
  | .checking fd callRead =>
    (s, if s.socketState.get (fd % 65536) = some true then .writing fd callRead else .ended)
  | .writing fd callRead => s.write r env fd callRead
  | .written fd callRead =>
    ({ s with reverseLookup := s.reverseLookup.insert fd r.rCId },
      if callRead then .reading fd else .ended)
  | .reading fd =>
    (if env.readFails then { s with socketState := s.socketState.set (fd % 65536) false } else s,
      .deletingState fd)
  | .deletingState fd =>
    ({ s with socketState := s.socketState.erase (fd % 65536) }, .erasingLookup fd)
  | .erasingLookup fd =>
    match s.reverseLookup.get fd with
    | none => (s, .ended)
    | some _ => ({ s with reverseLookup := s.reverseLookup.erase fd }, .erasingFds fd)
  | .erasingFds fd =>
    ({ s with socketFds := s.socketFds.prune r.nodeId fun rSks => rSks.erase r.remoteSocketFd },
      .closing fd)
  | .closing fd => ({ s with files := s.files.erase fd }, .ended)
  | .ended => (s, .ended)

/-- `Configuration::addFqdn`: of a CID that is known, only the IP address is changed. -/
def addFqdn (cId ipAddress port : ℕ) : List (ℕ × Endpoint) → List (ℕ × Endpoint)
  | [] => [(cId, ipAddress, port)]
  | e :: fqdns =>
    if e.1 = cId then (e.1, ipAddress, e.2.2) :: fqdns else e :: addFqdn cId ipAddress port fqdns

inductive Action
  | request (r : TcpRequest)
  | advance (i : ℕ) (env : TcpEnv)
  | addFqdn (cId ipAddress port : ℕ)
  | openOther (fd : ℕ)
  | closeOther (fd : ℕ)

def step : Action → TcpClient
  | .request r => { s with functors := s.functors ++ [(r, .start)] }
  | .advance i env =>
    match s.functors[i]? with
    | none => s
    | some f =>
      { (s.advance f.1 env f.2).1 with
        functors := s.functors.set i (f.1, (s.advance f.1 env f.2).2) }
  | .addFqdn cId ipAddress port => { s with fqdns := addFqdn cId ipAddress port s.fqdns }
  | .openOther fd =>
    match s.unused (some fd) with
    | none => s
    | some fd => { s with files := s.files.set fd .other }
  | .closeOther fd => { s with files := s.files.erase fd }

def init (fqdns : List (ℕ × Endpoint)) : TcpClient := ⟨fqdns, ∅, ∅, ∅, ∅, [], []⟩

/-! ### Requests that go astray -/

/-- A descriptor is a connection to the configured endpoint, or cannot be written to. -/
def Leads (fd cId : ℕ) : Prop :=
  s.files.get fd = some .unconnected ∨
    s.files.get fd ≠ none ∧ s.files.get fd = (s.endpoint cId).map .connection

/-- No request was written to another server than that of its CID, and none is going to be. -/
structure Safe : Prop where
  written : ∀ w ∈ s.writes, w.endpoint.map .connection = some w.file
  held : ∀ f ∈ s.functors, ∀ fd ∈ f.2.holds, s.Leads fd f.1.cId

/-- While a request is going to be written to it, a connection goes to the right server, is not
closed, and no endpoint changes. -/
def Careful : Action → Prop
  | .request _ | .openOther _ => True
  | .addFqdn cId ipAddress port => ∀ f ∈ s.functors, ∀ fd ∈ f.2.holds,
    s.files.get fd = some .unconnected ∨
      (s.step (.addFqdn cId ipAddress port)).endpoint f.1.cId = s.endpoint f.1.cId
  | .closeOther fd => ∀ f ∈ s.functors, f.2.holds ≠ some fd
  | .advance i _ =>
    match s.functors[i]? with
    | some (r, .start) => ∀ fd ∈ s.localSocketFd r, s.Leads fd r.cId
    | some (_, .closing fd) => ∀ f ∈ s.functors, f.2.holds ≠ some fd
    | _ => True

instance (fd cId : ℕ) : Decidable (s.Leads fd cId) := inferInstanceAs (Decidable (_ ∨ _ ∧ _))

instance : DecidablePred s.Careful := by
  intro a
  cases a with
  | advance i env =>
    dsimp only [Careful]
    split <;> infer_instance
  | request | addFqdn | openOther | closeOther =>
    dsimp only [Careful]
    infer_instance

variable {s} {t : TcpClient} {i fd cId : ℕ} {r : TcpRequest} {p : TcpPc} {env : TcpEnv}

theorem Leads.get_ne_none (h : s.Leads fd cId) : s.files.get fd ≠ none := by
  obtain h | h := h
  · simp [h]
  · exact h.1

theorem Leads.congr (h : s.Leads fd cId) (hfqd : t.fqdns = s.fqdns)
    (hfil : t.files.get fd = s.files.get fd) : t.Leads fd cId := by
  rw [Leads, endpoint, hfil, hfqd]
  exact h

section
variable (h : s.Safe) (hfun : t.functors = s.functors.set i (r, p)) (hfqd : t.fqdns = s.fqdns)
include h hfun hfqd

theorem Safe.of_set (hfil : ∀ fd, s.files.get fd ≠ none → t.files.get fd = s.files.get fd)
    (hwri : ∀ w ∈ t.writes, w ∈ s.writes ∨ w.endpoint.map .connection = some w.file)
    (hp : ∀ fd ∈ p.holds, t.Leads fd r.cId) : t.Safe := by
  refine ⟨fun w hw => (hwri w hw).elim (h.written w) id, fun f hf fd hfd => ?_⟩
  rw [hfun] at hf
  obtain hf | rfl := mem_or_eq_of_mem_set hf
  · have hleads := h.held f hf fd hfd
    exact hleads.congr hfqd (hfil fd hleads.get_ne_none)
  · exact hp fd hfd

theorem Safe.of_set_same (hfil : t.files = s.files) (hwri : t.writes = s.writes)
    (hp : ∀ fd ∈ p.holds, s.Leads fd r.cId) : t.Safe := by
  refine h.of_set hfun hfqd (fun fd _ => by rw [hfil]) ?_ ?_
  · intro w hw
    exact .inl (hwri ▸ hw)
  · intro fd hfd
    exact (hp fd hfd).congr hfqd (by rw [hfil])

end

theorem Safe.ended (h : s.Safe) (i : ℕ) (r : TcpRequest) :
    ({ s with functors := s.functors.set i (r, .ended) } : TcpClient).Safe :=
  h.of_set_same (p := .ended) rfl rfl rfl rfl nofun

theorem Safe.erase_iff (h : s.Safe) (hfqd : t.fqdns = s.fqdns) (hwri : t.writes = s.writes)
    (hfil : t.files = s.files.erase fd)
    (hfun : ∀ f, f.2.holds ≠ none → (f ∈ t.functors ↔ f ∈ s.functors)) :
    (∀ f ∈ s.functors, f.2.holds ≠ some fd) ↔ t.Safe := by
  constructor
  · intro hfree
    refine ⟨fun w hw => h.written w (hwri ▸ hw), fun f hf fd' hfd' => ?_⟩
    have hmem := (hfun f (by simp [mem_def.1 hfd'])).1 hf
    refine (h.held f hmem fd' hfd').congr hfqd ?_
    rw [hfil, get_erase, if_neg]
    rintro rfl
    exact hfree f hmem hfd'
  · intro hsafe f hf hfd
    have hleads := hsafe.held f ((hfun f (by simp [hfd])).2 hf) fd hfd
    exact hleads.get_ne_none (by rw [hfil, get_erase, if_pos rfl])

theorem get_of_unused {o : Option ℕ} (h : s.unused o = some fd) : s.files.get fd = none := by
  simpa using (filter_eq_some_iff.1 h).2

theorem get_set_of_unused {o : Option ℕ} (h : s.unused o = some fd) (file : File) (fd' : ℕ)
    (hfd' : s.files.get fd' ≠ none) : (s.files.set fd file).get fd' = s.files.get fd' := by
  rw [get_set, if_neg]
  rintro rfl
  exact hfd' (get_of_unused h)

section
variable (h : s.Safe)
include h

theorem Safe.start_iff (hi : s.functors[i]? = some (r, .start)) :
    (∀ fd ∈ s.localSocketFd r, s.Leads fd r.cId) ↔ (s.step (.advance i env)).Safe := by
  simp only [step, hi, advance, tcpSocket]
  cases hfd : s.localSocketFd r with
  | some fd =>
    constructor
    · intro hleads
      exact h.of_set_same (p := .checking fd false) rfl rfl rfl rfl fun _ hmem =>
        some.inj hmem ▸ hleads fd rfl
    · rintro hsafe _ ⟨⟩
      obtain ⟨hlt, -⟩ := List.getElem?_eq_some_iff.1 hi
      exact hsafe.held (r, .checking fd false) (mem_set hlt _) fd rfl
  | none =>
    refine iff_of_true (by simp) ?_
    cases he : s.endpoint r.cId with
    | none => exact h.ended i r
    | some e =>
      dsimp only
      split
      case h_1 =>
        split
        case h_1 => exact h.ended i r
        case h_2 fd hunu =>
          refine h.of_set (p := .checking fd true) rfl rfl (get_set_of_unused hunu _)
            (fun _ => Or.inl) ?_
          rintro _ ⟨⟩
          exact .inl (by rw [get_set, if_pos rfl])
      case h_2 fd hunu =>
        split
        · refine h.of_set (p := .opened fd) rfl rfl (get_set_of_unused hunu _) (fun _ => Or.inl) ?_
          rintro _ ⟨⟩
          have hget : (s.files.set fd (.connection e)).get fd = some (.connection e) := by
            rw [get_set, if_pos rfl]
          refine .inr ⟨by simp [hget], hget.trans ?_⟩
          change _ = (s.endpoint r.cId).map File.connection
          rw [he, map_some]
        · exact h.ended i r

theorem Safe.write {callRead : Bool} (hi : s.functors[i]? = some (r, .writing fd callRead)) :
    (s.step (.advance i env)).Safe := by
  have hleads := h.held _ (mem_of_getElem? hi) fd rfl
  simp only [step, hi, advance, TcpClient.write]
  split
  case h_1 | h_2 => exact h.ended i r
  case h_3 file hunc hfile =>
    split
    · refine h.of_set (p := .written fd callRead) rfl rfl (fun _ _ => rfl) ?_ (by simp [TcpPc.holds])
      intro w hw
      obtain hw | hw := mem_append.1 hw
      · exact .inl hw
      · obtain rfl := mem_singleton.1 hw
        obtain hleads | ⟨-, hleads⟩ := hleads
        · exact absurd (hfile.symm.trans hleads) (by simpa using hunc)
        · exact .inr (hleads.symm.trans hfile)
    · exact h.ended i r

theorem Safe.closing_iff (hi : s.functors[i]? = some (r, .closing fd)) :
    (∀ f ∈ s.functors, f.2.holds ≠ some fd) ↔ (s.step (.advance i env)).Safe := by
  simp only [step, hi]
  refine h.erase_iff rfl rfl rfl fun f hf => ?_
  constructor
  · intro hmem
    obtain hmem | rfl := mem_or_eq_of_mem_set hmem
    · exact hmem
    · exact absurd rfl hf
  · intro hmem
    obtain ⟨j, hj⟩ := mem_iff_getElem?.1 hmem
    refine mem_iff_getElem?.2 ⟨j, (getElem?_set_ne ?_).trans hj⟩
    rintro rfl
    obtain rfl := some.inj (hi.symm.trans hj)
    exact hf rfl

theorem Safe.advance_iff (hi : s.functors[i]? = some (r, p)) :
    s.Careful (.advance i env) ↔ (s.step (.advance i env)).Safe := by
  have hheld := h.held _ (mem_of_getElem? hi)
  rw [Careful, hi]
  cases p with
  | start => exact h.start_iff hi
  | closing fd => exact h.closing_iff hi
  | writing fd callRead => exact iff_of_true trivial (h.write hi)
  | opened fd =>
    rw [step, hi]
    exact iff_of_true trivial (h.of_set_same (p := .checking fd true) rfl rfl rfl rfl hheld)
  | checking fd callRead =>
    refine iff_of_true trivial ?_
    simp only [step, hi, advance]
    refine h.of_set_same rfl rfl rfl rfl ?_
    split
    · exact hheld
    · simp [TcpPc.holds]
  | written fd callRead =>
    refine iff_of_true trivial ?_
    simp only [step, hi, advance]
    refine h.of_set_same rfl rfl rfl rfl ?_
    split <;> simp [TcpPc.holds]
  | reading fd | erasingLookup fd =>
    refine iff_of_true trivial ?_
    simp only [step, hi, advance]
    split <;> exact h.of_set_same rfl rfl rfl rfl (by simp [TcpPc.holds])
  | deletingState fd =>
    rw [step, hi]
    exact iff_of_true trivial (h.of_set_same (p := .erasingLookup fd) rfl rfl rfl rfl nofun)
  | erasingFds fd =>
    rw [step, hi]
    exact iff_of_true trivial (h.of_set_same (p := .closing fd) rfl rfl rfl rfl nofun)
  | ended =>
    rw [step, hi]
    exact iff_of_true trivial (h.ended i r)

theorem Safe.step_iff (a : Action) : s.Careful a ↔ (s.step a).Safe := by
  cases a with
  | request r =>
    refine iff_of_true trivial ⟨h.written, fun f hf fd hfd => ?_⟩
    obtain hf | hf := mem_append.1 hf
    · exact h.held f hf fd hfd
    · obtain rfl := mem_singleton.1 hf
      cases hfd
  | advance i env =>
    cases hi : s.functors[i]? with
    | none =>
      rw [Careful, step, hi]
      exact iff_of_true trivial h
    | some f => exact h.advance_iff hi
  | addFqdn cId ipAddress port =>
    have hleads (f : TcpRequest × TcpPc) (hf : f ∈ s.functors) (fd : ℕ) (hfd : fd ∈ f.2.holds) :
        (s.files.get fd = some .unconnected ∨
          (s.step (.addFqdn cId ipAddress port)).endpoint f.1.cId = s.endpoint f.1.cId) ↔
        (s.step (.addFqdn cId ipAddress port)).Leads fd f.1.cId := by
      refine or_congr_right' fun hcon => ?_
      obtain ⟨hopen, hfile⟩ := (h.held f hf fd hfd).resolve_left hcon
      change _ ↔ s.files.get fd ≠ none ∧ s.files.get fd = _
      rw [and_iff_right hopen, hfile,
        (map_injective fun _ _ => File.connection.inj).eq_iff, eq_comm]
    constructor
    · intro hsame
      exact ⟨h.written, fun f hf fd hfd => (hleads f hf fd hfd).1 (hsame f hf fd hfd)⟩
    · intro hsafe f hf fd hfd
      exact (hleads f hf fd hfd).2 (hsafe.held f hf fd hfd)
  | openOther fd =>
    refine iff_of_true trivial ?_
    rw [step]
    split
    case h_1 => exact h
    case h_2 fd hunu =>
      refine ⟨h.written, fun f hf fd' hfd' => ?_⟩
      have hleads := h.held f hf fd' hfd'
      exact hleads.congr rfl (get_set_of_unused hunu _ fd' hleads.get_ne_none)
  | closeOther fd => exact h.erase_iff rfl rfl rfl fun _ _ => Iff.rfl

end

/-- **When requests are written to the right server.** None is written, or about to be, to another
server than the one that is configured for its CID, if and only if every step is careful. -/
theorem safe_iff (fqdns : List (ℕ × Endpoint)) (actions : List Action) :
    Runs.Along step Careful (init fqdns) actions ↔
      ∀ k, ((actions.take k).foldl step (init fqdns)).Safe :=
  Runs.along_iff (J := fun _ => True) (fun _ _ _ => trivial) (fun _ a _ h => h.step_iff a) actions
    (init fqdns) trivial ⟨by simp [init], by simp [init]⟩

def twoServers : TcpClient := init [(1, 10, 80), (2, 20, 80)]

/-- A request for `cId` with the session key 5 of node 7 arrives, and its functor `i` goes up to
`write`. -/
def handled (cId i sections : ℕ) : List Action :=
  .request ⟨cId, 9, 7, 5, []⟩ ::
    List.replicate sections (.advance i ⟨some 3, none, true, true, false⟩)

/-- A second request for the same CID is written to the connection of the first one. -/
theorem safe_same_server : let actions := handled 1 0 4 ++ handled 1 1 3
    (∀ k, ((actions.take k).foldl step twoServers).Safe) ∧
      ((actions.foldl step twoServers).writes.map fun w => w.file) =
        [.connection (10, 80), .connection (10, 80)] := by
  intro actions
  exact ⟨(safe_iff _ actions).1 (by decide), by decide⟩

/-- A second request for another CID is written to the connection of the first one too. -/
theorem not_safe_other_server : let s := (handled 1 0 4 ++ handled 2 1 3).foldl step twoServers
    ¬ s.Safe ∧ ∃ w ∈ s.writes, w.request.cId = 2 ∧ w.endpoint = some (20, 80) ∧
      w.file = .connection (10, 80) := by
  intro s
  have hwrite : ∃ w ∈ s.writes, w.request.cId = 2 ∧ w.endpoint = some (20, 80) ∧
      w.file = .connection (10, 80) := by decide
  refine ⟨fun hsafe => ?_, hwrite⟩
  obtain ⟨w, hw, -, hendp, hfile⟩ := hwrite
  have hright := hsafe.written w hw
  rw [hendp, hfile] at hright
  exact absurd hright (by decide)

/-! ### Responses -/

def enters (fd : ℕ) : TcpRequest × TcpPc → Option ℕ
  | (r, .written fd' _) => if fd' = fd then some r.rCId else none
  | _ => none

def entered (s : TcpClient) (fd : ℕ) : Action → Option ℕ
  | .advance i _ => s.functors[i]?.bind (enters fd)
  | _ => none

def carried (fd : ℕ) : TcpClient → List Action → List ℕ
  | _, [] => []
  | s, a :: actions => (s.entered fd a).toList ++ carried fd (s.step a) actions

def GoesOn (fd : ℕ) (s : TcpClient) : Action → Prop
  | .advance i _ => ∀ f ∈ s.functors[i]?, f.2.erases ≠ some fd
  | _ => True

instance (fd : ℕ) (s : TcpClient) : DecidablePred (GoesOn fd s) := by
  intro a
  cases a <;> dsimp only [GoesOn] <;> infer_instance

theorem get_reverseLookup_advance (hp : p.erases ≠ some fd) :
    (s.advance r env p).1.reverseLookup.get fd =
      (s.reverseLookup.get fd).or (enters fd (r, p)) := by
  cases p with
  | start =>
    refine Eq.trans ?_ (or_none).symm
    rw [advance, tcpSocket]
    repeat' split
    all_goals rfl
  | writing fd' callRead =>
    refine Eq.trans ?_ (or_none).symm
    rw [advance, write]
    repeat' split
    all_goals rfl
  | written fd' callRead =>
    rw [advance, enters, get_insert]
    by_cases hfd : fd = fd'
    · subst hfd
      cases s.reverseLookup.get fd <;> simp
    · rw [if_neg hfd, if_neg (Ne.symm hfd), or_none]
  | erasingLookup fd' =>
    have hfd : fd ≠ fd' := fun heq => hp (heq ▸ rfl)
    refine Eq.trans ?_ (or_none).symm
    rw [advance]
    split
    · rfl
    · rw [get_erase, if_neg hfd]
  | reading fd' =>
    refine Eq.trans ?_ (or_none).symm
    rw [advance]
    split <;> rfl
  | _ => exact (or_none).symm

theorem get_reverseLookup_step {a : Action} (ha : s.GoesOn fd a) :
    (s.step a).reverseLookup.get fd = (s.reverseLookup.get fd).or (s.entered fd a) := by
  cases a with
  | advance i env =>
    rw [step, entered]
    cases hi : s.functors[i]? with
    | none => exact (or_none).symm
    | some f => exact get_reverseLookup_advance (ha f hi)
  | openOther fd' =>
    rw [step]
    split <;> exact (or_none).symm
  | _ => exact (or_none).symm

theorem get_reverseLookup_run (actions : List Action) (halong : Runs.Along step (GoesOn fd) s actions) :
    (actions.foldl step s).reverseLookup.get fd =
      (s.reverseLookup.get fd).or (carried fd s actions).head? := by
  induction actions generalizing s with
  | nil => exact (or_none).symm
  | cons a actions ih =>
    rw [foldl_cons, ih halong.2, get_reverseLookup_step halong.1, Option.or_assoc, carried]
    cases s.entered fd a <;> rfl

def twoRequests (first second : ℕ) : List Action :=
  .request ⟨1, first, 7, 5, []⟩ :: List.replicate 5 (.advance 0 ⟨some 3, none, true, true, false⟩) ++
    .request ⟨1, second, 7, 5, []⟩ :: List.replicate 5 (.advance 1 ⟨some 3, none, true, true, false⟩)

end TcpClient

end Blackadder
