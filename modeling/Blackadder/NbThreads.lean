/-
**The threads of the non-blocking library.**

Threads put messages into `output_queue`, and write to a pipe when it was empty; the selector waits
in `select`; the worker takes events out of `event_queue`. A step is what happens under a mutex.

`select` takes descriptors that are not ready out of the sets. If the socket is readable before it
is writable, nothing puts it into the write set again. And an event that comes before the worker
waits is not noticed, since `pthread_cond_signal` is not remembered.
-/

import Blackadder.Runs

universe u

namespace Blackadder

/-! ### The selector -/

inductive SelectorPc
  | select
  | pipe
  | write
deriving DecidableEq

structure NbSelector (μ : Type u) where
  pc : SelectorPc
  outputQueue : List μ
  pipe : ℕ
  readPipe : Bool
  writeSet : Bool
  enqueued : List μ
  sent : List μ
  frontOfEmpty : Bool
deriving DecidableEq

inductive SelectorAction (μ : Type u)
  /-- The end of `push`, `publish_data` and `publish_data_isub`. -/
  | enqueue (msg : μ)
  /-- `select` returns if the socket is readable or writable. -/
  | ready (readable writable : Bool)
  /-- The selector reads the pipe, if `select` has found a byte there, and the socket. -/
  | drain
  /-- The selector calls `sendmsg`, which succeeds or not, if the socket is in the write set. -/
  | flush (success : Bool)
deriving DecidableEq

namespace NbSelector

variable {μ : Type u}

def init : NbSelector μ := ⟨.select, [], 0, false, false, [], [], false⟩

def enqueue (s : NbSelector μ) (msg : μ) : NbSelector μ :=
  let queue := s.outputQueue ++ [msg]
  { s with
    outputQueue := queue
    pipe := if queue.length = 1 then s.pipe + 1 else s.pipe
    enqueued := s.enqueued ++ [msg] }

def flush (s : NbSelector μ) (success : Bool) : NbSelector μ :=
  match s.outputQueue, success with
  | [], _ => { s with frontOfEmpty := true }
  | msg :: rest, true =>
    { s with outputQueue := rest, sent := s.sent ++ [msg], writeSet := !rest.isEmpty }
  | _ :: _, false => { s with writeSet := true }

def step (s : NbSelector μ) : SelectorAction μ → NbSelector μ
  | .enqueue msg => s.enqueue msg
  | .ready readable writable =>
    if s.pc = .select ∧ (0 < s.pipe ∨ readable ∨ s.writeSet ∧ writable) then
      { s with pc := .pipe, readPipe := decide (0 < s.pipe), writeSet := s.writeSet && writable }
    else s
  | .drain =>
    if s.pc = .pipe then
      if s.readPipe then { s with pc := .write, pipe := s.pipe - 1, writeSet := true }
      else { s with pc := .write }
    else s
  | .flush success =>
    if s.pc = .write then
      if s.writeSet then { s.flush success with pc := .select } else { s with pc := .select }
    else s

/-- A byte in the pipe and the socket in the write set both mean a message, and exclude each other.
-/
structure Orderly (s : NbSelector μ) : Prop where
  exclusive : s.writeSet → s.pipe = 0
  message : s.writeSet ∨ 0 < s.pipe → s.outputQueue ≠ []
  single : s.pipe ≤ 1
  read : s.pc = .pipe → s.readPipe → 0 < s.pipe
  sent : s.sent ++ s.outputQueue = s.enqueued
  front : s.frontOfEmpty = false

variable {s : NbSelector μ}

theorem Orderly.enqueue (h : s.Orderly) (msg : μ) : (s.enqueue msg).Orderly := by
  have hempty (hone : (s.outputQueue ++ [msg]).length = 1) : s.writeSet = false ∧ s.pipe = 0 := by
    have hnil : s.outputQueue = [] := by simpa using hone
    have hno := mt h.message (not_not.2 hnil)
    rw [not_or] at hno
    exact ⟨Bool.eq_false_iff.2 hno.1, Nat.eq_zero_of_not_pos hno.2⟩
  have hle : s.pipe ≤ (s.enqueue msg).pipe := by
    unfold NbSelector.enqueue
    dsimp only
    split <;> omega
  refine ⟨fun hw => ?_, fun _ => by simp [NbSelector.enqueue], ?_, fun hpc hr => ?_, ?_, h.front⟩
  · have hne : ¬ (s.outputQueue ++ [msg]).length = 1 := fun hone => by
      rw [show s.writeSet = true from hw] at hempty
      exact absurd (hempty hone).1 (by decide)
    exact (if_neg hne).trans (h.exclusive hw)
  · unfold NbSelector.enqueue
    dsimp only
    split
    · next hone => exact Nat.le_of_eq (congrArg (· + 1) (hempty hone).2)
    · exact h.single
  · exact Nat.lt_of_lt_of_le (h.read hpc hr) hle
  · change s.sent ++ (s.outputQueue ++ [msg]) = s.enqueued ++ [msg]
    rw [← List.append_assoc, h.sent]

theorem Orderly.flush (h : s.Orderly) (hw : s.writeSet) (success : Bool) :
    { s.flush success with pc := .select }.Orderly := by
  obtain ⟨msg, rest, hq⟩ := List.exists_cons_of_ne_nil (h.message (.inl hw))
  have hpipe := h.exclusive hw
  have hsent := h.sent
  rw [hq] at hsent
  cases success with
  | true =>
    simp only [NbSelector.flush, hq]
    refine ⟨fun _ => hpipe, fun hor => ?_, h.single, nofun, ?_, h.front⟩
    · rcases hor with hne | hpos
      · simpa using hne
      · exact absurd hpipe (Nat.ne_of_gt hpos)
    · simpa using hsent
  | false =>
    simp only [NbSelector.flush, hq]
    exact ⟨fun _ => hpipe, fun _ => List.cons_ne_nil _ _, h.single, nofun, hsent, h.front⟩

theorem Orderly.step (h : s.Orderly) (a : SelectorAction μ) : (s.step a).Orderly := by
  cases a with
  | enqueue msg => exact h.enqueue msg
  | ready readable writable =>
    rw [NbSelector.step]
    split
    case isFalse => exact h
    case isTrue =>
      have hw (hand : (s.writeSet && writable) = true) : s.writeSet := (Bool.and_eq_true_iff.1 hand).1
      exact ⟨fun hand => h.exclusive (hw hand), fun hor => h.message (hor.imp_left hw), h.single,
        fun _ hr => of_decide_eq_true hr, h.sent, h.front⟩
  | drain =>
    rw [NbSelector.step]
    split
    case isFalse => exact h
    case isTrue hpc =>
      split
      case isTrue hr =>
        have hpos := h.read hpc hr
        have hone := h.single
        refine ⟨fun _ => ?_, fun _ => h.message (.inr hpos), ?_, nofun, h.sent, h.front⟩
        · dsimp only
          omega
        · dsimp only
          omega
      · exact ⟨h.exclusive, h.message, h.single, nofun, h.sent, h.front⟩
  | flush success =>
    rw [NbSelector.step]
    split
    case isFalse => exact h
    case isTrue =>
      split
      · next hw => exact h.flush hw success
      · exact ⟨h.exclusive, h.message, h.single, nofun, h.sent, h.front⟩

theorem orderly_run (acts : List (SelectorAction μ)) : (acts.foldl step init).Orderly :=
  List.foldlRecOn (motive := Orderly) acts step
    ⟨nofun, by simp [init], Nat.zero_le 1, nofun, rfl, rfl⟩ fun _ h a _ => h.step a

/-- **Messages are sent in order**: `front` has an element, and what was sent is the beginning of
what was enqueued. -/
theorem sent_in_order (acts : List (SelectorAction μ)) :
    (acts.foldl step init).frontOfEmpty = false ∧
      (acts.foldl step init).sent <+: (acts.foldl step init).enqueued :=
  ⟨(orderly_run acts).front, ⟨_, (orderly_run acts).sent⟩⟩

/-- A message is not left alone: the socket is in the write set, or a byte is in the pipe. -/
def Wakeable (s : NbSelector μ) : Prop := s.outputQueue = [] ∨ s.writeSet ∨ 0 < s.pipe

/-- `select` does not wait for both and return with the socket only readable. -/
def Writable (s : NbSelector μ) (a : SelectorAction μ) : Prop :=
  s.pc = .select → s.writeSet → a ≠ .ready true false

theorem wakeable_step_iff (h : s.Orderly) (hw : s.Wakeable) (a : SelectorAction μ) :
    s.Writable a ↔ (s.step a).Wakeable := by
  cases a with
  | enqueue msg =>
    refine iff_of_true nofun (.inr ?_)
    change s.writeSet ∨ 0 < if (s.outputQueue ++ [msg]).length = 1 then s.pipe + 1 else s.pipe
    split
    · exact .inr (Nat.succ_pos _)
    · next hne => exact hw.resolve_left fun hnil => hne (by rw [hnil]; rfl)
  | ready readable writable =>
    by_cases hpc : s.pc = .select
    case neg => simpa [Writable, step, hpc] using hw
    cases hset : s.writeSet with
    | false =>
      refine iff_of_true (fun _ => by rw [hset]; nofun) ?_
      rw [step]
      split <;> simpa [Wakeable, hset] using hw
    | true =>
      have hne := h.message (.inl hset)
      have hpipe := h.exclusive hset
      cases readable <;> cases writable <;>
        simp [Writable, Wakeable, step, hpc, hset, hpipe, hne]
  | drain =>
    refine iff_of_true nofun ?_
    rw [step]
    split
    case isFalse => exact hw
    case isTrue =>
      split
      · exact .inr (.inl rfl)
      · exact hw
  | flush success =>
    refine iff_of_true nofun ?_
    rw [step]
    split
    case isFalse => exact hw
    case isTrue =>
      split
      case isFalse => exact hw
      case isTrue hset =>
        obtain ⟨msg, rest, hq⟩ := List.exists_cons_of_ne_nil (h.message (.inl hset))
        cases success with
        | true => cases rest <;> simp [Wakeable, flush, hq]
        | false => simp [Wakeable, flush, hq]

/-- **No wake-up is lost** if and only if `select` never waits for both and returns with the socket
only readable. -/
theorem wakeable_iff (acts : List (SelectorAction μ)) :
    Runs.Along step Writable init acts ↔ ∀ k, ((acts.take k).foldl step init).Wakeable :=
  Runs.along_iff (I := Wakeable) (J := Orderly) (fun _ a h => h.step a) (fun _ a h hw => wakeable_step_iff h hw a)
    acts init (orderly_run []) (.inl rfl)

/-- `sendmsg` fails once, an event is received, and `select` no longer waits to write. -/
theorem not_wakeable_received :
    let s := List.foldl step init [.enqueue 1, .ready false false, .drain, .flush false,
      .ready true false, .drain, .flush false]
    s.pc = .select ∧ s.outputQueue = [1] ∧ s.writeSet = false ∧ s.pipe = 0 := by decide

end NbSelector

/-! ### The worker -/

inductive WorkerPc
  | top
  | waiting
  | signalled
  | callback
deriving DecidableEq

structure NbWorker (ε : Type u) where
  pc : WorkerPc
  eventQueue : List ε
deriving DecidableEq

inductive WorkerAction (ε : Type u)
  | receive (ev : ε)
  | advance
  | spurious
deriving DecidableEq

namespace NbWorker

variable {ε : Type u}

def init : NbWorker ε := ⟨.top, []⟩

def signal : WorkerPc → WorkerPc
  | .waiting => .signalled
  | pc => pc

def takeEvent : List ε → NbWorker ε
  | [] => ⟨.top, []⟩
  | _ :: events => ⟨.callback, events⟩

def step (w : NbWorker ε) : WorkerAction ε → NbWorker ε
  | .receive ev => ⟨signal w.pc, w.eventQueue ++ [ev]⟩
  | .advance =>
    match w.pc with
    | .top => { w with pc := .waiting }
    | .waiting => w
    | .signalled | .callback => takeEvent w.eventQueue
  | .spurious => { w with pc := signal w.pc }

/-- No event is left when the worker waits, or is about to. -/
def Idle (w : NbWorker ε) : Prop := w.pc = .waiting ∨ w.pc = .top → w.eventQueue = []

/-- Events are received while the worker waits or works. -/
def Attentive (w : NbWorker ε) (a : WorkerAction ε) : Prop := w.pc = .top → ∀ ev, a ≠ .receive ev

theorem idle_step_iff {w : NbWorker ε} (h : w.Idle) (a : WorkerAction ε) :
    w.Attentive a ↔ (w.step a).Idle := by
  obtain ⟨pc, events⟩ := w
  cases a with
  | receive ev => cases pc <;> simp [Attentive, Idle, step, signal]
  | advance =>
    refine iff_of_true nofun ?_
    cases pc with
    | top => exact fun _ => h (.inr rfl)
    | waiting => exact h
    | _ => cases events <;> simp [Idle, step, takeEvent]
  | spurious =>
    refine iff_of_true nofun ?_
    cases pc with
    | top => exact h
    | _ => simp [Idle, step, signal]

/-- **No event waits for a later one** if and only if none comes while the worker is on its way to
wait. -/
theorem idle_iff (acts : List (WorkerAction ε)) :
    Runs.Along step Attentive init acts ↔ ∀ k, ((acts.take k).foldl step init).Idle :=
  Runs.along_iff (I := Idle) (J := fun _ => True) (fun _ _ _ => trivial)
    (fun _ a _ h => idle_step_iff h a) acts init trivial fun _ => rfl

/-- An event is received before the worker waits for the first time. -/
theorem not_idle_early : List.foldl step init [.receive 1, .advance] = ⟨.waiting, [1]⟩ := rfl

end NbWorker

end Blackadder
