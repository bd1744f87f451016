/-
**Nodes that come and go.**

`mergeDomains` adds a node to a running domain, or deletes one. Each new node and each connection gets
an identifier that was never given out: `lids` only grows. The identifiers of nodes and connections
that are gone, and of connections whose other end was not found, are not given back.
-/

import Blackadder.Bits
import Blackadder.Enums

namespace Blackadder

open List

structure MergeConnection (n : ℕ) where
  srcLabel : NodeID
  dstLabel : NodeID
  LID : List.Vector UInt8 n

structure MergeNode (n : ℕ) where
  testbedIp : List UInt8
  label : NodeID
  iLid : List.Vector UInt8 n
  connections : List (MergeConnection n)

/-- Where `mergeDomains` is: which connections of a new node are left, and whether an end was found.
-/
inductive MergePhase (n : ℕ)
  | idle
  | adding (ip : List UInt8) (label : NodeID) (attached : List (MergeConnection n))
      (todo : List (List UInt8))
  | attaching (ip : List UInt8) (label : NodeID) (attached : List (MergeConnection n))
      (LID : List.Vector UInt8 n) (i : ℕ) (todo : List (List UInt8))

inductive MergeEvent
  | add (ip : List UInt8) (label : NodeID) (dsts : List (List UInt8))
  /-- A call of `calculateLID`, with the position at which its loop ends. -/
  | draw (k : ℕ)
  | delete (ip : List UInt8)

/-- A domain with identifiers of `n` bytes. -/
structure Merging (n : ℕ) where
  nodes : List (MergeNode n)
  lids : List (List.Vector UInt8 n)
  phase : MergePhase n

namespace Merging

variable {n : ℕ} (s : Merging n)

/-- The loop of `calculateLID` can end. -/
def Free : Prop := ∃ k < 8 * n, Bits.single n k ∉ s.lids

instance : Decidable s.Free := inferInstanceAs (Decidable (∃ k < 8 * n, _))

/-- The nodes and connections of the domain. -/
def total : ℕ := s.nodes.length + (s.nodes.map fun m => m.connections.length).sum

/-- The next connection, or the end: a node without connections is not added. -/
def next (ip : List UInt8) (label : NodeID) (attached : List (MergeConnection n))
    (todo : List (List UInt8)) : MergePhase n :=
  if attached = [] ∧ todo = [] then .idle else .adding ip label attached todo

/-- What is done with a new identifier. -/
def useLID (LID : List.Vector UInt8 n) : Merging n :=
  match s.phase with
  | .idle => s
  | .adding ip label attached (dst :: todo) =>
    match s.nodes.findIdx? fun m => m.testbedIp = dst with
    | some i => { s with phase := .attaching ip label attached LID i todo }
    | none => { s with phase := next ip label attached todo }
  | .attaching ip label attached lid i todo =>
    match s.nodes[i]? with
    | some m => { s with
        nodes := s.nodes.set i { m with connections := m.connections ++ [⟨m.label, label, LID⟩] }
        phase := next ip label (attached ++ [⟨label, m.label, lid⟩]) todo }
    | none => s
  | .adding ip label attached [] =>
    { s with nodes := s.nodes ++ [⟨ip, label, LID, attached⟩], phase := .idle }

/-- The deletion of a node, and of the connections from and to it. -/
def deleteNode (ip : List UInt8) : Merging n :=
  let deleted := (s.nodes.filter fun m => m.testbedIp = ip).getLast?.map MergeNode.label
  { s with
    nodes := (s.nodes.filter fun m => m.testbedIp ≠ ip).map fun m =>
      { m with
        connections := m.connections.filter fun c =>
          some c.srcLabel ≠ deleted ∧ some c.dstLabel ≠ deleted } }

/-- A label is generated that no node has. -/
def step : MergeEvent → Option (Merging n)
  | .add ip label dsts => match s.phase with
    | .idle => if ∀ m ∈ s.nodes, m.label ≠ label then some { s with phase := next ip label [] dsts }
      else none
    | _ => none
  | .draw k => match s.phase with
    | .idle => none
    | _ => if k < 8 * n ∧ Bits.single n k ∉ s.lids then
        some { s.useLID (Bits.single n k) with lids := s.lids ++ [Bits.single n k] }
      else none
  | .delete ip => match s.phase with
    | .idle => some (s.deleteNode ip)
    | _ => none

/-- The identifiers given out are different single bits. -/
structure Drawn : Prop where
  nodup : s.lids.Nodup
  single : ∀ l ∈ s.lids, Bits.IsSingle l

variable {s} {s' s₀ : Merging n}

theorem Drawn.free_iff (h : s.Drawn) : s.Free ↔ s.lids.length < 8 * n := by
  constructor
  · rintro ⟨k, hk, hfree⟩
    have hsub : Bits.single n k :: s.lids ⊆ (range (8 * n)).map (Bits.single n) := by
      intro l hl
      obtain rfl | hl := mem_cons.1 hl
      · exact mem_map_of_mem (mem_range.2 hk)
      · obtain ⟨j, hj, rfl⟩ := h.single l hl
        exact mem_map_of_mem (mem_range.2 hj)
    have hle := (subperm_of_subset (nodup_cons.2 ⟨hfree, h.nodup⟩) hsub).length_le
    rwa [length_cons, length_map, length_range] at hle
  · intro hlt
    by_contra hnone
    have hnodup : ((range (8 * n)).map (Bits.single n)).Nodup :=
      nodup_range.map_on fun i hi j hj hij => by
        rw [mem_range] at hi hj
        have hbit := Bits.bit_single (i := i) hj
        rw [← hij, Bits.bit_single hi, decide_eq_true rfl] at hbit
        exact of_decide_eq_true hbit.symm
    have hsub : (range (8 * n)).map (Bits.single n) ⊆ s.lids := by
      intro l hl
      obtain ⟨k, hk, rfl⟩ := mem_map.1 hl
      by_contra hfree
      exact hnone ⟨k, mem_range.1 hk, hfree⟩
    have hle := (subperm_of_subset hnodup hsub).length_le
    rw [length_map, length_range] at hle
    omega

/-- The number of identifiers that are given out. -/
def draws (events : List MergeEvent) : ℕ := events.countP fun | .draw _ => true | _ => false

theorem step_drawn {e : MergeEvent} (hs : s.Drawn) (h : s.step e = some s') :
    s'.Drawn ∧ s'.lids.length = s.lids.length + draws [e] := by
  have hsame (heq : s'.lids = s.lids) (h0 : draws [e] = 0) :
      s'.Drawn ∧ s'.lids.length = s.lids.length + draws [e] :=
    ⟨⟨heq ▸ hs.nodup, heq ▸ hs.single⟩, by rw [heq, h0, Nat.add_zero]⟩
  cases e with
  | add ip label dsts =>
    rw [step] at h
    split at h
    · split at h
      · cases h
        exact hsame rfl rfl
      · cases h
    · cases h
  | draw k =>
    rw [step] at h
    split at h
    · cases h
    · split at h
      next hk =>
        cases h
        refine ⟨⟨?_, ?_⟩, length_append⟩
        · exact hs.nodup.append (nodup_singleton _) (by simpa using hk.2)
        · intro l hl
          obtain hl | hl := mem_append.1 hl
          · exact hs.single l hl
          · exact ⟨k, hk.1, mem_singleton.1 hl⟩
      · cases h
  | delete ip =>
    rw [step] at h
    split at h
    · cases h
      exact hsame rfl rfl
    · cases h

theorem foldlM_drawn {events : List MergeEvent} (hs : s.Drawn) (h : events.foldlM step s = some s') :
    s'.Drawn ∧ s'.lids.length = s.lids.length + draws events := by
  induction events generalizing s with
  | nil =>
    cases h
    exact ⟨hs, rfl⟩
  | cons e events ih =>
    obtain ⟨t, ht, hrest⟩ := Option.bind_eq_some_iff.1 h
    obtain ⟨hdrawn, hlen⟩ := step_drawn hs ht
    obtain ⟨hdrawn', hlen'⟩ := ih hdrawn hrest
    refine ⟨hdrawn', ?_⟩
    rw [hlen', hlen, Nat.add_assoc, draws, draws, draws, ← countP_append, singleton_append]

/-- **When an identifier is left** for fewer nodes and connections than bits: if fewer than that
many were ever given out. -/
theorem free_iff_draws (s₀ s : Merging n) (events : List MergeEvent) (h₀ : s₀.Drawn)
    (h : events.foldlM step s₀ = some s) :
    (s.total < 8 * n → s.Free) ↔ (s.total < 8 * n → s₀.lids.length + draws events < 8 * n) := by
  obtain ⟨hdrawn, hlen⟩ := foldlM_drawn h₀ h
  rw [hdrawn.free_iff, hlen]

/-- A domain of one node, with identifiers of a byte. -/
def exampleStart : Merging 1 := ⟨[⟨[1], .ofByte 1, Bits.single 1 0, []⟩], [Bits.single 1 0], .idle⟩

theorem drawn_exampleStart : exampleStart.Drawn := by
  refine ⟨nodup_singleton _, fun l hl => ⟨0, by decide, mem_singleton.1 hl⟩⟩

/-- A node is added, with a connection to the first one. -/
def exampleAdded (k : ℕ) : List MergeEvent :=
  [.add [2] (.ofByte 2) [[1]], .draw k, .draw (k + 1), .draw (k + 2)]

theorem free_iff_draws_exampleAdded : ∃ s, (exampleAdded 1).foldlM step exampleStart = some s ∧
    s.total = 4 ∧ s.Free := by
  obtain ⟨s, hs⟩ : ∃ s, (exampleAdded 1).foldlM step exampleStart = some s := ⟨_, rfl⟩
  have htotal : s.total = 4 := by cases hs; rfl
  exact ⟨s, hs, htotal, (free_iff_draws exampleStart s _ drawn_exampleStart hs).2
    (fun _ => by decide) (by omega)⟩

/-- Two nodes come and go, and a third one comes. -/
def exampleHistory : List MergeEvent :=
  exampleAdded 1 ++ .delete [2] :: exampleAdded 4 ++
    [.delete [2], .add [2] (.ofByte 2) [[1]], .draw 7]

/-- When the third node is connected none is left, although the domain has a single node. -/
theorem not_free_exampleHistory :
    ∃ s, exampleHistory.foldlM step exampleStart = some s ∧ s.total = 1 ∧ ¬ s.Free :=
  ⟨_, rfl, rfl, by decide⟩

end Merging

end Blackadder
