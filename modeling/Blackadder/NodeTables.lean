/-
**The tables of the nodes.**

A NAP keeps whether it may send to a node, and which nodes have answered the CTRL-WU messages of a
response. A new key goes through a pair with a first component of 16 bits, in `_addNodeId` always,
in `_addNodeIdToWindowUpdate` in the last of four branches. The abstract model is a function from
nodes to states.
-/

import Blackadder.Runs
import Blackadder.Lightweight

namespace Blackadder

open OrderedMap

namespace Lightweight

/-! ### The functions on the tables -/

section
variable (l : Lightweight) (rCId sessionKey nodeId : ℕ)

/-- `Http::forwarding`: an unknown node is ignored. -/
def httpForwarding (state : Bool) : Lightweight :=
  { l with knownNIds := l.knownNIds.modify nodeId fun _ => state }

/-- A node waits for the answer to a CTRL-WU; in a session that is there, a new key is cut to 16
bits. -/
def awaitWindowUpdated : Option (OrderedMap ℕ Bool) → OrderedMap ℕ Bool
  | none => OrderedMap.set ∅ nodeId false
  | some nidMap =>
    match nidMap.get nodeId with
    | none => nidMap.insert (nodeId % 65536) false
    | some _ => nidMap

def addNodeIdToWindowUpdate : Lightweight :=
  let updates := l.windowUpdate.upsert rCId fun pridMap => pridMap.upsert 0 fun skMap =>
    skMap.alter sessionKey fun o => some (awaitWindowUpdated nodeId o)
  { l with windowUpdate := updates }

def removeNidsFromWindowUpdate (nodeIds : List ℕ) : Lightweight :=
  let updates := l.windowUpdate.modify rCId fun pridMap => pridMap.modify 0 fun skMap =>
    skMap.modify sessionKey fun nidMap => nodeIds.foldl OrderedMap.erase nidMap
  { l with windowUpdate := updates }

def sessionUpdates : Option (OrderedMap ℕ Bool) :=
  (l.windowUpdate.get rCId).bind fun pridMap => (pridMap.get 0).bind fun skMap => skMap.get sessionKey

def wudsNotReceived : List ℕ :=
  match l.sessionUpdates rCId sessionKey with
  | none => []
  | some nidMap => (nidMap.entries.filter fun e => !e.2).map Prod.fst

end

end Lightweight

/-! ### What the tables are for -/

/-- For each node, whether forwarding is enabled, and whether an answer of a session is waited for
or has come. -/
structure NodeStates where
  known : ℕ → Option Bool
  updates : ℕ → ℕ → ℕ → Option Bool

inductive NodeOperation
  | seen (nodeId : ℕ)
  | forwarding (nodeId : ℕ) (state : Bool)
  | awaitUpdate (rCId : ℕ) (sessionKey : UInt16) (nodeId : ℕ)
  | updated (rCId : ℕ) (sessionKey : UInt16) (nodeId : ℕ)
  | removeNids (rCId : ℕ) (sessionKey : UInt16) (nodeIds : List ℕ)

def NodeStates.unknown : NodeStates := ⟨fun _ => none, fun _ _ _ => none⟩

def NodeStates.apply (a : NodeStates) : NodeOperation → NodeStates
  | .seen nodeId =>
    { a with known := fun n => if n = nodeId then some ((a.known n).getD false) else a.known n }
  | .forwarding nodeId state =>
    { a with known := fun n => if n = nodeId then (a.known n).map fun _ => state else a.known n }
  | .awaitUpdate rCId sessionKey nodeId =>
    { a with updates := fun r s n =>
      if r = rCId ∧ s = sessionKey.toNat ∧ n = nodeId then some ((a.updates r s n).getD false)
      else a.updates r s n }
  | .updated rCId sessionKey nodeId =>
    { a with updates := fun r s n =>
      if r = rCId ∧ s = sessionKey.toNat ∧ n = nodeId then (a.updates r s n).map fun _ => true
      else a.updates r s n }
  | .removeNids rCId sessionKey nodeIds =>
    { a with updates := fun r s n =>
      if r = rCId ∧ s = sessionKey.toNat ∧ n ∈ nodeIds then none else a.updates r s n }

namespace Lightweight

def apply (l : Lightweight) : NodeOperation → Lightweight
  | .seen nodeId => l.addNodeId nodeId
  | .forwarding nodeId state => l.httpForwarding nodeId state
  | .awaitUpdate rCId sessionKey nodeId => l.addNodeIdToWindowUpdate rCId sessionKey.toNat nodeId
  | .updated rCId sessionKey nodeId => (l.handleWindowUpdatedISub rCId nodeId sessionKey).state
  | .removeNids rCId sessionKey nodeIds =>
    l.removeNidsFromWindowUpdate rCId sessionKey.toNat nodeIds

def awaited (l : Lightweight) (rCId sessionKey nodeId : ℕ) : Option Bool :=
  (l.sessionUpdates rCId sessionKey).bind fun nidMap => nidMap.get nodeId

def states (l : Lightweight) : NodeStates := ⟨fun n => l.knownNIds.get n, fun r s n => l.awaited r s n⟩

/-- The tables hold, and report, for each node what was set for it. -/
structure Agrees (l : Lightweight) (a : NodeStates) : Prop where
  known : ∀ n, l.knownNIds.get n = a.known n
  forwardingEnabled : ∀ n, l.forwardingEnabled n = (a.known n).getD false
  updates : ∀ r s n, l.awaited r s n = a.updates r s n
  wudsNotReceived : ∀ r s n, n ∈ l.wudsNotReceived r s ↔ a.updates r s n = some false

/-- An identifier is not cut off: it is small, or nothing is put in, or the session is new. -/
def Fits (l : Lightweight) : NodeOperation → Prop
  | .seen nodeId => nodeId < 65536 ∨ l.knownNIds.get nodeId ≠ none
  | .awaitUpdate rCId sessionKey nodeId =>
    nodeId < 65536 ∨ l.awaited rCId sessionKey.toNat nodeId ≠ none ∨
      l.sessionUpdates rCId sessionKey.toNat = none
  | .forwarding _ _ | .updated _ _ _ | .removeNids _ _ _ => True

/-! ### What happens to the tables -/

section
variable {l : Lightweight} {a : NodeStates} (rCId sk nid r s n : ℕ)

theorem get_knownNIds_addNodeId (l : Lightweight) : (l.addNodeId nid).knownNIds.get n =
      if l.knownNIds.get nid = none ∧ n = nid % 65536 then some ((l.knownNIds.get n).getD false)
      else l.knownNIds.get n := by
  rw [addNodeId]
  split
  case h_1 hnone =>
    simp only [hnone, true_and]
    rw [get_insert]
    split
    · next h => rw [h]
    · rfl
  case h_2 b hsome => simp [hsome]

theorem sessionUpdates_addNodeIdToWindowUpdate (l : Lightweight) :
    (l.addNodeIdToWindowUpdate rCId sk nid).sessionUpdates r s = if r = rCId ∧ s = sk then
        some (awaitWindowUpdated nid (l.sessionUpdates rCId sk))
      else l.sessionUpdates r s := by
  let put (o : Option (OrderedMap ℕ Bool)) : Option (OrderedMap ℕ Bool) :=
    some (awaitWindowUpdated nid o)
  refine bind_get_upsert (u := put) (fun prids => ?_) rfl rfl
  refine bind_get_upsert_self (u := put) (fun skMap => ?_) rfl rfl
  exact get_alter _ _ _ _

theorem sessionUpdates_modify {l l' : Lightweight} {f : OrderedMap ℕ Bool → OrderedMap ℕ Bool}
    (h : l'.windowUpdate = l.windowUpdate.modify rCId fun prids => prids.modify 0 fun skMap =>
      skMap.modify sk f) :
    l'.sessionUpdates r s = if r = rCId ∧ s = sk then (l.sessionUpdates rCId sk).map f
      else l.sessionUpdates r s := by
  rw [sessionUpdates, h]
  refine bind_get_modify (u := Option.map f) (fun prids => ?_) rfl
  refine bind_get_modify_self (u := Option.map f) (fun skMap => ?_) rfl
  exact get_modify _ _ _ _

theorem awaited_modify {l l' : Lightweight} {f : OrderedMap ℕ Bool → OrderedMap ℕ Bool}
    {g : Option Bool → Option Bool} {p : ℕ → Prop} [DecidablePred p]
    (h : l'.windowUpdate = l.windowUpdate.modify rCId fun prids => prids.modify 0 fun skMap =>
      skMap.modify sk f)
    (hf : ∀ nm n, (f nm).get n = if p n then g (nm.get n) else nm.get n)
    (hg : g none = none) :
    l'.awaited r s n =
      if r = rCId ∧ s = sk ∧ p n then g (l.awaited r s n) else l.awaited r s n := by
  rw [awaited, awaited, sessionUpdates_modify rCId sk r s h]
  by_cases hrs : r = rCId ∧ s = sk
  · obtain ⟨rfl, rfl⟩ := hrs
    cases l.sessionUpdates r s with
    | none => simp [hg]
    | some nm => simp [hf]
  · rw [if_neg hrs, if_neg fun heq => hrs ⟨heq.1, heq.2.1⟩]

theorem get_foldl_erase (nodeIds : List ℕ) (nm : OrderedMap ℕ Bool) :
    (nodeIds.foldl OrderedMap.erase nm).get n = if n ∈ nodeIds then none else nm.get n := by
  induction nodeIds generalizing nm with
  | nil => simp
  | cons n' nodeIds ih =>
    rw [List.foldl_cons, ih, get_erase]
    by_cases hn : n = n' <;> by_cases hmem : n ∈ nodeIds <;> simp [hmem]

theorem agrees_iff : l.Agrees a ↔ l.states = a := by
  constructor
  · intro h
    rw [states]
    congr
    · funext n
      exact h.known n
    · funext r s n
      exact h.updates r s n
  · rintro rfl
    refine ⟨fun n => rfl, fun n => rfl, fun r s n => rfl, ?_⟩
    intro r s n
    rw [wudsNotReceived]
    change _ ↔ l.awaited r s n = _
    rw [awaited]
    cases l.sessionUpdates r s with
    | none => simp
    | some nm =>
      simp only [Option.bind_some, ← mem_entries_iff]
      simp

theorem get_awaitWindowUpdated (o : Option (OrderedMap ℕ Bool)) : (awaitWindowUpdated nid o).get n =
      if (o.bind fun nm => nm.get nid) = none ∧ n = (if o = none then nid else nid % 65536) then
        some ((o.bind fun nm => nm.get n).getD false)
      else o.bind fun nm => nm.get n := by
  rw [awaitWindowUpdated.eq_def]
  cases o with
  | none =>
    rw [get_set]
    simp
  | some nm =>
    dsimp only
    rw [Option.bind_some]
    cases hget : nm.get nid with
    | none =>
      rw [get_insert]
      by_cases hn : n = nid % 65536
      · simp [hn]
      · simp [hn]
    | some b => simp

end

section
variable {l : Lightweight} {a : NodeStates}

theorem insert_iff (get : ℕ → Option Bool) (nodeId k : ℕ) :
    (∀ n, (if get nodeId = none ∧ n = k then some ((get n).getD false) else get n) =
        if n = nodeId then some ((get n).getD false) else get n) ↔
      k = nodeId ∨ get nodeId ≠ none := by
  constructor
  · intro hall
    by_contra hnot
    rw [not_or, not_not] at hnot
    have hnode := hall nodeId
    rw [if_neg (fun heq => hnot.1 heq.2.symm), hnot.2] at hnode
    simp at hnode
  · rintro (rfl | hthe) n
    · by_cases hn : n = k
      · subst hn
        cases hget : get n <;> simp
      · simp [hn]
    · by_cases hn : n = nodeId
      · subst hn
        obtain ⟨b, hb⟩ := Option.ne_none_iff_exists'.1 hthe
        simp [hb]
      · simp [hn, hthe]

theorem mod_eq_self_iff (nodeId : ℕ) : nodeId % 65536 = nodeId ↔ nodeId < 65536 := by omega

theorem states_eq_iff {l' : Lightweight} {known : ℕ → Option Bool} {updates : ℕ → ℕ → ℕ → Option Bool} :
    l'.states = ⟨known, updates⟩ ↔
      (∀ n, l'.knownNIds.get n = known n) ∧ ∀ r s n, l'.awaited r s n = updates r s n := by
  rw [states]
  simp [funext_iff]

theorem states_seen_iff (l : Lightweight) (nodeId : ℕ) :
    l.Fits (.seen nodeId) ↔ (l.apply (.seen nodeId)).states = l.states.apply (.seen nodeId) := by
  have hupd (r s n : ℕ) : (l.addNodeId nodeId).awaited r s n = l.states.updates r s n := by
    change _ = l.awaited r s n
    rw [awaited, awaited, addNodeId]
    split <;> rfl
  rw [NodeStates.apply, states_eq_iff, apply, and_iff_left hupd, Fits, ← mod_eq_self_iff,
    ← insert_iff]
  refine forall_congr' ?_
  intro n
  rw [get_knownNIds_addNodeId]
  rfl

theorem states_awaitUpdate_iff (l : Lightweight) (rCId : ℕ) (ses : UInt16) (nodeId : ℕ) :
    l.Fits (.awaitUpdate rCId ses nodeId) ↔ (l.apply (.awaitUpdate rCId ses nodeId)).states =
        l.states.apply (.awaitUpdate rCId ses nodeId) := by
  have hknown (n : ℕ) : (l.addNodeIdToWindowUpdate rCId ses.toNat nodeId).knownNIds.get n =
      l.states.known n := rfl
  have hawa (r s n : ℕ) : (l.addNodeIdToWindowUpdate rCId ses.toNat nodeId).awaited r s n =
        if r = rCId ∧ s = ses.toNat then
          (awaitWindowUpdated nodeId (l.sessionUpdates rCId ses.toNat)).get n
        else l.awaited r s n := by
    rw [awaited, sessionUpdates_addNodeIdToWindowUpdate]
    split <;> rfl
  have hkey : (if l.sessionUpdates rCId ses.toNat = none then nodeId else nodeId % 65536) =
      nodeId ↔ nodeId < 65536 ∨ l.sessionUpdates rCId ses.toNat = none := by
    by_cases hnone : l.sessionUpdates rCId ses.toNat = none
    · simp [hnone]
    · simp [hnone]
  have hses := insert_iff (l.awaited rCId ses.toNat) nodeId
    (if l.sessionUpdates rCId ses.toNat = none then nodeId else nodeId % 65536)
  rw [hkey, or_assoc, or_comm (a := l.sessionUpdates rCId ses.toNat = none)] at hses
  rw [NodeStates.apply, states_eq_iff, apply, and_iff_right hknown, Fits, ← hses]
  constructor
  · intro hall r s n
    rw [hawa]
    by_cases hrs : r = rCId ∧ s = ses.toNat
    · obtain ⟨rfl, rfl⟩ := hrs
      simp only [true_and, get_awaitWindowUpdated]
      exact hall n
    · rw [if_neg hrs, if_neg fun heq => hrs ⟨heq.1, heq.2.1⟩]
      rfl
  · intro hall n
    have hn := hall rCId ses.toNat n
    rw [hawa, get_awaitWindowUpdated] at hn
    simp only [true_and] at hn
    exact hn

theorem agrees_apply_iff (h : l.Agrees a) (op : NodeOperation) :
    l.Fits op ↔ (l.apply op).Agrees (a.apply op) := by
  obtain rfl := agrees_iff.1 h
  rw [agrees_iff]
  cases op with
  | seen nodeId => exact states_seen_iff l nodeId
  | awaitUpdate rCId sessionKey nodeId => exact states_awaitUpdate_iff l rCId sessionKey nodeId
  | forwarding nodeId state =>
    refine iff_of_true trivial (states_eq_iff.2 ⟨?_, fun r s n => rfl⟩)
    intro n
    rw [apply, httpForwarding, get_modify]
    split
    · next hn => rw [hn]; rfl
    · rfl
  | updated rCId sessionKey nodeId =>
    refine iff_of_true trivial (states_eq_iff.2 ⟨fun n => rfl, fun r s n => ?_⟩)
    refine awaited_modify (g := Option.map fun _ => true) (p := (· = nodeId)) rCId
      sessionKey.toNat r s n rfl (fun nm n => ?_) rfl
    rw [get_modify]
    split
    · next hn => rw [hn]
    · rfl
  | removeNids rCId sessionKey nodeIds =>
    refine iff_of_true trivial (states_eq_iff.2 ⟨fun n => rfl, fun r s n => ?_⟩)
    exact awaited_modify (g := fun _ => none) rCId sessionKey.toNat r s n rfl
      (fun nm n => get_foldl_erase n nodeIds nm) rfl

end

/-- **When the tables agree with what was set**: if and only if no identifier is cut off. -/
theorem nodeTables_iff (nodeId : ℕ) (operations : List NodeOperation) :
    Runs.Along apply Fits (init nodeId) operations ↔
      ∀ k, ((operations.take k).foldl apply (init nodeId)).Agrees
        ((operations.take k).foldl NodeStates.apply NodeStates.unknown) := by
  exact Runs.simulation_iff (R := Agrees) (fun l a op h => agrees_apply_iff h op)
    operations (init nodeId) NodeStates.unknown (agrees_iff.2 rfl)

/-- Node 7 may be sent to, and nodes 7 and 8 are asked for credit, of which node 7 answers. -/
theorem nodeTables_two_nodes :
    let operations : List NodeOperation := [.seen 7, .forwarding 7 true, .seen 8, .awaitUpdate 1 5 7,
      .awaitUpdate 1 5 8, .updated 1 5 7]
    let l := operations.foldl apply (init 9)
    (∀ k, ((operations.take k).foldl apply (init 9)).Agrees
      ((operations.take k).foldl NodeStates.apply NodeStates.unknown)) ∧
    l.forwardingEnabled 7 = true ∧ l.forwardingEnabled 8 = false ∧ l.wudsNotReceived 1 5 = [8] := by
  intro operations l
  have hfits : Runs.Along apply Fits (init 9) operations :=
    ⟨.inl (by decide), trivial, .inl (by decide), .inl (by decide), .inl (by decide), trivial,
      trivial⟩
  exact ⟨(nodeTables_iff 9 operations).1 hfits, by decide, by decide, by decide⟩

/-- A packet from node 65537 makes an entry for node 1, and forwarding to 65537 cannot be enabled.
-/
theorem not_nodeTables :
    let operations : List NodeOperation := [.seen 65537, .forwarding 65537 true]
    let l := operations.foldl apply (init 9)
    let a := operations.foldl NodeStates.apply NodeStates.unknown
    ¬ l.Agrees a ∧ l.knownNIds.get 1 = some false ∧ a.known 1 = none ∧
      l.forwardingEnabled 65537 = false ∧ a.known 65537 = some true := by
  intro operations l a
  have hnode : l.knownNIds.get 1 = some false := by decide
  have hnode' : a.known 1 = none := by decide
  refine ⟨fun h => ?_, hnode, hnode', by decide, by decide⟩
  have heq := h.known 1
  exact Option.some_ne_none false heq

end Lightweight

end Blackadder
