/-
**The groups that a response is sent to.**

Nodes whose requests have the same rCID are in its potential group, with a flag that every CTRL-WE
sets, before it is checked whether the request is complete. With the first packet of a response
`_getCmcGroup` makes those that can be sent to the group of the session key, and the other packets go
to it.
-/

import Mathlib.Data.List.Induction
import Blackadder.NodeTables

namespace Blackadder.Lightweight

open List OrderedMap

/-- What `_getCmcGroup` does: the tables, the list, and whether the packet must be buffered. -/
structure CmcAnswer where
  state : Lightweight
  nodeIds : List ℕ
  bufferPacket : Bool

section
variable (l : Lightweight) (rCid sessionKey : ℕ)

def fillCmcGroup (nodeIds : List ℕ) : Option (List ℕ) → List ℕ
  | none | some [] => nodeIds
  | some group => group

def createCmcGroup (nodeIds : List ℕ) : Lightweight :=
  let groups := l.cmcGroups.upsert rCid fun pridMap => pridMap.upsert 0 fun skMap =>
    skMap.alter sessionKey fun o => some (fillCmcGroup nodeIds o)
  { l with cmcGroups := groups }

def selectNodes : List (ℕ × Bool) → List ℕ × Bool → List ℕ × Bool
  | [], selected => selected
  | (nodeId, ready) :: nodes, (nodeIds, bufferPacket) =>
    if ready then
      if !l.forwardingEnabled nodeId then selectNodes nodes (nodeIds, true)
      else selectNodes nodes (nodeIds ++ [nodeId], bufferPacket)
    else selectNodes nodes (nodeIds, bufferPacket)

def leavePotentialCmcGroup (nodeIds : List ℕ) : Lightweight :=
  let groups := l.potentialCmcGroups.prune rCid fun pridMap => pridMap.prune 0 fun nidMap =>
    nodeIds.foldl OrderedMap.erase nidMap
  { l with potentialCmcGroups := groups }

def potentialCmcGroup : Option (OrderedMap ℕ Bool) :=
  (l.potentialCmcGroups.get rCid).bind fun pridMap => pridMap.get 0

def httpGetCmcGroup (firstPacket : Bool) : CmcAnswer :=
  match l.getCmcGroup rCid sessionKey with
  | some (nodeId :: nodeIds) => ⟨l, nodeId :: nodeIds, false⟩
  | _ =>
    if !firstPacket then ⟨l, [], false⟩
    else
      match l.potentialCmcGroup rCid with
      | none => ⟨l, [], false⟩
      | some nidMap =>
        match l.selectNodes nidMap.entries ([], false) with
        | ([], _) => ⟨l, [], true⟩
        | (nodeIds, bufferPacket) =>
          ⟨(l.createCmcGroup rCid sessionKey nodeIds).leavePotentialCmcGroup rCid nodeIds, nodeIds,
            bufferPacket⟩

def requestReceived (nodeId : ℕ) : Option Bool :=
  (l.potentialCmcGroup rCid).bind fun nidMap => nidMap.get nodeId

def cmcGroup : List ℕ := (l.getCmcGroup rCid sessionKey).getD []

end

/-- Exactly the nodes with a complete request that can be sent to leave the potential group. -/
structure Splits (l : Lightweight) (rCid sessionKey : ℕ) (complete : ℕ → Prop)
    (answer : CmcAnswer) : Prop where
  sorted : answer.nodeIds.Pairwise (· < ·)
  mem_iff : ∀ n, n ∈ answer.nodeIds ↔
    (l.requestReceived rCid n).isSome ∧ complete n ∧ l.forwardingEnabled n = true
  cmcGroup : answer.state.cmcGroup rCid sessionKey = answer.nodeIds
  other_cmcGroup : ∀ r s, (r, s) ≠ (rCid, sessionKey) →
    answer.state.getCmcGroup r s = l.getCmcGroup r s
  requestReceived : ∀ n, answer.state.requestReceived rCid n =
    if n ∈ answer.nodeIds then none else l.requestReceived rCid n
  other_potential : ∀ r, r ≠ rCid →
    answer.state.potentialCmcGroups.get r = l.potentialCmcGroups.get r
  /-- No map is left empty, unless nothing was done. -/
  removed : answer.state = l ∨ answer.state.potentialCmcGroups.get rCid ≠ some ∅ ∧
    answer.state.potentialCmcGroup rCid ≠ some ∅
  frame : answer.state = { l with
    cmcGroups := answer.state.cmcGroups
    potentialCmcGroups := answer.state.potentialCmcGroups }

/-- What a call of `_getCmcGroup` is to do, with an empty list of nodes. -/
def Partitions (l : Lightweight) (rCid sessionKey : ℕ) (firstPacket : Bool) (complete : ℕ → Prop) :
    Prop :=
  let answer := l.httpGetCmcGroup rCid sessionKey firstPacket
  if l.cmcGroup rCid sessionKey ≠ [] then
    answer.state = l ∧ answer.nodeIds = l.cmcGroup rCid sessionKey
  else if firstPacket then l.Splits rCid sessionKey complete answer
  else answer.state = l ∧ answer.nodeIds = []

section
variable (l : Lightweight) (rCid sk r s n : ℕ) (nodeIds : List ℕ)

theorem getCmcGroup_createCmcGroup : (l.createCmcGroup rCid sk nodeIds).getCmcGroup r s =
      if r = rCid ∧ s = sk then some (fillCmcGroup nodeIds (l.getCmcGroup rCid sk))
      else l.getCmcGroup r s := by
  let put (o : Option (List ℕ)) : Option (List ℕ) := some (fillCmcGroup nodeIds o)
  unfold getCmcGroup
  rw [Option.bind_assoc, Option.bind_assoc, Option.bind_assoc]
  refine bind_get_upsert (u := put) (fun pridMap => ?_) rfl rfl
  refine bind_get_upsert_self (u := put) (fun skMap => ?_) rfl rfl
  exact get_alter _ _ _ _

theorem requestReceived_leavePotentialCmcGroup :
    (l.leavePotentialCmcGroup rCid nodeIds).requestReceived r n =
      if r = rCid ∧ n ∈ nodeIds then none else l.requestReceived r n := by
  let leave (o : Option Bool) : Option Bool := o.bind fun _ => none
  have hlea (o : Option Bool) : leave o = none := by cases o <;> rfl
  rw [← hlea (l.requestReceived rCid n)]
  unfold requestReceived potentialCmcGroup
  rw [Option.bind_assoc, Option.bind_assoc, Option.bind_assoc]
  refine bind_get_prune (u := leave) (fun pridMap => ?_) rfl rfl
  refine bind_get_prune_self (u := leave) (fun nm => ?_) rfl rfl
  rw [get_foldl_erase n nodeIds nm, hlea]

theorem leavePotentialCmcGroup_ne_empty :
    (l.leavePotentialCmcGroup rCid nodeIds).potentialCmcGroups.get rCid ≠ some ∅ ∧
      (l.leavePotentialCmcGroup rCid nodeIds).potentialCmcGroup rCid ≠ some ∅ := by
  constructor
  · intro hempty
    obtain ⟨hne, -⟩ | ⟨hne, -⟩ := get_prune_eq_some hempty
    · exact hne rfl
    · exact hne rfl
  · intro hempty
    obtain ⟨pridMap, hrCid, hrule⟩ := Option.bind_eq_some_iff.1 hempty
    obtain ⟨hne, -⟩ | ⟨-, pridMap', -, rfl⟩ := get_prune_eq_some hrCid
    · exact hne rfl
    · obtain ⟨hne, -⟩ | ⟨hne, -⟩ := get_prune_eq_some hrule
      · exact hne rfl
      · exact hne rfl

theorem fst_selectNodes (nodes : List (ℕ × Bool)) (bufP : Bool) :
    (l.selectNodes nodes (nodeIds, bufP)).1 =
      nodeIds ++ (nodes.filter fun e => e.2 && l.forwardingEnabled e.1).map Prod.fst := by
  induction nodes generalizing nodeIds bufP with
  | nil => simp [selectNodes]
  | cons e nodes ih =>
    obtain ⟨nid, ready⟩ := e
    rw [selectNodes]
    cases ready with
    | false => simp [ih]
    | true => cases h : l.forwardingEnabled nid <;> simp [h, ih]

theorem mem_selectNodes_iff (nm : OrderedMap ℕ Bool) :
    n ∈ (l.selectNodes nm.entries ([], false)).1 ↔
      nm.get n = some true ∧ l.forwardingEnabled n = true := by
  rw [fst_selectNodes, nil_append, mem_map]
  constructor
  · rintro ⟨e, he, rfl⟩
    obtain ⟨hmem, hready⟩ := mem_filter.1 he
    rw [Bool.and_eq_true] at hready
    refine ⟨?_, hready.2⟩
    rw [← hready.1]
    exact mem_entries_iff.1 hmem
  · rintro ⟨hget, hfor⟩
    refine ⟨(n, true), mem_filter.2 ⟨mem_entries_iff.2 hget, ?_⟩, rfl⟩
    exact hfor

theorem sorted_selectNodes (nm : OrderedMap ℕ Bool) :
    (l.selectNodes nm.entries ([], false)).1.Pairwise (· < ·) := by
  rw [fst_selectNodes, nil_append, pairwise_map]
  exact nm.sorted.sublist filter_sublist

end

variable {l : Lightweight} {rCid sk : ℕ}

/-- The flag of the potential group is set. -/
def Flagged (l : Lightweight) (rCid n : ℕ) : Prop := l.requestReceived rCid n = some true

theorem isSome_and_flagged_iff {n : ℕ} {q : Prop} :
    (l.requestReceived rCid n).isSome ∧ l.Flagged rCid n ∧ q ↔ l.requestReceived rCid n = some true ∧ q :=
  ⟨And.right, fun h => ⟨by rw [h.1]; rfl, h⟩⟩

theorem Splits.refl (hgroup : l.cmcGroup rCid sk = []) {bufP : Bool}
    (hnone : ∀ n, ¬ (l.requestReceived rCid n = some true ∧ l.forwardingEnabled n = true)) :
    l.Splits rCid sk (l.Flagged rCid) ⟨l, [], bufP⟩ where
  sorted := List.Pairwise.nil
  mem_iff n := by
    rw [isSome_and_flagged_iff]
    exact iff_of_false not_mem_nil (hnone n)
  cmcGroup := hgroup
  other_cmcGroup _ _ _ := rfl
  requestReceived n := by simp
  other_potential _ _ := rfl
  removed := .inl rfl
  frame := rfl

theorem fillCmcGroup_of_getD {o : Option (List ℕ)} (h : o.getD [] = []) (nodeIds : List ℕ) :
    fillCmcGroup nodeIds o = nodeIds := by
  match o, h with
  | none, _ => rfl
  | some [], _ => rfl

theorem Splits.move (hgroup : l.cmcGroup rCid sk = []) {nm : OrderedMap ℕ Bool}
    (hnidM : l.potentialCmcGroup rCid = some nm) {nodeIds : List ℕ} {bufP : Bool}
    (hsel : l.selectNodes nm.entries ([], false) = (nodeIds, bufP)) :
    l.Splits rCid sk (l.Flagged rCid)
      ⟨(l.createCmcGroup rCid sk nodeIds).leavePotentialCmcGroup rCid nodeIds, nodeIds, bufP⟩ where
  sorted := by
    have hsor := l.sorted_selectNodes nm
    rwa [hsel] at hsor
  mem_iff n := by
    have hmem := l.mem_selectNodes_iff n nm
    rw [hsel] at hmem
    rwa [isSome_and_flagged_iff, Lightweight.requestReceived, hnidM]
  cmcGroup := by
    have hget := l.getCmcGroup_createCmcGroup rCid sk rCid sk nodeIds
    rw [if_pos ⟨rfl, rfl⟩, fillCmcGroup_of_getD hgroup] at hget
    exact congrArg (Option.getD · []) hget
  other_cmcGroup r s hne := by
    have hget := l.getCmcGroup_createCmcGroup rCid sk r s nodeIds
    rwa [if_neg fun h => hne (Prod.ext h.1 h.2)] at hget
  requestReceived n := by
    have hget := (l.createCmcGroup rCid sk nodeIds).requestReceived_leavePotentialCmcGroup
      rCid rCid n nodeIds
    simp only [true_and] at hget
    exact hget
  other_potential r hne := (get_alter _ _ _ _).trans (if_neg hne)
  removed := .inr (leavePotentialCmcGroup_ne_empty _ rCid nodeIds)
  frame := rfl

/-- **How the potential group is split**, if there is no group with nodes: by the flags, with the first
packet of a response. -/
theorem partitions_flagged (l : Lightweight) (rCid sessionKey : ℕ) (firstPacket : Bool) :
    l.Partitions rCid sessionKey firstPacket (l.Flagged rCid) := by
  unfold Partitions
  intro answer
  have hans : answer = l.httpGetCmcGroup rCid sessionKey firstPacket := rfl
  rw [httpGetCmcGroup] at hans
  split at hans
  case h_1 nodeId nodeIds hgroup =>
    rw [cmcGroup, hgroup, hans]
    simp
  case h_2 hempty =>
    have hgroup : l.cmcGroup rCid sessionKey = [] := by
      rw [cmcGroup]
      match h : l.getCmcGroup rCid sessionKey with
      | none => rfl
      | some [] => rfl
      | some (nodeId :: nodeIds) => exact absurd h (hempty nodeId nodeIds)
    rw [if_neg (not_not.2 hgroup)]
    cases firstPacket with
    | false =>
      rw [hans]
      simp
    | true =>
      rw [if_pos rfl, hans, if_neg (by decide)]
      split
      case h_1 hnone =>
        exact Splits.refl hgroup fun n => by simp [requestReceived, hnone]
      case h_2 nidMap hnidM =>
        split
        case h_1 bufferPacket hsel =>
          refine Splits.refl hgroup fun n hn => ?_
          rw [requestReceived, hnidM] at hn
          have hmem := (l.mem_selectNodes_iff n nidMap).2 hn
          rw [hsel] at hmem
          exact not_mem_nil hmem
        case h_2 nodeIds bufferPacket _ hsel => exact Splits.move hgroup hnidM hsel

theorem partitions_iff_flagged {complete : ℕ → Prop} {firstPacket : Bool} :
    l.Partitions rCid sk firstPacket complete ↔ (l.cmcGroup rCid sk = [] → firstPacket = true →
      ∀ n, (l.requestReceived rCid n).isSome → l.forwardingEnabled n = true →
        (l.Flagged rCid n ↔ complete n)) := by
  have hflag := l.partitions_flagged rCid sk firstPacket
  unfold Partitions at hflag ⊢
  split at hflag
  case isTrue hne => exact iff_of_true (by rwa [if_pos hne]) fun hnil => absurd hnil hne
  case isFalse hnil =>
    rw [if_neg hnil]
    split at hflag
    case isFalse hnot => exact iff_of_true (by rwa [if_neg hnot]) fun _ h => absurd h hnot
    case isTrue hfirst =>
      rw [if_pos hfirst]
      constructor
      · intro hsplit _ _ n hin hfor
        have hmem := (hflag.mem_iff n).symm.trans (hsplit.mem_iff n)
        exact ⟨fun h => (hmem.1 ⟨hin, h, hfor⟩).2.1, fun h => (hmem.2 ⟨hin, h, hfor⟩).2.1⟩
      · intro hall
        refine { hflag with mem_iff := fun n => (hflag.mem_iff n).trans ?_ }
        refine and_congr_right fun hin => and_congr_left fun hfor => ?_
        exact hall (not_not.1 hnil) hfirst n hin hfor

/-! ### Requests -/

/-- The tables, and the messages of each node under an rCID since it last left the potential group. -/
structure CmcHistory where
  tables : Lightweight
  heard : ℕ → ℕ → List LtpMessage

inductive CmcEvent
  | publishedDataISub (memory : ℕ → UInt8) (rCId nodeId : ℕ) (packet : List UInt8)
  | getCmcGroup (rCid sessionKey : ℕ) (firstPacket : Bool)
  /-- Whatever the rest of the NAP does: it does not change the potential groups. -/
  | other (tables : Lightweight)

namespace CmcEvent

def messages (rCId nodeId : ℕ) : CmcEvent → List LtpMessage
  | publishedDataISub _ r n packet => if rCId = r ∧ nodeId = n then [LtpMessage.read packet] else []
  | getCmcGroup _ _ _ | other _ => []

def apply (l : Lightweight) : CmcEvent → Lightweight
  | publishedDataISub memory rCId nodeId packet => (l.handleISub memory rCId nodeId packet).state
  | getCmcGroup rCid sessionKey firstPacket => (l.httpGetCmcGroup rCid sessionKey firstPacket).state
  | other tables => { tables with potentialCmcGroups := l.potentialCmcGroups }

end CmcEvent

namespace CmcHistory

def initial (nodeId : ℕ) : CmcHistory := ⟨init nodeId, fun _ _ => []⟩

def step (s : CmcHistory) (e : CmcEvent) : CmcHistory where
  tables := e.apply s.tables
  heard r n :=
    if (s.tables.requestReceived r n).isSome ∧ (e.apply s.tables).requestReceived r n = none then []
    else s.heard r n ++ e.messages r n

end CmcHistory

/-- The fragments of a session up to a number have come. -/
def Fragments (heard : List LtpMessage) (sessionKey last : UInt16) : Prop :=
  ∀ i, 1 ≤ i → i ≤ last → ∃ length payload, .data sessionKey i length payload ∈ heard

/-- **A request is complete** if all fragments up to the number of its CTRL-WE have come. -/
def Complete (heard : List LtpMessage) : Prop :=
  ∃ ripd sessionKey last, .windowEnd ripd sessionKey last ∈ heard ∧ Fragments heard sessionKey last

/-- A CTRL-WE has come after some fragment. -/
def Announced (heard : List LtpMessage) : Prop :=
  ∃ before after ripd sessionKey last, heard = before ++ .windowEnd ripd sessionKey last :: after ∧
    ∃ key number length payload, .data key number length payload ∈ before

/-- What a message does to the flag of its node. -/
def flag (o : Option Bool) : LtpMessage → Option Bool
  | .data _ _ _ _ => some (o.getD false)
  | .windowEnd _ _ _ => o.map fun _ => true
  | _ => o

theorem requestReceived_handleISub (l : Lightweight) (mem : ℕ → UInt8) (rCId nid : ℕ)
    (pkt : List UInt8) (r n : ℕ) : (l.handleISub mem rCId nid pkt).state.requestReceived r n =
      if r = rCId ∧ n = nid then flag (l.requestReceived rCId nid) (LtpMessage.read pkt)
      else l.requestReceived r n := by
  obtain ⟨_, _, _, _, _, _, hstate, -⟩ := l.handleISub_frame mem rCId nid pkt
  rw [hstate]
  unfold requestReceived potentialCmcGroup
  rw [Option.bind_assoc, Option.bind_assoc, Option.bind_assoc]
  cases LtpMessage.read pkt with
  | data sessionKey number length payload =>
    let put (o : Option Bool) : Option Bool := some (o.getD false)
    refine bind_get_upsert (u := put) (fun pridMap => ?_) rfl rfl
    refine bind_get_upsert_self (u := put) (fun nidMap => ?_) rfl rfl
    exact get_insert _ _ _ _
  | windowEnd ripd sessionKey last =>
    let put (o : Option Bool) : Option Bool := o.map fun _ => true
    refine bind_get_modify (u := put) (fun pridMap => ?_) rfl
    refine bind_get_modify_self (u := put) (fun nidMap => ?_) rfl
    exact get_modify _ _ _ _
  | nack | sessionEnd | sessionEnded | windowEnded | windowUpdate | windowUpdated | unknownControl
      | unknown =>
    split
    case isTrue heq => rw [heq.1, heq.2]; rfl
    case isFalse => rfl

/-- A node leaves the potential group, or its flag follows its messages. -/
theorem requestReceived_apply (l : Lightweight) (e : CmcEvent) (r n : ℕ) :
    (l.requestReceived r n).isSome ∧ (e.apply l).requestReceived r n = none ∨
      (e.apply l).requestReceived r n = (e.messages r n).foldl flag (l.requestReceived r n) := by
  cases e with
  | publishedDataISub mem rCId nid pkt =>
    right
    rw [CmcEvent.apply, requestReceived_handleISub, CmcEvent.messages]
    split
    case isTrue heq => rw [heq.1, heq.2]; rfl
    case isFalse => rfl
  | other tables => exact .inr rfl
  | getCmcGroup rCid sk firstPacket =>
    have hpart := l.partitions_flagged rCid sk firstPacket
    unfold Partitions at hpart
    change _ ∧ (l.httpGetCmcGroup rCid sk firstPacket).state.requestReceived r n = none ∨
      (l.httpGetCmcGroup rCid sk firstPacket).state.requestReceived r n = l.requestReceived r n
    split at hpart
    · exact .inr (by rw [hpart.1])
    · split at hpart
      · by_cases hr : r = rCid
        · subst hr
          rw [hpart.requestReceived]
          split
          case isTrue hmem => exact .inl ⟨((hpart.mem_iff n).1 hmem).1, rfl⟩
          case isFalse => exact .inr rfl
        · right
          rw [requestReceived, potentialCmcGroup, hpart.other_potential r hr]
          rfl
      · exact .inr (by rw [hpart.1])

/-- **The flag of a node** is what its messages have made of it. -/
theorem requestReceived_eq_foldl (nodeId : ℕ) (events : List CmcEvent) (r n : ℕ) :
    (events.foldl CmcHistory.step (.initial nodeId)).tables.requestReceived r n =
      ((events.foldl CmcHistory.step (.initial nodeId)).heard r n).foldl flag none := by
  refine foldlRecOn events CmcHistory.step (motive := fun s : CmcHistory =>
    s.tables.requestReceived r n = (s.heard r n).foldl flag none) rfl fun s ih e _ => ?_
  rw [CmcHistory.step]
  dsimp only
  split
  case isTrue hleft => exact hleft.2
  case isFalse hstay =>
    rw [foldl_append, ← ih]
    exact (requestReceived_apply s.tables e r n).resolve_left hstay

theorem append_singleton_eq {heard before after : List LtpMessage} {x y : LtpMessage}
    (heq : heard ++ [x] = before ++ y :: after) :
    heard = before ∧ x = y ∨ ∃ rest, heard = before ++ y :: rest := by
  obtain rfl | ⟨rest, z, rfl⟩ := eq_nil_or_concat after
  · obtain ⟨hbefore, hx⟩ := append_inj' heq rfl
    exact .inl ⟨hbefore, (cons.inj hx).1⟩
  · rw [concat_eq_append, ← cons_append, ← append_assoc] at heq
    exact .inr ⟨rest, (append_inj' heq rfl).1⟩

theorem foldl_flag_iff (heard : List LtpMessage) : ((heard.foldl flag none).isSome ↔
        ∃ key number length payload, .data key number length payload ∈ heard) ∧
      (heard.foldl flag none = some true ↔ Announced heard) := by
  induction heard using reverseRecOn with
  | nil => simp [Announced]
  | append_singleton heard m ih =>
    obtain ⟨hdata, hann⟩ := ih
    have hold {x : LtpMessage} (hx : ∀ ripd key last, x ≠ .windowEnd ripd key last) :
        Announced (heard ++ [x]) ↔ Announced heard := by
      constructor
      · rintro ⟨before, after, ripd, key, last, heq, hin⟩
        obtain ⟨-, rfl⟩ | ⟨rest, rfl⟩ := append_singleton_eq heq
        · exact absurd rfl (hx _ _ _)
        · exact ⟨before, rest, ripd, key, last, rfl, hin⟩
      · rintro ⟨before, after, ripd, key, last, rfl, hin⟩
        exact ⟨before, after ++ [x], ripd, key, last, by simp, hin⟩
    rw [foldl_append, foldl_cons, foldl_nil]
    cases m with
    | data key number length payload =>
      refine ⟨iff_of_true rfl ⟨key, number, length, payload, by simp⟩, ?_⟩
      rw [hold fun _ _ _ => LtpMessage.noConfusion, ← hann, flag]
      cases heard.foldl flag none <;> simp
    | windowEnd ripd key last =>
      rw [flag, Option.isSome_map, hdata]
      refine ⟨by simp, ?_⟩
      rw [Option.map_eq_some_iff]
      constructor
      · rintro ⟨b, hb, -⟩
        exact ⟨heard, [], ripd, key, last, rfl, hdata.1 (by rw [hb]; rfl)⟩
      · rintro ⟨before, after, _, _, _, heq, k, i, len, pay, hin⟩
        have hmem : .data k i len pay ∈ heard ++ [.windowEnd ripd key last] := by
          rw [heq]
          exact mem_append_left _ hin
        obtain ⟨b, hb⟩ := Option.isSome_iff_exists.1 (hdata.2 ⟨k, i, len, pay, by simpa using hmem⟩)
        exact ⟨b, hb, rfl⟩
    | nack | sessionEnd | sessionEnded | windowEnded | windowUpdate | windowUpdated
        | unknownControl | unknown =>
      refine ⟨hdata.trans (by simp), ?_⟩
      exact hann.trans (hold fun _ _ _ => LtpMessage.noConfusion).symm

/-- Packets of nodes under the rCID 5, to a node whose number is 1. -/
def exampleRequests (messages : List (ℕ × LtpMessage)) : List CmcEvent :=
  messages.map (fun m => .publishedDataISub (fun _ => 0) 5 m.1 m.2.bytes) ++
    [.other { init 1 with knownNIds := ((∅ : OrderedMap ℕ Bool).set 7 true).set 8 true }]

end Blackadder.Lightweight
