/-
**NACK groups.**

The CTRL-NACK messages of a session are collected: the nodes, the smallest first and the largest
last number. Where the rCID has a group of another session key, `_addNackNodeId` does not write the
last number.
-/

import Blackadder.LtpSendBuffer
import Mathlib.Data.List.Induction

namespace Blackadder

open Option List OrderedMap

structure Nack where
  nodeId : ℕ
  start : ℕ
  stop : ℕ
deriving DecidableEq

namespace NackGroup

def addNack (group : NackGroup) (nack : Nack) : NackGroup :=
  group.add nack.nodeId nack.start nack.stop

/-- A group has the nodes in their first order, the smallest first and the largest last number. -/
def Collects (group : NackGroup) (nacks : List Nack) : Prop :=
  group.nodeIds = (nacks.map Nack.nodeId).eraseDups ∧
    (nacks.map Nack.start).min? = some group.startSequence ∧
    (nacks.map Nack.stop).max? = some group.endSequence

instance (group : NackGroup) (nacks : List Nack) : Decidable (group.Collects nacks) :=
  inferInstanceAs (Decidable (_ ∧ _ ∧ _))

theorem eraseDups_concat (nodeIds : List ℕ) (n : ℕ) : (nodeIds ++ [n]).eraseDups =
      if n ∈ nodeIds.eraseDups then nodeIds.eraseDups else nodeIds.eraseDups ++ [n] := by
  rw [eraseDups_append]
  by_cases h : n ∈ nodeIds <;> simp [removeAll, h, eraseDups_cons]

theorem foldl_addNack (n start stop : ℕ) (nacks : List Nack) :
    nacks.foldl addNack ⟨[n], start, stop⟩ =
      ⟨(n :: nacks.map Nack.nodeId).eraseDups, (nacks.map Nack.start).foldl min start,
        (nacks.map Nack.stop).foldl max stop⟩ := by
  induction nacks using reverseRecOn with
  | nil => simp [eraseDups_cons]
  | append_singleton nacks nack ih =>
    rw [foldl_append, ih, foldl_cons, addNack, add]
    simp only [map_append, foldl_append, map_cons, map_nil, foldl_cons, foldl_nil]
    rw [← cons_append, eraseDups_concat, mk.injEq]
    refine ⟨rfl, ?_, ?_⟩
    · split <;> omega
    · split <;> omega

theorem collects_foldl_iff (first : Nack) (stop : ℕ) (nacks : List Nack) :
    (nacks.foldl addNack ⟨[first.nodeId], first.start, stop⟩).Collects (first :: nacks) ↔
      (stop :: nacks.map Nack.stop).max? = ((first :: nacks).map Nack.stop).max? := by
  rw [foldl_addNack, Collects]
  simp only [map_cons, min?_cons', max?_cons', true_and, eq_comm]

end NackGroup

namespace NackGroups

/-! ### What happens to the table -/

inductive Operation
  | add (garbage rCId ripd sessionKey : ℕ) (nack : Nack)
  | delete (rCId ripd sessionKey : ℕ)
deriving DecidableEq

def apply (groups : NackGroups) : Operation → NackGroups
  | .add garbage rCId ripd sessionKey nack =>
    groups.addNackNodeId garbage rCId ripd sessionKey nack.nodeId nack.start nack.stop
  | .delete rCId ripd sessionKey => groups.deleteNackGroup rCId ripd sessionKey

def run (groups : NackGroups) (operations : List Operation) : NackGroups :=
  operations.foldl apply groups

def Operation.nackOf (rCId ripd sessionKey : ℕ) : Operation → Option Nack
  | .add _ r p s nack => if r = rCId ∧ p = ripd ∧ s = sessionKey then some nack else none
  | .delete _ _ _ => none

def NoEmpty (groups : NackGroups) : Prop :=
  ∀ r p skMap, ((groups.get r).bind fun pridMap => pridMap.get p) = some skMap → skMap ≠ ∅

section
variable {grps : NackGroups} {rCId ripd sk : ℕ}

section
variable (h : grps.NoEmpty)
include h

theorem NoEmpty.get {r p : ℕ} {skMap : OrderedMap ℕ NackGroup}
    (hget : ((grps.get r).getD ∅).get p = some skMap) : skMap ≠ ∅ := by
  refine h r p skMap ?_
  cases hr : grps.get r with
  | none => simp [hr] at hget
  | some pridMap => simpa [hr] using hget

theorem NoEmpty.addNackNodeId (garbage rCId ripd sk nodeId start stop : ℕ) :
    (grps.addNackNodeId garbage rCId ripd sk nodeId start stop).NoEmpty := by
  intro r p skMap hget
  obtain ⟨pridMap, hr, hp⟩ := bind_eq_some_iff.1 hget
  rw [NackGroups.addNackNodeId, get_upsert] at hr
  split at hr
  case isFalse => exact h r p skMap (bind_eq_some_iff.2 ⟨pridMap, hr, hp⟩)
  case isTrue =>
    obtain rfl := some.inj hr
    rw [get_upsert] at hp
    split at hp
    case isFalse => exact h.get hp
    case isTrue =>
      -- the session has a group now
      obtain rfl := some.inj hp
      refine ne_empty_of_get (k := sk) (v := added garbage grps rCId ripd nodeId start
        stop ((((grps.get rCId).getD ∅).get ripd |>.getD ∅).get sk)) ?_
      rw [get_alter_self]
      cases (((grps.get rCId).getD ∅).get ripd |>.getD ∅).get sk <;> rfl

theorem NoEmpty.deleteNackGroup (rCId ripd sk : ℕ) :
    (grps.deleteNackGroup rCId ripd sk).NoEmpty := by
  intro r p skMap hget
  rw [NackGroups.deleteNackGroup] at hget
  split at hget
  case h_1 => exact h r p skMap hget
  case h_2 =>
    obtain ⟨pridMap, hr, hp⟩ := bind_eq_some_iff.1 hget
    obtain ⟨-, hr⟩ | ⟨-, pridMap', hr', rfl⟩ := get_prune_eq_some hr
    · exact h r p skMap (bind_eq_some_iff.2 ⟨pridMap, hr, hp⟩)
    · obtain ⟨-, hp⟩ | ⟨hne, -⟩ := get_prune_eq_some hp
      · exact h rCId p skMap (bind_eq_some_iff.2 ⟨pridMap', hr', hp⟩)
      · exact hne

theorem NoEmpty.apply (op : Operation) : (grps.apply op).NoEmpty := by
  cases op with
  | add garbage rCId ripd sk nack => exact h.addNackNodeId _ _ _ _ _ _ _
  | delete rCId ripd sk => exact h.deleteNackGroup _ _ _

theorem NoEmpty.run (ops : List Operation) : (grps.run ops).NoEmpty := by
  induction ops using reverseRecOn with
  | nil => exact h
  | append_singleton ops op ih =>
    rw [NackGroups.run, foldl_append]
    exact ih.apply op

theorem NoEmpty.newEnd_eq_stop (hnone : ∀ s, grps.find rCId ripd s = none)
    (garbage stop : ℕ) : grps.newEnd garbage rCId ripd stop = stop := by
  rw [newEnd]
  split
  case h_1 => rfl
  case h_2 skMap hsome =>
    obtain ⟨s, group, hgroup⟩ := ne_empty_iff.1 (h rCId ripd skMap hsome)
    have hs := hnone s
    rw [find, ← bind_assoc, hsome, bind_some, hgroup] at hs
    simp at hs

end

theorem newEnd_eq_garbage {s : ℕ} (hsome : grps.find rCId ripd s ≠ none) (garbage stop : ℕ) :
    grps.newEnd garbage rCId ripd stop = garbage := by
  rw [newEnd]
  split
  case h_1 hnone =>
    rw [find, ← bind_assoc, hnone] at hsome
    exact absurd rfl hsome
  case h_2 => rfl

theorem find_run_add {group : NackGroup} (hgroup : grps.find rCId ripd sk = some group)
    (ops : List Operation) (hkept : .delete rCId ripd sk ∉ ops) :
    (grps.run ops).find rCId ripd sk =
      some ((ops.filterMap (Operation.nackOf rCId ripd sk)).foldl NackGroup.addNack group) := by
  induction ops generalizing grps group with
  | nil => exact hgroup
  | cons op ops ih =>
    rw [mem_cons, not_or] at hkept
    cases op with
    | add garbage r p s nack =>
      by_cases hkey : r = rCId ∧ p = ripd ∧ s = sk
      · obtain ⟨rfl, rfl, rfl⟩ := hkey
        rw [filterMap_cons, Operation.nackOf, if_pos ⟨rfl, rfl, rfl⟩]
        refine ih ?_ hkept.2
        rw [apply, find_addNackNodeId, if_pos ⟨rfl, rfl, rfl⟩, hgroup, added, NackGroup.addNack]
      · rw [filterMap_cons, Operation.nackOf, if_neg hkey]
        refine ih ?_ hkept.2
        rw [apply, find_addNackNodeId, if_neg (by simpa [eq_comm] using hkey), hgroup]
    | delete r p s =>
      refine ih ?_ hkept.2
      rw [apply, find_deleteNackGroup, if_neg, hgroup]
      rintro ⟨rfl, rfl, rfl⟩
      exact hkept.1 rfl

end

/-- **When a group is what was received**: if and only if the rCID had no group at the first
CTRL-NACK, or the value in the memory does not matter. -/
theorem nackGroup_collects_iff (before after : List Operation) (rCId ripd sessionKey : ℕ)
    (garbage garbage' : ℕ) (first : Nack)
    (hfree : (run ∅ before).find rCId ripd sessionKey = none)
    (hkept : .delete rCId ripd sessionKey ∉ after) :
    ((run ∅ (before ++ .add garbage rCId ripd sessionKey first :: after)).nackGroup garbage' rCId ripd
        sessionKey).Collects
      (first :: after.filterMap (Operation.nackOf rCId ripd sessionKey)) ↔
    (∀ s, (run ∅ before).find rCId ripd s = none) ∨
      (garbage :: (after.filterMap (Operation.nackOf rCId ripd sessionKey)).map Nack.stop).max? =
        ((first :: after.filterMap (Operation.nackOf rCId ripd sessionKey)).map Nack.stop).max? := by
  have hempty : NoEmpty ∅ := by
    intro r p skMap hget
    simp at hget
  have hfirst : ((run ∅ before).apply (.add garbage rCId ripd sessionKey first)).find rCId ripd
      sessionKey = some ⟨[first.nodeId], first.start,
        (run ∅ before).newEnd garbage rCId ripd first.stop⟩ := by
    rw [apply, find_addNackNodeId, if_pos ⟨rfl, rfl, rfl⟩, hfree, added]
  have hgroup := find_run_add hfirst after hkept
  rw [run, foldl_append, foldl_cons, ← run, ← run, nackGroup, hgroup, getD_some,
    NackGroup.collects_foldl_iff]
  by_cases hnone : ∀ s, (run ∅ before).find rCId ripd s = none
  · rw [(hempty.run before).newEnd_eq_stop hnone]
    exact iff_of_true rfl (.inl hnone)
  · obtain ⟨s, hs⟩ := not_forall.1 hnone
    rw [newEnd_eq_garbage hs, or_iff_right hnone]

/-- Two nodes ask, one of them twice; then another session has a group. -/
theorem nackGroup_collects_two_nodes : (run ∅ []).find 7 0 3 = none ∧
      ((run ∅ ([] ++ .add 0 7 0 3 ⟨2, 4, 5⟩ :: [.add 0 7 0 8 ⟨2, 1, 1⟩, .add 0 7 0 3 ⟨1, 3, 3⟩,
        .delete 7 0 8, .add 0 7 0 3 ⟨2, 6, 9⟩])).nackGroup 0 7 0 3).Collects
          [⟨2, 4, 5⟩, ⟨1, 3, 3⟩, ⟨2, 6, 9⟩] :=
  ⟨rfl, (nackGroup_collects_iff [] [.add 0 7 0 8 ⟨2, 1, 1⟩, .add 0 7 0 3 ⟨1, 3, 3⟩, .delete 7 0 8,
    .add 0 7 0 3 ⟨2, 6, 9⟩] 7 0 3 0 0 ⟨2, 4, 5⟩ rfl (by decide)).2 (Or.inl fun _ => rfl)⟩

/-- With a group of another session and a 0 in the memory, the new range ends at 0. -/
theorem not_nackGroup_collects :
    ¬ ((run ∅ ([.add 0 7 0 8 ⟨2, 1, 1⟩] ++ .add 0 7 0 3 ⟨1, 3, 5⟩ :: [])).nackGroup 0 7 0 3).Collects
      [⟨1, 3, 5⟩] := by
  decide +kernel

end NackGroups

end Blackadder
