/-
**The sessions of the HTTP clients.**

For each rCID the session keys of the clients that wait are kept. `deleteSessionKey` takes a key
out and deletes the rCIDs without keys. After an erasure its loop starts again, but does not look
at the first entry: it may stay.
-/

import Blackadder.OrderedMap

namespace Blackadder

open Option OrderedMap

/-! ### Erasing from the map that a loop goes through -/

section
variable {α : Type} (isEmpty : α → Bool)

/-- The loops that delete empty entries: `before` has been passed. After an erasure the iterator
moves on from the first entry. -/
def eraseEmpty (before after : List α) : List α :=
  match after with
  | [] => before
  | e :: after =>
    if isEmpty e then
      match h : before ++ after with
      | [] => []
      | first :: rest =>
        have := congrArg List.length h
        eraseEmpty [first] rest
    else eraseEmpty (before ++ [e]) after
termination_by (before.length + after.length, after.length)
decreasing_by
  · simp only [List.length_append, List.length_cons] at this
    exact Prod.Lex.left _ _ (by simp only [List.length_cons, List.length_nil]; omega)
  · refine Prod.lex_def.2 (Or.inr ⟨?_, ?_⟩) <;> simp only [List.length_append, List.length_cons,
      List.length_nil] <;> omega

variable {isEmpty}

theorem eraseEmpty_cons (first : α) (before after : List α) (h : ∀ e ∈ before, isEmpty e = false) :
    eraseEmpty isEmpty (first :: before) after =
      first :: (before ++ after).filter fun e => !isEmpty e := by
  generalize hpas : first :: before = passed
  fun_induction eraseEmpty isEmpty passed after generalizing before with
  | case1 passed =>
    rw [List.append_nil, List.filter_eq_self.2, hpas]
    intro e he
    rw [h e he, Bool.not_false]
  | case2 passed e after _ hnil => simp [← hpas] at hnil
  | case3 passed e after hempty first' rest hrest _ ih =>
    rw [← hpas, List.cons_append] at hrest
    obtain ⟨rfl, rfl⟩ := List.cons.inj hrest
    rw [ih [] (by simp) rfl, List.nil_append, List.filter_append, List.filter_append,
      List.filter_cons_of_neg (by simp [hempty])]
  | case4 passed e after hfull ih =>
    rw [ih (before ++ [e]) ?_ (by rw [← hpas, List.cons_append]), List.append_assoc,
      List.singleton_append]
    intro x hx
    obtain hx | hx := List.mem_append.1 hx
    · exact h x hx
    · rw [List.mem_singleton.1 hx]
      exact Bool.not_eq_true (isEmpty e) ▸ hfull

theorem eraseEmpty_head {a : α} (ha : isEmpty a = true) (b : α) (rest : List α) :
    eraseEmpty isEmpty [] (a :: b :: rest) = b :: rest.filter fun e => !isEmpty e := by
  rw [eraseEmpty, if_pos ha]
  exact eraseEmpty_cons b [] rest (by simp)

/-- **What the loop leaves**: the entries that are not empty, unless the first two are. -/
theorem eraseEmpty_eq (l : List α) : eraseEmpty isEmpty [] l = l.filter (fun e => !isEmpty e) ↔
    ¬ ∃ a b rest, l = a :: b :: rest ∧ isEmpty a = true ∧ isEmpty b = true := by
  match l with
  | [] => simp [eraseEmpty]
  | a :: l =>
    cases ha : isEmpty a with
    | false =>
      rw [eraseEmpty, if_neg (by simp [ha]), List.nil_append, eraseEmpty_cons a [] l (by simp),
        List.filter_cons_of_pos (by simp [ha])]
      refine iff_of_true rfl ?_
      rintro ⟨a', b, rest, heq, ha', -⟩
      rw [← (List.cons.inj heq).1, ha] at ha'
      cases ha'
    | true =>
      rw [List.filter_cons_of_neg (by simp [ha])]
      match l with
      | [] => simp [eraseEmpty, ha]
      | b :: rest =>
        rw [eraseEmpty_head ha]
        cases hb : isEmpty b with
        | false => simp [hb]
        | true =>
          -- the second entry stays in front of what is left of the others
          refine iff_of_false (fun heq => ?_) fun hnot => hnot ⟨a, b, rest, rfl, ha, hb⟩
          have hmem : b ∈ (b :: rest).filter fun e => !isEmpty e := by
            rw [← heq]
            exact List.mem_cons_self
          simp [hb] at hmem

theorem eraseEmpty_sublist (l : List α) : (eraseEmpty isEmpty [] l).Sublist l := by
  match l with
  | [] => simp [eraseEmpty]
  | a :: l =>
    cases ha : isEmpty a with
    | false =>
      rw [eraseEmpty, if_neg (by simp [ha]), List.nil_append, eraseEmpty_cons a [] l (by simp)]
      exact List.filter_sublist.cons_cons a
    | true =>
      match l with
      | [] => simp [eraseEmpty, ha]
      | b :: rest =>
        rw [eraseEmpty_head ha]
        exact (List.filter_sublist.cons_cons b).cons a

end

/-! ### The table -/

/-- `_ipEndpointSessions`: rCIDs, always 0, and session keys. -/
abbrev HttpSessions := OrderedMap ℕ (OrderedMap ℕ (List UInt16))

namespace HttpSessions

def addIpEndpointSession (t : HttpSessions) (rCId : ℕ) (sessionKey : UInt16) : HttpSessions :=
  t.upsert rCId fun pridMap => pridMap.alter 0 fun
    | none => some [sessionKey]
    | some keys => some (if sessionKey ∈ keys then keys else keys ++ [sessionKey])

/-- `sendToEndpoint`, on the table: the sockets that could not be written to are taken out. -/
def sendToEndpoint (t : HttpSessions) (rCId : ℕ) (deleteSockets : List UInt16) : HttpSessions :=
  t.modify rCId fun pridMap => pridMap.modify 0 fun keys => deleteSockets.foldl List.erase keys

def deleteEmpty {ν : Type} (m : OrderedMap ℕ ν) (isEmpty : ν → Bool) : OrderedMap ℕ ν :=
  m.restrict (eraseEmpty (fun e => isEmpty e.2) [] m.entries) (eraseEmpty_sublist _)

theorem get_deleteEmpty_iff {ν : Type} {m : OrderedMap ℕ ν} {isEmpty : ν → Bool} :
    (∀ k, (deleteEmpty m isEmpty).get k = (m.get k).filter fun v => !isEmpty v) ↔
      ¬ ∃ a b rest, m.entries = a :: b :: rest ∧ isEmpty a.2 = true ∧ isEmpty b.2 = true :=
  (get_restrict_iff (p := fun e => !isEmpty e.2)).trans (eraseEmpty_eq m.entries)

def deleteSessionKey (t : HttpSessions) (sessionKey : UInt16) : HttpSessions :=
  let t := t.mapVal fun pridMap => pridMap.mapVal fun keys => keys.erase sessionKey
  let t := t.mapVal fun pridMap => deleteEmpty pridMap List.isEmpty
  deleteEmpty t fun pridMap => pridMap.entries.isEmpty

inductive Operation
  | add (rCId : ℕ) (sessionKey : UInt16)
  | send (rCId : ℕ) (deleteSockets : List UInt16)
  | delete (sessionKey : UInt16)

def apply (t : HttpSessions) : Operation → HttpSessions
  | .add rCId sessionKey => t.addIpEndpointSession rCId sessionKey
  | .send rCId deleteSockets => t.sendToEndpoint rCId deleteSockets
  | .delete sessionKey => t.deleteSessionKey sessionKey

def run (operations : List Operation) : HttpSessions := operations.foldl apply ∅

def others (pridMap : OrderedMap ℕ (List UInt16)) (sessionKey : UInt16) : List UInt16 :=
  ((pridMap.get 0).getD []).filter (· != sessionKey)

def entry (keys : List UInt16) : Option (OrderedMap ℕ (List UInt16)) :=
  if keys = [] then none else some (OrderedMap.set ∅ 0 keys)

/-- The table `t'` is `t` without a session key, and without the rCIDs that have no others. -/
def Deleted (t : HttpSessions) (sessionKey : UInt16) (t' : HttpSessions) : Prop :=
  ∀ rCId, t'.get rCId = (t.get rCId).bind fun pridMap => entry (others pridMap sessionKey)

/-! ### The tables that are reached -/

/-- Only 0 is used besides the rCID, and no session key is there twice. -/
def Shaped (pridMap : OrderedMap ℕ (List UInt16)) : Prop :=
  pridMap = ∅ ∨ ∃ keys, pridMap = OrderedMap.set ∅ 0 keys ∧ keys.Nodup

theorem shaped_alter {prids : OrderedMap ℕ (List UInt16)} (h : Shaped prids)
    {f : Option (List UInt16) → Option (List UInt16)} (hnone : ∀ keys ∈ f none, keys.Nodup)
    (hsome : ∀ keys : List UInt16, keys.Nodup → ∀ keys' ∈ f (some keys), keys'.Nodup) :
    Shaped (prids.alter 0 f) := by
  have hnodup : ∀ keys ∈ f (prids.get 0), keys.Nodup := by
    obtain rfl | ⟨keys, rfl, hkeys⟩ := h
    · exact hnone
    · rw [get_set]
      exact hsome keys hkeys
  have hrest (k : ℕ) (hk : k ≠ 0) : prids.get k = none := by
    obtain rfl | ⟨keys, rfl, -⟩ := h
    · rfl
    · rw [get_set, if_neg hk, get_empty]
  cases hf : f (prids.get 0) with
  | none =>
    refine .inl (eq_empty_iff.2 fun k => ?_)
    rw [get_alter]
    split
    · exact hf
    · next hk => exact hrest k hk
  | some keys =>
    refine .inr ⟨keys, ext_get fun k => ?_, hnodup keys hf⟩
    rw [get_alter, get_set]
    split
    · exact hf
    · next hk => exact hrest k hk

theorem entries_single (keys : List UInt16) :
    (OrderedMap.set (∅ : OrderedMap ℕ (List UInt16)) 0 keys).entries = [(0, keys)] := rfl

def withoutKey (pridMap : OrderedMap ℕ (List UInt16)) (sessionKey : UInt16) :
    OrderedMap ℕ (List UInt16) :=
  deleteEmpty (pridMap.mapVal fun keys => keys.erase sessionKey) List.isEmpty

theorem withoutKey_eq {prids : OrderedMap ℕ (List UInt16)} (h : Shaped prids) (sk : UInt16) :
    withoutKey prids sk = (entry (others prids sk)).getD ∅ := by
  refine ext_get fun k => ?_
  have hone : (withoutKey prids sk).get k =
      ((prids.get k).map fun keys => keys.erase sk).filter fun keys => !keys.isEmpty := by
    rw [withoutKey, get_deleteEmpty_iff.2 ?_, get_mapVal]
    rintro ⟨a, b, rest, heq, -⟩
    obtain rfl | ⟨keys, rfl, -⟩ := h
    · cases heq
    · cases heq
  rw [hone]
  obtain rfl | ⟨keys, rfl, hkeys⟩ := h
  · rfl
  · rw [get_set, others, get_set, if_pos rfl, getD_some, ← hkeys.erase_eq_filter, entry]
    by_cases hk : k = 0
    · cases hera : keys.erase sk <;> simp [hk, hera, get_set]
    · cases hera : keys.erase sk <;> simp [hk, get_set]

theorem deleteSessionKey_eq (t : HttpSessions) (sk : UInt16) : t.deleteSessionKey sk =
      deleteEmpty (t.mapVal fun prids => withoutKey prids sk) fun prids =>
        prids.entries.isEmpty := by
  rw [deleteSessionKey, mapVal, mapVal]
  simp only [List.map_map]
  rfl

theorem get_of_deleteEmpty {ν : Type} {m : OrderedMap ℕ ν} {isEmpty : ν → Bool} {k : ℕ} {v : ν}
    (h : (deleteEmpty m isEmpty).get k = some v) : m.get k = some v :=
  mem_entries_iff.1 ((eraseEmpty_sublist _).subset (mem_entries_iff.2 h))

theorem shaped_apply {t : HttpSessions} (h : ∀ rCId, ∀ prids ∈ t.get rCId, Shaped prids)
    (op : Operation) : ∀ rCId, ∀ prids ∈ (t.apply op).get rCId, Shaped prids := by
  intro rCId prids hget
  cases op with
  | add r sk =>
    rw [apply, addIpEndpointSession, get_upsert] at hget
    split at hget
    case isFalse => exact h rCId prids hget
    case isTrue =>
      obtain rfl := some.inj hget
      refine shaped_alter ?_ (by simp) ?_
      · cases hr : t.get r with
        | none => exact .inl rfl
        | some prids => exact h r prids hr
      · rintro keys hkeys _ ⟨⟩
        split
        · exact hkeys
        · next hnew => exact List.nodup_append.2 ⟨hkeys, by simp, by grind⟩
  | send r deleteSockets =>
    rw [apply, sendToEndpoint, get_modify] at hget
    split at hget
    case isFalse => exact h rCId prids hget
    case isTrue =>
      obtain ⟨prids, hr, rfl⟩ := map_eq_some_iff.1 hget
      refine shaped_alter (h r prids hr) (by simp) ?_
      rintro keys hkeys _ ⟨⟩
      exact List.foldlRecOn deleteSockets List.erase hkeys fun keys hkeys socket _ =>
        hkeys.erase socket
  | delete sk =>
    rw [apply, deleteSessionKey_eq] at hget
    have hthe := get_of_deleteEmpty hget
    rw [get_mapVal] at hthe
    obtain ⟨prids, hr, rfl⟩ := map_eq_some_iff.1 hthe
    have hsha := h rCId prids hr
    rw [withoutKey_eq hsha, entry]
    split
    · exact .inl rfl
    · refine .inr ⟨_, rfl, ?_⟩
      obtain rfl | ⟨keys, rfl, hkeys⟩ := hsha
      · exact List.nodup_nil
      · exact hkeys.filter _

theorem shaped_run (ops : List Operation) : ∀ rCId, ∀ prids ∈ (run ops).get rCId, Shaped prids := by
  refine List.foldlRecOn ops apply
    (motive := fun t => ∀ rCId, ∀ prids ∈ t.get rCId, Shaped prids) ?_ ?_
  · rintro rCId _ ⟨⟩
  · exact fun t h op _ => shaped_apply h op

/-! ### Deleting a session key -/

/-- **When a session key is deleted as it should be**: unless the first two rCIDs are both left
without keys. -/
theorem deleteSessionKey_iff (operations : List Operation) (sessionKey : UInt16) :
    Deleted (run operations) sessionKey ((run operations).deleteSessionKey sessionKey) ↔
      ¬ ∃ a b rest, (run operations).entries = a :: b :: rest ∧ others a.2 sessionKey = [] ∧
        others b.2 sessionKey = [] := by
  have hsha := shaped_run operations
  generalize run operations = t at hsha
  -- an entry is empty when the last loop meets it if and only if it has no other session keys
  have hempty (e : ℕ × OrderedMap ℕ (List UInt16)) (he : e ∈ t.entries) :
      (withoutKey e.2 sessionKey).entries.isEmpty = true ↔ others e.2 sessionKey = [] := by
    rw [withoutKey_eq (hsha e.1 e.2 (mem_entries_iff.1 he)), entry]
    split
    · next hnone => simp [hnone]
    · next hsome => simp [hsome, entries_single]
  have hentry (rCId : ℕ) : ((t.get rCId).bind fun pridMap => entry (others pridMap sessionKey)) =
      ((t.mapVal fun pridMap => withoutKey pridMap sessionKey).get rCId).filter
        fun pridMap => !pridMap.entries.isEmpty := by
    rw [get_mapVal]
    cases hget : t.get rCId with
    | none => rfl
    | some pridMap =>
      rw [bind_some, map_some, withoutKey_eq (hsha rCId pridMap hget), entry]
      split
      · simp [Option.filter]
      · simp [Option.filter, entries_single]
  rw [Deleted, deleteSessionKey_eq]
  simp only [hentry]
  rw [get_deleteEmpty_iff, not_iff_not]
  constructor
  · rintro ⟨a, b, rest, heq, ha, hb⟩
    obtain ⟨a, l, hl, rfl, heq'⟩ := List.map_eq_cons_iff.1 heq
    obtain ⟨b, rest, rfl, rfl, rfl⟩ := List.map_eq_cons_iff.1 heq'
    exact ⟨a, b, rest, hl, (hempty a (by simp [hl])).1 ha, (hempty b (by simp [hl])).1 hb⟩
  · rintro ⟨a, b, rest, heq, ha, hb⟩
    refine ⟨(a.1, withoutKey a.2 sessionKey), (b.1, withoutKey b.2 sessionKey),
      rest.map fun e => (e.1, withoutKey e.2 sessionKey), ?_, (hempty a (by simp [heq])).2 ha,
      (hempty b (by simp [heq])).2 hb⟩
    exact congrArg (List.map fun e => (e.1, withoutKey e.2 sessionKey)) heq

/-- Two clients wait for a response, and the first one goes. -/
theorem deleteSessionKey_two_clients :
    let operations : List Operation := [.add 1 5, .add 1 6, .add 2 5]
    Deleted (run operations) 5 ((run operations).deleteSessionKey 5) := by
  intro operations
  refine (deleteSessionKey_iff operations 5).2 ?_
  rintro ⟨a, b, rest, heq, ha, -⟩
  have hent : (run operations).entries = [(1, set ∅ 0 [5, 6]), (2, set ∅ 0 [5])] := by decide
  obtain rfl := (List.cons.inj (hent.symm.trans heq)).1
  exact absurd ha (by decide)

/-- A client waits for the responses of two rCIDs, and goes: the second rCID stays. -/
theorem not_deleted_second : let operations : List Operation := [.add 1 5, .add 2 5]
    ¬ Deleted (run operations) 5 ((run operations).deleteSessionKey 5) ∧
      ((run operations).deleteSessionKey 5).get 2 = some ∅ := by
  intro operations
  have hkey : withoutKey (set ∅ 0 [5]) 5 = ∅ := withoutKey_eq (.inr ⟨[5], rfl, by simp⟩) 5
  have hent : (run operations).entries = [(1, set ∅ 0 [5]), (2, set ∅ 0 [5])] := by decide
  have hstays : ((run operations).deleteSessionKey 5).get 2 = some ∅ := by
    change lookup 2 (eraseEmpty (fun e => e.2.entries.isEmpty) []
      ((run operations).entries.map fun e => (e.1, withoutKey e.2 5))) = _
    rw [hent, List.map_cons, List.map_cons, hkey, eraseEmpty_head rfl]
    rfl
  refine ⟨fun h => ?_, hstays⟩
  have hgone := h 2
  rw [hstays] at hgone
  exact absurd hgone (by decide)

end HttpSessions

end Blackadder
