/-
**The information graph is a graph with names.**

The nodes are the scopes and items, the labels are fragments and the stored names are the keys of
`ids`. `State.Wf` adds that the indexes are the inverse of `ids`, pointers are mutual, those that
`new` has not returned are unused, and hosts are registered under identifiers that the object has.
-/

import Blackadder.NameGraph
import Blackadder.RvHandlers

namespace Blackadder.State

open ListSet

variable {st : State}

/-! ### The primitives, by membership -/

variable {o o' : Obj} {k k' : Id} {f g : ℕ} {r r' : Role} {h h' : NodeID} {a : Fragment}

theorem mem_newPair_ids : k' ∈ (st.newPair o k).ids o' ↔ k' ∈ st.ids o' ∨ (o' = o ∧ k' = k) := by
  by_cases ho : o' = o
  · subst ho
    simp [or_comm]
  · simp [ho]

theorem mem_link_fatherScopes :
    g ∈ (st.link o f).fatherScopes o' ↔ g ∈ st.fatherScopes o' ∨ (o' = o ∧ g = f) := by
  by_cases ho : o' = o
  · subst ho
    simp [or_comm]
  · simp [ho]

theorem mem_link_children : o'.ptr ∈ (st.link o f).children o'.kind g ↔
      o'.ptr ∈ st.children o'.kind g ∨ (o' = o ∧ g = f) := by
  rw [Obj.ext_iff]
  by_cases hg : o'.kind = o.kind ∧ g = f
  · obtain ⟨hk, rfl⟩ := hg
    simp [hk, or_comm]
  · simp only [link_children, if_neg hg]
    tauto

theorem mem_insertHost_pair : h' ∈ (st.insertHost r o k h).pair r' o' k' ↔
      h' ∈ st.pair r' o' k' ∨ (r' = r ∧ o' = o ∧ k' = k ∧ h' = h) := by
  by_cases hc : r' = r ∧ o' = o ∧ k' = k
  · obtain ⟨rfl, rfl, rfl⟩ := hc
    simp [or_comm]
  · simp only [insertHost_pair, if_neg hc]
    tauto

theorem mem_insertOwn_own {κ κ' : Kind} : k' ∈ (st.insertOwn r κ h k).own r' κ' h' ↔
      k' ∈ st.own r' κ' h' ∨ (r' = r ∧ κ' = κ ∧ h' = h ∧ k' = k) := by
  by_cases hc : r' = r ∧ κ' = κ ∧ h' = h
  · obtain ⟨rfl, rfl, rfl⟩ := hc
    simp [or_comm]
  · simp only [insertOwn_own, if_neg hc]
    tauto

theorem mem_withdraw_pair : h' ∈ (st.withdraw r o k h).pair r' o' k' ↔
      h' ∈ st.pair r' o' k' ∧ ¬ (r' = r ∧ o' = o ∧ k' = k ∧ h' = h) := by
  by_cases hc : r' = r ∧ o' = o ∧ k' = k
  · obtain ⟨rfl, rfl, rfl⟩ := hc
    simp [and_comm]
  · simp only [withdraw_pair, if_neg hc]
    tauto

theorem mem_withdraw_own {κ' : Kind} : k' ∈ (st.withdraw r o k h).own r' κ' h' ↔
      k' ∈ st.own r' κ' h' ∧ ¬ (r' = r ∧ κ' = o.kind ∧ h' = h ∧ k' = k) := by
  by_cases hc : r' = r ∧ κ' = o.kind ∧ h' = h
  · obtain ⟨rfl, rfl, rfl⟩ := hc
    simp [and_comm]
  · simp only [withdraw_own, if_neg hc]
    tauto

theorem mem_delete_ids {f : Option ℕ} : k ∈ (st.delete o f).ids o' ↔ k ∈ st.ids o' ∧ o' ≠ o := by
  by_cases ho : o' = o <;> simp [ho]

theorem mem_delete_pair {f : Option ℕ} :
    h ∈ (st.delete o f).pair r o' k ↔ h ∈ st.pair r o' k ∧ o' ≠ o := by
  by_cases ho : o' = o <;> simp [ho]

theorem mem_delete_fatherScopes {f : Option ℕ} :
    g ∈ (st.delete o f).fatherScopes o' ↔ g ∈ st.fatherScopes o' ∧ o' ≠ o := by
  by_cases ho : o' = o <;> simp [ho]

theorem mem_delete_children {f : Option ℕ} : o'.ptr ∈ (st.delete o f).children o'.kind g ↔
      o'.ptr ∈ st.children o'.kind g ∧ ¬ (o' = o ∧ f = some g) := by
  rw [Obj.ext_iff]
  by_cases hg : o'.kind = o.kind ∧ f = some g
  · obtain ⟨hk, rfl⟩ := hg
    simp [hk, and_comm]
  · simp only [delete_children, if_neg hg]
    tauto

def namesUnder (st : State) (f : ℕ) (a : Fragment) : List Id :=
  (st.ids (.scope f)).toList.map (· ++ [a])

theorem mem_namesUnder : k ∈ st.namesUnder f a ↔ ∃ j ∈ st.ids (.scope f), k = j ++ [a] := by
  simp [namesUnder, eq_comm]

theorem mem_deleteBranch_ids : k ∈ (st.deleteBranch o f [a]).ids o' ↔
      k ∈ st.ids o' ∧ ¬ (o' = o ∧ k ∈ st.namesUnder f a) := by
  by_cases ho : o' = o
  · subst ho
    simp [namesUnder]
  · simp [ho]

theorem mem_deleteBranch_pair : h ∈ (st.deleteBranch o f [a]).pair r o' k ↔
      h ∈ st.pair r o' k ∧ ¬ (o' = o ∧ k ∈ st.namesUnder f a) := by
  by_cases hc : o' = o ∧ k ∈ st.namesUnder f a
  · simp only [deleteBranch_pair]
    rw [if_pos (by simpa [namesUnder] using hc)]
    simp [hc]
  · simp only [deleteBranch_pair]
    rw [if_neg (by simpa [namesUnder] using hc)]
    simp [hc]

theorem mem_deleteBranch_fatherScopes : g ∈ (st.deleteBranch o f [a]).fatherScopes o' ↔
      g ∈ st.fatherScopes o' ∧ ¬ (o' = o ∧ g = f) := by
  by_cases ho : o' = o
  · subst ho
    simp [and_comm]
  · simp [ho]

theorem mem_deleteBranch_children : o'.ptr ∈ (st.deleteBranch o f [a]).children o'.kind g ↔
      o'.ptr ∈ st.children o'.kind g ∧ ¬ (o' = o ∧ g = f) := by
  rw [Obj.ext_iff]
  by_cases hg : o'.kind = o.kind ∧ g = f
  · obtain ⟨hk, rfl⟩ := hg
    simp [hk, and_comm]
  · simp only [deleteBranch_children, if_neg hg]
    tauto

/-! ### The graph of a state -/

def graph (st : State) : NameGraph Obj Fragment where
  root := {o | o.kind = .scope ∧ st.isRoot o.ptr = true}
  fathers := fun o => {f | f.kind = .scope ∧ f.ptr ∈ st.fatherScopes o}
  ids := fun o => {k | k ∈ st.ids o}

theorem mem_graph_root : o ∈ st.graph.root ↔ o.kind = .scope ∧ st.isRoot o.ptr = true := Iff.rfl

theorem mem_graph_fathers {f : Obj} :
    f ∈ st.graph.fathers o ↔ f.kind = .scope ∧ f.ptr ∈ st.fatherScopes o := Iff.rfl

theorem scope_mem_graph_fathers : Obj.scope f ∈ st.graph.fathers o ↔ f ∈ st.fatherScopes o := by
  simp [mem_graph_fathers]

theorem mem_graph_ids : k ∈ st.graph.ids o ↔ k ∈ st.ids o := Iff.rfl

theorem exists_scope_of_father {g : Obj} (hg : g ∈ st.graph.fathers o) :
    ∃ f, g = .scope f ∧ f ∈ st.fatherScopes o := by
  obtain ⟨κ, f⟩ := g
  obtain ⟨rfl, hf⟩ := hg
  exact ⟨f, rfl, hf⟩

/-- **The invariant of the rendezvous element**; `label` is the last fragment. -/
structure Wf (st : State) (label : Obj → Fragment) : Prop where
  named : st.graph.Named label
  ranked : NameGraph.Ranked st.graph.fathers
  index_iff : ∀ (o : Obj) (k : Id), st.index o.kind k = some o.ptr ↔ k ∈ st.ids o
  links : ∀ (o : Obj) (f : ℕ), f ∈ st.fatherScopes o ↔ o.ptr ∈ st.children o.kind f
  unborn : ∀ o : Obj, st.next o.kind ≤ o.ptr → (∀ k, k ∉ st.ids o) ∧ o ∉ st.graph.root
  pair_ids : ∀ (r : Role) (o : Obj) (k : Id) (h : NodeID), h ∈ st.pair r o k → k ∈ st.ids o

def Used (st : State) (o : Obj) : Prop := ∃ r k h, h ∈ st.pair r o k

def UsedUnder (st : State) (o : Obj) (f : ℕ) : Prop :=
  ∃ r k h, h ∈ st.pair r o k ∧ k.dropLast ∈ st.ids (.scope f)

theorem UsedUnder.used (h : st.UsedUnder o f) : st.Used o := by
  obtain ⟨r, k, h, hk, -⟩ := h
  exact ⟨r, k, h, hk⟩

theorem suffixID_eq_of_ends (hends : ∀ k ∈ st.ids o, ∃ j, k = j ++ [a]) (hk : k ∈ st.ids o) :
    st.suffixID o = .ok [a] := by
  unfold suffixID
  cases hl : (st.ids o).toList with
  | nil => exact absurd hl (toList_ne_nil hk)
  | cons k₀ l =>
    have hk₀ : k₀ ∈ st.ids o := by
      rw [← mem_toList, hl]
      exact List.mem_cons_self
    obtain ⟨j, hj⟩ := hends k₀ hk₀
    simp [hj]

/-! ### The initial state -/

theorem wf_initial (gc : GlobalConf) (label : Obj → Fragment) : (initial gc).Wf label where
  named :=
    { root_ids := fun _ _ _ hk => absurd hk (not_mem_empty _)
      root_fathers := fun _ _ _ hf => absurd hf.2 (not_mem_empty _)
      inner_ids := fun _ _ _ =>
        ⟨fun hk => absurd hk (not_mem_empty _), fun ⟨_, hf, _⟩ => absurd hf.2 (not_mem_empty _)⟩
      live_fathers := fun _ _ hf => absurd hf.2 (not_mem_empty _)
      disjoint := fun _ _ _ hk => absurd hk (not_mem_empty _) }
  ranked := ⟨fun _ => 0, fun _ _ hf => absurd hf.2 (not_mem_empty _)⟩
  index_iff := fun _ _ => by simp [initial]
  links := fun _ _ => by simp [initial]
  unborn := fun _ _ => by simp [initial, mem_graph_root]
  pair_ids := fun _ _ _ _ hh => absurd hh (not_mem_empty _)

namespace Wf

variable {label : Obj → Fragment}

/-! ### Reading the tables -/

variable {k j : Id} {o : Obj} {f i : ℕ} {a : Fragment}

section
variable (hw : st.Wf label)
include hw

theorem index_eq_some {κ : Kind} {p : ℕ} : st.index κ k = some p ↔ k ∈ st.ids ⟨κ, p⟩ :=
  hw.index_iff ⟨κ, p⟩ k

theorem index_eq_none {κ : Kind} : st.index κ k = none ↔ ∀ p, k ∉ st.ids ⟨κ, p⟩ := by
  constructor
  · intro hn p hk
    rw [hw.index_eq_some.2 hk] at hn
    cases hn
  · intro hn
    cases hi : st.index κ k with
    | none => rfl
    | some p => exact absurd (hw.index_eq_some.1 hi) (hn p)

theorem eq_of_mem (hk : k ∈ st.ids o) (hk' : k ∈ st.ids o') : o = o' :=
  hw.named.disjoint o o' k hk hk'

theorem free_of_index (hs : st.scopeIndex k = none) (hi : st.pubIndex k = none) :
    ∀ o, k ∉ st.ids o := by
  rintro ⟨κ, p⟩ hk
  cases κ with
  | scope => exact hw.index_eq_none.1 hs p hk
  | item => exact hw.index_eq_none.1 hi p hk

section
variable (hk : k ∈ st.ids o)
include hk

theorem lt_next : o.ptr < st.next o.kind := by
  by_contra hle
  exact (hw.unborn o (not_lt.1 hle)).1 k hk

theorem exists_append : ∃ j, k = j ++ [label o] := hw.named.ends_label hk

theorem ne_nil : k ≠ [] := hw.named.ne_nil hk

end

theorem mem_of_father (hf : f ∈ st.fatherScopes o)
    (hj : j ∈ st.ids (.scope f)) : j ++ [label o] ∈ st.ids o :=
  hw.named.append_mem (scope_mem_graph_fathers.2 hf) hj

/-- **An identifier of several fragments leads to an indexed father.** -/
theorem father_of_mem (hj : j ≠ []) (hk : j ++ [a] ∈ st.ids o) :
    ∃ f, st.scopeIndex j = some f ∧ f ∈ st.fatherScopes o ∧ j ∈ st.ids (.scope f) ∧
      a = label o ∧ o ∉ st.graph.root := by
  obtain ⟨hr, ha, g, hg, hjg⟩ := hw.named.father_of_append hj hk
  obtain ⟨f, rfl, hf⟩ := exists_scope_of_father hg
  exact ⟨f, hw.index_eq_some.2 hjg, hf, hjg, ha, hr⟩

theorem father_of_index (hj : st.scopeIndex j = some f)
    (hk : j ++ [a] ∈ st.ids o) : f ∈ st.fatherScopes o ∧ o ∉ st.graph.root := by
  have hjf : j ∈ st.ids (.scope f) := hw.index_eq_some.1 hj
  obtain ⟨g, hg, hfg, -, -, hr⟩ := hw.father_of_mem (hw.ne_nil hjf) hk
  have : g = f := Option.some.inj (hg.symm.trans hj)
  exact ⟨this ▸ hfg, hr⟩

theorem root_of_mem (hj : st.scopeIndex j = none) (hk : j ++ [a] ∈ st.ids o) :
    j = [] ∧ o ∈ st.graph.root := by
  have hjn : j = [] := by
    by_contra hne
    obtain ⟨f, hf, -⟩ := hw.father_of_mem hne hk
    rw [hj] at hf
    cases hf
  subst hjn
  exact ⟨rfl, hw.named.root_of_singleton hk⟩

theorem father_live (hf : f ∈ st.fatherScopes o) : ∃ j, j ∈ st.ids (.scope f) :=
  hw.named.live_fathers o _ (scope_mem_graph_fathers.2 hf)

theorem live_of_father (hf : f ∈ st.fatherScopes o) : ∃ k, k ∈ st.ids o := by
  obtain ⟨j, hj⟩ := hw.father_live hf
  exact ⟨_, hw.mem_of_father hf hj⟩

theorem inner_mem_iff (ho : o ∉ st.graph.root) : k ∈ st.ids o ↔
      ∃ f ∈ st.fatherScopes o, ∃ j ∈ st.ids (.scope f), k = j ++ [label o] := by
  rw [← mem_graph_ids, hw.named.inner_ids o ho k]
  constructor
  · intro hex
    obtain ⟨g, hg, j, hj, rfl⟩ := hex
    obtain ⟨f, rfl, hf⟩ := exists_scope_of_father hg
    exact ⟨f, hf, j, hj, rfl⟩
  · intro hex
    obtain ⟨f, hf, j, hj, rfl⟩ := hex
    exact ⟨Obj.scope f, scope_mem_graph_fathers.2 hf, j, hj, rfl⟩

end

theorem item_not_root : Obj.item i ∉ st.graph.root := by
  simp [mem_graph_root]

theorem father_of_item (hw : st.Wf label) (hk : j ++ [a] ∈ st.ids (.item i)) :
    ∃ f, st.scopeIndex j = some f ∧ f ∈ st.fatherScopes (.item i) ∧ j ∈ st.ids (.scope f) := by
  have hj : j ≠ [] := by
    rintro rfl
    exact item_not_root (hw.named.root_of_singleton hk)
  obtain ⟨f, hjf, hf, hmem, -⟩ := hw.father_of_mem hj hk
  exact ⟨f, hjf, hf, hmem⟩

theorem not_father_self (hw : st.Wf label) : f ∉ st.fatherScopes (.scope f) := by
  intro hf
  obtain ⟨rank, hrank⟩ := hw.ranked
  exact absurd (hrank _ _ (scope_mem_graph_fathers.2 hf)) (lt_irrefl _)

/-! ### The methods that read tables -/

theorem suffixID_eq (hw : st.Wf label) (hk : k ∈ st.ids o) : st.suffixID o = .ok [label o] :=
  suffixID_eq_of_ends (fun _ hk => hw.exists_append hk) hk

theorem getPair_eq (hk : k ∈ st.ids o) : st.getPair r o k = .ok (st.pair r o k) := if_pos hk

theorem mem_getHosts (hw : st.Wf label) : h ∈ st.getHosts r o ↔ ∃ k, h ∈ st.pair r o k := by
  rw [getHosts, mem_biUnion]
  constructor
  · intro hex
    obtain ⟨k, -, hk⟩ := hex
    exact ⟨k, hk⟩
  · intro hex
    obtain ⟨k, hk⟩ := hex
    exact ⟨k, hw.pair_ids r o k h hk, hk⟩

theorem mem_interested (hw : st.Wf label) : h ∈ st.interested i ↔
      (∃ k, h ∈ st.pair .sub (.item i) k) ∨
        ∃ f ∈ st.fatherScopes (.item i), ∃ k, h ∈ st.pair .sub (.scope f) k := by
  simp [interested, getSubscribers, hw.mem_getHosts]

end Wf

theorem isEmpty_pair_or : (!(st.pair .pub o k).isEmpty || !(st.pair .sub o k).isEmpty) = true ↔
      ∃ r h, h ∈ st.pair r o k := by
  simp only [Bool.or_eq_true, Bool.not_eq_true', isEmpty_eq_false_iff]
  constructor
  · intro hcase
    rcases hcase with ⟨h, hh⟩ | ⟨h, hh⟩
    · exact ⟨_, h, hh⟩
    · exact ⟨_, h, hh⟩
  · intro hex
    obtain ⟨r, h, hh⟩ := hex
    cases r with
    | pub => exact .inl ⟨h, hh⟩
    | sub => exact .inr ⟨h, hh⟩

theorem anyPubSub_eq (st : State) (o : Obj) (sfx : Id) (l : List Id)
    (hl : ∀ j ∈ l, j ++ sfx ∈ st.ids o) :
    ∃ b, st.anyPubSub o sfx l = .ok b ∧
      (b = true ↔ ∃ j ∈ l, ∃ r h, h ∈ st.pair r o (j ++ sfx)) := by
  induction l with
  | nil => exact ⟨false, rfl, by simp⟩
  | cons j l ih =>
    obtain ⟨b, hb, hbl⟩ := ih fun i hi => hl i (List.mem_cons_of_mem j hi)
    have hj : j ++ sfx ∈ st.ids o := hl j List.mem_cons_self
    have hstep : st.anyPubSub o sfx (j :: l) = if (!(st.pair .pub o (j ++ sfx)).isEmpty ||
          !(st.pair .sub o (j ++ sfx)).isEmpty) = true then .ok true
        else st.anyPubSub o sfx l := by
      simp only [anyPubSub, Wf.getPair_eq hj]
      rfl
    by_cases hc : (!(st.pair .pub o (j ++ sfx)).isEmpty ||
        !(st.pair .sub o (j ++ sfx)).isEmpty) = true
    · rw [hstep, if_pos hc]
      exact ⟨true, rfl, by simpa using .inl (isEmpty_pair_or.1 hc)⟩
    · rw [hstep, if_neg hc]
      have hnone : ¬ ∃ r h, h ∈ st.pair r o (j ++ sfx) := fun hu => hc (isEmpty_pair_or.2 hu)
      refine ⟨b, hb, ?_⟩
      rw [hbl, List.exists_mem_cons_iff, iff_false_intro hnone, false_or]

theorem next_le_of_alloc {κ : Kind} {strat : Strategy} {root : Bool}
    (h : (st.alloc κ strat root).next o.kind ≤ o.ptr) :
    st.next o.kind ≤ o.ptr ∧ o ≠ ⟨κ, st.next κ⟩ := by
  rw [alloc_next] at h
  by_cases hκ : o.kind = κ
  · rw [if_pos hκ] at h
    refine ⟨by rw [hκ]; omega, ?_⟩
    rintro rfl
    exact absurd h (Nat.not_succ_le_self _)
  · rw [if_neg hκ] at h
    refine ⟨h, ?_⟩
    rintro rfl
    exact hκ rfl

namespace Wf

variable {label : Obj → Fragment}

variable {o : Obj}

section
variable (hw : st.Wf label)
include hw

/-- **`checkForOtherPubSub` under a father** answers whether the object is used there. -/
theorem checkForOtherPubSub_eq (hf : f ∈ st.fatherScopes o) :
    ∃ b, st.checkForOtherPubSub o (some f) = .ok b ∧ (b = true ↔ st.UsedUnder o f) := by
  obtain ⟨k₀, hk₀⟩ := hw.live_of_father hf
  obtain ⟨b, hb, hiff⟩ := anyPubSub_eq st o [label o] (st.ids (.scope f)).toList
    fun j hj => hw.mem_of_father hf hj
  refine ⟨b, ?_, ?_⟩
  · simp only [checkForOtherPubSub, hw.suffixID_eq hk₀]
    exact hb
  · rw [hiff]
    constructor
    · intro hex
      obtain ⟨j, hj, r, h, hh⟩ := hex
      exact ⟨r, _, h, hh, by simpa using hj⟩
    · intro hex
      obtain ⟨r, k, h, hh, hk⟩ := hex
      obtain ⟨j, rfl⟩ := hw.exists_append (hw.pair_ids r o k h hh)
      exact ⟨j, by simpa using hk, r, h, hh⟩

theorem checkForOtherPubSub_root :
    ∃ b, st.checkForOtherPubSub o none = .ok b ∧ (b = true ↔ st.Used o) := by
  refine ⟨_, rfl, ?_⟩
  rw [List.any_eq_true]
  constructor
  · intro hex
    obtain ⟨k, -, hk⟩ := hex
    obtain ⟨r, h, hh⟩ := isEmpty_pair_or.1 hk
    exact ⟨r, k, h, hh⟩
  · intro hex
    obtain ⟨r, k, h, hh⟩ := hex
    exact ⟨k, hw.pair_ids r o k h hh, isEmpty_pair_or.2 ⟨r, h, hh⟩⟩

/-! ### Edits of the graph -/

theorem frame {st' : State} (hind : st'.index = st.index) (hids : st'.ids = st.ids)
    (hfath : st'.fatherScopes = st.fatherScopes) (hchild : st'.children = st.children)
    (hroot : st'.isRoot = st.isRoot) (hnext : st'.next = st.next)
    (hpair : ∀ r o k h, h ∈ st'.pair r o k → k ∈ st.ids o) : st'.Wf label := by
  have hg : st'.graph = st.graph := by simp [graph, hids, hfath, hroot]
  refine ⟨hg ▸ hw.named, hg ▸ hw.ranked, ?_, ?_, ?_, ?_⟩
  · rw [hind, hids]; exact hw.index_iff
  · rw [hfath, hchild]; exact hw.links
  · rw [hnext, hids, hg]; exact hw.unborn
  · rw [hids]; exact hpair

theorem newRoot (hfree : st.scopeIndex [a] = none) (strat : Strategy) :
    (((st.alloc .scope strat true).setIndex (.scope (st.next .scope)) [a]).newPair
      (.scope (st.next .scope)) [a]).Wf
      (Function.update label (.scope (st.next .scope)) a) := by
  obtain ⟨hdead, _⟩ := hw.unborn (.scope (st.next .scope)) le_rfl
  have hnf : ∀ y, [a] ∉ st.ids y := by
    rintro ⟨κ, p⟩ hk
    obtain ⟨rfl, -⟩ := hw.named.root_of_singleton hk
    exact hw.index_eq_none.1 hfree p hk
  have hroots : ∀ o, o ∈ (((st.alloc .scope strat true).setIndex
      (.scope (st.next .scope)) [a]).newPair (.scope (st.next .scope)) [a]).graph.root ↔
        o = .scope (st.next .scope) ∨ o ∈ st.graph.root := by
    rintro ⟨κ, p⟩
    simp only [mem_graph_root]
    by_cases hp : p = st.next .scope
    · simpa [hp] using fun hκ _ => hκ
    · simp [hp]
  refine ⟨hw.named.addRoot hdead hnf hroots (fun _ _ => Iff.rfl) (fun _ _ => mem_newPair_ids),
    hw.ranked, ?_, hw.links, ?_, ?_⟩
  · rintro ⟨κ, p⟩ k
    rw [mem_newPair_ids]
    simp only [newPair_index, setIndex_index, alloc_index, Obj.mk.injEq]
    by_cases hc : κ = .scope ∧ k = [a]
    · obtain ⟨rfl, rfl⟩ := hc
      simp only [if_true, Option.some.injEq, true_and, and_true]
      constructor
      · intro hp
        exact .inr hp.symm
      · intro hcase
        rcases hcase with hk | hp
        · exact absurd hk (hnf _)
        · exact hp.symm
    · rw [if_neg hc, hw.index_eq_some]
      tauto
  · intro o hp
    rw [newPair_next, setIndex_next] at hp
    obtain ⟨hle, hne⟩ := next_le_of_alloc hp
    obtain ⟨hd, hr⟩ := hw.unborn o hle
    refine ⟨?_, ?_⟩
    · intro k hk
      rcases mem_newPair_ids.1 hk with hk | ⟨he, -⟩
      · exact hd k hk
      · exact hne he
    · intro hroot
      exact hr (((hroots o).1 hroot).resolve_left hne)
  · intro r o k h hh
    refine mem_newPair_ids.2 (.inl ?_)
    simp only [newPair_pair] at hh
    split at hh
    · exact absurd hh (not_mem_empty _)
    · exact hw.pair_ids r o k h hh

theorem not_father_of_leaf (hleaf : o.kind = .scope → ∀ κ c, c ∉ st.children κ o.ptr) :
    ∀ y, o ∉ st.graph.fathers y := by
  intro y hboth
  obtain ⟨hk, hy⟩ := hboth
  exact hleaf hk y.kind y.ptr ((hw.links y o.ptr).1 hy)

theorem delete {f : Option ℕ} (hleaf : o.kind = .scope → ∀ κ c, c ∉ st.children κ o.ptr)
    (honly : ∀ g ∈ st.fatherScopes o, f = some g) : (st.delete o f).Wf label := by
  have hnf := hw.not_father_of_leaf hleaf
  refine ⟨hw.named.drop hnf (fun _ => Iff.rfl) ?_ (fun _ _ => mem_delete_ids),
    hw.ranked.mono ?_, ?_, ?_, ?_, ?_⟩
  · intro y g
    rw [mem_graph_fathers, mem_delete_fatherScopes, mem_graph_fathers, and_assoc]
  · intro y g hboth
    obtain ⟨hk, hg⟩ := hboth
    exact ⟨hk, (mem_delete_fatherScopes.1 hg).1⟩
  · intro o' k
    rw [mem_delete_ids, delete_index]
    by_cases hc : o'.kind = o.kind ∧ k ∈ st.ids o
    · rw [if_pos hc]
      refine ⟨fun h => absurd h (by simp), ?_⟩
      intro hboth
      obtain ⟨hk, hne⟩ := hboth
      exact absurd (hw.eq_of_mem hk hc.2) hne
    · rw [if_neg hc, hw.index_iff]
      refine ⟨fun hk => ⟨hk, ?_⟩, And.left⟩
      rintro rfl
      exact hc ⟨rfl, hk⟩
  · intro o' g
    rw [mem_delete_fatherScopes, mem_delete_children, hw.links]
    constructor
    · intro hboth
      obtain ⟨hg, hne⟩ := hboth
      exact ⟨hg, fun hc => hne hc.1⟩
    · intro hboth
      obtain ⟨hg, hne⟩ := hboth
      refine ⟨hg, ?_⟩
      rintro rfl
      exact hne ⟨rfl, honly g ((hw.links o' g).2 hg)⟩
  · intro o' hle
    obtain ⟨hd, hr⟩ := hw.unborn o' hle
    exact ⟨fun k hk => hd k (mem_delete_ids.1 hk).1, hr⟩
  · intro r o' k h hh
    obtain ⟨hh, hne⟩ := mem_delete_pair.1 hh
    exact mem_delete_ids.2 ⟨hw.pair_ids r o' k h hh, hne⟩

theorem deleteBranch (hleaf : o.kind = .scope → ∀ κ c, c ∉ st.children κ o.ptr)
    (hf : f ∈ st.fatherScopes o) : (st.deleteBranch o f [label o]).Wf label := by
  have hnf := hw.not_father_of_leaf hleaf
  refine ⟨hw.named.dropBranch (f := .scope f) hnf (fun _ => Iff.rfl) ?_ ?_, hw.ranked.mono ?_, ?_, ?_,
    ?_, ?_⟩
  · rintro y ⟨κ, g⟩
    rw [mem_graph_fathers, mem_deleteBranch_fatherScopes, mem_graph_fathers]
    simp only [Obj.mk.injEq]
    tauto
  · intro y k
    rw [mem_graph_ids, mem_deleteBranch_ids, mem_namesUnder]
    rfl
  · intro y g hboth
    obtain ⟨hk, hg⟩ := hboth
    exact ⟨hk, (mem_deleteBranch_fatherScopes.1 hg).1⟩
  · intro o' k
    have hidx : (st.deleteBranch o f [label o]).index o'.kind k =
        if o'.kind = o.kind ∧ k ∈ st.namesUnder f (label o) then none
        else st.index o'.kind k := rfl
    rw [mem_deleteBranch_ids, hidx]
    by_cases hc : o'.kind = o.kind ∧ k ∈ st.namesUnder f (label o)
    · rw [if_pos hc]
      refine ⟨fun h => absurd h (by simp), ?_⟩
      intro hboth
      obtain ⟨hk, hne⟩ := hboth
      obtain ⟨j, hj, rfl⟩ := mem_namesUnder.1 hc.2
      exact absurd ⟨hw.eq_of_mem hk (hw.mem_of_father hf hj), hc.2⟩ hne
    · rw [if_neg hc, hw.index_iff]
      refine ⟨fun hk => ⟨hk, ?_⟩, And.left⟩
      intro hboth
      obtain ⟨rfl, hk'⟩ := hboth
      exact hc ⟨rfl, hk'⟩
  · intro o' g
    rw [mem_deleteBranch_fatherScopes, mem_deleteBranch_children, hw.links]
  · intro o' hle
    obtain ⟨hd, hr⟩ := hw.unborn o' hle
    exact ⟨fun k hk => hd k (mem_deleteBranch_ids.1 hk).1, hr⟩
  · intro r o' k h hh
    obtain ⟨hh, hne⟩ := mem_deleteBranch_pair.1 hh
    exact mem_deleteBranch_ids.2 ⟨hw.pair_ids r o' k h hh, hne⟩

end

end Wf

end Blackadder.State
