/-
**Giving names: `updateIDs` and `recursivelyUpdateIDs`.**

An object that is put under a father and everything below it get new identifiers, by a walk without
a visited set. `State.Grows`: identifiers are only added, each below a father. `State.Closes`:
edges whose names were complete stay complete, and those into the object become complete.
-/

import Blackadder.RvGraph

namespace Blackadder.State

open ListSet Except List

variable {st s s' s'' : State} {label : Obj → Fragment}

/-! ### What holds while names are added -/

/-- While names are added: the tables agree, links are mutual, linked objects have an identifier,
and identifiers end with the label. -/
structure Nameable (s : State) (label : Obj → Fragment) : Prop where
  index_ids : ∀ κ k p, s.index κ k = some p → k ∈ s.ids ⟨κ, p⟩
  ids_index : ∀ (o : Obj) k, k ∈ s.ids o → s.index o.kind k ≠ none
  pair_ids : ∀ r o k h, h ∈ s.pair r o k → k ∈ s.ids o
  links : ∀ (o : Obj) f, f ∈ s.fatherScopes o ↔ o.ptr ∈ s.children o.kind f
  ends : ∀ o k, k ∈ s.ids o → ∃ j, k = j ++ [label o]

/-- Identifiers are added, each below a father; nothing else changes. -/
structure Grows (label : Obj → Fragment) (s s' : State) : Prop where
  frame : s' = { s with ids := s'.ids, index := s'.index }
  mono : ∀ o k, k ∈ s.ids o → k ∈ s'.ids o
  sound : ∀ o k, k ∈ s'.ids o →
    k ∈ s.ids o ∨ ∃ f ∈ s.fatherScopes o, ∃ j ∈ s'.ids (.scope f), k = j ++ [label o]
  nameable : s'.Nameable label

def Closed (label : Obj → Fragment) (s : State) (f : ℕ) (o : Obj) : Prop :=
  ∀ j ∈ s.ids (.scope f), j ++ [label o] ∈ s.ids o

/-- Complete edges stay complete, and the edges into `x` become complete. -/
def Closes (label : Obj → Fragment) (s s' : State) (x : Obj) : Prop :=
  ∀ (o : Obj) (f : ℕ), f ∈ s.fatherScopes o → (s.Closed label f o ∨ o = x) → s'.Closed label f o

theorem Wf.nameable (hw : st.Wf label) : st.Nameable label where
  index_ids := fun _ _ _ hi => hw.index_eq_some.1 hi
  ids_index := fun o k hk hn => by
    rw [(hw.index_iff o k).2 hk] at hn
    cases hn
  pair_ids := hw.pair_ids
  links := hw.links
  ends := fun _ _ hk => hw.exists_append hk

namespace Grows

theorem refl (hn : s.Nameable label) : Grows label s s :=
  ⟨rfl, fun _ _ hk => hk, fun _ _ hk => Or.inl hk, hn⟩

section
variable (h : Grows label s s')
include h

theorem fatherScopes_eq : s'.fatherScopes = s.fatherScopes := by
  rw [h.frame]

theorem pair_eq : s'.pair = s.pair := by rw [h.frame]

theorem isRoot_eq : s'.isRoot = s.isRoot := by rw [h.frame]

theorem next_eq : s'.next = s.next := by rw [h.frame]

theorem own_eq : s'.own = s.own := by rw [h.frame]

theorem strategy_eq : s'.strategy = s.strategy := by rw [h.frame]

theorem out_eq : s'.out = s.out := by rw [h.frame]

theorem trans (h' : Grows label s' s'') : Grows label s s'' := by
  refine ⟨?_, fun o k hk => h'.mono o k (h.mono o k hk), ?_, h'.nameable⟩
  · have h₁ := h'.frame
    rw [h.frame] at h₁
    exact h₁
  · intro o k hk
    rcases h'.sound o k hk with hk | ⟨f, hf, j, hj, rfl⟩
    · rcases h.sound o k hk with hk | ⟨f, hf, j, hj, rfl⟩
      · exact .inl hk
      · exact .inr ⟨f, hf, j, h'.mono _ j hj, rfl⟩
    · rw [h.fatherScopes_eq] at hf
      exact .inr ⟨f, hf, j, hj, rfl⟩

end

end Grows

variable {o o' : Obj} {k sfx : Id} {f p : ℕ} {P : Obj → Prop} {t : State}

section
variable (hn : s.Nameable label)
include hn

theorem Nameable.suffixID_eq (hk : k ∈ s.ids o) : s.suffixID o = .ok [label o] :=
  suffixID_eq_of_ends (hn.ends o) hk

theorem Nameable.suffixID_ok (h : s.suffixID o = .ok sfx) : sfx = [label o] := by
  cases hl : (s.ids o).toList with
  | nil =>
    rw [suffixID, hl] at h
    cases h
  | cons k l =>
    have hk : k ∈ s.ids o := by
      rw [← mem_toList, hl]
      exact mem_cons_self
    rw [hn.suffixID_eq hk] at h
    exact (ok.inj h).symm

theorem Nameable.index_iff (hd : ∀ o o' k, k ∈ s.ids o → k ∈ s.ids o' → o = o') (o : Obj) (k : Id) :
    s.index o.kind k = some o.ptr ↔ k ∈ s.ids o := by
  constructor
  · exact hn.index_ids o.kind k o.ptr
  · intro hk
    cases hi : s.index o.kind k with
    | none => exact absurd hi (hn.ids_index o k hk)
    | some p =>
      have := hd _ _ k (hn.index_ids _ _ _ hi) hk
      rw [← this]

end

/-! ### `updateIDs` -/

theorem mem_addID_ids {k' : Id} :
    k' ∈ (s.addID o k).ids o' ↔ k' ∈ s.ids o' ∨ (o' = o ∧ k' = k) := by
  by_cases hk : k ∈ s.ids o
  · rw [addID, if_pos hk]
    refine ⟨Or.inl, ?_⟩
    intro hcase
    rcases hcase with hk' | ⟨rfl, rfl⟩
    · exact hk'
    · exact hk
  · rw [addID, if_neg hk, mem_newPair_ids, setIndex_ids]

theorem addID_index (hk : k ∉ s.ids o) (κ : Kind) (k' : Id) :
    (s.addID o k).index κ k' = if κ = o.kind ∧ k' = k then some o.ptr else s.index κ k' := by
  rw [addID, if_neg hk, newPair_index, setIndex_index]

theorem addID_pair (hpair : ∀ r o k h, h ∈ s.pair r o k → k ∈ s.ids o) (o : Obj) (k : Id) :
    (s.addID o k).pair = s.pair := by
  by_cases hk : k ∈ s.ids o
  · rw [addID, if_pos hk]
  · funext r o' k'
    rw [addID, if_neg hk, newPair_pair]
    split
    · rename_i hc
      obtain ⟨rfl, rfl⟩ := hc
      exact (eq_empty_of_forall_not_mem fun h hh => hk (hpair r _ _ h hh)).symm
    · rfl

theorem addID_frame (s : State) (o : Obj) (k : Id) : s.addID o k = { s with
        ids := (s.addID o k).ids, index := (s.addID o k).index, pair := (s.addID o k).pair } := by
  by_cases hk : k ∈ s.ids o
  · rw [addID, if_pos hk]
  · rw [addID, if_neg hk]
    rfl

section
variable (hn : s.Nameable label)
include hn

theorem Nameable.addID {j : Id} : (s.addID o (j ++ [label o])).Nameable label := by
  by_cases hk : j ++ [label o] ∈ s.ids o
  · rw [State.addID, if_pos hk]
    exact hn
  refine ⟨?_, ?_, ?_, ?_, ?_⟩
  · intro κ k p hi
    rw [addID_index hk] at hi
    rw [mem_addID_ids]
    split at hi
    · rename_i hc
      cases hi
      exact .inr ⟨by rw [hc.1], hc.2⟩
    · exact .inl (hn.index_ids κ k p hi)
  · intro o' k hk' hi
    rw [addID_index hk] at hi
    split at hi
    · cases hi
    · rename_i hc
      rcases mem_addID_ids.1 hk' with hk' | ⟨rfl, rfl⟩
      · exact hn.ids_index o' k hk' hi
      · exact hc ⟨rfl, rfl⟩
  · intro r o' k h hh
    rw [addID_pair hn.pair_ids] at hh
    exact mem_addID_ids.2 (.inl (hn.pair_ids r o' k h hh))
  · rw [addID_frame]
    exact hn.links
  · intro o' k hk'
    rcases mem_addID_ids.1 hk' with hk' | ⟨rfl, rfl⟩
    · exact hn.ends o' k hk'
    · exact ⟨j, rfl⟩

theorem Grows.addID {j : Id} (hf : f ∈ s.fatherScopes o)
    (hj : j ∈ s.ids (.scope f)) : Grows label s (s.addID o (j ++ [label o])) := by
  have hframe := addID_frame s o (j ++ [label o])
  rw [addID_pair hn.pair_ids] at hframe
  refine ⟨hframe, fun o' k hk => mem_addID_ids.2 (.inl hk), ?_, hn.addID⟩
  intro o' k hk
  rcases mem_addID_ids.1 hk with hk | ⟨rfl, rfl⟩
  · exact .inl hk
  · exact .inr ⟨f, hf, j, mem_addID_ids.2 (.inl hj), rfl⟩

theorem Grows.addIDs (hf : f ∈ s.fatherScopes o) : ∀ l : List Id, (∀ j ∈ l, j ∈ s.ids (.scope f)) →
      Grows label s (l.foldl (fun st fid => st.addID o (fid ++ [label o])) s) := by
  intro l
  induction l generalizing s with
  | nil => intro _; exact refl hn
  | cons j l ih =>
    intro hl
    have hstep := addID hn hf (hl j mem_cons_self)
    refine hstep.trans (ih hstep.nameable (hstep.fatherScopes_eq ▸ hf) ?_)
    intro i hi
    exact hstep.mono _ i (hl i (mem_cons_of_mem j hi))

theorem updateIDs_grows (o : Obj) : Grows label s (s.updateIDs o [label o]) := by
  unfold updateIDs
  have hmem : ∀ f ∈ (s.fatherScopes o).toList, f ∈ s.fatherScopes o := fun f hf => hf
  revert hmem
  generalize (s.fatherScopes o).toList = l
  induction l generalizing s with
  | nil => intro _; exact Grows.refl hn
  | cons f l ih =>
    intro hl
    have hstep := Grows.addIDs hn (hl f mem_cons_self) (s.ids (.scope f)).toList fun j hj => hj
    refine hstep.trans (ih hstep.nameable ?_)
    intro g hg
    rw [hstep.fatherScopes_eq]
    exact hl g (mem_cons_of_mem f hg)

end

theorem mem_foldl_addID_ids (l : List Id) :
    k ∈ (l.foldl (fun st fid => st.addID o (fid ++ sfx)) s).ids o' ↔
      k ∈ s.ids o' ∨ (o' = o ∧ ∃ j ∈ l, k = j ++ sfx) := by
  induction l generalizing s with
  | nil => simp
  | cons j l ih =>
    rw [foldl_cons, ih, mem_addID_ids, exists_mem_cons_iff]
    tauto

theorem mem_updateIDs_ids (hself : ∀ f ∈ s.fatherScopes o, Obj.scope f ≠ o) :
    k ∈ (s.updateIDs o sfx).ids o' ↔ k ∈ s.ids o' ∨
        (o' = o ∧ ∃ f ∈ s.fatherScopes o, ∃ j ∈ s.ids (.scope f), k = j ++ sfx) := by
  unfold updateIDs
  have hmem : ∀ f ∈ (s.fatherScopes o).toList, Obj.scope f ≠ o := fun f hf => hself f hf
  rw [show (∃ f ∈ s.fatherScopes o, ∃ j ∈ s.ids (.scope f), k = j ++ sfx) ↔
    ∃ f ∈ (s.fatherScopes o).toList, ∃ j ∈ s.ids (.scope f), k = j ++ sfx from Iff.rfl]
  clear hself
  revert hmem
  generalize (s.fatherScopes o).toList = l
  induction l generalizing s with
  | nil => simp
  | cons f l ih =>
    intro hl
    have hids : ∀ g ∈ l, ∀ j, j ∈ ((s.ids (.scope f)).toList.foldl
        (fun st fid => st.addID o (fid ++ sfx)) s).ids (.scope g) ↔ j ∈ s.ids (.scope g) := by
      intro g hg j
      rw [mem_foldl_addID_ids]
      simp [hl g (mem_cons_of_mem f hg)]
    have hex : (∃ g ∈ l, ∃ j, j ∈ ((s.ids (.scope f)).toList.foldl
        (fun st fid => st.addID o (fid ++ sfx)) s).ids (.scope g) ∧ k = j ++ sfx) ↔
        ∃ g ∈ l, ∃ j ∈ s.ids (.scope g), k = j ++ sfx := by
      refine exists_congr fun g => and_congr_right fun hg => exists_congr fun j => ?_
      rw [hids g hg j]
    refine (ih fun g hg => hl g (mem_cons_of_mem f hg)).trans ?_
    rw [mem_foldl_addID_ids, exists_mem_cons_iff, hex, or_assoc, ← and_or_left]
    rfl

theorem updateIDs_closed {x : Obj} (hself : ∀ f ∈ s.fatherScopes x, Obj.scope f ≠ x)
    (hf : f ∈ s.fatherScopes o) (hfx : Obj.scope f ≠ x) (hc : s.Closed label f o ∨ o = x) :
    (s.updateIDs x [label x]).Closed label f o := by
  intro j hj'
  have hj : j ∈ s.ids (.scope f) := by
    rcases (mem_updateIDs_ids hself).1 hj' with hj | ⟨he, -⟩
    · exact hj
    · exact absurd he hfx
  rcases hc with hc | rfl
  · exact (mem_updateIDs_ids hself).2 (.inl (hc j hj))
  · exact (mem_updateIDs_ids hself).2 (.inr ⟨rfl, f, hf, j, hj, rfl⟩)

theorem updateIDs_item_closes (i : ℕ) :
    Closes label s (s.updateIDs (.item i) [label (.item i)]) (.item i) := by
  intro o f hf hc
  exact updateIDs_closed (fun g _ => by simp) hf (by simp) hc

/-! ### `recursivelyUpdateIDs` -/

/-- The walk below `p`: all edges that should be complete are, but those from `p` into the `pending`
objects. -/
def Walk (label : Obj → Fragment) (s : State) (p : ℕ) (pending : Obj → Prop) (t : State) : Prop :=
  Grows label s t ∧ ((∀ c, c ∉ s.fatherScopes (.scope c)) →
    ∀ (o : Obj) (f : ℕ), f ∈ s.fatherScopes o → (s.Closed label f o ∨ o = .scope p) →
      t.Closed label f o ∨ (f = p ∧ pending o))

theorem walk_start (hn : s.Nameable label) (p : ℕ) :
    Walk label s p (fun _ => True) (s.updateIDs (.scope p) [label (.scope p)]) := by
  refine ⟨updateIDs_grows hn _, ?_⟩
  intro hacyc o f hf hc
  by_cases hfp : f = p
  · exact .inr ⟨hfp, trivial⟩
  · refine .inl (updateIDs_closed ?_ hf (by simpa using hfp) hc)
    intro g hg he
    obtain rfl : g = p := by simpa using he
    exact hacyc g hg

theorem Walk.visit {Q : Obj → Prop} {t' : State} {x : Obj} (hw : Walk label s p P t)
    (hg : Grows label t t') (hx : (∀ c, c ∉ t.fatherScopes (.scope c)) → Closes label t t' x)
    (hPQ : ∀ o, p ∈ s.fatherScopes o → P o → o ≠ x → Q o) : Walk label s p Q t' := by
  refine ⟨hw.1.trans hg, ?_⟩
  intro hacyc o f hf hc
  have hcl := hx (by rw [hw.1.fatherScopes_eq]; exact hacyc)
  have hft : f ∈ t.fatherScopes o := by rw [hw.1.fatherScopes_eq]; exact hf
  rcases hw.2 hacyc o f hf hc with hct | ⟨rfl, hP⟩
  · exact .inl (hcl o f hft (.inl hct))
  · by_cases hox : o = x
    · exact .inl (hcl o f hft (.inr hox))
    · exact .inr ⟨rfl, hPQ o hf hP hox⟩

theorem Walk.mono {Q : Obj → Prop} (hw : Walk label s p P t)
    (hPQ : ∀ o, p ∈ s.fatherScopes o → P o → Q o) : Walk label s p Q t := by
  refine ⟨hw.1, ?_⟩
  intro hacyc o f hf hc
  rcases hw.2 hacyc o f hf hc with hct | ⟨rfl, hP⟩
  · exact .inl hct
  · exact .inr ⟨rfl, hPQ o hf hP⟩

theorem Walk.mem_children (hw : Walk label s p P t) {κ : Kind} {c : ℕ} :
    c ∈ (t.children κ p).toList ↔ p ∈ s.fatherScopes ⟨κ, c⟩ := by
  rw [← hw.1.fatherScopes_eq]
  exact (hw.1.nameable.links ⟨κ, c⟩ p).symm

def Live (s : State) : Prop := ∀ o f, f ∈ s.fatherScopes o → ∃ k, k ∈ s.ids o

theorem Grows.live (hg : Grows label s t) (hlive : s.Live) : t.Live := by
  intro o f hf
  rw [hg.fatherScopes_eq] at hf
  obtain ⟨k, hk⟩ := hlive o f hf
  exact ⟨k, hg.mono o k hk⟩

theorem Walk.suffixID_eq (ht : Walk label s p P t) (hlive : s.Live) (ho : p ∈ s.fatherScopes o) :
    t.suffixID o = .ok [label o] := by
  obtain ⟨k, hk⟩ := hlive o p ho
  exact ht.1.nameable.suffixID_eq (ht.1.mono o k hk)

theorem Walk.scopes {E : Fault → Prop} {visit : State → ℕ → Id → Except Fault State}
    (hn : s.Nameable label) (hlive : s.Live)
    (hvis : ∀ t c, Grows label s t → p ∈ s.fatherScopes (.scope c) →
      (visit t c [label (.scope c)]).Meets E (Walk label t c fun _ => False)) :
    let t := s.updateIDs (.scope p) [label (.scope p)]
    ((t.childrenScopes p).toList.foldlM (fun (st : State) c => do
        let tempSuffix ← st.suffixID (.scope c)
        visit st c tempSuffix) t).Meets E (Walk label s p fun o => o.kind = Kind.item) := by
  have hstart := walk_start hn p
  -- the children in the rest of the list are still to be visited
  refine (meets_foldlM (fun l t => (∀ c ∈ l, p ∈ s.fatherScopes (.scope c)) ∧
    Walk label s p (fun o => o.kind = .scope → o.ptr ∈ l) t) ?_ _ _ ⟨?_, ?_⟩).mono
    (fun _ h => h) ?_
  · intro c l t hinv
    obtain ⟨hl, ht⟩ := hinv
    have hc := hl c mem_cons_self
    rw [ht.suffixID_eq hlive hc]
    refine (hvis t c ht.1 hc).mono (fun _ he => he) fun t' ht' => ?_
    refine ⟨fun d hd => hl d (mem_cons_of_mem c hd), ?_⟩
    refine ht.visit ht'.1 (x := .scope c) ?_ ?_
    · intro hacyc o f hf hcl
      exact (ht'.2 hacyc o f hf hcl).resolve_right fun h => h.2
    · rintro ⟨κ, q⟩ _ hpend hox rfl
      rcases mem_cons.1 (hpend rfl) with rfl | hql
      · exact absurd rfl hox
      · exact hql
  · intro c hc
    exact hstart.mem_children.1 hc
  · refine hstart.mono ?_
    rintro ⟨κ, q⟩ ho - rfl
    exact hstart.mem_children.2 ho
  · intro t hinv
    refine hinv.2.mono fun o _ hpend => ?_
    cases hk : o.kind with
    | scope => exact absurd (hpend hk) not_mem_nil
    | item => rfl

theorem Walk.items {E : Fault → Prop} {t₁ : State} (hlive : s.Live)
    (ht₁ : Walk label s p (fun o => o.kind = .item) t₁) : ((t₁.informationitems p).toList.foldlM
      (fun (st : State) i => do
        let tempSuffix ← st.suffixID (.item i)
        return st.updateIDs (.item i) tempSuffix) t₁).Meets E
      (Walk label s p fun _ => False) := by
  refine (meets_foldlM (fun l t => (∀ i ∈ l, p ∈ s.fatherScopes (.item i)) ∧
    Walk label s p (fun o => o.kind = .item ∧ o.ptr ∈ l) t) ?_ _ _ ⟨?_, ?_⟩).mono
    (fun _ h => h) ?_
  · intro i l t hinv
    obtain ⟨hl, ht⟩ := hinv
    rw [ht.suffixID_eq hlive (hl i mem_cons_self)]
    refine ⟨fun d hd => hl d (mem_cons_of_mem i hd), ?_⟩
    refine ht.visit (updateIDs_grows ht.1.nameable (.item i)) (fun _ => updateIDs_item_closes i) ?_
    rintro ⟨κ, q⟩ _ ⟨rfl, hpend⟩ hox
    refine ⟨rfl, ?_⟩
    rcases mem_cons.1 hpend with rfl | hql
    · exact absurd rfl hox
    · exact hql
  · intro i hi
    exact ht₁.mem_children.1 hi
  · refine ht₁.mono ?_
    rintro ⟨κ, q⟩ ho rfl
    exact ⟨rfl, ht₁.mem_children.2 ho⟩
  · intro t hinv
    exact hinv.2.mono fun o _ hpend => not_mem_nil hpend.2

/-- **The walk** fails only by exhausting the stack, and not when it is deeper than the rank of the
scope; then the names below it are complete. -/
theorem recursivelyUpdateIDs_meets (n : ℕ) (s : State) (p : ℕ) (hn : s.Nameable label)
    (hlive : s.Live) :
    (recursivelyUpdateIDs n s p [label (.scope p)]).Meets
      (fun e => e = .stackOverflow ∧ ∀ rank : ℕ → ℕ,
        (∀ c f, f ∈ s.fatherScopes (.scope c) → rank c < rank f) → n ≤ rank p)
      (fun s' => Walk label s p (fun _ => False) s') := by
  induction n generalizing s p with
  | zero => exact ⟨rfl, fun _ _ => Nat.zero_le _⟩
  | succ n ih =>
    refine Meets.bind (Walk.scopes hn hlive fun t c hg hc => ?_) fun t₁ => Walk.items hlive
    -- one recursive call for each child scope, which has a smaller rank
    refine (ih t c hg.nameable (hg.live hlive)).mono ?_ fun _ h => h
    intro e he
    refine ⟨he.1, fun rank hrank => ?_⟩
    have h₁ := he.2 rank (by rw [hg.fatherScopes_eq]; exact hrank)
    have h₂ := hrank c p hc
    omega

/-- **A walk that meets a cycle never returns**: the members of the set all have a child in it. -/
theorem recursivelyUpdateIDs_ne_ok {S : ℕ → Prop} (n : ℕ) (s : State) (p : ℕ)
    (hn : s.Nameable label) (hlive : s.Live)
    (hS : ∀ q, S q → ∃ c, S c ∧ q ∈ s.fatherScopes (.scope c)) (hp : S p) (s' : State) :
    recursivelyUpdateIDs n s p [label (.scope p)] ≠ .ok s' := by
  induction n generalizing s p s' with
  | zero => intro h; cases h
  | succ n ih =>
    intro h
    obtain ⟨t, ht, -⟩ := bind_eq_ok.1 h
    have hgrow := updateIDs_grows hn (.scope p)
    -- the loop over the children visits one that is in the set
    obtain ⟨c, hc, hpc⟩ := hS p hp
    have hcmem := (walk_start hn p).mem_children.2 hpc
    have hvis := (foldlM_eq_ok (fun c t₁ t₂ hg hcall => ?_) _ _ t hgrow ht).2 c hcmem
    · obtain ⟨t₁, t₂, hg, hcall⟩ := hvis
      obtain ⟨sfx, hsfx, hcall⟩ := bind_eq_ok.1 hcall
      rw [hg.nameable.suffixID_ok hsfx] at hcall
      refine ih t₁ c hg.nameable (hg.live hlive) ?_ hc t₂ hcall
      rw [hg.fatherScopes_eq]
      exact hS
    · obtain ⟨sfx, hsfx, hcall⟩ := bind_eq_ok.1 hcall
      rw [hg.nameable.suffixID_ok hsfx] at hcall
      have := (recursivelyUpdateIDs_meets n t₁ c hg.nameable (hg.live hlive)).of_eq_ok hcall
      exact hg.trans this.1

theorem mem_graph_fathers_link
    (h : ∀ y g, g ∈ s'.fatherScopes y ↔ g ∈ st.fatherScopes y ∨ (y = o ∧ g = f)) (y g : Obj) :
    g ∈ s'.graph.fathers y ↔ g ∈ st.graph.fathers y ∨ (y = o ∧ g = .scope f) := by
  constructor
  · intro hg
    obtain ⟨g, rfl, hgs⟩ := exists_scope_of_father hg
    rcases (h y g).1 hgs with hgs | ⟨rfl, rfl⟩
    · exact .inl (scope_mem_graph_fathers.2 hgs)
    · exact .inr ⟨rfl, rfl⟩
  · intro hcase
    rcases hcase with hg | ⟨rfl, rfl⟩
    · exact ⟨hg.1, (h y g.ptr).2 (.inl hg.2)⟩
    · exact scope_mem_graph_fathers.2 ((h y f).2 (.inr ⟨rfl, rfl⟩))

/-! ### A new object under a father -/

def birth (st : State) (κ : Kind) (strategy : Strategy) (f : ℕ) (a : Fragment) : State :=
  ((st.alloc κ strategy false).link ⟨κ, st.next κ⟩ f).updateIDs ⟨κ, st.next κ⟩ [a]

section
variable {κ : Kind} {strat : Strategy} {f : ℕ} {a : Fragment} {j₀ : Id}

theorem mem_newborn_fatherScopes {o : Obj} {g : ℕ} :
    g ∈ ((st.alloc κ strat false).link ⟨κ, st.next κ⟩ f).fatherScopes o ↔
      g ∈ st.fatherScopes o ∨ (o = ⟨κ, st.next κ⟩ ∧ g = f) := by
  rw [mem_link_fatherScopes, alloc_fatherScopes]

section
variable (hw : st.Wf label)
include hw

theorem Wf.not_mem_newborn (g : ℕ) : g ∉ st.fatherScopes ⟨κ, st.next κ⟩ := by
  intro hg
  obtain ⟨k, hk⟩ := hw.live_of_father hg
  exact (hw.unborn ⟨κ, st.next κ⟩ le_rfl).1 k hk

theorem Wf.scope_ne_newborn (hj₀ : j₀ ∈ st.ids (.scope f)) : Obj.scope f ≠ ⟨κ, st.next κ⟩ := by
  intro he
  rw [he] at hj₀
  exact (hw.unborn ⟨κ, st.next κ⟩ le_rfl).1 j₀ hj₀

theorem Wf.mem_birth_ids (hj₀ : j₀ ∈ st.ids (.scope f)) {o : Obj} {k : Id} :
    k ∈ (st.birth κ strat f a).ids o ↔
      k ∈ st.ids o ∨ (o = ⟨κ, st.next κ⟩ ∧ ∃ j ∈ st.ids (.scope f), k = j ++ [a]) := by
  -- before it has its identifiers, the new object has `f` as its only father
  have hfath : ∀ g, g ∈ ((st.alloc κ strat false).link ⟨κ, st.next κ⟩ f).fatherScopes
      ⟨κ, st.next κ⟩ ↔ g = f := by
    simp [hw.not_mem_newborn]
  rw [birth, mem_updateIDs_ids]
  · simp only [hfath, exists_eq_left, link_ids, alloc_ids]
  · intro g hg
    rw [(hfath g).1 hg]
    exact hw.scope_ne_newborn hj₀

theorem Wf.birth_grows (κ : Kind) (strat : Strategy) (f : ℕ) (a : Fragment) :
    Grows (Function.update label ⟨κ, st.next κ⟩ a)
      ((st.alloc κ strat false).link ⟨κ, st.next κ⟩ f) (st.birth κ strat f a) := by
  have hn : ((st.alloc κ strat false).link ⟨κ, st.next κ⟩ f).Nameable
      (Function.update label ⟨κ, st.next κ⟩ a) := by
    refine ⟨hw.nameable.index_ids, hw.nameable.ids_index, hw.pair_ids, ?_, ?_⟩
    · intro o g
      rw [mem_link_fatherScopes, mem_link_children]
      simp [hw.links]
    · intro o k hk
      have hne : o ≠ ⟨κ, st.next κ⟩ := by
        rintro rfl
        exact (hw.unborn _ le_rfl).1 k hk
      rw [Function.update_of_ne hne]
      exact hw.exists_append hk
  have hg := updateIDs_grows hn ⟨κ, st.next κ⟩
  rw [Function.update_self] at hg
  exact hg

theorem Wf.birth (strat : Strategy) (hj₀ : j₀ ∈ st.ids (.scope f))
    (hfree : ∀ o, j₀ ++ [a] ∉ st.ids o) :
    (st.birth κ strat f a).Wf (Function.update label ⟨κ, st.next κ⟩ a) := by
  have hg := hw.birth_grows κ strat f a
  obtain ⟨hdead, hnro⟩ := hw.unborn ⟨κ, st.next κ⟩ le_rfl
  have hfx : Obj.scope f ≠ ⟨κ, st.next κ⟩ := hw.scope_ne_newborn hj₀
  have hroot : ∀ o, o ∈ (st.birth κ strat f a).graph.root ↔ o ∈ st.graph.root := by
    rintro ⟨κ', p⟩
    rw [mem_graph_root, hg.isRoot_eq, link_isRoot, alloc_isRoot, mem_graph_root]
    by_cases hc : κ = .scope ∧ p = st.next κ
    · -- a pointer that was unused is not a root
      obtain ⟨rfl, rfl⟩ := hc
      have hnr : st.isRoot (st.next .scope) ≠ true := fun h => hnro ⟨rfl, h⟩
      simp [hnr]
    · rw [if_neg hc]
  have hfath : ∀ o g, g ∈ (st.birth κ strat f a).graph.fathers o ↔
      g ∈ st.graph.fathers o ∨ (o = ⟨κ, st.next κ⟩ ∧ g = .scope f) := by
    refine mem_graph_fathers_link fun y g => ?_
    rw [hg.fatherScopes_eq, mem_newborn_fatherScopes]
  have hnamed : (st.birth κ strat f a).graph.Named (Function.update label ⟨κ, st.next κ⟩ a) :=
    hw.named.addInner hdead hnro ⟨j₀, hj₀⟩ (hw.named.fresh hj₀ hfree) hroot hfath
      fun o k => hw.mem_birth_ids hj₀
  refine ⟨hnamed, ?_, hg.nameable.index_iff hnamed.disjoint, hg.nameable.links, ?_,
    hg.nameable.pair_ids⟩
  · exact hw.ranked.addLeaf (hw.named.not_father_of_dead hdead) hfx fun o g hog => (hfath o g).1 hog
  · intro o hp
    rw [hg.next_eq, link_next] at hp
    obtain ⟨hle, hne⟩ := next_le_of_alloc hp
    obtain ⟨hd, hr⟩ := hw.unborn o hle
    refine ⟨fun k hk => ?_, fun h => hr ((hroot _).1 h)⟩
    rcases (hw.mem_birth_ids hj₀).1 hk with hk | ⟨he, -⟩
    · exact hd k hk
    · exact hne he

end

end

/-! ### A further father -/

theorem Wf.link_nameable (hw : st.Wf label) (o : Obj) (f : ℕ) : (st.link o f).Nameable label := by
  refine ⟨hw.nameable.index_ids, hw.nameable.ids_index, hw.pair_ids, ?_,
    fun o k hk => hw.exists_append hk⟩
  intro o' g
  rw [mem_link_fatherScopes, mem_link_children, hw.links]

theorem not_below_item {i : ℕ} {g : Obj} (hg : g ≠ Obj.item i) :
    ¬ NameGraph.Below st.graph.fathers (.item i) g := by
  intro hb
  rcases Relation.ReflTransGen.cases_head hb with he | ⟨y, ⟨hk, -⟩, -⟩
  · exact hg he.symm
  · cases hk

variable {o : Obj} {f : ℕ}

/-- **A further father of an object**, once the names below it are complete. -/
theorem Wf.adopt (hw : st.Wf label) {j₀ k₀ : Id} (hk₀ : k₀ ∈ st.ids o) (hor : o ∉ st.graph.root)
    (hj₀ : j₀ ∈ st.ids (.scope f)) (hfree : ∀ y, j₀ ++ [label o] ∉ st.ids y)
    (hnb : ¬ NameGraph.Below st.graph.fathers o (.scope f)) (hg : Grows label (st.link o f) s')
    (hc : Closes label (st.link o f) s' o) : s'.Wf label := by
  have hroot : ∀ y, y ∈ s'.graph.root ↔ y ∈ st.graph.root := by
    intro y
    rw [mem_graph_root, hg.isRoot_eq, link_isRoot, mem_graph_root]
  have hfath : ∀ y g, g ∈ s'.graph.fathers y ↔ g ∈ st.graph.fathers y ∨ (y = o ∧ g = .scope f) := by
    refine mem_graph_fathers_link fun y g => ?_
    rw [hg.fatherScopes_eq, mem_link_fatherScopes]
  have hsound : ∀ y k, k ∈ s'.graph.ids y →
      k ∈ st.graph.ids y ∨ ∃ g ∈ s'.graph.fathers y, ∃ j ∈ s'.graph.ids g, k = j ++ [label y] := by
    intro y k hk
    rcases hg.sound y k hk with hk | ⟨g, hgf, j, hj, rfl⟩
    · exact .inl hk
    · refine .inr ⟨Obj.scope g, ?_, j, hj, rfl⟩
      rw [scope_mem_graph_fathers, hg.fatherScopes_eq]
      exact hgf
  have hclo : ∀ y, ∀ g ∈ s'.graph.fathers y, ∀ j ∈ s'.graph.ids g,
      j ++ [label y] ∈ s'.graph.ids y := by
    intro y g hgy j hj
    obtain ⟨g, rfl, hgs⟩ := exists_scope_of_father hgy
    rw [hg.fatherScopes_eq] at hgs
    refine hc y g hgs ?_ j hj
    -- an old edge was complete, the new one is an edge into `o`
    rcases mem_link_fatherScopes.1 hgs with hold | ⟨rfl, -⟩
    · exact .inl fun i hi => hw.mem_of_father hold hi
    · exact .inr rfl
  have hnamed : s'.graph.Named label :=
    hw.named.link hor ⟨j₀, hj₀⟩ (hw.named.fresh hj₀ hfree) hroot hfath hg.mono hsound hclo
  refine ⟨hnamed, hw.ranked.link hnb fun y g hy => (hfath y g).1 hy,
    hg.nameable.index_iff hnamed.disjoint, hg.nameable.links, ?_, hg.nameable.pair_ids⟩
  intro y hy
  rw [hg.next_eq] at hy
  obtain ⟨hd, hr⟩ := hw.unborn y hy
  refine ⟨fun k hk => ?_, fun h => hr ((hroot y).1 h)⟩
  rcases hsound y k hk with hk | ⟨g, hgy, -⟩
  · exact hd k hk
  · rcases (hfath y g).1 hgy with hgy | ⟨rfl, -⟩
    · exact hw.named.no_fathers_of_dead hd g hgy
    · exact hd k₀ hk₀

theorem Grows.mem_of_link {j : Id} (hg : Grows label (st.link o f) s') (hw' : s'.Wf label)
    (hj : j ∈ st.ids (.scope f)) : j ++ [label o] ∈ s'.ids o := by
  refine hw'.mem_of_father ?_ (hg.mono _ _ hj)
  rw [hg.fatherScopes_eq]
  exact mem_link_fatherScopes.2 (.inr ⟨rfl, rfl⟩)

theorem Wf.link_acyclic (hw : st.Wf label) (hnb : ¬ NameGraph.Below st.graph.fathers o (.scope f))
    (c : ℕ) : c ∉ (st.link o f).fatherScopes (.scope c) := by
  intro hc
  rcases mem_link_fatherScopes.1 hc with hc | ⟨rfl, rfl⟩
  · exact hw.not_father_self hc
  · exact hnb Relation.ReflTransGen.refl

/-! ### The walks that the handlers start -/

theorem Wf.recursivelyUpdateIDs_newborn (hw : st.Wf label) (n : ℕ) (strat : Strategy) (f : ℕ)
    (a : Fragment) (hf : ∃ j, j ∈ st.ids (.scope f)) :
    recursivelyUpdateIDs (n + 1) ((st.alloc .scope strat false).link (.scope (st.next .scope)) f)
      (st.next .scope) [a] = .ok (st.birth .scope strat f a) := by
  have hg := hw.birth_grows .scope strat f a
  obtain ⟨j, hj⟩ := hf
  have hleaf : ∀ κ, ((st.birth .scope strat f a).children κ (st.next .scope)).toList = [] := by
    intro κ
    rw [eq_nil_iff_forall_not_mem]
    intro c hc
    have hfath := (hg.nameable.links ⟨κ, c⟩ _).2 hc
    rw [hg.fatherScopes_eq, mem_newborn_fatherScopes] at hfath
    rcases hfath with hfath | ⟨-, hfe⟩
    · obtain ⟨i, hi⟩ := hw.father_live hfath
      exact (hw.unborn (.scope (st.next .scope)) le_rfl).1 i hi
    · exact hw.scope_ne_newborn hj (congrArg Obj.scope hfe.symm)
  change (((st.birth .scope strat f a).children .scope
    (st.next .scope)).toList.foldlM _ _ >>= _) = _
  rw [hleaf .scope]
  change (((st.birth .scope strat f a).children .item (st.next .scope)).toList.foldlM _ _) = _
  rw [hleaf .item]
  rfl

section
variable {sc f : ℕ} {k₀ j₀ : Id}

theorem Wf.link_live (hw : st.Wf label) {o : Obj} (hk₀ : k₀ ∈ st.ids o) (y : Obj) (g : ℕ)
    (hy : g ∈ (st.link o f).fatherScopes y) : ∃ k, k ∈ (st.link o f).ids y := by
  rcases mem_link_fatherScopes.1 hy with hy | ⟨rfl, -⟩
  · exact hw.live_of_father hy
  · exact ⟨k₀, hk₀⟩

/-- **The walk after a scope got a further father** fails only by exhausting the stack, and returns
only when the father is not below the scope. -/
theorem Wf.recursivelyUpdateIDs_link (hw : st.Wf label) (n : ℕ)
    (hk₀ : k₀ ∈ st.ids (.scope sc)) (hor : Obj.scope sc ∉ st.graph.root)
    (hj₀ : j₀ ∈ st.ids (.scope f)) (hfree : ∀ y, j₀ ++ [label (.scope sc)] ∉ st.ids y) :
    (recursivelyUpdateIDs n (st.link (.scope sc) f) sc [label (.scope sc)]).Meets
      (fun e => e = .stackOverflow)
      (fun s' => ¬ NameGraph.Below st.graph.fathers (.scope sc) (.scope f) ∧
        Grows label (st.link (.scope sc) f) s' ∧ s'.Wf label) := by
  have hn := hw.link_nameable (.scope sc) f
  have hlive := hw.link_live (f := f) hk₀
  have hwalk := recursivelyUpdateIDs_meets n _ sc hn hlive
  cases hr : recursivelyUpdateIDs n (st.link (.scope sc) f) sc [label (.scope sc)] with
  | error e => exact (hwalk.of_eq_error hr).1
  | ok s' =>
    obtain ⟨hg, hclo⟩ := hwalk.of_eq_ok hr
    have hnb : ¬ NameGraph.Below st.graph.fathers (.scope sc) (.scope f) := by
      intro hb
      -- the scopes between `sc` and `f` and the new link form a cycle
      refine recursivelyUpdateIDs_ne_ok (S := fun q =>
        NameGraph.Below st.graph.fathers (.scope sc) (.scope q) ∧
        NameGraph.Below st.graph.fathers (.scope q) (.scope f)) n _ sc hn hlive ?_
        ⟨Relation.ReflTransGen.refl, hb⟩ s' hr
      intro q hboth
      obtain ⟨hq₁, hq₂⟩ := hboth
      rcases Relation.ReflTransGen.cases_head hq₂ with he | ⟨c, hqc, hcf⟩
      · obtain rfl : q = f := by simpa using he
        exact ⟨sc, ⟨Relation.ReflTransGen.refl, hb⟩, mem_link_fatherScopes.2 (.inr ⟨rfl, rfl⟩)⟩
      · obtain ⟨c, rfl⟩ : ∃ c', c = .scope c' := by
          rcases Relation.ReflTransGen.cases_head hcf with he | ⟨d, hcd, -⟩
          · exact ⟨f, he⟩
          · obtain ⟨c', hc', -⟩ := exists_scope_of_father hcd
            exact ⟨c', hc'⟩
        exact ⟨c, ⟨hq₁.tail hqc, hcf⟩,
          mem_link_fatherScopes.2 (.inl (scope_mem_graph_fathers.1 hqc))⟩
    have hc : Closes label (st.link (.scope sc) f) s' (.scope sc) := by
      intro o g hg' hc'
      exact (hclo (hw.link_acyclic hnb) o g hg' hc').resolve_right fun h => h.2
    exact ⟨hnb, hg, hw.adopt hk₀ hor hj₀ hfree hnb hg hc⟩

/-- **A walk that meets no cycle returns** on a stack that is deep enough. -/
theorem Wf.exists_recursivelyUpdateIDs_link (hw : st.Wf label) (hk₀ : k₀ ∈ st.ids (.scope sc))
    (hnb : ¬ NameGraph.Below st.graph.fathers (.scope sc) (.scope f)) :
    ∃ n s', recursivelyUpdateIDs n (st.link (.scope sc) f) sc [label (.scope sc)] = .ok s' := by
  have hfath : ∀ y g, g ∈ (st.link (.scope sc) f).graph.fathers y →
      g ∈ st.graph.fathers y ∨ (y = .scope sc ∧ g = .scope f) := fun y g hg =>
    (mem_graph_fathers_link (fun _ _ => mem_link_fatherScopes) y g).1 hg
  obtain ⟨rank, hrank⟩ := hw.ranked.link hnb hfath
  have hwalk := recursivelyUpdateIDs_meets (rank (.scope sc) + 1) _ sc
    (hw.link_nameable (.scope sc) f) (hw.link_live (f := f) hk₀)
  refine ⟨rank (.scope sc) + 1, ?_⟩
  cases hr : recursivelyUpdateIDs (rank (.scope sc) + 1) (st.link (.scope sc) f) sc
      [label (.scope sc)] with
  | ok s' => exact ⟨s', rfl⟩
  | error e =>
    have hle := (hwalk.of_eq_error hr).2 (fun p => rank (.scope p)) fun c g hg =>
      hrank _ _ (scope_mem_graph_fathers.2 hg)
    omega

end

end Blackadder.State
