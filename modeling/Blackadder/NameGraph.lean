/-
**Names in a rooted graph.**

A root is named by one label, and a node that has fathers by a name of a father and its own label;
it may have several names, and is *live* when it has one. `NameGraph.Named G label` says that the
stored names are right, fathers are live, and no name is shared, which an edit can break;
`NameGraph.disjoint_of_siblings` reduces it to the labels of siblings.
-/

import Mathlib.Data.List.Induction
import Mathlib.Data.Set.Basic

universe u v

/-- The roots, the fathers of each node and the names stored for it. -/
structure NameGraph (ν : Type u) (α : Type v) where
  root : Set ν
  fathers : ν → Set ν
  ids : ν → Set (List α)

namespace NameGraph

open Function

variable {ν : Type u} {α : Type v}

/-- **The stored names are the paths of the graph**; `label` is the last label of a node. -/
structure Named (G : NameGraph ν α) (label : ν → α) : Prop where
  root_ids : ∀ x ∈ G.root, ∀ k ∈ G.ids x, k = [label x]
  root_fathers : ∀ x ∈ G.root, ∀ f, f ∉ G.fathers x
  inner_ids : ∀ x ∉ G.root, ∀ k, k ∈ G.ids x ↔ ∃ f ∈ G.fathers x, ∃ j ∈ G.ids f, k = j ++ [label x]
  live_fathers : ∀ x, ∀ f ∈ G.fathers x, (G.ids f).Nonempty
  disjoint : ∀ x y k, k ∈ G.ids x → k ∈ G.ids y → x = y

/-! ### Disjointness of names -/

/-- Names are not shared if roots do not share theirs and siblings have different labels. -/
theorem disjoint_of_siblings {G : NameGraph ν α} {label : ν → α}
    (hroot : ∀ x ∈ G.root, ∀ k ∈ G.ids x, k = [label x])
    (hinner : ∀ x ∉ G.root, ∀ k, k ∈ G.ids x ↔ ∃ f ∈ G.fathers x, ∃ j ∈ G.ids f, k = j ++ [label x])
    (hroots : ∀ x ∈ G.root, ∀ y ∈ G.root, ∀ k, k ∈ G.ids x → k ∈ G.ids y → x = y)
    (hsib : ∀ x y f, f ∈ G.fathers x → f ∈ G.fathers y → label x = label y → x = y) :
    ∀ x y k, k ∈ G.ids x → k ∈ G.ids y → x = y := by
  -- the empty path names nothing
  have hnil : ∀ x, [] ∉ G.ids x := by
    intro x hx
    by_cases hr : x ∈ G.root
    · simpa using hroot x hr [] hx
    · obtain ⟨_, _, j, _, hj⟩ := (hinner x hr []).1 hx
      simp at hj
  -- a root and an inner node have names of different lengths
  have hmix : ∀ x ∈ G.root, ∀ y ∉ G.root, ∀ k, k ∈ G.ids x → k ∉ G.ids y := by
    intro x hx y hy k hkx hky
    obtain ⟨f, _, j, hj, rfl⟩ := (hinner y hy k).1 hky
    have hlen := congrArg List.length (hroot x hx _ hkx)
    have : j = [] := by simpa using hlen
    exact hnil f (this ▸ hj)
  intro x y k
  -- induction on the path: the father's name is one label shorter
  induction k using List.reverseRecOn generalizing x y with
  | nil => intro hx; exact absurd hx (hnil x)
  | append_singleton j a ih =>
    intro hx hy
    by_cases hxr : x ∈ G.root
    · by_cases hyr : y ∈ G.root
      · exact hroots x hxr y hyr _ hx hy
      · exact absurd hy (hmix x hxr y hyr _ hx)
    · by_cases hyr : y ∈ G.root
      · exact absurd hx (hmix y hyr x hxr _ hy)
      · obtain ⟨f, hf, i, hi, hix⟩ := (hinner x hxr _).1 hx
        obtain ⟨g, hg, i', hi', hiy⟩ := (hinner y hyr _).1 hy
        obtain ⟨rfl, hax⟩ := List.append_singleton_inj.1 hix
        obtain ⟨rfl, hay⟩ := List.append_singleton_inj.1 hiy
        have hfg : f = g := ih f g hi hi'
        exact hsib x y f hf (hfg ▸ hg) (hax.symm.trans hay)

namespace Named

variable {G G' : NameGraph ν α} {label : ν → α}

/-! ### Reading a name -/

variable {x f : ν} {a : α}

section
variable (h : Named G label)
include h

theorem ends_label {k : List α} (hk : k ∈ G.ids x) : ∃ j, k = j ++ [label x] := by
  by_cases hx : x ∈ G.root
  · exact ⟨[], by simpa using h.root_ids x hx k hk⟩
  · obtain ⟨_, _, j, _, rfl⟩ := (h.inner_ids x hx k).1 hk
    exact ⟨j, rfl⟩

theorem ne_nil {k : List α} (hk : k ∈ G.ids x) : k ≠ [] := by
  obtain ⟨j, rfl⟩ := h.ends_label hk
  simp

theorem root_of_singleton (hk : [a] ∈ G.ids x) : x ∈ G.root := by
  by_contra hx
  obtain ⟨f, _, j, hj, he⟩ := (h.inner_ids x hx _).1 hk
  have : j = [] := by
    have := congrArg List.length he
    simpa using this
  exact h.ne_nil hj this

theorem father_of_append {j : List α} (hj : j ≠ []) (hk : j ++ [a] ∈ G.ids x) :
    x ∉ G.root ∧ a = label x ∧ ∃ f ∈ G.fathers x, j ∈ G.ids f := by
  have hx : x ∉ G.root := by
    intro hr
    have := h.root_ids x hr _ hk
    have hlen := congrArg List.length this
    exact hj (by simpa using hlen)
  obtain ⟨f, hf, i, hi, he⟩ := (h.inner_ids x hx _).1 hk
  obtain ⟨rfl, rfl⟩ := List.append_singleton_inj.1 he
  exact ⟨hx, rfl, f, hf, hi⟩

theorem append_mem {j : List α} (hf : f ∈ G.fathers x) (hj : j ∈ G.ids f) :
    j ++ [label x] ∈ G.ids x := by
  have hx : x ∉ G.root := fun hr => h.root_fathers x hr f hf
  exact (h.inner_ids x hx _).2 ⟨f, hf, j, hj, rfl⟩

theorem sibling_eq {y : ν} (hx : f ∈ G.fathers x) (hy : f ∈ G.fathers y)
    (hl : label x = label y) : x = y := by
  obtain ⟨j, hj⟩ := h.live_fathers x f hx
  refine h.disjoint x y _ (h.append_mem hx hj) ?_
  rw [hl]
  exact h.append_mem hy hj

/-- **Freshness**: a label that is free below one name of a node is free below all of them. -/
theorem fresh {j₀ : List α} (hj₀ : j₀ ∈ G.ids f)
    (hfree : ∀ y, j₀ ++ [a] ∉ G.ids y) : ∀ j ∈ G.ids f, ∀ y, j ++ [a] ∉ G.ids y := by
  intro j hj y hy
  obtain ⟨-, rfl, g, hg, hjg⟩ := h.father_of_append (h.ne_nil hj) hy
  have hfg : f = g := h.disjoint f g j hj hjg
  exact hfree y (h.append_mem (hfg ▸ hg) hj₀)

theorem no_fathers_of_dead (hx : ∀ k, k ∉ G.ids x) : ∀ f, f ∉ G.fathers x := by
  intro f hf
  obtain ⟨j, hj⟩ := h.live_fathers x f hf
  exact hx _ (h.append_mem hf hj)

theorem not_father_of_dead (hx : ∀ k, k ∉ G.ids x) : ∀ y, x ∉ G.fathers y := by
  intro y hy
  obtain ⟨j, hj⟩ := h.live_fathers y x hy
  exact hx j hj

end

/-! ### Edits -/

section
variable {x f : ν} (hfath : ∀ y g, g ∈ G'.fathers y ↔ g ∈ G.fathers y ∨ (y = x ∧ g = f))
include hfath

theorem root_fathers_of_link (h : Named G label) (hx : x ∉ G.root)
    (hroot : ∀ y, y ∈ G'.root ↔ y ∈ G.root) : ∀ y ∈ G'.root, ∀ g, g ∉ G'.fathers y := by
  intro y hy g hg
  have hyr := (hroot y).1 hy
  rcases (hfath y g).1 hg with hg | ⟨rfl, -⟩
  · exact h.root_fathers y hyr g hg
  · exact hx hyr

theorem live_fathers_of_link (h : Named G label) (hf : (G.ids f).Nonempty)
    (hmono : ∀ y k, k ∈ G.ids y → k ∈ G'.ids y) : ∀ y, ∀ g ∈ G'.fathers y, (G'.ids g).Nonempty := by
  intro y g hg
  have hlive : (G.ids g).Nonempty := by
    rcases (hfath y g).1 hg with hg | ⟨-, rfl⟩
    · exact h.live_fathers y g hg
    · exact hf
  obtain ⟨j, hj⟩ := hlive
  exact ⟨j, hmono g j hj⟩

end

variable {x f : ν}

theorem addNode [DecidableEq ν] (h : Named G label) {a : α} (hx : ∀ k, k ∉ G.ids x)
    (hroot : ∀ y ≠ x, y ∈ G'.root ↔ y ∈ G.root)
    (hfath : ∀ y ≠ x, ∀ g, g ∈ G'.fathers y ↔ g ∈ G.fathers y)
    (hids : ∀ y ≠ x, ∀ k, k ∈ G'.ids y ↔ k ∈ G.ids y) (hfree : ∀ k ∈ G'.ids x, ∀ y, k ∉ G.ids y)
    (hlive : ∀ g ∈ G'.fathers x, (G.ids g).Nonempty)
    (hnew : x ∈ G'.root → (∀ k ∈ G'.ids x, k = [a]) ∧ ∀ g, g ∉ G'.fathers x)
    (hinner : x ∉ G'.root → ∀ k, k ∈ G'.ids x ↔ ∃ g ∈ G'.fathers x, ∃ j ∈ G.ids g, k = j ++ [a]) :
    Named G' (Function.update label x a) := by
  have hlab : ∀ y ≠ x, update label x a y = label y := fun y hy =>
    update_of_ne hy _ _
  have hne : ∀ {g}, (G.ids g).Nonempty → g ≠ x := by
    rintro g ⟨j, hj⟩ rfl
    exact hx j hj
  -- every father was there before
  have hold : ∀ y, ∀ g ∈ G'.fathers y, (G.ids g).Nonempty := by
    intro y g hg
    by_cases hyx : y = x
    · exact hlive g (hyx ▸ hg)
    · exact h.live_fathers y g ((hfath y hyx g).1 hg)
  refine ⟨?_, ?_, ?_, ?_, ?_⟩
  · intro y hy k hk
    by_cases hyx : y = x
    · subst hyx
      rw [update_self]
      exact (hnew hy).1 k hk
    · rw [hlab y hyx]
      exact h.root_ids y ((hroot y hyx).1 hy) k ((hids y hyx k).1 hk)
  · intro y hy g hg
    by_cases hyx : y = x
    · subst hyx
      exact (hnew hy).2 g hg
    · exact h.root_fathers y ((hroot y hyx).1 hy) g ((hfath y hyx g).1 hg)
  · intro y hy k
    have hsame : (∃ g ∈ G'.fathers y, ∃ j ∈ G'.ids g, k = j ++ [update label x a y]) ↔
        ∃ g ∈ G'.fathers y, ∃ j ∈ G.ids g, k = j ++ [update label x a y] :=
      exists_congr fun g => and_congr_right fun hg =>
        exists_congr fun j => and_congr_left' (hids g (hne (hold y g hg)) j)
    rw [hsame]
    by_cases hyx : y = x
    · subst hyx
      rw [update_self]
      exact hinner hy k
    · simp only [hids y hyx, hfath y hyx, hlab y hyx]
      exact h.inner_ids y (fun hr => hy ((hroot y hyx).2 hr)) k
  · intro y g hg
    obtain ⟨j, hj⟩ := hold y g hg
    exact ⟨j, (hids g (hne ⟨j, hj⟩) j).2 hj⟩
  · intro y z k hy hz
    by_cases hyx : y = x <;> by_cases hzx : z = x
    · rw [hyx, hzx]
    · exact absurd ((hids z hzx k).1 hz) (hfree k (hyx ▸ hy) z)
    · exact absurd ((hids y hyx k).1 hy) (hfree k (hzx ▸ hz) y)
    · exact h.disjoint y z k ((hids y hyx k).1 hy) ((hids z hzx k).1 hz)

theorem addRoot [DecidableEq ν] (h : Named G label) {a : α} (hx : ∀ k, k ∉ G.ids x)
    (hfree : ∀ y, [a] ∉ G.ids y) (hroot : ∀ y, y ∈ G'.root ↔ y = x ∨ y ∈ G.root)
    (hfath : ∀ y f, f ∈ G'.fathers y ↔ f ∈ G.fathers y)
    (hids : ∀ y k, k ∈ G'.ids y ↔ k ∈ G.ids y ∨ (y = x ∧ k = [a])) :
    Named G' (Function.update label x a) := by
  have hname : ∀ k, k ∈ G'.ids x ↔ k = [a] := by simp [hids, hx]
  have hxf : ∀ g, g ∉ G'.fathers x := fun g hg => h.no_fathers_of_dead hx g ((hfath x g).1 hg)
  refine h.addNode hx (fun y hy => by simp [hroot, hy]) (fun y _ g => hfath y g)
    (fun y hy k => by simp [hids, hy]) (fun k hk => (hname k).1 hk ▸ hfree)
    (fun g hg => absurd hg (hxf g)) (fun _ => ⟨fun k => (hname k).1, hxf⟩) ?_
  exact fun hr => absurd ((hroot x).2 (.inl rfl)) hr

theorem addInner [DecidableEq ν] (h : Named G label) {a : α} (hx : ∀ k, k ∉ G.ids x)
    (hxr : x ∉ G.root) (hf : (G.ids f).Nonempty) (hfree : ∀ j ∈ G.ids f, ∀ y, j ++ [a] ∉ G.ids y)
    (hroot : ∀ y, y ∈ G'.root ↔ y ∈ G.root)
    (hfath : ∀ y g, g ∈ G'.fathers y ↔ g ∈ G.fathers y ∨ (y = x ∧ g = f))
    (hids : ∀ y k, k ∈ G'.ids y ↔ k ∈ G.ids y ∨ (y = x ∧ ∃ j ∈ G.ids f, k = j ++ [a])) :
    Named G' (Function.update label x a) := by
  have hname : ∀ k, k ∈ G'.ids x ↔ ∃ j ∈ G.ids f, k = j ++ [a] := by simp [hids, hx]
  have hfat : ∀ g, g ∈ G'.fathers x ↔ g = f := by simp [hfath, h.no_fathers_of_dead hx]
  refine h.addNode hx (fun y _ => hroot y) (fun y hy g => by simp [hfath, hy])
    (fun y hy k => by simp [hids, hy]) ?_ (fun g hg => (hfat g).1 hg ▸ hf)
    (fun hr => absurd ((hroot x).1 hr) hxr) fun _ k => by simp [hname, hfat]
  intro k hk
  obtain ⟨j, hj, rfl⟩ := (hname k).1 hk
  exact hfree j hj

/-- **A further father.** Any set of names is right that contains the old ones and is closed under
the fathers of the new graph, with nothing else. -/
theorem link (h : Named G label) (hx : x ∉ G.root) (hf : (G.ids f).Nonempty)
    (hfree : ∀ j ∈ G.ids f, ∀ y, j ++ [label x] ∉ G.ids y) (hroot : ∀ y, y ∈ G'.root ↔ y ∈ G.root)
    (hfath : ∀ y g, g ∈ G'.fathers y ↔ g ∈ G.fathers y ∨ (y = x ∧ g = f))
    (hmono : ∀ y k, k ∈ G.ids y → k ∈ G'.ids y)
    (hsound : ∀ y k, k ∈ G'.ids y → k ∈ G.ids y ∨ ∃ g ∈ G'.fathers y, ∃ j ∈ G'.ids g, k = j ++ [label y])
    (hclo : ∀ y, ∀ g ∈ G'.fathers y, ∀ j ∈ G'.ids g, j ++ [label y] ∈ G'.ids y) :
    Named G' label := by
  have hrf : ∀ y ∈ G'.root, ∀ g, g ∉ G'.fathers y := root_fathers_of_link hfath h hx hroot
  -- a root gains no name
  have hrids : ∀ y ∈ G'.root, ∀ k ∈ G'.ids y, k ∈ G.ids y := by
    intro y hy k hk
    refine (hsound y k hk).resolve_right ?_
    intro hex
    obtain ⟨g, hg, -⟩ := hex
    exact hrf y hy g hg
  have hri : ∀ y ∈ G'.root, ∀ k ∈ G'.ids y, k = [label y] := fun y hy k hk =>
    h.root_ids y ((hroot y).1 hy) k (hrids y hy k hk)
  have hin : ∀ y ∉ G'.root, ∀ k,
      k ∈ G'.ids y ↔ ∃ g ∈ G'.fathers y, ∃ j ∈ G'.ids g, k = j ++ [label y] := by
    intro y hy k
    have hyr : y ∉ G.root := fun hr => hy ((hroot y).2 hr)
    constructor
    · intro hk
      rcases hsound y k hk with hk | hk
      · obtain ⟨g, hg, j, hj, rfl⟩ := (h.inner_ids y hyr k).1 hk
        exact ⟨g, (hfath y g).2 (.inl hg), j, hmono g j hj, rfl⟩
      · exact hk
    · intro hex
      obtain ⟨g, hg, j, hj, rfl⟩ := hex
      exact hclo y g hg j hj
  refine ⟨hri, hrf, hin, live_fathers_of_link hfath h hf hmono, disjoint_of_siblings hri hin ?_ ?_⟩
  · intro y hy z hz k hyk hzk
    exact h.disjoint y z k (hrids y hy k hyk) (hrids z hz k hzk)
  · -- the label of `x` was free below `f`
    have hnew : ∀ y, f ∈ G.fathers y → label y ≠ label x := by
      intro y hy hl
      obtain ⟨j, hj⟩ := hf
      exact hfree j hj y (hl ▸ h.append_mem hy hj)
    intro y z g hy hz hl
    rcases (hfath y g).1 hy with hy | ⟨rfl, rfl⟩ <;> rcases (hfath z g).1 hz with hz | ⟨rfl, he⟩
    · exact h.sibling_eq hy hz hl
    · exact absurd hl (hnew y (he ▸ hy))
    · exact absurd hl.symm (hnew z hz)
    · rfl

theorem cut {P : ν → ν → Prop} {Q : ν → List α → Prop} (h : Named G label)
    (hroot : ∀ y, y ∈ G'.root ↔ y ∈ G.root)
    (hfath : ∀ y g, g ∈ G'.fathers y ↔ g ∈ G.fathers y ∧ P y g)
    (hids : ∀ y k, k ∈ G'.ids y ↔ k ∈ G.ids y ∧ Q y k)
    (hkeep : ∀ y, ∀ g ∈ G.fathers y, ∀ j ∈ G.ids g, Q g j)
    (hname : ∀ y, ∀ g ∈ G.fathers y, ∀ j ∈ G.ids g, (Q y (j ++ [label y]) ↔ P y g)) :
    Named G' label := by
  refine ⟨?_, ?_, ?_, ?_, ?_⟩
  · intro y hy k hk
    exact h.root_ids y ((hroot y).1 hy) k ((hids y k).1 hk).1
  · intro y hy g hg
    exact h.root_fathers y ((hroot y).1 hy) g ((hfath y g).1 hg).1
  · intro y hy k
    have hyr : y ∉ G.root := fun hr => hy ((hroot y).2 hr)
    rw [hids y k, h.inner_ids y hyr k]
    constructor
    · rintro ⟨⟨g, hg, j, hj, rfl⟩, hq⟩
      exact ⟨g, (hfath y g).2 ⟨hg, (hname y g hg j hj).1 hq⟩, j,
        (hids g j).2 ⟨hj, hkeep y g hg j hj⟩, rfl⟩
    · rintro ⟨g, hg, j, hj, rfl⟩
      obtain ⟨hg, hp⟩ := (hfath y g).1 hg
      have hjg := ((hids g j).1 hj).1
      exact ⟨⟨g, hg, j, hjg, rfl⟩, (hname y g hg j hjg).2 hp⟩
  · intro y g hg
    obtain ⟨hg, -⟩ := (hfath y g).1 hg
    obtain ⟨j, hj⟩ := h.live_fathers y g hg
    exact ⟨j, (hids g j).2 ⟨hj, hkeep y g hg j hj⟩⟩
  · intro y z k hy hz
    exact h.disjoint y z k ((hids y k).1 hy).1 ((hids z k).1 hz).1

section
variable (h : Named G label) (hleaf : ∀ y, x ∉ G.fathers y) (hroot : ∀ y, y ∈ G'.root ↔ y ∈ G.root)
include h hleaf hroot

theorem drop (hfath : ∀ y g, g ∈ G'.fathers y ↔ g ∈ G.fathers y ∧ y ≠ x)
    (hids : ∀ y k, k ∈ G'.ids y ↔ k ∈ G.ids y ∧ y ≠ x) : Named G' label := by
  refine h.cut hroot hfath hids ?_ fun _ _ _ _ _ => Iff.rfl
  rintro y g hg - - rfl
  exact hleaf y hg

theorem dropBranch (hfath : ∀ y g, g ∈ G'.fathers y ↔ g ∈ G.fathers y ∧ ¬ (y = x ∧ g = f))
    (hids : ∀ y k, k ∈ G'.ids y ↔ k ∈ G.ids y ∧ ¬ (y = x ∧ ∃ j ∈ G.ids f, k = j ++ [label x])) :
    Named G' label := by
  refine h.cut hroot hfath hids ?_ ?_
  · rintro y g hg - - ⟨rfl, -⟩
    exact hleaf y hg
  · intro y g _ j hj
    rw [not_iff_not]
    refine and_congr_right ?_
    rintro rfl
    constructor
    · rintro ⟨i, hi, he⟩
      obtain ⟨rfl, -⟩ := List.append_singleton_inj.1 he
      exact h.disjoint g f _ hj hi
    · rintro rfl
      exact ⟨j, hj, rfl⟩

end

end Named

/-! ### Acyclicity -/

def Ranked (fathers : ν → Set ν) : Prop :=
  ∃ rank : ν → ℕ, ∀ x, ∀ f ∈ fathers x, rank x < rank f

/-- `Below fathers x y`: the node `y` is `x` or a descendant of `x`. -/
def Below (fathers : ν → Set ν) : ν → ν → Prop :=
  Relation.ReflTransGen fun f y => f ∈ fathers y

variable {fathers fathers' : ν → Set ν}

theorem Ranked.mono (h : Ranked fathers) (hsub : ∀ x f, f ∈ fathers' x → f ∈ fathers x) :
    Ranked fathers' := by
  obtain ⟨rank, hrank⟩ := h
  exact ⟨rank, fun x f hf => hrank x f (hsub x f hf)⟩

theorem Ranked.addLeaf [DecidableEq ν] (h : Ranked fathers) {x f : ν} (hnf : ∀ y, x ∉ fathers y)
    (hfx : f ≠ x) (hfath : ∀ y g, g ∈ fathers' y → g ∈ fathers y ∨ (y = x ∧ g = f)) :
    Ranked fathers' := by
  obtain ⟨rank, hrank⟩ := h
  refine ⟨fun y => if y = x then 0 else rank y + 1, ?_⟩
  intro y g hg
  have hgx : g ≠ x := by
    rcases hfath y g hg with hg | ⟨-, rfl⟩
    · exact fun he => hnf y (he ▸ hg)
    · exact hfx
  by_cases hyx : y = x
  · simp [hyx, hgx]
  · have hgy := (hfath y g hg).resolve_right fun hc => hyx hc.1
    simp only [hyx, hgx]
    exact Nat.add_lt_add_right (hrank y g hgy) 1

theorem Ranked.link (h : Ranked fathers) {x f : ν} (hbel : ¬ Below fathers x f)
    (hfath : ∀ y g, g ∈ fathers' y → g ∈ fathers y ∨ (y = x ∧ g = f)) : Ranked fathers' := by
  classical
  obtain ⟨rank, hrank⟩ := h
  -- everything that is not below `x` is lifted over the rank of `x`
  refine ⟨fun y => if Below fathers x y then rank y else rank y + rank x + 1, ?_⟩
  intro y g hg
  rcases hfath y g hg with hg | ⟨rfl, rfl⟩
  · have hlt := hrank y g hg
    by_cases hgb : Below fathers x g
    · have hyb : Below fathers x y := Relation.ReflTransGen.tail hgb hg
      simp only [hgb, hyb]
      exact hlt
    · by_cases hyb : Below fathers x y <;> simp only [hgb, hyb, if_true, if_false] <;> omega
  · have hyb : Below fathers y y := Relation.ReflTransGen.refl
    simp only [hyb, hbel, if_true, if_false]
    omega

end NameGraph
