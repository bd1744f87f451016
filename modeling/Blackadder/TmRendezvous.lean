/-
**The rendezvous function: what an unreachable subscriber overwrites.**

The variables for the nearest publisher and its path are not cleared from one subscriber to the
next. For a subscriber that no publisher reaches, the path in them replaces what their publisher
has so far; without an earlier subscriber, the publisher is the empty string, which is in no table.
-/

import Blackadder.TmPaths

namespace Blackadder.TMIgraph

open Table Except Option List

variable {tm : TMIgraph} {ig : Igraph} {pubs : List NodeID} {s : NodeID}

/-! ### The loop over the publishers -/

/-- What the inner loop selects for one subscriber, when nothing was selected before. -/
def choice (tm : TMIgraph) (ig : Igraph) (publishers : List NodeID) (s : NodeID) :
    Option (NodeID × FID) :=
  match tm.bestPublisher ig s publishers ⊤ ⟨none, Bits.zeros fidLen, []⟩ with
  | .ok (_, ⟨some p, fid, _⟩) => some (p, fid)
  | _ => none

def chosen (tm : TMIgraph) (ig : Igraph) (publishers : List NodeID) (s : NodeID) : Option NodeID :=
  (tm.choice ig publishers s).map Prod.fst

def NoneNearer (tm : TMIgraph) (publishers : List NodeID) (s : NodeID) (n : ℕ) : Prop :=
  ∀ p ∈ publishers, ∀ l, Routes.Walk tm.edges p s l → n ≤ l.length

section
variable {p : NodeID} {rest : List NodeID} {m : WithTop ℕ} {x : PathFID}
  (hx : tm.calculateFIDHops ig p s (Bits.zeros fidLen) = .ok x)
include p rest m x hx

theorem bestPublisher_cons_of_lt (hlt : x.hops < m) (best : Best) :
    tm.bestPublisher ig s (p :: rest) m best = tm.bestPublisher ig s rest x.hops
      ⟨some p, x.fid, if tm.rs then x.path else best.path⟩ := by
  rw [bestPublisher, hx, ok_bind, if_pos hlt]

theorem bestPublisher_cons_of_not_lt (hlt : ¬ x.hops < m) (best : Best) :
    tm.bestPublisher ig s (p :: rest) m best = tm.bestPublisher ig s rest m best := by
  rw [bestPublisher, hx, ok_bind, if_neg hlt]

end

/-- **The loop over the publishers**: the variables stay, or become those of a publisher that is
nearer than the minimum, and nearest. -/
theorem bestPublisher_cases (ig : Igraph) (hidx : tm.Indexed) (hs : s ∈ tm.nodes)
    (hpubs : ∀ p ∈ pubs, p ∈ tm.nodes) (m : WithTop ℕ) :
    ((∀ p ∈ pubs, ∀ l, Routes.Walk tm.edges p s l → m ≤ WithTop.some (l.length + 1)) ∧
      ∀ best, tm.bestPublisher ig s pubs m best = .ok (m, best)) ∨
    ∃ p ∈ pubs, ∃ l, tm.PathLinks ig p s l ∧ WithTop.some (l.length + 1) < m ∧
      tm.NoneNearer pubs s l.length ∧
      ∀ best, ∃ path, tm.bestPublisher ig s pubs m best =
        .ok (WithTop.some (l.length + 1), ⟨some p, tm.pathFID s l, path⟩) := by
  induction pubs generalizing m with
  | nil => exact .inl ⟨by simp, fun best => rfl⟩
  | cons p rest ih =>
    have hrest : ∀ q ∈ rest, q ∈ tm.nodes := fun q hq => hpubs q (mem_cons_of_mem p hq)
    obtain ⟨x, hx, hfar, hpath⟩ := calculateFIDHops_spec ig hidx (hpubs p mem_cons_self) hs
    by_cases hlt : x.hops < m
    · rcases hpath with htop | ⟨l, hl, rfl⟩
      · exact absurd (htop ▸ hlt) not_top_lt
      right
      rcases ih hrest (WithTop.some (l.length + 1)) with ⟨hle, hkeep⟩ |
          ⟨q, hq, l', hl', hlt', hmin, hbest⟩
      · refine ⟨p, mem_cons_self, l, hl, hlt, ?_, ?_⟩
        · refine forall_mem_cons.2 ⟨hl.shortest.le, ?_⟩
          intro q hq l₁ hl₁
          exact Nat.le_of_succ_le_succ (WithTop.coe_le_coe.1 (hle q hq l₁ hl₁))
        · intro best
          exact ⟨_, (bestPublisher_cons_of_lt hx hlt best).trans (hkeep _)⟩
      · refine ⟨q, mem_cons_of_mem p hq, l', hl', hlt'.trans hlt, ?_, ?_⟩
        · refine forall_mem_cons.2 ⟨?_, hmin⟩
          intro l₁ hl₁
          have hnear := WithTop.coe_lt_coe.1 (hlt'.trans_le (hfar l₁ hl₁))
          omega
        · intro best
          obtain ⟨path, hpath⟩ := hbest ⟨some p, tm.pathFID s l, _⟩
          exact ⟨path, (bestPublisher_cons_of_lt hx hlt best).trans hpath⟩
    · rcases ih hrest m with ⟨hle, hkeep⟩ | ⟨q, hq, l', hl', hlt', hmin, hbest⟩
      · left
        refine ⟨forall_mem_cons.2 ⟨?_, hle⟩, ?_⟩
        · intro l hl
          exact (not_lt.1 hlt).trans (hfar l hl)
        · intro best
          exact (bestPublisher_cons_of_not_lt hx hlt best).trans (hkeep best)
      · right
        refine ⟨q, mem_cons_of_mem p hq, l', hl', hlt', ?_, ?_⟩
        · refine forall_mem_cons.2 ⟨?_, hmin⟩
          intro l hl
          have hnear := WithTop.coe_lt_coe.1 (hlt'.trans_le ((not_lt.1 hlt).trans (hfar l hl)))
          omega
        · intro best
          obtain ⟨path, hpath⟩ := hbest best
          exact ⟨path, (bestPublisher_cons_of_not_lt hx hlt best).trans hpath⟩

/-- **What is selected for one subscriber**: a nearest publisher with a shortest path, if one
reaches it. -/
theorem choice_cases (ig : Igraph) (hidx : tm.Indexed) (hs : s ∈ tm.nodes)
    (hpubs : ∀ p ∈ pubs, p ∈ tm.nodes) :
    (tm.choice ig pubs s = none ∧ (∀ p ∈ pubs, ¬ Routes.Reach tm.edges p s) ∧
      ∀ best, tm.bestPublisher ig s pubs ⊤ best = .ok (⊤, best)) ∨
    ∃ p ∈ pubs, ∃ l, tm.PathLinks ig p s l ∧ tm.NoneNearer pubs s l.length ∧
      tm.choice ig pubs s = some (p, tm.pathFID s l) ∧
      ∀ best, ∃ path, tm.bestPublisher ig s pubs ⊤ best =
        .ok (WithTop.some (l.length + 1), ⟨some p, tm.pathFID s l, path⟩) := by
  rcases bestPublisher_cases ig hidx hs hpubs ⊤ with ⟨hle, hkeep⟩ | ⟨p, hp, l, hl, -, hmin, hbest⟩
  · refine .inl ⟨by rw [choice, hkeep], ?_, hkeep⟩
    rintro p hp ⟨l, hl⟩
    exact WithTop.coe_ne_top (top_le_iff.1 (hle p hp l hl))
  · refine .inr ⟨p, hp, l, hl, hmin, ?_, hbest⟩
    obtain ⟨path, hpath⟩ := hbest ⟨none, Bits.zeros fidLen, []⟩
    rw [choice, hpath]

/-! ### What is overwritten -/

/-- The path of `s` is lost: a later subscriber has the same publisher, and the next is not reached.
-/
def Overwritten (chosen : NodeID → Option NodeID) (subscribers : List NodeID) (s : NodeID) : Prop :=
  ∃ before between last u after, subscribers = before ++ s :: (between ++ last :: u :: after) ∧
    chosen last = chosen s ∧ chosen u = none

section
variable {chosen : NodeID → Option NodeID} {visited before after : List NodeID} {c x : NodeID}

theorem Overwritten.mem (h : Overwritten chosen visited x) : x ∈ visited := by
  obtain ⟨before, between, last, u, after, rfl, -, -⟩ := h
  simp

theorem overwritten_concat : Overwritten chosen (visited ++ [c]) x ↔
    Overwritten chosen visited x ∨ chosen c = none ∧ ∃ before between last,
      visited = before ++ x :: (between ++ [last]) ∧ chosen last = chosen x := by
  constructor
  · rintro ⟨before, between, last, u, after, hsplit, hlast, hu⟩
    rcases eq_nil_or_concat' after with rfl | ⟨after, y, rfl⟩
    · have happ : before ++ x :: (between ++ last :: [u]) =
          (before ++ x :: (between ++ [last])) ++ [u] := by simp
      obtain ⟨hv, huc⟩ := append_inj' (hsplit.trans happ) rfl
      rw [singleton_inj] at huc
      exact .inr ⟨huc ▸ hu, before, between, last, hv, hlast⟩
    · have happ : before ++ x :: (between ++ last :: u :: (after ++ [y])) =
          (before ++ x :: (between ++ last :: u :: after)) ++ [y] := by simp
      obtain ⟨hv, -⟩ := append_inj' (hsplit.trans happ) rfl
      exact .inl ⟨before, between, last, u, after, hv, hlast, hu⟩
  · rintro (⟨before, between, last, u, after, rfl, hlast, hu⟩ |
      ⟨hc, before, between, last, rfl, hlast⟩)
    · exact ⟨before, between, last, u, after ++ [c], by simp, hlast, hu⟩
    · exact ⟨before, between, last, c, [], by simp, hlast, hc⟩

theorem not_overwritten_of_last (hnd : (before ++ x :: after).Nodup)
    (hafter : ∀ y ∈ after, chosen y ≠ chosen x) :
    ¬ Overwritten chosen (before ++ x :: after) x := by
  rintro ⟨before', between, last, u, rest, hsplit, hlast, -⟩
  have hx : x ∉ before ∧ x ∉ after := by
    rw [nodup_append, nodup_cons] at hnd
    exact ⟨fun hmem => hnd.2.2 x hmem x mem_cons_self rfl, hnd.2.1.1⟩
  obtain ⟨-, -, rfl⟩ := (append_cons_inj_of_notMem hx.1 hx.2).1 hsplit
  exact hafter last (by simp) hlast

theorem overwritten_of_mem (hx : x ∈ before) (hc : chosen c = chosen x) {rest : List NodeID}
    (hne : rest ≠ []) (hrest : ∀ y ∈ rest, chosen y = none) :
    Overwritten chosen (before ++ c :: rest) x := by
  obtain ⟨b₁, b₂, rfl⟩ := append_of_mem hx
  obtain ⟨u, rest, rfl⟩ := exists_cons_of_ne_nil hne
  exact ⟨b₁, b₂, c, u, rest, by simp, hc, hrest u mem_cons_self⟩

end

/-! ### The loop over the subscribers -/

structure Kept (tm : TMIgraph) (ig : Igraph) (publishers : List NodeID) (p : NodeID)
    (subscribers : List NodeID) (s : NodeID) (f : FID) : Prop where
  mem : s ∈ subscribers
  choice : tm.choice ig publishers s = some (p, f)
  kept : ¬ Overwritten (tm.chosen ig publishers) subscribers s

/-- The union of a collection of forwarding identifiers; `NULL` when there is none. -/
def Collects (K : NodeID → FID → Prop) : Option FID → Prop
  | none => ∀ s f, ¬ K s f
  | some fid => (∃ s f, K s f) ∧
    ∀ i, Bits.bit fid i = true ↔ ∃ s f, K s f ∧ Bits.bit f i = true

theorem Collects.congr {K K' : NodeID → FID → Prop} {o : Option FID} (h : Collects K o)
    (hK : ∀ s f, K' s f ↔ K s f) : Collects K' o := by
  obtain rfl : K' = K := funext fun s => funext fun f => propext (hK s f)
  exact h

theorem Collects.insert {K : NodeID → FID → Prop} {o : Option FID} (h : Collects K o) (c : NodeID)
    (f : FID) : Collects (fun s g => K s g ∨ s = c ∧ g = f) (some (o.elim f (Bits.or · f))) := by
  refine ⟨⟨c, f, .inr ⟨rfl, rfl⟩⟩, ?_⟩
  intro i
  cases o with
  | none =>
    constructor
    · intro hi
      exact ⟨c, f, .inr ⟨rfl, rfl⟩, hi⟩
    · rintro ⟨s, g, hK | ⟨-, rfl⟩, hi⟩
      · exact absurd hK (h s g)
      · exact hi
  | some e =>
    rw [elim_some, Bits.bit_or, Bool.or_eq_true, h.2 i]
    constructor
    · rintro (⟨s, g, hK, hi⟩ | hi)
      · exact ⟨s, g, .inl hK, hi⟩
      · exact ⟨c, f, .inr ⟨rfl, rfl⟩, hi⟩
    · rintro ⟨s, g, hK | ⟨-, rfl⟩, hi⟩
      · exact .inl ⟨s, g, hK, hi⟩
      · exact .inr hi

theorem collects_single (c : NodeID) (f : FID) : Collects (fun s g => s = c ∧ g = f) (some f) := by
  refine ⟨⟨c, f, rfl, rfl⟩, ?_⟩
  intro i
  constructor
  · intro hi
    exact ⟨c, f, ⟨rfl, rfl⟩, hi⟩
  · rintro ⟨s, g, ⟨-, rfl⟩, hi⟩
    exact hi

/-- Each publisher has the union of what was not overwritten, and the variables belong to the last
subscriber that is reached. -/
structure ServedSoFar (tm : TMIgraph) (ig : Igraph) (publishers : List NodeID)
    (visited : List NodeID) (st : Rendezvous) : Prop where
  keys : ∀ p, p ∈ st.result ↔ p ∈ publishers
  entry : ∀ p ∈ publishers, ∃ o, st.result.get p = some o ∧
    Collects (tm.Kept ig publishers p visited) o
  best : visited = [] ∧ st.best.publisher = none ∨
    ∃ p ∈ publishers, ∃ before s after, visited = before ++ s :: after ∧
      st.best.publisher = some p ∧ tm.choice ig publishers s = some (p, st.best.fid) ∧
      ∀ x ∈ after, tm.choice ig publishers x = none

variable {visited : List NodeID} {st : Rendezvous} {c p q : NodeID} {f g : FID}

theorem chosen_eq_none (h : tm.choice ig pubs c = none) : tm.chosen ig pubs c = none := by
  rw [chosen, h, map_none]

theorem chosen_eq_some (h : tm.choice ig pubs c = some (q, f)) : tm.chosen ig pubs c = some q := by
  rw [chosen, h, map_some]

theorem kept_concat_of_some (hc : tm.choice ig pubs c = some (q, f)) (hnew : c ∉ visited) :
    tm.Kept ig pubs p (visited ++ [c]) s g ↔
      tm.Kept ig pubs p visited s g ∨ s = c ∧ p = q ∧ g = f := by
  have hover : ∀ x, Overwritten (tm.chosen ig pubs) (visited ++ [c]) x ↔
      Overwritten (tm.chosen ig pubs) visited x := by
    simp [overwritten_concat, chosen_eq_some hc]
  constructor
  · rintro ⟨hmem, hcho, hkept⟩
    rw [hover] at hkept
    rcases mem_append.1 hmem with hmem | hmem
    · exact .inl ⟨hmem, hcho, hkept⟩
    · obtain rfl := mem_singleton.1 hmem
      rw [hc, some_inj, Prod.mk.injEq] at hcho
      exact .inr ⟨rfl, hcho.1.symm, hcho.2.symm⟩
  · rintro (⟨hmem, hcho, hkept⟩ | ⟨rfl, rfl, rfl⟩)
    · exact ⟨mem_append_left _ hmem, hcho, fun h => hkept ((hover s).1 h)⟩
    · refine ⟨by simp, hc, ?_⟩
      rw [hover]
      exact fun h => hnew h.mem

theorem kept_concat_of_none {before after : List NodeID} {x : NodeID}
    (hnd : (before ++ x :: after ++ [c]).Nodup) (hc : tm.choice ig pubs c = none)
    (hx : tm.choice ig pubs x = some (q, f)) (hafter : ∀ y ∈ after, tm.choice ig pubs y = none) :
    tm.Kept ig pubs p (before ++ x :: after ++ [c]) s g ↔
      if p = q then s = x ∧ g = f else tm.Kept ig pubs p (before ++ x :: after) s g := by
  have happ : before ++ x :: after ++ [c] = before ++ x :: (after ++ [c]) := by simp
  have hrest : ∀ y ∈ after ++ [c], tm.choice ig pubs y = none := by
    intro y hy
    rcases mem_append.1 hy with hy | hy
    · exact hafter y hy
    · rwa [mem_singleton.1 hy]
  by_cases hpq : p = q
  · subst hpq
    rw [if_pos rfl, happ]
    constructor
    · rintro ⟨hmem, hcho, hkept⟩
      rcases mem_append.1 hmem with hs | hs
      · refine absurd (overwritten_of_mem hs ?_ (by simp) fun y hy => chosen_eq_none (hrest y hy))
          hkept
        rw [chosen_eq_some hx, chosen_eq_some hcho]
      · rcases mem_cons.1 hs with rfl | hs
        · rw [hx, some_inj, Prod.mk.injEq] at hcho
          exact ⟨rfl, hcho.2.symm⟩
        · rw [hrest s hs] at hcho
          cases hcho
    · rintro ⟨rfl, rfl⟩
      refine ⟨by simp, hx, not_overwritten_of_last (happ ▸ hnd) ?_⟩
      intro y hy
      rw [chosen_eq_none (hrest y hy), chosen_eq_some hx]
      simp
  · rw [if_neg hpq]
    constructor
    · rintro ⟨hmem, hcho, hkept⟩
      refine ⟨?_, hcho, fun hover => hkept (overwritten_concat.2 (.inl hover))⟩
      rcases mem_append.1 hmem with hs | hs
      · exact hs
      · rw [mem_singleton.1 hs, hc] at hcho
        cases hcho
    · rintro ⟨hmem, hcho, hkept⟩
      refine ⟨mem_append_left _ hmem, hcho, ?_⟩
      rw [overwritten_concat]
      rintro (hover | ⟨-, b, m, last, hsplit, hlast⟩)
      · exact hkept hover
      -- the last subscriber so far is `x`, or one that nobody reaches
      have hlast? : (before ++ x :: after).getLast? = some last := by
        rw [hsplit, show b ++ s :: (m ++ [last]) = (b ++ s :: m) ++ [last] by simp, getLast?_concat]
      rw [getLast?_append_of_ne_nil _ (by simp)] at hlast?
      rw [chosen_eq_some hcho] at hlast
      rcases mem_cons.1 (mem_of_getLast? hlast?) with rfl | hmem'
      · rw [chosen_eq_some hx, some_inj] at hlast
        exact hpq hlast.symm
      · rw [chosen_eq_none (hafter last hmem')] at hlast
        cases hlast

theorem rendezvousStep_of_some {n : ℕ} {path : List UInt8} {o : Option FID}
    (hbest : tm.bestPublisher ig c pubs ⊤ st.best = .ok (WithTop.some n, ⟨some q, f, path⟩))
    (hget : st.result.get q = some o) :
    ∃ st', tm.rendezvousStep ig pubs st c = .ok st' ∧
      st'.best.publisher = some q ∧ st'.best.fid = f ∧
      st'.result = st.result.set q (some (o.elim f (Bits.or · f))) := by
  rw [rendezvousStep, hbest]
  simp only [ok_bind, hget]
  cases o with
  | none => exact ⟨_, rfl, rfl, rfl, rfl⟩
  | some e => exact ⟨_, if_neg WithTop.coe_ne_top, rfl, rfl, rfl⟩

theorem rendezvousStep_of_none {o : Option FID}
    (hbest : tm.bestPublisher ig c pubs ⊤ st.best = .ok (⊤, st.best))
    (hq : st.best.publisher = some q) (hget : st.result.get q = some o) :
    ∃ st', tm.rendezvousStep ig pubs st c = .ok st' ∧ st'.best = st.best ∧
      st'.result = st.result.set q (some st.best.fid) := by
  rw [rendezvousStep, hbest]
  simp only [ok_bind, hq, hget]
  cases o with
  | none => exact ⟨_, rfl, rfl, rfl⟩
  | some e => exact ⟨_, if_pos trivial, rfl, rfl⟩

theorem ServedSoFar.keys_set {v : Option FID} (h : tm.ServedSoFar ig pubs visited st)
    (hq : q ∈ pubs) (p : NodeID) : p ∈ st.result.set q v ↔ p ∈ pubs := by
  rw [Table.mem_set, h.keys p]
  exact or_iff_right_of_imp fun hpq => hpq ▸ hq

theorem ServedSoFar.step_of_some {n : ℕ} {path : List UInt8} (h : tm.ServedSoFar ig pubs visited st)
    (hnew : c ∉ visited) (hq : q ∈ pubs) (hc : tm.choice ig pubs c = some (q, f))
    (hbest : tm.bestPublisher ig c pubs ⊤ st.best = .ok (WithTop.some n, ⟨some q, f, path⟩)) :
    ∃ st', tm.rendezvousStep ig pubs st c = .ok st' ∧
      tm.ServedSoFar ig pubs (visited ++ [c]) st' := by
  obtain ⟨o, hget, ho⟩ := h.entry q hq
  obtain ⟨st', hstep, hpub, hfid, hres⟩ := rendezvousStep_of_some hbest hget
  refine ⟨st', hstep, ?_, ?_, .inr ⟨q, hq, visited, c, [], rfl, hpub, hfid ▸ hc, by simp⟩⟩
  · rw [hres]
    exact h.keys_set hq
  · intro p hp
    rw [hres, get_set]
    by_cases hpq : p = q
    · subst hpq
      refine ⟨_, if_pos rfl, (ho.insert c f).congr ?_⟩
      intro s g
      rw [kept_concat_of_some hc hnew]
      simp
    · obtain ⟨o', hget', ho'⟩ := h.entry p hp
      refine ⟨o', by rw [if_neg hpq, hget'], ho'.congr ?_⟩
      intro s g
      rw [kept_concat_of_some hc hnew]
      simp [hpq]

theorem ServedSoFar.step_of_none (h : tm.ServedSoFar ig pubs visited st)
    (hnd : (visited ++ [c]).Nodup) (hne : visited ≠ []) (hc : tm.choice ig pubs c = none)
    (hbest : tm.bestPublisher ig c pubs ⊤ st.best = .ok (⊤, st.best)) :
    ∃ st', tm.rendezvousStep ig pubs st c = .ok st' ∧
      tm.ServedSoFar ig pubs (visited ++ [c]) st' := by
  rcases h.best with ⟨hnil, -⟩ | ⟨q, hq, before, x, after, rfl, hpub, hx, hafter⟩
  · exact absurd hnil hne
  obtain ⟨o, hget, -⟩ := h.entry q hq
  obtain ⟨st', hstep, hbest', hres⟩ := rendezvousStep_of_none hbest hpub hget
  refine ⟨st', hstep, ?_, ?_, .inr ⟨q, hq, before, x, after ++ [c], by simp, ?_, ?_, ?_⟩⟩
  · rw [hres]
    exact h.keys_set hq
  · intro p hp
    rw [hres, get_set]
    by_cases hpq : p = q
    · refine ⟨_, if_pos hpq, (collects_single x st.best.fid).congr ?_⟩
      intro s g
      rw [kept_concat_of_none hnd hc hx hafter, if_pos hpq]
    · obtain ⟨o', hget', ho'⟩ := h.entry p hp
      refine ⟨o', by rw [if_neg hpq, hget'], ho'.congr ?_⟩
      intro s g
      rw [kept_concat_of_none hnd hc hx hafter, if_neg hpq]
  · rw [hbest', hpub]
  · rw [hbest', hx]
  · intro y hy
    rcases mem_append.1 hy with hy | hy
    · exact hafter y hy
    · rwa [mem_singleton.1 hy]

theorem ServedSoFar.foldlM (h : tm.ServedSoFar ig pubs visited st) (hidx : tm.Indexed)
    (hpubs : ∀ p ∈ pubs, p ∈ tm.nodes) {subs : List NodeID}
    (hsubs : ∀ s ∈ subs, s ∈ tm.nodes) (hnd : (visited ++ subs).Nodup)
    (hfirst : ∀ s, (visited ++ subs).head? = some s → ∃ p ∈ pubs, Routes.Reach tm.edges p s) :
    ∃ st', subs.foldlM (tm.rendezvousStep ig pubs) st = .ok st' ∧
      tm.ServedSoFar ig pubs (visited ++ subs) st' := by
  induction subs generalizing visited st with
  | nil => exact ⟨st, rfl, by simpa using h⟩
  | cons c rest ih =>
    have happ : visited ++ c :: rest = visited ++ [c] ++ rest := by simp
    rw [happ] at hnd hfirst ⊢
    have hnd' : (visited ++ [c]).Nodup := hnd.of_append_left
    have hstep : ∃ st₁, tm.rendezvousStep ig pubs st c = .ok st₁ ∧
        tm.ServedSoFar ig pubs (visited ++ [c]) st₁ := by
      rcases choice_cases ig hidx (hsubs c mem_cons_self) hpubs with
          ⟨hc, hnot, hbest⟩ | ⟨q, hq, l, -, -, hc, hbest⟩
      · refine h.step_of_none hnd' ?_ hc (hbest _)
        rintro rfl
        obtain ⟨p, hp, hreach⟩ := hfirst c rfl
        exact hnot p hp hreach
      · obtain ⟨path, hpath⟩ := hbest st.best
        refine h.step_of_some ?_ hq hc hpath
        rw [nodup_append] at hnd'
        exact fun hmem => hnd'.2.2 c hmem c (mem_singleton_self c) rfl
    obtain ⟨st₁, hstep, h₁⟩ := hstep
    obtain ⟨st₂, hrest, h₂⟩ := ih h₁ (fun s hs => hsubs s (mem_cons_of_mem c hs)) hnd hfirst
    refine ⟨st₂, ?_, h₂⟩
    rw [foldlM_cons, hstep, ok_bind, hrest]

theorem servedSoFar_nil (tm : TMIgraph) (ig : Igraph) (pubs : List NodeID)
    (pathVectors : Table NodeID (ListSet (List UInt8))) :
    tm.ServedSoFar ig pubs [] ⟨pubs.foldl (fun t p => t.findInsert p none) ∅, pathVectors,
        ⟨none, Bits.zeros fidLen, []⟩⟩ := by
  refine ⟨?_, ?_, .inl ⟨rfl, rfl⟩⟩
  · intro p
    rw [mem_foldl_findInsert]
    simp
  · intro p hp
    refine ⟨none, ?_, fun s f hK => absurd hK.mem not_mem_nil⟩
    rw [get_foldl_findInsert, if_pos ⟨hp, not_mem_empty p⟩]

/-! ### Every subscriber is served -/

/-- An entry for each publisher; a nearest one for each subscriber that is reached, with a path; and
`NULL` for a publisher of no subscriber. -/
structure Serves (tm : TMIgraph) (ig : Igraph) (publishers subscribers : ListSet NodeID)
    (result : Table NodeID (Option FID)) : Prop where
  keys : ∀ p, p ∈ result ↔ p ∈ publishers
  reached : ∀ s ∈ subscribers, (∃ p ∈ publishers, Routes.Reach tm.edges p s) →
    ∃ p ∈ publishers, ∃ l, Routes.Walk tm.edges p s l ∧ tm.NoneNearer publishers.toList s l.length ∧
      ∃ fid, result.get p = some (some fid) ∧
        (∀ a ∈ l, Bits.Contains fid a.label) ∧ Bits.Contains fid (tm.iLID s)
  unchosen : ∀ p ∈ publishers,
    (∀ s ∈ subscribers, tm.chosen ig publishers.toList s ≠ some p) → result.get p = some none

/-- Some nearest publisher kept all bits of a shortest path to `s`. -/
def Covered (tm : TMIgraph) (ig : Igraph) (publishers subscribers : ListSet NodeID) (s : NodeID) :
    Prop :=
  ∃ p ∈ publishers, ∃ l, Routes.Walk tm.edges p s l ∧ tm.NoneNearer publishers.toList s l.length ∧
    (∃ s' f, tm.Kept ig publishers.toList p subscribers.toList s' f) ∧
    ∀ i, Bits.bit (tm.pathFID s l) i = true →
      ∃ s' f, tm.Kept ig publishers.toList p subscribers.toList s' f ∧ Bits.bit f i = true

/-- **When every subscriber is served**: the first is reached, and each that is overwritten is
covered. -/
structure NothingLost (tm : TMIgraph) (ig : Igraph) (publishers subscribers : ListSet NodeID) :
    Prop where
  first : ∀ s, subscribers.toList.head? = some s → ∃ p ∈ publishers, Routes.Reach tm.edges p s
  covered : ∀ s, Overwritten (tm.chosen ig publishers.toList) subscribers.toList s →
    (∃ p ∈ publishers, Routes.Reach tm.edges p s) → tm.Covered ig publishers subscribers s

theorem foldlM_of_first_unreached (hidx : tm.Indexed) (hpubs : ∀ p ∈ pubs, p ∈ tm.nodes)
    {rest : List NodeID} (hc : c ∈ tm.nodes) (hnot : ∀ p ∈ pubs, ¬ Routes.Reach tm.edges p c)
    (hst : st.best.publisher = none) :
    (c :: rest).foldlM (tm.rendezvousStep ig pubs) st = .error .nullPointer := by
  rcases choice_cases ig hidx hc hpubs with ⟨-, -, hbest⟩ | ⟨q, hq, l, hl, -, -, -⟩
  · have hstep : tm.rendezvousStep ig pubs st c = .error .nullPointer := by
      rw [rendezvousStep, hbest]
      simp [hst]
    rw [foldlM_cons, hstep]
    rfl
  · exact absurd ⟨l, hl.shortest.walk⟩ (hnot q hq)

theorem ServedSoFar.serves {pubs subs : ListSet NodeID} (hidx : tm.Indexed)
    (hpubs : ∀ p ∈ pubs, p ∈ tm.nodes) (hsubs : ∀ s ∈ subs, s ∈ tm.nodes)
    (h : tm.ServedSoFar ig pubs.toList subs.toList st) (hlost : tm.NothingLost ig pubs subs) :
    tm.Serves ig pubs subs st.result := by
  refine ⟨h.keys, ?_, ?_⟩
  · intro s hs hreach
    have hcov : tm.Covered ig pubs subs s := by
      by_cases hover : Overwritten (tm.chosen ig pubs.toList) subs.toList s
      · exact hlost.covered s hover hreach
      rcases choice_cases ig hidx (hsubs s hs) hpubs with ⟨-, hnot, -⟩ | ⟨p, hp, l, hl, hmin, hc, -⟩
      · obtain ⟨p, hp, hwalk⟩ := hreach
        exact absurd hwalk (hnot p hp)
      · have hkept : tm.Kept ig pubs.toList p subs.toList s (tm.pathFID s l) := ⟨hs, hc, hover⟩
        exact ⟨p, hp, l, hl.shortest.walk, hmin, ⟨s, _, hkept⟩, fun i hi => ⟨s, _, hkept, hi⟩⟩
    obtain ⟨p, hp, l, hl, hmin, ⟨s', f, hkept⟩, hall⟩ := hcov
    obtain ⟨o, hget, ho⟩ := h.entry p hp
    cases o with
    | none => exact absurd hkept (ho s' f)
    | some fid =>
      refine ⟨p, hp, l, hl, hmin, fid, hget, contains_pathFID_iff.1 (Bits.contains_iff.2 ?_)⟩
      intro i hi
      exact (ho.2 i).2 (hall i hi)
  · intro p hp hnone
    obtain ⟨o, hget, ho⟩ := h.entry p hp
    cases o with
    | none => exact hget
    | some fid =>
      obtain ⟨s, f, hkept⟩ := ho.1
      exact absurd (chosen_eq_some hkept.choice) (hnone s hkept.mem)

theorem Serves.covered {pubs subs : ListSet NodeID} (hs : tm.Serves ig pubs subs st.result)
    (h : tm.ServedSoFar ig pubs.toList subs.toList st) (hmem : s ∈ subs)
    (hreach : ∃ p ∈ pubs, Routes.Reach tm.edges p s) : tm.Covered ig pubs subs s := by
  obtain ⟨p, hp, l, hl, hmin, fid, hget, hcon⟩ := hs.reached s hmem hreach
  obtain ⟨o, hget', ho⟩ := h.entry p hp
  rw [hget, some_inj] at hget'
  subst hget'
  refine ⟨p, hp, l, hl, hmin, ho.1, ?_⟩
  intro i hi
  exact (ho.2 i).1 (Bits.contains_iff.1 (contains_pathFID_iff.2 hcon) i hi)

/-- **Every subscriber is served exactly when nothing is lost.** -/
theorem calculateFIDs_serves_iff (tm : TMIgraph) (ig : Igraph) (hidx : tm.Indexed)
    (publishers subscribers : ListSet NodeID) (hpubs : ∀ p ∈ publishers, p ∈ tm.nodes)
    (hsubs : ∀ s ∈ subscribers, s ∈ tm.nodes) :
    (∃ r, tm.calculateFIDs ig publishers subscribers = .ok r ∧
      tm.Serves ig publishers subscribers r.result) ↔ tm.NothingLost ig publishers subscribers := by
  have hinit := tm.servedSoFar_nil ig publishers.toList
    (publishers.toList.foldl (fun t p => t.findInsert p ∅) ∅)
  constructor
  · rintro ⟨r, hrun, hser⟩
    have hfirst : ∀ s, subscribers.toList.head? = some s → ∃ p ∈ publishers,
        Routes.Reach tm.edges p s := by
      intro s hs
      by_contra hnot
      push Not at hnot
      obtain ⟨rest, hrest⟩ := head?_eq_some_iff.1 hs
      have hmem : s ∈ subscribers := mem_of_head? hs
      rw [calculateFIDs, hrest,
        foldlM_of_first_unreached hidx hpubs (hsubs s hmem) hnot rfl] at hrun
      cases hrun
    obtain ⟨st, hloop, hst⟩ := hinit.foldlM hidx hpubs hsubs subscribers.nodup hfirst
    obtain rfl := ok.inj (hrun.symm.trans hloop)
    exact ⟨hfirst, fun s hlost hreach => hser.covered hst hlost.mem hreach⟩
  · intro hlost
    obtain ⟨st, hloop, hst⟩ := hinit.foldlM hidx hpubs hsubs subscribers.nodup hlost.first
    exact ⟨st, hloop, hst.serves hidx hpubs hsubs hlost⟩

theorem calculateFIDs_serves_line : ∃ r, exampleLineTM.calculateFIDs .search
      ⟨[.ofByte 1], by decide⟩ ⟨[.ofByte 2, .ofByte 4], by decide⟩ = .ok r ∧
    exampleLineTM.Serves .search ⟨[.ofByte 1], by decide⟩ ⟨[.ofByte 2, .ofByte 4], by decide⟩
      r.result := by
  refine (calculateFIDs_serves_iff exampleLineTM .search updateTMStates_indexed _ _
    (ListSet.forall_of_all (by decide +kernel)) (ListSet.forall_of_all (by decide +kernel))).2
    ⟨?_, ?_⟩
  · intro s hs
    obtain rfl := some.inj hs
    exact ⟨.ofByte 1, mem_singleton_self _, by decide +kernel⟩
  · rintro s ⟨before, between, last, u, after, hsplit, -, -⟩
    have hlen := congrArg length hsplit
    simp at hlen
    omega

/-- Two subscribers that are reached, and one that is not: the first one is lost. -/
theorem calculateFIDs_line_loses : ¬ ∃ r, exampleLineTM.calculateFIDs .search
      ⟨[.ofByte 1], by decide⟩ ⟨[.ofByte 2, .ofByte 3, .ofByte 4], by decide⟩ = .ok r ∧
    exampleLineTM.Serves .search ⟨[.ofByte 1], by decide⟩
      ⟨[.ofByte 2, .ofByte 3, .ofByte 4], by decide⟩ r.result := by
  rintro ⟨r, hrun, hser⟩
  have hmiss : ((exampleLineTM.calculateFIDs .search ⟨[.ofByte 1], by decide⟩
      ⟨[.ofByte 2, .ofByte 3, .ofByte 4], by decide⟩).toOption).all (fun r =>
        (r.result.get (.ofByte 1)).all fun o => o.all fun fid =>
          !decide (Bits.Contains fid (exampleLineTM.iLID (.ofByte 2)))) = true := by
    decide +kernel
  obtain ⟨p, hp, l, -, -, fid, hget, -, hcon⟩ := hser.reached (.ofByte 2)
    mem_cons_self ⟨.ofByte 1, mem_singleton_self _, by decide +kernel⟩
  obtain rfl := mem_singleton.1 hp
  rw [hrun] at hmiss
  simp only [Except.toOption, all_some, hget] at hmiss
  simp [hcon] at hmiss

end Blackadder.TMIgraph
