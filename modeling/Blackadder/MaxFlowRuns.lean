/-
**The loops of `max_concurrent_flow`.**

In each phase every demand is sent along paths that are the shortest for the present lengths, and the
lengths of the edges of a path grow with the flow. The phases end when the lengths, weighted by the
capacities, add up to 1. A path adds at least a fixed amount to that sum, so that the phases end if
there is a demand at all.
-/

import Mathlib.Algebra.Order.Archimedean.Basic
import Blackadder.MaxFlow

namespace Blackadder.MaxFlow

open List

/-- The accuracy, the first lengths, the last scale and the orders of the demands. They come from
powers, logarithms and `random_shuffle`. -/
structure FlowParams where
  e : ℚ
  delta : ℚ
  scalef : ℚ
  shuffle : ℕ → ℕ → List ℕ
  e_pos : 0 < e
  e_lt_one : e < 1
  delta_pos : 0 < delta
  scalef_pos : 0 < scalef
  shuffle_perm : ∀ n k, (shuffle n k).Perm (range n)

structure FlowState where
  length : ℕ → ℚ
  demands : List MfDemand

/-- Flow along a path is recorded. -/
def MfDemand.push (d : MfDemand) (path : List ℕ) (x : ℚ) : MfDemand :=
  { d with
    flow := d.flow + x
    pathFlowMap := d.pathFlowMap.alter path fun o => some (o.getD 0 + x) }

def rescaleDemandsFlows (scale : ℚ) (d : MfDemand) : MfDemand :=
  { d with
    flow := d.flow * scale
    pathFlowMap := d.pathFlowMap.mapVal (· * scale) }

section
variable (g : NetGraph)

def calcD (len : ℕ → ℚ) : ℚ := ∑ e ∈ Finset.range g.edges.length, len e * g.capacity e

/-- The lengths at the beginning; of parallel edges only the first one gets a length. -/
def initialLength (delta : ℚ) (e : ℕ) : ℚ :=
  if g.edges[e]?.map g.edge = some e then delta / g.capacity e else 0

/-- The edges of a path become longer. -/
def stretch (e x : ℚ) (len : ℕ → ℚ) (l : List (ℕ × ℕ)) : ℕ → ℚ :=
  l.foldl (fun len h => Function.update len (g.edge h)
    (len (g.edge h) * (1 + e * x / g.capacity (g.edge h)))) len

/-- The least capacity of a path. -/
def mincap (h : ℕ × ℕ) (l : List (ℕ × ℕ)) : ℚ :=
  l.foldl (fun c h => min (g.capacity (g.edge h)) c) (g.capacity (g.edge h))

end

section
variable {g : NetGraph} (dj : Dijkstra g) (p : FlowParams) (fuel : ℕ)

/-- An iteration for a demand, with what is left of it. -/
def iterate (i : ℕ) (s : FlowState) (rest : ℚ) : Option (FlowState × ℚ) := do
  let d ← s.demands[i]?
  let penult := dj.penult s.length d.source
  let l ← hops penult d.source fuel (penult d.sink)
  let h := (penult d.sink, d.sink)
  let x := min rest (mincap g h l)
  return (⟨stretch g p.e x s.length (h :: l), s.demands.set i (d.push (pathOf d.sink (h :: l)) x)⟩,
    rest - x)

def iterations (i : ℕ) : ℕ → FlowState → ℚ → Option FlowState
  | 0, _, _ => none
  | n + 1, s, rest =>
    if calcD g s.length < 1 ∧ 0 < rest then
      (iterate dj p fuel i s rest).bind fun x => iterations i n x.1 x.2
    else some s

def step (s : FlowState) (i : ℕ) : Option FlowState :=
  s.demands[i]?.bind fun d => iterations dj p fuel i fuel s d.demand

def phases : ℕ → ℕ → FlowState → Option FlowState
  | 0, _, _ => none
  | n + 1, k, s =>
    if calcD g s.length < 1 then
      ((p.shuffle s.demands.length k).foldlM (step dj p fuel) s).bind (phases n (k + 1))
    else some s

/-- `max_concurrent_flow`. -/
def maxConcurrentFlow (demands : List MfDemand) : Option (List MfDemand) :=
  (phases dj p fuel fuel 0 ⟨initialLength g p.delta,
    demands.map fun d => { d with flow := 0, pathFlowMap := ∅ }⟩).map
      fun s => s.demands.map (rescaleDemandsFlows p.scalef)

end

variable {g : NetGraph} {dj : Dijkstra g} {p : FlowParams} {fuel i n k e : ℕ} {x rest κ K : ℚ}
  {len len' : ℕ → ℚ} {l : List (ℕ × ℕ)} {h : ℕ × ℕ} {s : FlowState} {demands : List MfDemand}
  {d : MfDemand}

/-! ### The lengths grow -/

theorem calcD_add_le (hlen : ∀ i, len i ≤ len' i) (he : e < g.edges.length) :
    calcD g len + (len' e - len e) * g.capacity e ≤ calcD g len' := by
  have hterm (i : ℕ) : 0 ≤ (len' i - len i) * g.capacity i :=
    mul_nonneg (sub_nonneg.2 (hlen i)) (g.capacity_pos i).le
  have hsingle := Finset.single_le_sum (fun i _ => hterm i) (Finset.mem_range.2 he)
  simp only [sub_mul, Finset.sum_sub_distrib] at hsingle
  rw [calcD, calcD]
  linarith

theorem le_stretch (hx : 0 ≤ x) (hlen : ∀ i, 0 ≤ len i) (i : ℕ) : len i ≤ stretch g p.e x len l i := by
  induction l generalizing len with
  | nil => exact le_rfl
  | cons h l ih =>
    have hupdate (j : ℕ) : len j ≤ Function.update len (g.edge h)
        (len (g.edge h) * (1 + p.e * x / g.capacity (g.edge h))) j := by
      by_cases hj : j = g.edge h
      · subst hj
        rw [Function.update_self]
        have hpos := p.e_pos
        have hcap := g.capacity_pos (g.edge h)
        exact le_mul_of_one_le_right (hlen _) (le_add_of_nonneg_right (by positivity))
      · rw [Function.update_of_ne hj]
    exact (hupdate i).trans (ih fun j => (hlen j).trans (hupdate j))

theorem add_le_stretch (hx : 0 ≤ x) (hlen : ∀ i, 0 ≤ len i) :
    len (g.edge h) * (1 + p.e * x / g.capacity (g.edge h)) ≤ stretch g p.e x len (h :: l) (g.edge h) := by
  have hpos := p.e_pos
  have hcap := g.capacity_pos (g.edge h)
  have hnew : 0 ≤ len (g.edge h) * (1 + p.e * x / g.capacity (g.edge h)) :=
    mul_nonneg (hlen _) (by positivity)
  rw [stretch, foldl_cons]
  refine le_trans ?_ (le_stretch hx (fun j => ?_) _)
  · rw [Function.update_self]
  · by_cases hj : j = g.edge h
    · rwa [hj, Function.update_self]
    · rw [Function.update_of_ne hj]
      exact hlen j

theorem exists_mincap_eq (h : ℕ × ℕ) (l : List (ℕ × ℕ)) :
    ∃ h', mincap g h l = g.capacity (g.edge h') := by
  rw [mincap]
  induction l generalizing h with
  | nil => exact ⟨h, rfl⟩
  | cons h' l ih =>
    rw [foldl_cons]
    obtain hmin | hmin := min_choice (g.capacity (g.edge h')) (g.capacity (g.edge h))
    · rw [hmin]
      exact ih h'
    · rw [hmin]
      exact ih h

theorem iterate_eq (hd : s.demands[i]? = some d)
    (hl : hops (dj.penult s.length d.source) d.source fuel (dj.penult s.length d.source d.sink) = some l)
    (hh : h = (dj.penult s.length d.source d.sink, d.sink)) (hx : x = min rest (mincap g h l)) :
    iterate dj p fuel i s rest = some (⟨stretch g p.e x s.length (h :: l),
      s.demands.set i (d.push (pathOf d.sink (h :: l)) x)⟩, rest - x) := by
  subst hh hx
  simp only [iterate, hd, hl, Option.bind_eq_bind, Option.bind_some]
  rfl

/-! ### The loops end -/

section
variable (g p κ K) in
/-- Capacities and demands lie between two bounds. -/
structure Between (s : FlowState) : Prop where
  capacity : ∀ h, κ ≤ g.capacity (g.edge h) ∧ g.capacity (g.edge h) ≤ K
  demand : ∀ d ∈ s.demands, κ ≤ d.demand ∧ d.demand ≤ K
  routable : Routable g s.demands
  length : ∀ e, (if e < g.edges.length then p.delta / g.capacity e else 0) ≤ s.length e

theorem Between.length_nonneg (hs : Between g p κ K s) (e : ℕ) : 0 ≤ s.length e := by
  refine le_trans ?_ (hs.length e)
  split
  · exact (div_pos p.delta_pos (g.capacity_pos e)).le
  · exact le_rfl

variable (hκ : 0 < κ) (hfuel : g.edges.length < fuel)
include hκ hfuel

/-- **An iteration.** It sends the whole rest or at least the least capacity, and the sum of the
lengths grows with what is sent. -/
theorem exists_iterate (hs : Between g p κ K s) (hi : i < s.demands.length) (hrest : 0 < rest) :
    ∃ s' x, iterate dj p fuel i s rest = some (s', rest - x) ∧ Between g p κ K s' ∧
      s'.demands.length = s.demands.length ∧ min rest κ ≤ x ∧
      calcD g s.length + p.e * p.delta * x / K ≤ calcD g s'.length := by
  obtain ⟨hne, hconn⟩ := hs.routable _ (getElem_mem hi)
  obtain ⟨l, hl⟩ := @exists_hops _ dj _ _ _ s.length hne hconn hfuel
  have hget := getElem?_eq_getElem hi
  generalize s.demands[i] = d at *
  have hmem := mem_of_getElem? hget
  obtain ⟨hlast, -⟩ := dj.spec s.length _ _ hconn hne.symm
  generalize hh : (dj.penult s.length d.source d.sink, d.sink) = h at hlast
  generalize hx : min rest (mincap g h l) = x
  obtain ⟨h', hh'⟩ := @exists_mincap_eq g h l
  have hle : min rest κ ≤ x := hx ▸ min_le_min_left rest (hh' ▸ (hs.capacity h').1)
  have hpos : 0 < x := (lt_min hrest hκ).trans_le hle
  have hmono := @le_stretch g p x _ (h :: l) hpos.le hs.length_nonneg
  refine ⟨_, x, iterate_eq hget hl hh.symm hx.symm, ⟨hs.capacity, ?_, ?_, ?_⟩, length_set, hle, ?_⟩
  · intro d' hd'
    obtain hd' | rfl := mem_or_eq_of_mem_set hd'
    · exact hs.demand d' hd'
    · exact hs.demand d hmem
  · intro d' hd'
    obtain hd' | rfl := mem_or_eq_of_mem_set hd'
    · exact hs.routable d' hd'
    · exact hs.routable d hmem
  · exact fun e => (hs.length e).trans (hmono e)
  · have he : g.edge h < g.edges.length := idxOf_lt_length_of_mem hlast
    refine le_trans ?_ (calcD_add_le hmono he)
    have hstretch := @add_le_stretch g p x _ l h hpos.le hs.length_nonneg
    have hlen := hs.length (g.edge h)
    rw [if_pos he] at hlen
    have hcap := g.capacity_pos (g.edge h)
    have he' := p.e_pos
    have hδ := p.delta_pos
    have hgrow : p.delta / g.capacity (g.edge h) * (p.e * x) ≤ s.length (g.edge h) * (p.e * x) :=
      mul_le_mul_of_nonneg_right hlen (by positivity)
    have hbound : p.e * p.delta * x / K ≤ p.delta / g.capacity (g.edge h) * (p.e * x) := by
      rw [div_mul_eq_mul_div, mul_comm p.delta, mul_right_comm]
      exact div_le_div_of_nonneg_left (by positivity) hcap (hs.capacity h).2
    have hdiff := mul_le_mul_of_nonneg_right hstretch hcap.le
    have hmul : s.length (g.edge h) * (1 + p.e * x / g.capacity (g.edge h)) * g.capacity (g.edge h) =
        s.length (g.edge h) * g.capacity (g.edge h) + s.length (g.edge h) * (p.e * x) := by
      field_simp
    linarith

variable (hK : 0 < K)
include hK

/-- **The iterations for a demand.** -/
theorem exists_iterations (hs : Between g p κ K s) (hi : i < s.demands.length) (hrest : rest ≤ n * κ) :
    ∃ s', iterations dj p fuel i (n + 1) s rest = some s' ∧ Between g p κ K s' ∧
      s'.demands.length = s.demands.length ∧ calcD g s.length ≤ calcD g s'.length ∧
      (calcD g s.length < 1 → κ ≤ rest → calcD g s.length + p.e * p.delta * κ / K ≤ calcD g s'.length) := by
  have he := p.e_pos
  have hδ := p.delta_pos
  induction n generalizing s rest with
  | zero =>
    rw [Nat.cast_zero, zero_mul] at hrest
    exact ⟨s, if_neg fun h => h.2.not_ge hrest, hs, rfl, le_rfl, fun _ h => absurd (hκ.trans_le h) hrest.not_gt⟩
  | succ n ih =>
    rw [iterations]
    split
    · next hcond =>
      obtain ⟨s₁, x, hs₁, hb₁, hlen₁, hx, hgrow⟩ := exists_iterate hκ hfuel hs hi hcond.2
      have hpos : 0 < x := (lt_min hcond.2 hκ).trans_le hx
      have hrest₁ : rest - x ≤ n * κ := by
        rw [Nat.cast_succ] at hrest
        obtain hx | hx := min_le_iff.1 hx
        · linarith [mul_nonneg (Nat.cast_nonneg (α := ℚ) n) hκ.le]
        · linarith
      obtain ⟨s', hs', hb, hlen, hle, -⟩ := ih hb₁ (hlen₁.symm ▸ hi) hrest₁
      refine ⟨s', by rw [hs₁]; exact hs', hb, hlen.trans hlen₁, ?_, fun _ hκrest => ?_⟩
      · have hterm : 0 ≤ p.e * p.delta * x / K := by positivity
        linarith
      · rw [min_eq_right hκrest] at hx
        have hterm : p.e * p.delta * κ / K ≤ p.e * p.delta * x / K := by gcongr
        linarith
    · next hcond =>
      exact ⟨s, rfl, hs, rfl, le_rfl, fun h h' => absurd ⟨h, hκ.trans_le h'⟩ hcond⟩

variable (hn : K ≤ n * κ)
include hn

/-- **The steps of a phase.** -/
theorem exists_steps {l : List ℕ} (hnfuel : n < fuel) (hs : Between g p κ K s)
    (hl : ∀ i ∈ l, i < s.demands.length) :
    ∃ s', l.foldlM (step dj p fuel) s = some s' ∧ Between g p κ K s' ∧
      s'.demands.length = s.demands.length ∧ calcD g s.length ≤ calcD g s'.length ∧
      (calcD g s.length < 1 → l ≠ [] → calcD g s.length + p.e * p.delta * κ / K ≤ calcD g s'.length) := by
  induction l generalizing s with
  | nil => exact ⟨s, rfl, hs, rfl, le_rfl, fun _ h => absurd rfl h⟩
  | cons i l ih =>
    have hi := hl i mem_cons_self
    obtain ⟨hdκ, hdK⟩ := hs.demand _ (getElem_mem hi)
    obtain ⟨m, rfl⟩ : ∃ m, fuel = m + 1 := ⟨fuel - 1, by omega⟩
    have hm : (s.demands[i]).demand ≤ m * κ := by
      have hnm : (n : ℚ) ≤ m := by exact_mod_cast Nat.lt_succ_iff.1 hnfuel
      linarith [mul_le_mul_of_nonneg_right hnm hκ.le]
    obtain ⟨s₁, hs₁, hb₁, hlen₁, hle₁, hgrow⟩ := @exists_iterations g dj p _ _ _ _ _ _ _ hκ hfuel hK hs hi hm
    obtain ⟨s', hs', hb, hlen, hle, -⟩ := ih hb₁ fun j hj => hlen₁.symm ▸ hl j (mem_cons_of_mem i hj)
    refine ⟨s', ?_, hb, hlen.trans hlen₁, hle₁.trans hle, fun h _ => (hgrow h hdκ).trans hle⟩
    rw [foldlM_cons, step, getElem?_eq_getElem hi, Option.bind_some, hs₁]
    exact hs'

theorem exists_phases (hnfuel : n < fuel) (hs : Between g p κ K s) (hne : s.demands ≠ []) {N : ℕ}
    (hN : 1 ≤ calcD g s.length + N * (p.e * p.delta * κ / K)) :
    ∃ s', phases dj p fuel (N + 1) k s = some s' := by
  induction N generalizing s k with
  | zero => exact ⟨s, if_neg (by simpa using hN)⟩
  | succ N ih =>
    rw [phases]
    split
    · next hlt =>
      have hperm := p.shuffle_perm s.demands.length k
      obtain ⟨s₁, hs₁, hb₁, hlen₁, -, hgrow⟩ := @exists_steps g dj p fuel _ _ _ _ hκ hfuel hK hn _ hnfuel hs
        fun i hi => mem_range.1 (hperm.mem_iff.1 hi)
      have hnil : p.shuffle s.demands.length k ≠ [] := by
        intro h
        rw [h] at hperm
        exact hne (length_eq_zero_iff.1 (by simpa using hperm.length_eq.symm))
      rw [hs₁]
      refine ih hb₁ (fun h => hne (length_eq_zero_iff.1 (by rw [← hlen₁, h]; rfl))) ?_
      have hgrow := hgrow hlt hnil
      push_cast at hN
      linarith
    · exact ⟨s, rfl⟩

end

theorem exists_bounds (l : List ℚ) (hl : ∀ x ∈ l, 0 < x) :
    ∃ κ K, 0 < κ ∧ 0 < K ∧ ∀ x ∈ l, κ ≤ x ∧ x ≤ K := by
  induction l with
  | nil => exact ⟨1, 1, one_pos, one_pos, by simp⟩
  | cons y l ih =>
    obtain ⟨hy, hl⟩ := forall_mem_cons.1 hl
    obtain ⟨κ, K, hκ, _, hall⟩ := ih hl
    refine ⟨min y κ, max y K, lt_min hy hκ, lt_max_of_lt_left hy, forall_mem_cons.2 ⟨by simp, ?_⟩⟩
    exact fun x hx => ⟨(min_le_right ..).trans (hall x hx).1, (hall x hx).2.trans (le_max_right ..)⟩

theorem initialLength_eq (hg : g.edges.Nodup) (delta : ℚ) (e : ℕ) :
    initialLength g delta e = if e < g.edges.length then delta / g.capacity e else 0 := by
  rw [initialLength]
  by_cases he : e < g.edges.length
  · rw [getElem?_eq_getElem he, if_pos he, if_pos]
    exact congrArg some (hg.idxOf_getElem e he)
  · rw [getElem?_eq_none (Nat.not_lt.1 he), if_neg he]
    rfl

theorem calcD_initialLength (hg : g.edges.Nodup) (delta : ℚ) :
    calcD g (initialLength g delta) = g.edges.length * delta := by
  have hterm : ∀ e ∈ Finset.range g.edges.length, initialLength g delta e * g.capacity e = delta := by
    intro e he
    rw [initialLength_eq hg, if_pos (Finset.mem_range.1 he)]
    exact div_mul_cancel₀ _ (g.capacity_pos e).ne'
  rw [calcD, Finset.sum_congr rfl hterm, Finset.sum_const, Finset.card_range, nsmul_eq_mul]

/-- Without demands a phase changes nothing. -/
theorem phases_eq_none (hs : s.demands = []) (hlt : calcD g s.length < 1) :
    phases dj p fuel n k s = none := by
  induction n generalizing k with
  | zero => rfl
  | succ n ih =>
    have hperm := p.shuffle_perm s.demands.length k
    rw [hs] at hperm
    rw [phases, if_pos hlt, hs, perm_nil.1 hperm]
    exact ih

/-- **The loops end.** All loops of `max_concurrent_flow` end if and only if there is a demand or the
first lengths already add up to 1. -/
theorem maxConcurrentFlow_ends_iff (dj : Dijkstra g) (p : FlowParams) (demands : List MfDemand)
    (hg : g.edges.Nodup) (hd : Routable g demands) (hpos : ∀ d ∈ demands, 0 < d.demand) :
    (∃ fuel r, maxConcurrentFlow dj p fuel demands = some r) ↔
      demands ≠ [] ∨ 1 ≤ g.edges.length * p.delta := by
  generalize hs : (⟨initialLength g p.delta, demands.map fun d => { d with flow := 0, pathFlowMap := ∅ }⟩ :
    FlowState) = s
  have hD : calcD g s.length = g.edges.length * p.delta := hs ▸ calcD_initialLength hg p.delta
  have hends (fuel : ℕ) : (∃ r, maxConcurrentFlow dj p fuel demands = some r) ↔
      ∃ s', phases dj p fuel fuel 0 s = some s' := by simp [maxConcurrentFlow, hs]
  simp only [hends]
  constructor
  · rintro ⟨fuel, s', hs'⟩
    by_contra! hnone
    rw [phases_eq_none (by rw [← hs, hnone.1]; rfl) (hD ▸ hnone.2)] at hs'
    cases hs'
  intro hor
  by_cases hlt : calcD g s.length < 1
  · have hne : demands ≠ [] := hor.resolve_right (hD ▸ hlt.not_ge)
    obtain ⟨κ, K, hκ, hK, hall⟩ := exists_bounds
      ((range (g.edges.length + 1)).map g.capacity ++ demands.map (·.demand)) (by
        simp only [mem_append, mem_map]
        rintro x (⟨e, -, rfl⟩ | ⟨d, hd, rfl⟩)
        · exact g.capacity_pos e
        · exact hpos d hd)
    simp only [mem_append, mem_map] at hall
    have hb : Between g p κ K s := by
      subst hs
      refine ⟨fun h => hall _ (.inl ⟨_, mem_range.2 (Nat.lt_succ_of_le idxOf_le_length), rfl⟩),
        forall_mem_map.2 fun d hd => hall _ (.inr ⟨d, hd, rfl⟩), forall_mem_map.2 hd,
        fun e => (initialLength_eq hg p.delta e).ge⟩
    have hη : 0 < p.e * p.delta * κ / K := div_pos (mul_pos (mul_pos p.e_pos p.delta_pos) hκ) hK
    obtain ⟨n, hn⟩ := exists_nat_ge (K / κ)
    obtain ⟨N, hN⟩ := exists_nat_ge (1 / (p.e * p.delta * κ / K))
    rw [div_le_iff₀ hκ] at hn
    rw [div_le_iff₀ hη] at hN
    refine ⟨g.edges.length + n + N + 1,
      exists_phases hκ (by omega) hK hn (by omega) hb (by simpa [← hs] using hne) ?_⟩
    have hD₀ : 0 ≤ calcD g s.length := hD ▸ mul_nonneg (Nat.cast_nonneg _) p.delta_pos.le
    have hle : (N : ℚ) ≤ (g.edges.length + n + N : ℕ) := by exact_mod_cast Nat.le_add_left ..
    linarith [mul_le_mul_of_nonneg_right hle hη.le]
  · exact ⟨1, s, if_neg hlt⟩

def exampleParams : FlowParams where
  e := 1 / 2
  delta := 1 / 4
  scalef := 1
  shuffle n _ := range n
  e_pos := by decide +kernel
  e_lt_one := by decide +kernel
  delta_pos := by decide +kernel
  scalef_pos := one_pos
  shuffle_perm _ _ := .rfl

theorem maxConcurrentFlow_ends_exampleDemand :
    ∃ fuel r, maxConcurrentFlow exampleDijkstra exampleParams fuel [exampleDemand] = some r :=
  (maxConcurrentFlow_ends_iff exampleDijkstra exampleParams [exampleDemand] (by decide)
    routable_exampleDemand (by decide +kernel)).2 (.inl (by simp))

/-- Without demands the phases go on for ever. -/
theorem maxConcurrentFlow_exampleNet :
    ¬∃ fuel r, maxConcurrentFlow exampleDijkstra exampleParams fuel [] = some r := by
  rintro ⟨fuel, r, h⟩
  rw [maxConcurrentFlow, phases_eq_none rfl (by decide +kernel)] at h
  cases h

end Blackadder.MaxFlow
