/-
**The fragments that are missing.**

The range in a CTRL-NACK should reach from the first to the last missing fragment. If only
fragments at the front are missing it is the first one alone, and if only fragments at the end, the
last one.
-/

import Blackadder.LtpDelivery
import Mathlib.Order.Interval.Finset.Nat

namespace Blackadder

open List
open Finset (mem_Icc)

/-! ### Gaps -/

section
variable {p k n i : ℕ} {keys : List ℕ}

def gaps (p : ℕ) (keys : List ℕ) : Set ℕ := {i | p < i ∧ (∃ k ∈ keys, i < k) ∧ i ∉ keys}

theorem mem_gaps : i ∈ gaps p keys ↔ p < i ∧ (∃ k ∈ keys, i < k) ∧ i ∉ keys := Iff.rfl

@[simp] theorem gaps_nil : gaps p [] = ∅ := by simp [gaps]

theorem gaps_cons (hp : p < k) (hk : ∀ k' ∈ keys, k < k') :
    gaps p (k :: keys) = Set.Ioo p k ∪ gaps k keys := by
  ext i
  simp only [mem_gaps, mem_cons, exists_eq_or_imp, not_or]
  constructor
  · rintro ⟨hpi, hlt | hlt, hne, hmem⟩
    · exact .inl ⟨hpi, hlt⟩
    · obtain hik | hki := Nat.lt_or_gt_of_ne hne
      · exact .inl ⟨hpi, hik⟩
      · exact .inr ⟨hki, hlt, hmem⟩
  · rintro (⟨hpi, hik⟩ | ⟨hki, hlt, hmem⟩)
    · exact ⟨hpi, .inl hik, hik.ne, fun hmem => (hk i hmem).not_gt hik⟩
    · exact ⟨hp.trans hki, .inr hlt, hki.ne', hmem⟩

def missing (keys : List ℕ) (n : ℕ) : Finset ℕ := (Finset.Icc 1 n).filter fun i => i ∉ keys

@[simp] theorem mem_missing : i ∈ missing keys n ↔ (1 ≤ i ∧ i ≤ n) ∧ i ∉ keys := by
  rw [missing, Finset.mem_filter, mem_Icc]

end

/-! ### What the loop finds -/

namespace SequenceCheck

variable {c c' : SequenceCheck} {p k : ℕ} {keys : List ℕ}

/-- A pass over the numbers above `p`: gaps set the upper bound, and the lower one if it is not set.
-/
structure Scanned (p : ℕ) (keys : List ℕ) (c c' : SequenceCheck) : Prop where
  unchanged : gaps p keys = ∅ → c'.firstMissingSequence = c.firstMissingSequence ∧
    c'.lastMissingSequence = c.lastMissingSequence
  last : (gaps p keys).Nonempty → IsGreatest (gaps p keys) c'.lastMissingSequence
  first : (gaps p keys).Nonempty → c.firstMissingSequence = 0 →
    IsLeast (gaps p keys) c'.firstMissingSequence
  kept : c.firstMissingSequence ≠ 0 → c'.firstMissingSequence = c.firstMissingSequence

theorem Scanned.cons_gap (hgap : p + 1 < k) (hk : ∀ k' ∈ keys, k < k')
    (h : Scanned k keys ⟨false, if c.firstMissingSequence = 0 then p + 1
      else c.firstMissingSequence, k - 1, k⟩ c') : Scanned p (k :: keys) c c' := by
  have hcons := gaps_cons (by omega : p < k) hk
  have hnon : p + 1 ∈ gaps p (k :: keys) := by
    rw [hcons]
    exact .inl ⟨by omega, hgap⟩
  have hfirst : c'.firstMissingSequence =
      if c.firstMissingSequence = 0 then p + 1 else c.firstMissingSequence := by
    refine h.kept ?_
    dsimp only
    split <;> omega
  refine ⟨fun hempty => absurd hnon (by simp [hempty]), fun _ => ?_, fun _ hzero => ?_,
    fun hzero => by rw [hfirst, if_neg hzero]⟩
  · rw [hcons]
    rcases (gaps k keys).eq_empty_or_nonempty with hempty | hrest
    · rw [(h.unchanged hempty).2, hempty, Set.union_empty]
      dsimp only
      refine ⟨⟨by omega, by omega⟩, ?_⟩
      rintro i ⟨-, hi⟩
      omega
    · obtain ⟨hmem, hupp⟩ := h.last hrest
      refine ⟨.inr hmem, ?_⟩
      rintro i (⟨-, hi⟩ | hi)
      · exact (hi.trans hmem.1).le
      · exact hupp hi
  · rw [hfirst, if_pos hzero]
    refine ⟨hnon, ?_⟩
    rintro i ⟨hi, -⟩
    exact hi

theorem scanned_foldl (keys : List ℕ) :
    ∀ c : SequenceCheck, keys.Pairwise (· < ·) → (∀ k ∈ keys, c.previousSequence < k) →
      0 < c.previousSequence → Scanned c.previousSequence keys c (keys.foldl next c) := by
  induction keys with
  | nil =>
    intro c _ _ _
    refine ⟨fun _ => ⟨rfl, rfl⟩, ?_, ?_, fun _ => rfl⟩
    · simp
    · simp
  | cons k keys ih =>
    intro c hsor hpre hpos
    have hk := hpre k mem_cons_self
    rw [pairwise_cons] at hsor
    rw [foldl_cons, next, if_neg (fun h => hpos.ne' h.1)]
    split
    case isTrue hgap =>
      refine Scanned.cons_gap hgap hsor.1 (ih ⟨false, _, k - 1, k⟩ hsor.2 hsor.1 ?_)
      exact hpos.trans hk
    case isFalse hgap =>
      -- the number follows upon the one before it
      have hcons := gaps_cons hk hsor.1
      have hempty : Set.Ioo c.previousSequence k = ∅ := by
        ext i
        simp only [Set.mem_Ioo, Set.mem_empty_iff_false, iff_false]
        omega
      have hrest := ih { c with previousSequence := k } hsor.2 hsor.1 (hpos.trans hk)
      rw [hempty, Set.empty_union] at hcons
      exact ⟨hcons ▸ hrest.unchanged, hcons ▸ hrest.last, hcons ▸ hrest.first, hrest.kept⟩

end SequenceCheck

/-! ### The range -/

/-- Several fragments are missing, all of them at the front or all of them at the end. -/
def OneSided (m : Finset ℕ) (n : ℕ) : Prop :=
  (∃ j, 2 ≤ j ∧ m = Finset.Icc 1 j) ∨ ∃ j, j + 1 < n ∧ m = Finset.Icc (j + 1) n

/-- What is missing is before the first number `k`, between two numbers, or behind the last one `l`.
-/
structure ThreeParts (m : Finset ℕ) (k l n : ℕ) (inner : Set ℕ) : Prop where
  mem_iff : ∀ i, i ∈ m ↔ (1 ≤ i ∧ i < k) ∨ i ∈ inner ∨ (l < i ∧ i ≤ n)
  between : ∀ i ∈ inner, k < i ∧ i < l
  one_le : 1 ≤ k
  le : k ≤ l
  le_last : l ≤ n
  nonempty : m.Nonempty

/-- Both bounds are missing, and they are the first and last unless several are missing at one end
only. -/
structure RangeBounds (m : Finset ℕ) (n first last : ℕ) : Prop where
  first_mem : first ∈ m
  last_mem : last ∈ m
  le : first ≤ last
  exact_iff : IsLeast (m : Set ℕ) first ∧ IsGreatest (m : Set ℕ) last ↔ ¬ OneSided m n

namespace ThreeParts

variable {m : Finset ℕ} {k l n first last : ℕ} {inner : Set ℕ}

section
variable (h : ThreeParts m k l n inner)
include h

theorem not_mem_first : k ∉ m := by
  intro hk
  have hle := h.le
  obtain ⟨-, hlt⟩ | hk | ⟨hlt, -⟩ := (h.mem_iff k).1 hk
  · omega
  · exact (h.between k hk).1.false
  · omega

theorem not_mem_last : l ∉ m := by
  intro hl
  have hle := h.le
  obtain ⟨-, hlt⟩ | hl | ⟨hlt, -⟩ := (h.mem_iff l).1 hl
  · omega
  · exact (h.between l hl).2.false
  · omega

theorem eq_end (hk : k = 1) (hinner : inner = ∅) : l < n ∧ m = Finset.Icc (l + 1) n := by
  have hmem (i : ℕ) : i ∈ m ↔ l < i ∧ i ≤ n := by
    rw [h.mem_iff, hinner, Set.mem_empty_iff_false, false_or]
    omega
  obtain ⟨i, hi⟩ := h.nonempty
  refine ⟨((hmem i).1 hi).1.trans_le ((hmem i).1 hi).2, ?_⟩
  ext i
  rw [hmem, mem_Icc]
  omega

theorem eq_front (hl : l = n) (hinner : inner = ∅) : 1 < k ∧ m = Finset.Icc 1 (k - 1) := by
  have hmem (i : ℕ) : i ∈ m ↔ 1 ≤ i ∧ i < k := by
    rw [h.mem_iff, hinner, Set.mem_empty_iff_false, false_or]
    omega
  obtain ⟨i, hi⟩ := h.nonempty
  refine ⟨((hmem i).1 hi).1.trans_lt ((hmem i).1 hi).2, ?_⟩
  ext i
  rw [hmem, mem_Icc]
  omega

theorem isLeast_iff (hfront : k ≠ 1 → first = 1)
    (hlea : k = 1 → inner.Nonempty → IsLeast inner first) (hend : k = 1 → inner = ∅ → first = n) :
    first ∈ m ∧ (IsLeast (m : Set ℕ) first ↔ ¬ ∃ j, j + 1 < n ∧ m = Finset.Icc (j + 1) n) := by
  have hone := h.one_le
  have hle := h.le
  have hlast := h.le_last
  by_cases hk : k = 1
  · rcases inner.eq_empty_or_nonempty with hinner | hinner
    · obtain ⟨hlt, hm⟩ := h.eq_end hk hinner
      rw [hend hk hinner, hm, mem_Icc]
      refine ⟨by omega, ?_⟩
      constructor
      · rintro ⟨-, hlowe⟩ ⟨j, hj, heq⟩
        have hmem : j + 1 ∈ Finset.Icc (l + 1) n := by
          rw [heq, mem_Icc]
          omega
        exact hj.not_ge (hlowe hmem)
      · intro hnot
        have hn : ¬ l + 1 < n := fun hn => hnot ⟨l, hn, rfl⟩
        refine ⟨Finset.mem_coe.2 (mem_Icc.2 (by omega)), ?_⟩
        intro i hi
        have := mem_Icc.1 (Finset.mem_coe.1 hi)
        omega
    · obtain ⟨hmem, hlowe⟩ := hlea hk hinner
      have hbet := h.between first hmem
      have hfirst : first ∈ m := (h.mem_iff first).2 (.inr (.inl hmem))
      refine ⟨hfirst, iff_of_true ⟨hfirst, ?_⟩ ?_⟩
      · intro i hi
        obtain ⟨hi, hik⟩ | hi | ⟨hi, -⟩ := (h.mem_iff i).1 hi
        · omega
        · exact hlowe hi
        · omega
      · rintro ⟨j, _, rfl⟩
        have := mem_Icc.1 hfirst
        exact h.not_mem_last (mem_Icc.2 (by omega))
  · have hfirst : first ∈ m := (h.mem_iff first).2 (.inl (by rw [hfront hk]; omega))
    refine ⟨hfirst, iff_of_true ⟨hfirst, ?_⟩ ?_⟩
    · intro i hi
      rw [hfront hk]
      obtain ⟨hi, -⟩ | hi | ⟨hi, -⟩ := (h.mem_iff i).1 hi
      · exact hi
      · exact hone.trans (h.between i hi).1.le
      · omega
    · rintro ⟨j, _, rfl⟩
      rw [mem_Icc] at hfirst
      exact h.not_mem_first (mem_Icc.2 (by omega))

theorem isGreatest_iff (hend : l < n → last = n)
    (hgre : l = n → inner.Nonempty → IsGreatest inner last)
    (hfront : l = n → inner = ∅ → last = 1) :
    last ∈ m ∧ (IsGreatest (m : Set ℕ) last ↔ ¬ ∃ j, 2 ≤ j ∧ m = Finset.Icc 1 j) := by
  have hone := h.one_le
  have hle := h.le
  by_cases hl : l = n
  · rcases inner.eq_empty_or_nonempty with hinner | hinner
    · obtain ⟨hlt, hm⟩ := h.eq_front hl hinner
      rw [hfront hl hinner, hm, mem_Icc]
      refine ⟨by omega, ?_⟩
      constructor
      · rintro ⟨-, hupp⟩ ⟨j, hj, heq⟩
        have hmem : j ∈ Finset.Icc 1 (k - 1) := by
          rw [heq, mem_Icc]
          omega
        have : j ≤ 1 := hupp hmem
        omega
      · intro hnot
        have hn : ¬ 2 ≤ k - 1 := fun hn => hnot ⟨k - 1, hn, rfl⟩
        refine ⟨Finset.mem_coe.2 (mem_Icc.2 (by omega)), ?_⟩
        intro i hi
        have := mem_Icc.1 (Finset.mem_coe.1 hi)
        omega
    · obtain ⟨hmem, hupp⟩ := hgre hl hinner
      have hbet := h.between last hmem
      have hlast : last ∈ m := (h.mem_iff last).2 (.inr (.inl hmem))
      refine ⟨hlast, iff_of_true ⟨hlast, ?_⟩ ?_⟩
      · intro i hi
        obtain ⟨-, hik⟩ | hi | ⟨hi, hin⟩ := (h.mem_iff i).1 hi
        · omega
        · exact hupp hi
        · omega
      · rintro ⟨j, _, rfl⟩
        have := mem_Icc.1 hlast
        exact h.not_mem_first (mem_Icc.2 (by omega))
  · have hlt : l < n := lt_of_le_of_ne h.le_last hl
    have hlast : last ∈ m := (h.mem_iff last).2 (.inr (.inr (by rw [hend hlt]; omega)))
    refine ⟨hlast, iff_of_true ⟨hlast, ?_⟩ ?_⟩
    · intro i hi
      rw [hend hlt]
      obtain ⟨-, hi⟩ | hi | ⟨-, hi⟩ := (h.mem_iff i).1 hi
      · omega
      · exact ((h.between i hi).2.trans hlt).le
      · exact hi
    · rintro ⟨j, _, rfl⟩
      rw [mem_Icc] at hlast
      exact h.not_mem_last (mem_Icc.2 (by omega))

theorem rangeBounds (hfront : k ≠ 1 → first = 1)
    (hlea : k = 1 → inner.Nonempty → IsLeast inner first) (hend : k = 1 → inner = ∅ → first = n)
    (hend' : l < n → last = n) (hgre : l = n → inner.Nonempty → IsGreatest inner last)
    (hfro' : l = n → inner = ∅ → last = 1) : RangeBounds m n first last := by
  obtain ⟨hfirst, hfirst_iff⟩ := h.isLeast_iff hfront hlea hend
  obtain ⟨hlast, hlast_iff⟩ := h.isGreatest_iff hend' hgre hfro'
  refine ⟨hfirst, hlast, ?_, ?_⟩
  · rcases eq_or_lt_of_le h.le_last with hl | hl
    · rcases inner.eq_empty_or_nonempty with hinner | hinner
      · obtain ⟨hk, -⟩ := h.eq_front hl hinner
        rw [hfront hk.ne', hfro' hl hinner]
      · by_cases hk : k = 1
        · exact (hgre hl hinner).2 (hlea hk hinner).1
        · have hone := h.one_le
          have hmem := (h.between last (hgre hl hinner).1).1
          omega
    · -- everything that is missing is at most the last number
      rw [hend' hl]
      obtain ⟨-, hlt⟩ | hmem | ⟨-, hle⟩ := (h.mem_iff first).1 hfirst
      · omega
      · exact ((h.between first hmem).2.trans hl).le
      · exact hle
  · rw [hfirst_iff, hlast_iff, OneSided, not_or, and_comm]

end

end ThreeParts

theorem threeParts_missing {k l n : ℕ} {keys : List ℕ} (hsor : (k :: keys).Pairwise (· < ·))
    (hlast : (k :: keys).getLast? = some l) (hkeys : ∀ i ∈ k :: keys, 1 ≤ i ∧ i ≤ n)
    (hmis : (missing (k :: keys) n).Nonempty) :
    ThreeParts (missing (k :: keys) n) k l n (gaps k keys) := by
  have hl : l ∈ k :: keys := mem_of_getLast? hlast
  have hle : ∀ i ∈ k :: keys, i ≤ l := by
    obtain ⟨front, hfront⟩ := getLast?_eq_some_iff.1 hlast
    intro i hi
    rw [hfront] at hi hsor
    obtain hi | hi := mem_append.1 hi
    · exact ((pairwise_append.1 hsor).2.2 i hi l mem_cons_self).le
    · exact (mem_singleton.1 hi).le
  have hk := (pairwise_cons.1 hsor).1
  refine ⟨?_, ?_, (hkeys k mem_cons_self).1, hle k mem_cons_self, (hkeys l hl).2, hmis⟩
  · intro i
    rw [mem_missing, mem_cons, not_or]
    constructor
    · rintro ⟨⟨hone, hn⟩, hne, hmem⟩
      rcases Nat.lt_or_gt_of_ne hne with hlt | hgt
      · exact .inl ⟨hone, hlt⟩
      · by_cases hil : i < l
        · have hlke : l ∈ keys := (mem_cons.1 hl).resolve_left (by omega)
          exact .inr (.inl ⟨hgt, ⟨l, hlke, hil⟩, hmem⟩)
        · have : i ≠ l := fun h => (mem_cons.1 (h ▸ hl)).elim hne hmem
          exact .inr (.inr (by omega))
    · have hbound := hkeys k mem_cons_self
      rintro (⟨hone, hlt⟩ | ⟨hgt, ⟨k', hk', hlt⟩, hmem⟩ | ⟨hgt, hn⟩)
      · exact ⟨by omega, hlt.ne, fun hmem => (hk i hmem).not_gt hlt⟩
      · have := hkeys k' (mem_cons_of_mem _ hk')
        exact ⟨by omega, hgt.ne', hmem⟩
      · have hkl := hle k mem_cons_self
        refine ⟨by omega, by omega, fun hmem => ?_⟩
        exact (hle i (mem_cons_of_mem _ hmem)).not_gt hgt
  · rintro i ⟨hgt, ⟨k', hk', hlt⟩, -⟩
    exact ⟨hgt, hlt.trans_le (hle k' (mem_cons_of_mem _ hk'))⟩

theorem rangeBounds_checkSequences {seqs : SequenceMap} {n : ℕ} (hne : seqs ≠ ∅)
    (hkeys : ∀ i ∈ seqs.entries.map Prod.fst, 1 ≤ i ∧ i ≤ n)
    (hmis : (missing (seqs.entries.map Prod.fst) n).Nonempty) :
    RangeBounds (missing (seqs.entries.map Prod.fst) n) n
      (checkSequences seqs n).firstMissingSequence
      (checkSequences seqs n).lastMissingSequence := by
  have hsor : (seqs.entries.map Prod.fst).Pairwise (· < ·) := pairwise_map.2 seqs.sorted
  have hnil : seqs.entries.map Prod.fst ≠ [] := by
    rw [Ne, map_eq_nil_iff, OrderedMap.entries_eq_nil_iff]
    exact hne
  rw [checkSequences]
  generalize seqs.entries.map Prod.fst = keys at *
  obtain ⟨k, keys, rfl⟩ := exists_cons_of_ne_nil hnil
  obtain ⟨l, hl⟩ : ∃ l, (k :: keys).getLast? = some l := ⟨_, getLast?_eq_some_getLast hnil⟩
  have hparts := threeParts_missing hsor hl hkeys hmis
  rw [hl, foldl_cons]
  -- the first number sets both bounds, or none
  have hstart : SequenceCheck.next .start k =
      if k = 1 then ⟨true, 0, 0, k⟩ else ⟨false, 1, 1, k⟩ := by
    by_cases hk : k = 1 <;> simp [SequenceCheck.next, SequenceCheck.start, hk]
  have hpre : (SequenceCheck.next .start k).previousSequence = k := by
    rw [hstart]
    split <;> rfl
  have hscan := SequenceCheck.scanned_foldl keys (SequenceCheck.next .start k)
    (pairwise_cons.1 hsor).2 (by rw [hpre]; exact (pairwise_cons.1 hsor).1)
    (by rw [hpre]; exact hparts.one_le)
  rw [hpre] at hscan
  generalize keys.foldl SequenceCheck.next (SequenceCheck.next .start k) = c at *
  have hfirst (hk : k = 1) (hinner : (gaps k keys).Nonempty) :
      IsLeast (gaps k keys) c.firstMissingSequence := hscan.first hinner (by rw [hstart, if_pos hk])
  have hlast (hinner : gaps k keys = ∅) :
      c.lastMissingSequence = (SequenceCheck.next .start k).lastMissingSequence :=
    (hscan.unchanged hinner).2
  have hone (hk : k ≠ 1) : c.firstMissingSequence = 1 := by
    rw [hscan.kept (by rw [hstart, if_neg hk]; exact one_ne_zero), hstart, if_neg hk]
  split
  case isTrue hlt =>
    refine hparts.rangeBounds ?_ ?_ ?_ (fun _ => rfl) (fun hl => absurd hl hlt.ne)
      (fun hl => absurd hl hlt.ne)
    · intro hk
      rw [hone hk, if_neg one_ne_zero]
    · intro hk hinner
      have hpos : c.firstMissingSequence ≠ 0 := Nat.ne_zero_of_lt (hfirst hk hinner).1.1
      rw [if_neg hpos]
      exact hfirst hk hinner
    · intro hk hinner
      rw [(hscan.unchanged hinner).1, hstart, if_pos hk, if_pos rfl]
  case isFalse hge =>
    refine hparts.rangeBounds hone hfirst ?_ (fun hlt => absurd hlt hge) (fun _ => hscan.last) ?_
    · intro hk hinner
      exact absurd (hparts.eq_end hk hinner).1 hge
    · intro hl hinner
      rw [hlast hinner, hstart, if_neg (hparts.eq_front hl hinner).1.ne']

/-! ### The CTRL-NACK -/

namespace LtpPublication

def nacked (p : LtpPublication) : Option (UInt16 × UInt16 × UInt16) :=
  match LtpMessage.read p.packet with
  | .nack _ sessionKey first last => some (sessionKey, first, last)
  | _ => none

def nacks (published : List LtpPublication) : List (UInt16 × UInt16 × UInt16) :=
  published.filterMap nacked

end LtpPublication

namespace Lightweight

section
variable {l : Lightweight} {e : LtpEvent} {w : LtpEvent.WindowEnd} {seqs : SequenceMap}

/-- A client-side NAP knows the CID of the rCID, once it has published a request with both. -/
def Answers (l : Lightweight) : LtpEvent → Prop
  | .publishedData _ rCId _ => l.cIdReverseLookUp.get rCId ≠ none
  | _ => True

theorem nacked_packControl (mem : ℕ → UInt8) (check : SequenceCheck) (sk : UInt16)
    {p : LtpPublication} (hp : p.packet = packControl mem (check.nack sk)) :
    p.nacked = some (sk, UInt16.ofNat check.firstMissingSequence,
      UInt16.ofNat check.lastMissingSequence) := by
  rw [LtpPublication.nacked, hp, packControl, LtpMessage.read_bytes_append]
  rfl

theorem nacked_windowEnded (mem : ℕ → UInt8) (ripd : UInt32) (sk : UInt16) {p : LtpPublication}
    (hp : p.packet = packControl mem (.windowEnded ripd sk)) : p.nacked = none := by
  rw [LtpPublication.nacked, hp, packControl]
  rfl

section
variable (hwe : e.windowEnd l.nodeId = some w)
  (hfind : l.icnPacketBuffer.find w.rCId w.ripd w.nodeId w.sessionKey.toNat = some seqs)
include hwe hfind

theorem nacks_of_not_answers (hans : ¬ l.Answers e) :
    LtpPublication.nacks (l.step e).published = [] := by
  cases e with
  | publishedData mem rCId pkt =>
    obtain ⟨ripd, n, hread, hw⟩ := windowEndIn_eq_some hwe
    rw [hw] at hfind
    rw [step, handle, hread]
    dsimp only
    rw [handleWindowEnd_of_find hfind, not_not.1 hans]
    rfl
  | publishedDataISub | retrieve | otherThreads => exact absurd trivial hans

/-- The message is complete, or a CTRL-NACK asks for the range. -/
theorem answer_windowEnd (hans : l.Answers e) {check : SequenceCheck}
    (hcheck : check = checkSequences seqs w.sequenceNumber) :
    (check.allFragmentsReceived = true ∧ (l.step e).tpState = .allFragmentsReceived ∧
        LtpPublication.nacks (l.step e).published = []) ∨
      (check.allFragmentsReceived = false ∧
        LtpPublication.nacks (l.step e).published = [(w.sessionKey,
          UInt16.ofNat check.firstMissingSequence, UInt16.ofNat check.lastMissingSequence)]) := by
  cases e with
  | publishedData mem rCId pkt =>
    obtain ⟨ripd, n, hread, hw⟩ := windowEndIn_eq_some hwe
    obtain ⟨cId, hcId⟩ := Option.ne_none_iff_exists'.1 hans
    rw [hw] at hfind hcheck
    rw [step, handle, hread]
    dsimp only
    rw [handleWindowEnd_of_find hfind, ← hcheck, toCId, toCId, hcId]
    cases hall : check.allFragmentsReceived with
    | true =>
      refine .inl ⟨rfl, rfl, ?_⟩
      exact filterMap_cons_none (nacked_windowEnded mem ripd w.sessionKey rfl)
    | false =>
      refine .inr ⟨rfl, ?_⟩
      exact filterMap_cons_some (nacked_packControl mem check w.sessionKey rfl)
  | publishedDataISub mem rCId nodeId pkt =>
    obtain ⟨ripd, n, hread, hw⟩ := windowEndIn_eq_some hwe
    rw [hw] at hfind hcheck
    rw [← (sameReceiver_addNodeId l nodeId).icnPacketBuffer] at hfind
    rw [step, handleISub, hread]
    dsimp only
    rw [handleWindowEndISub_of_find hfind, ← hcheck]
    cases hall : check.allFragmentsReceived with
    | true =>
      refine .inl ⟨rfl, rfl, ?_⟩
      rw [if_pos rfl, publishWindowEnded]
      split
      · exact filterMap_cons_none (nacked_windowEnded mem 0 w.sessionKey rfl)
      · rfl
    | false =>
      refine .inr ⟨rfl, ?_⟩
      exact filterMap_cons_some (nacked_packControl mem check w.sessionKey rfl)
  | retrieve | otherThreads => simp [LtpEvent.windowEnd] at hwe

end

theorem sequenceNumber_lt (hwe : e.windowEnd l.nodeId = some w) : w.sequenceNumber < 65536 := by
  cases e with
  | publishedData mem rCId pkt | publishedDataISub mem rCId nodeId pkt =>
    obtain ⟨ripd, n, -, hw⟩ := windowEndIn_eq_some hwe
    rw [hw]
    exact n.toNat_lt
  | retrieve | otherThreads => simp [LtpEvent.windowEnd] at hwe

theorem checkSequences_all_iff_missing {n : ℕ}
    (hkeys : ∀ i ∈ seqs.entries.map Prod.fst, 1 ≤ i ∧ i ≤ n) :
    (checkSequences seqs n).allFragmentsReceived = true ↔
      missing (seqs.entries.map Prod.fst) n = ∅ := by
  rw [checkSequences_all_iff]
  constructor
  · rintro ⟨heq, hle⟩
    rw [heq, Finset.eq_empty_iff_forall_notMem]
    intro i hi
    obtain ⟨hbound, hnot⟩ := mem_missing.1 hi
    rw [mem_range'_1] at hnot
    omega
  · intro hempty
    have hmem (i : ℕ) : i ∈ seqs.entries.map Prod.fst ↔ i ∈ range' 1 n := by
      rw [mem_range'_1]
      constructor
      · intro hi
        have := hkeys i hi
        omega
      · intro hi
        by_contra hnot
        have : i ∈ missing (seqs.entries.map Prod.fst) n := mem_missing.2 ⟨by omega, hnot⟩
        simp [hempty] at this
    have hsor : (seqs.entries.map Prod.fst).Pairwise (· < ·) := pairwise_map.2 seqs.sorted
    have hperm : (seqs.entries.map Prod.fst).Perm (range' 1 n) :=
      (perm_ext_iff_of_nodup (hsor.imp fun h => h.ne) (nodup_range' 1)).2 hmem
    have heq : seqs.entries.map Prod.fst = range' 1 n := by
      refine hperm.eq_of_pairwise ?_ hsor pairwise_lt_range'
      intro a b _ _ hab hba
      exact absurd hab hba.not_gt
    have hlen := congrArg length heq
    rw [length_map, length_range'] at hlen
    exact ⟨by rw [heq, hlen], hlen.ge⟩

/-- **When a CTRL-NACK reaches from the first to the last missing fragment**: unless several are
missing at one end only. -/
theorem nack_exact_iff (hwe : e.windowEnd l.nodeId = some w)
    (hfind : l.icnPacketBuffer.find w.rCId w.ripd w.nodeId w.sessionKey.toNat = some sequenceMap)
    (hne : sequenceMap ≠ ∅)
    (hkeys : ∀ i ∈ sequenceMap.entries.map Prod.fst, 1 ≤ i ∧ i ≤ w.sequenceNumber)
    (hmissing : (missing (sequenceMap.entries.map Prod.fst) w.sequenceNumber).Nonempty) :
    (l.Answers e → ∃ first last, LtpPublication.nacks (l.step e).published =
      [(w.sessionKey, first, last)]) ∧
    ∀ sessionKey first last, (sessionKey, first, last) ∈ LtpPublication.nacks (l.step e).published →
      (IsLeast (missing (sequenceMap.entries.map Prod.fst) w.sequenceNumber : Set ℕ) first.toNat ∧
        IsGreatest (missing (sequenceMap.entries.map Prod.fst) w.sequenceNumber : Set ℕ)
          last.toNat ↔
        ¬ OneSided (missing (sequenceMap.entries.map Prod.fst) w.sequenceNumber)
          w.sequenceNumber) := by
  have hbou := rangeBounds_checkSequences hne hkeys hmissing
  have hlt := sequenceNumber_lt hwe
  have hfirst := (mem_missing.1 hbou.first_mem).1
  have hlast := (mem_missing.1 hbou.last_mem).1
  have hansw (hans : l.Answers e) : LtpPublication.nacks (l.step e).published = [(w.sessionKey,
        UInt16.ofNat (checkSequences sequenceMap w.sequenceNumber).firstMissingSequence,
        UInt16.ofNat (checkSequences sequenceMap w.sequenceNumber).lastMissingSequence)] := by
    obtain ⟨hall, -⟩ | ⟨-, hnacks⟩ := answer_windowEnd hwe hfind hans rfl
    · exact absurd ((checkSequences_all_iff_missing hkeys).1 hall) hmissing.ne_empty
    · exact hnacks
  refine ⟨fun hans => ⟨_, _, hansw hans⟩, ?_⟩
  intro sessionKey first last hmem
  by_cases hans : l.Answers e
  · rw [hansw hans, mem_singleton] at hmem
    obtain ⟨-, rfl, rfl⟩ := hmem
    rw [UInt16.toNat_ofNat', UInt16.toNat_ofNat', Nat.mod_eq_of_lt (by omega),
      Nat.mod_eq_of_lt (by omega)]
    exact hbou.exact_iff
  · rw [nacks_of_not_answers hwe hfind hans] at hmem
    simp at hmem

def numbered (i : UInt16) : LtpEvent :=
  .publishedDataISub (fun _ => 0) 7 1 (LtpMessage.data 3 i 1 [0]).bytes

def bytesAt (numbers : List ℕ) : SequenceMap :=
  numbers.foldl (fun m i => m.set i ⟨some [0], 1⟩) ∅

/-- Of three fragments the second one is missing, and the CTRL-NACK asks for it. -/
theorem nack_exact_one_gap : LtpPublication.nacks
        ((forwarding.run [numbered 1, numbered 3]).step (ended 3)).published = [(3, 2, 2)] ∧
      IsLeast (missing ((bytesAt [1, 3]).entries.map Prod.fst) 3 : Set ℕ) 2 ∧
      IsGreatest (missing ((bytesAt [1, 3]).entries.map Prod.fst) 3 : Set ℕ) 2 := by
  have hnacks : LtpPublication.nacks
      ((forwarding.run [numbered 1, numbered 3]).step (ended 3)).published = [(3, 2, 2)] := by
    decide +kernel
  have hmis : missing ((bytesAt [1, 3]).entries.map Prod.fst) 3 = {2} := by decide
  have hnot : ¬ OneSided (missing ((bytesAt [1, 3]).entries.map Prod.fst) 3) 3 := by
    rw [hmis]
    rintro (⟨j, hj, h⟩ | ⟨j, hj, h⟩)
    · have : 1 ∈ ({2} : Finset ℕ) := h ▸ mem_Icc.2 (by omega)
      simp at this
    · have : 3 ∈ ({2} : Finset ℕ) := h ▸ mem_Icc.2 (by omega)
      simp at this
  have hfind : (forwarding.run [numbered 1, numbered 3]).icnPacketBuffer.find 7 0 1 3 =
      some (bytesAt [1, 3]) := by decide +kernel
  have hexact := nack_exact_iff (e := ended 3) (w := ⟨7, 0, 1, 3, 3⟩) rfl hfind (by decide)
    (by decide) (by rw [hmis]; exact Finset.singleton_nonempty 2)
  exact ⟨hnacks, (hexact.2 3 2 2 (by rw [hnacks]; exact mem_singleton.2 rfl)).2 hnot⟩

/-- Of three fragments only the first or the last was received: one of the two others is asked for.
-/
theorem not_nack_exact :
    (LtpPublication.nacks ((forwarding.run [numbered 1]).step (ended 3)).published = [(3, 3, 3)] ∧
      ¬ IsLeast (missing ((bytesAt [1]).entries.map Prod.fst) 3 : Set ℕ) 3) ∧
    (LtpPublication.nacks ((forwarding.run [numbered 3]).step (ended 3)).published = [(3, 1, 1)] ∧
      ¬ IsGreatest (missing ((bytesAt [3]).entries.map Prod.fst) 3 : Set ℕ) 1) := by
  refine ⟨⟨by decide +kernel, ?_⟩, by decide +kernel, ?_⟩
  · rintro ⟨-, hlowe⟩
    have hmem : 2 ∈ missing ((bytesAt [1]).entries.map Prod.fst) 3 := by decide
    exact absurd (hlowe hmem) (by decide)
  · rintro ⟨-, hupp⟩
    have hmem : 2 ∈ missing ((bytesAt [3]).entries.map Prod.fst) 3 := by decide
    exact absurd (hupp hmem) (by decide)

end

end Lightweight

end Blackadder
