/-
**The round-trip times.**

`_rtt(x)` cuts the list to the configured `N` entries and then puts the sample in front, so that
there are `N + 1` of them. `_rtt()` divides their sum by `N`: the mean of equal samples is larger
than each.
-/

import Mathlib.Algebra.Order.BigOperators.Group.List
import Mathlib.Algebra.Order.Ring.Nat
import Mathlib.Data.List.Induction

namespace Blackadder

open List

abbrev RttList := List UInt16

namespace RttList

/-- The loop of the constructor of `Lightweight`. The counter has 16 bits. -/
def fill (ltpRttListSize : ℕ) : ℕ → ℕ → RttList → Option RttList
  | 0, _, _ => none
  | fuel + 1, rttListSize, rtts =>
    if rttListSize < ltpRttListSize then
      fill ltpRttListSize fuel ((rttListSize + 1) % 65536) (200 :: rtts)
    else some rtts

def resize (rtts : RttList) (size : ℕ) : RttList :=
  rtts.take size ++ List.replicate (size - rtts.length) 0

def sample (rtt : UInt16) : UInt16 := if rtt = 0 then 1 else rtt

def store (ltpRttListSize : ℕ) (rtts : RttList) (rtt : UInt16) : RttList :=
  sample rtt :: rtts.resize ltpRttListSize

/-- `_rtt()`, with a sum of 32 bits and a division of integers. -/
def rtt (ltpRttListSize : ℕ) (rtts : RttList) : Option UInt16 :=
  let rtt := rtts.foldl (fun rtt x => (rtt + x.toNat) % 4294967296) 0
  if ltpRttListSize = 0 then none else some (UInt16.ofNat (rtt / ltpRttListSize))

def recent (samples : List UInt16) : List UInt16 := (samples.map sample).reverse

/-- The samples that the list should hold. -/
def held (n : ℕ) (samples : List UInt16) : List UInt16 := (recent samples).take n

/-- The mean lies between the least and the greatest of the last `n` samples. -/
def Between (n : ℕ) (samples : List UInt16) (rtts : RttList) : Prop :=
  ∃ mean, rtt n rtts = some mean ∧ (∃ x ∈ held n samples, x ≤ mean) ∧ ∃ y ∈ held n samples, mean ≤ y

/-- The list has the last `n` samples and no more, and the mean lies between them. -/
structure Window (n : ℕ) (samples : List UInt16) (rtts : RttList) : Prop where
  held : rtts = held n samples
  between : Between n samples rtts

/-! ### The list -/

section
variable {n : ℕ} {rtts : RttList}

theorem fill_of_le (hn : n ≤ 65535) (fuel count : ℕ) (rtts : RttList) (h : count + fuel = n) :
    fill n (fuel + 1) count rtts = some (List.replicate fuel 200 ++ rtts) := by
  induction fuel generalizing count rtts with
  | zero => rw [fill, if_neg (by omega), replicate_zero, nil_append]
  | succ fuel ih =>
    rw [fill, if_pos (by omega), ih _ _ (by omega), replicate_succ', append_assoc, singleton_append]

theorem le_of_fill (fuel count : ℕ) (start : RttList) (hcount : count ≤ 65535)
    (h : fill n fuel count start = some rtts) :
    n ≤ 65535 ∧ (count ≤ n → rtts = List.replicate (n - count) 200 ++ start) := by
  induction fuel generalizing count start with
  | zero => cases h
  | succ fuel ih =>
    rw [fill] at h
    split at h
    case isTrue hlt =>
      obtain ⟨hn, heq⟩ := ih _ _ (by omega) h
      refine ⟨hn, fun _ => ?_⟩
      rw [Nat.mod_eq_of_lt (by omega)] at heq
      rw [heq (by omega), show n - count = n - (count + 1) + 1 by omega, replicate_succ',
        append_assoc, singleton_append]
    case isFalse hge =>
      obtain rfl := Option.some.inj h
      refine ⟨by omega, fun hle => ?_⟩
      rw [show n - count = 0 by omega, replicate_zero, nil_append]

theorem fill_iff : (∃ fuel, fill n fuel 0 [] = some rtts) ↔
    n ≤ 65535 ∧ rtts = List.replicate n 200 := by
  constructor
  · rintro ⟨fuel, h⟩
    obtain ⟨hn, heq⟩ := le_of_fill fuel 0 [] (by omega) h
    exact ⟨hn, by simpa using heq⟩
  · rintro ⟨hn, rfl⟩
    exact ⟨n + 1, by simpa using fill_of_le hn n 0 [] (by omega)⟩

section
variable (n : ℕ) (samples : List UInt16)

def contents : RttList :=
  (recent samples ++ List.replicate n 200).take (n + 1)

theorem length_contents :
    n ≤ (contents n samples).length ∧ (contents n samples).length ≤ n + 1 := by
  rw [contents, length_take, length_append, length_replicate]
  omega

theorem foldl_store : samples.foldl (store n) (List.replicate n 200) = contents n samples := by
  induction samples using reverseRecOn with
  | nil => simp [contents, recent]
  | append_singleton samples x ih =>
    have hlen := (length_contents n samples).1
    have hrec : recent (samples ++ [x]) = sample x :: recent samples := by simp [recent]
    rw [foldl_append, ih, foldl_cons, foldl_nil, store, resize,
      Nat.sub_eq_zero_of_le hlen, replicate_zero, append_nil]
    rw [contents, contents, hrec, cons_append, take_succ_cons, take_take,
      Nat.min_eq_left (Nat.le_succ n)]

/-- The list has an entry more than it should, or it has initial values. -/
theorem contents_ne_held (hn : 0 < n) : contents n samples ≠ held n samples := by
  intro heq
  have hlen := congrArg length heq
  rw [contents, held, length_take, length_take, length_append, length_replicate] at hlen
  omega

theorem mem_contents_of_mem_held {x : UInt16} (hx : x ∈ held n samples) : x ∈ contents n samples := by
  rw [contents, take_append]
  exact mem_append_left _ ((take_sublist_take_left (Nat.le_succ n)).subset hx)

end

end

/-! ### The mean -/

def total (rtts : RttList) : ℕ := (rtts.map UInt16.toNat).sum

section
variable {n : ℕ} {rtts : RttList} {x : UInt16}

theorem foldl_sum (rtts : RttList) (acc : ℕ) (h : acc + total rtts < 4294967296) :
    rtts.foldl (fun rtt x => (rtt + x.toNat) % 4294967296) acc = acc + total rtts := by
  induction rtts generalizing acc with
  | nil => rfl
  | cons x rtts ih =>
    rw [total, map_cons, sum_cons, ← total] at h ⊢
    rw [foldl_cons, Nat.mod_eq_of_lt (by omega), ih _ (by omega), Nat.add_assoc]

theorem total_le_of_mem (hx : x ∈ rtts) : total rtts + 65535 ≤ x.toNat + rtts.length * 65535 := by
  have hall (rtts : RttList) : total rtts ≤ rtts.length * 65535 := by
    have := sum_le_card_nsmul (rtts.map UInt16.toNat) 65535 (by
      intro k hk
      obtain ⟨y, -, rfl⟩ := mem_map.1 hk
      exact Nat.le_of_lt_succ y.toNat_lt)
    simpa [total] using this
  induction rtts with
  | nil => cases hx
  | cons y rtts ih =>
    rw [total, map_cons, sum_cons, ← total, length_cons]
    obtain rfl | hx := mem_cons.1 hx
    · have := hall rtts
      omega
    · have := ih hx
      have := y.toNat_lt
      omega

/-- The mean is compared before it is cut to 16 bits: one that does not fit is cut to less than every
entry. -/
theorem between_iff (hsize : n ≤ 65535) (samples : List UInt16) :
    Between n samples (contents n samples) ↔
      (∃ x ∈ held n samples, n * x.toNat ≤ total (contents n samples)) ∧
        ∃ y ∈ held n samples, total (contents n samples) < n * (y.toNat + 1) := by
  obtain rfl | hn := Nat.eq_zero_or_pos n
  · simp [Between, rtt]
  have hsum (x : UInt16) (hx : x ∈ held n samples) :
      total (contents n samples) ≤ x.toNat + n * 65535 := by
    have hle := total_le_of_mem (mem_contents_of_mem_held n samples hx)
    have := Nat.mul_le_mul_right 65535 (length_contents n samples).2
    omega
  have hmean (x : UInt16) (hx : x ∈ held n samples) : rtt n (contents n samples) =
      some (UInt16.ofNat (total (contents n samples) / n)) := by
    have := hsum x hx
    have := x.toNat_lt
    rw [rtt, if_neg hn.ne', foldl_sum _ 0 (by omega), Nat.zero_add]
  have hvalue : (UInt16.ofNat (total (contents n samples) / n)).toNat =
      total (contents n samples) / n % 65536 := UInt16.toNat_ofNat'
  constructor
  · rintro ⟨mean, heq, ⟨x, hx, hle⟩, y, hy, hle'⟩
    obtain rfl := Option.some.inj ((hmean x hx).symm.trans heq)
    rw [UInt16.le_iff_toNat_le, hvalue] at hle hle'
    have hfits : total (contents n samples) / n < 65536 := by
      by_contra hlarge
      have hwrap : x.toNat + 65536 ≤ total (contents n samples) / n := by omega
      have hmul := (Nat.le_div_iff_mul_le hn).1 hwrap
      have hx' : x.toNat ≤ x.toNat * n := Nat.le_mul_of_pos_right _ hn
      have := hsum x hx
      rw [Nat.add_mul] at hmul
      omega
    rw [Nat.mod_eq_of_lt hfits] at hle hle'
    refine ⟨⟨x, hx, ?_⟩, y, hy, ?_⟩
    · rwa [mul_comm, ← Nat.le_div_iff_mul_le hn]
    · rw [mul_comm, ← Nat.div_lt_iff_lt_mul hn]
      omega
  · rintro ⟨⟨x, hx, hle⟩, y, hy, hlt⟩
    rw [mul_comm, ← Nat.le_div_iff_mul_le hn] at hle
    rw [mul_comm, ← Nat.div_lt_iff_lt_mul hn] at hlt
    have hfits : total (contents n samples) / n % 65536 = total (contents n samples) / n :=
      Nat.mod_eq_of_lt (by have := y.toNat_lt; omega)
    refine ⟨_, hmean x hx, ⟨x, hx, ?_⟩, y, hy, ?_⟩
    · rwa [UInt16.le_iff_toNat_le, hvalue, hfits]
    · rw [UInt16.le_iff_toNat_le, hvalue]
      omega

end

/-- **The list is never a window on the samples**: it starts full, and then has one entry more than
`n`. The mean lies between the last samples if and only if the sum of all entries does, divided by
`n`. -/
theorem not_window (n : ℕ) (samples : List UInt16) :
    (¬ ∃ fuel rtts, fill n fuel 0 [] = some rtts ∧ Window n samples (samples.foldl (store n) rtts)) ∧
    ((∃ fuel rtts, fill n fuel 0 [] = some rtts ∧ Between n samples (samples.foldl (store n) rtts)) ↔
      n ≤ 65535 ∧ (∃ x ∈ held n samples, n * x.toNat ≤ total (contents n samples)) ∧
        ∃ y ∈ held n samples, total (contents n samples) < n * (y.toNat + 1)) := by
  have hfilled (Q : RttList → Prop) : (∃ fuel rtts, fill n fuel 0 [] = some rtts ∧
      Q (samples.foldl (store n) rtts)) ↔ n ≤ 65535 ∧ Q (contents n samples) := by
    rw [← foldl_store]
    constructor
    · rintro ⟨fuel, rtts, hfill, hQ⟩
      obtain ⟨hn, rfl⟩ := fill_iff.1 ⟨fuel, hfill⟩
      exact ⟨hn, hQ⟩
    · rintro ⟨hn, hQ⟩
      obtain ⟨fuel, hfill⟩ := fill_iff.2 ⟨hn, rfl⟩
      exact ⟨fuel, _, hfill, hQ⟩
  rw [hfilled, hfilled]
  refine ⟨?_, and_congr_right fun hn => between_iff hn samples⟩
  rintro ⟨-, hwindow⟩
  obtain rfl | hn := Nat.eq_zero_or_pos n
  · obtain ⟨mean, hmean, -⟩ := hwindow.between
    cases hmean
  · exact contents_ne_held n samples hn hwindow.held

/-- Eleven samples of 100 fill the list of length 10, with a mean of 110. -/
theorem not_window_equal_samples :
    let rtts := (List.replicate 11 100).foldl (store 10) (List.replicate 10 200)
    fill 10 11 0 [] = some (List.replicate 10 200) ∧ rtts = List.replicate 11 100 ∧
      rtt 10 rtts = some 110 ∧ ¬ Between 10 (List.replicate 11 100) rtts ∧
      ¬ Window 10 (List.replicate 11 100) rtts := by
  intro rtts
  have hmean : rtt 10 rtts = some 110 := by decide +kernel
  have hbetween : ¬ Between 10 (replicate 11 100) rtts := by
    rintro ⟨mean, heq, -, y, hy, hle⟩
    obtain rfl := Option.some.inj (hmean.symm.trans heq)
    rw [eq_of_mem_replicate (show y ∈ replicate 10 100 from hy)] at hle
    exact absurd hle (by decide)
  exact ⟨by decide, by decide +kernel, hmean, hbetween, fun h => hbetween h.between⟩

end RttList

end Blackadder
