/-
**Sets of bits, kept in bytes.**

A vector of `n` bytes is a set of numbers below `8 * n`: the number `i` is bit `i % 8` of byte `i /
8`. All that is said about the operations is said through `Bits.bit`, which reads one bit.
-/

import Mathlib.Data.Vector.Basic
import Mathlib.Data.Nat.Bitwise

namespace Bits

open List.Vector List

variable {n : ℕ} {v w : List.Vector UInt8 n} {i k : ℕ}

/-! ### Bits -/

/-- Bit `i`; the lowest bit of a byte comes first. -/
def bit (v : List.Vector UInt8 n) (i : ℕ) : Bool :=
  (v.toList.getD (i / 8) 0).toNat.testBit (i % 8)

theorem bit_eq_false_of_le (hi : 8 * n ≤ i) : bit v i = false := by
  have hlen : v.toList.length ≤ i / 8 := by
    rw [v.toList_length]
    omega
  rw [bit, getD_eq_default _ _ hlen]
  exact Nat.zero_testBit _

theorem bit_eq_testBit (j : Fin n) (hi : i / 8 = j) : bit v i = (v.get j).toNat.testBit (i % 8) := by
  rw [bit, get_eq_get_toList]
  simp [hi]

theorem ext (hvw : ∀ i, i < 8 * n → bit v i = bit w i) : v = w := by
  refine List.Vector.ext fun j => UInt8.toNat_inj.1 (Nat.eq_of_testBit_eq fun k => ?_)
  rcases Nat.lt_or_ge k 8 with hk | hk
  · have hj := j.isLt
    have hbit := hvw (8 * j + k) (by omega)
    rw [bit_eq_testBit j (by omega), bit_eq_testBit j (by omega)] at hbit
    rwa [show (8 * j + k) % 8 = k by omega] at hbit
  · have hbig : ∀ a : UInt8, a.toNat.testBit k = false := fun a =>
      Nat.testBit_lt_two_pow (a.toNat_lt.trans_le (Nat.pow_le_pow_right (by omega) hk))
    rw [hbig, hbig]

/-! ### Operations -/

def zeros (n : ℕ) : List.Vector UInt8 n := List.Vector.replicate n 0

def or (v w : List.Vector UInt8 n) : List.Vector UInt8 n :=
  List.Vector.map₂ (fun a b => a ||| b) v w

def and (v w : List.Vector UInt8 n) : List.Vector UInt8 n :=
  List.Vector.map₂ (fun a b => a &&& b) v w

def neg (v : List.Vector UInt8 n) : List.Vector UInt8 n := v.map fun a => ~~~ a

def setBit (v : List.Vector UInt8 n) (k : ℕ) : List.Vector UInt8 n :=
  List.Vector.ofFn fun j =>
    if (j : ℕ) = k / 8 then v.get j ||| UInt8.ofNat (2 ^ (k % 8)) else v.get j

theorem bit_of_get {f : UInt8 → UInt8 → UInt8} {g : Bool → Bool → Bool} {u : List.Vector UInt8 n}
    (hu : ∀ j, u.get j = f (v.get j) (w.get j)) (hg : g false false = false)
    (hfg : ∀ a b k, k < 8 → (f a b).toNat.testBit k = g (a.toNat.testBit k) (b.toNat.testBit k)) :
    bit u i = g (bit v i) (bit w i) := by
  rcases Nat.lt_or_ge i (8 * n) with hi | hi
  · have hj : i / 8 < n := by omega
    have hget : ∀ x : List.Vector UInt8 n, bit x i = (x.get ⟨i / 8, hj⟩).toNat.testBit (i % 8) :=
      fun x => bit_eq_testBit _ rfl
    rw [hget u, hget v, hget w, hu, hfg _ _ _ (Nat.mod_lt i (by omega))]
  · rw [bit_eq_false_of_le hi, bit_eq_false_of_le hi, bit_eq_false_of_le hi, hg]

@[simp] theorem bit_zeros : bit (zeros n) i = false := by
  have hlist : (zeros n).toList = List.replicate n 0 := rfl
  have hbyte : (zeros n).toList.getD (i / 8) 0 = 0 := by
    rw [hlist, getD_eq_getElem?_getD, getElem?_replicate]
    split <;> rfl
  rw [bit, hbyte]
  exact Nat.zero_testBit _

@[simp] theorem bit_or : bit (or v w) i = (bit v i || bit w i) := by
  refine bit_of_get (f := fun a b => a ||| b) (fun j => by simp [or]) rfl fun a b k _ => ?_
  rw [UInt8.toNat_or, Nat.testBit_or]

@[simp] theorem bit_and : bit (and v w) i = (bit v i && bit w i) := by
  refine bit_of_get (f := fun a b => a &&& b) (fun j => by simp [and]) rfl fun a b k _ => ?_
  rw [UInt8.toNat_and, Nat.testBit_and]

theorem neg_get (j : Fin n) : (neg v).get j = ~~~ v.get j := by simp [neg]

theorem bit_neg (hi : i < 8 * n) : bit (neg v) i = !bit v i := by
  have hj : i / 8 < n := by omega
  rw [bit_eq_testBit ⟨i / 8, hj⟩ rfl, bit_eq_testBit ⟨i / 8, hj⟩ rfl, neg_get]
  have hmod : i % 8 < 8 := Nat.mod_lt i (by omega)
  rw [← UInt8.toNat_toBitVec, ← UInt8.toNat_toBitVec, UInt8.toBitVec_not, BitVec.testBit_toNat,
    BitVec.testBit_toNat]
  simp [hmod]

theorem bit_setBit (hk : k < 8 * n) : bit (setBit v k) i = (decide (i = k) || bit v i) := by
  rcases Nat.lt_or_ge i (8 * n) with hi | hi
  · have hj : i / 8 < n := by omega
    rw [bit_eq_testBit ⟨i / 8, hj⟩ rfl, bit_eq_testBit ⟨i / 8, hj⟩ rfl, setBit, List.Vector.get_ofFn]
    by_cases hbyte : i / 8 = k / 8
    · have hpow : 2 ^ (k % 8) < 256 :=
        (Nat.pow_lt_pow_iff_right (by omega)).2 (Nat.mod_lt k (by omega) : k % 8 < 8)
      have hiff : k % 8 = i % 8 ↔ i = k := by omega
      rw [if_pos hbyte, UInt8.toNat_or, Nat.testBit_or, UInt8.toNat_ofNat', Nat.mod_eq_of_lt hpow,
        Nat.testBit_two_pow, decide_eq_decide.2 hiff, Bool.or_comm]
    · have hne : i ≠ k := fun h => hbyte (h ▸ rfl)
      rw [if_neg hbyte, decide_eq_false hne, Bool.false_or]
  · have hne : i ≠ k := by omega
    rw [bit_eq_false_of_le hi, bit_eq_false_of_le hi, decide_eq_false hne, Bool.false_or]

/-! ### Tests -/

def isZero (v : List.Vector UInt8 n) : Bool := v.toList.all fun a => a == 0

/-- All bits of `w` are set in `v`: the intersection of the two is `w`. -/
def Contains (v w : List.Vector UInt8 n) : Prop := and v w = w

instance (v w : List.Vector UInt8 n) : Decidable (Contains v w) :=
  inferInstanceAs (Decidable (and v w = w))

theorem contains_iff : Contains v w ↔ ∀ i, bit w i = true → bit v i = true := by
  constructor
  · intro hvw i hi
    rw [← hvw, bit_and, Bool.and_eq_true] at hi
    exact hi.1
  · intro hvw
    refine ext fun i _ => ?_
    rw [bit_and]
    cases hw : bit w i with
    | false => rw [Bool.and_false]
    | true => rw [hvw i hw, Bool.and_true]

theorem contains_refl (v : List.Vector UInt8 n) : Contains v v := contains_iff.2 fun _ hi => hi

theorem eq_zeros_of_contains (h : Contains (zeros n) w) : w = zeros n := by
  refine ext fun i _ => ?_
  rw [bit_zeros, ← Bool.not_eq_true]
  intro hi
  have hzero := contains_iff.1 h i hi
  rw [bit_zeros] at hzero
  cases hzero

theorem isZero_iff_eq : isZero v = true ↔ v = zeros n := by
  rw [isZero, all_eq_true]
  constructor
  · intro hall
    refine List.Vector.ext fun j => ?_
    have hmem : v.get j ∈ v.toList := by
      exact List.get_mem _ _
    rw [beq_iff_eq.1 (hall _ hmem), zeros, get_replicate]
  · intro hv a ha
    rw [hv] at ha
    exact beq_iff_eq.2 (eq_of_mem_replicate ha)

theorem isZero_iff : isZero v = true ↔ ∀ i, bit v i = false := by
  rw [isZero_iff_eq]
  constructor
  · intro hv i
    rw [hv, bit_zeros]
  · intro hv
    refine ext fun i _ => ?_
    rw [hv i, bit_zeros]

theorem isZero_neg_iff : isZero (neg v) = true ↔ ∀ i, i < 8 * n → bit v i = true := by
  rw [isZero_iff]
  constructor
  · intro hv i hi
    have hbit := hv i
    rw [bit_neg hi] at hbit
    simpa using hbit
  · intro hv i
    rcases Nat.lt_or_ge i (8 * n) with hi | hi
    · rw [bit_neg hi, hv i hi]
      rfl
    · exact bit_eq_false_of_le hi

/-! ### Unions of lists -/

def orAll (v : List.Vector UInt8 n) (l : List (List.Vector UInt8 n)) : List.Vector UInt8 n :=
  l.foldl or v

theorem bit_orAll (l : List (List.Vector UInt8 n)) :
    bit (orAll v l) i = true ↔ bit v i = true ∨ ∃ w ∈ l, bit w i = true := by
  induction l generalizing v with
  | nil => simp [orAll]
  | cons x l ih =>
    have hcons : orAll v (x :: l) = orAll (or v x) l := rfl
    rw [hcons, ih, bit_or, Bool.or_eq_true, or_assoc]
    simp

theorem contains_orAll {l : List (List.Vector UInt8 n)} (hw : w ∈ l) : Contains (orAll v l) w :=
  contains_iff.2 fun _ hi => (bit_orAll l).2 (Or.inr ⟨w, hw, hi⟩)

/-! ### Single bits -/

def single (n k : ℕ) : List.Vector UInt8 n := setBit (zeros n) k

theorem bit_single (hk : k < 8 * n) : bit (single n k) i = decide (i = k) := by
  rw [single, bit_setBit hk, bit_zeros, Bool.or_false]

theorem contains_single (hk : k < 8 * n) : Contains v (single n k) ↔ bit v k = true := by
  rw [contains_iff]
  constructor
  · intro hv
    refine hv k ?_
    rw [bit_single hk, decide_eq_true rfl]
  · intro hv i hi
    rw [bit_single hk, decide_eq_true_iff] at hi
    rwa [hi]

def IsSingle (v : List.Vector UInt8 n) : Prop := ∃ k, k < 8 * n ∧ v = single n k

theorem IsSingle.ne_zeros (h : IsSingle v) : v ≠ zeros n := by
  obtain ⟨k, hk, rfl⟩ := h
  intro hzero
  have hbit : bit (single n k) k = false := by rw [hzero, bit_zeros]
  rw [bit_single hk, decide_eq_true rfl] at hbit
  cases hbit

theorem contains_orAll_iff {l : List (List.Vector UInt8 n)} (hl : ∀ x ∈ l, IsSingle x)
    (hw : IsSingle w) : Contains (orAll (zeros n) l) w ↔ w ∈ l := by
  obtain ⟨k, hk, rfl⟩ := hw
  refine ⟨fun hin => ?_, contains_orAll⟩
  rw [contains_single hk, bit_orAll, bit_zeros] at hin
  rcases hin with hzero | ⟨x, hx, hbit⟩
  · cases hzero
  · obtain ⟨j, hj, rfl⟩ := hl x hx
    rw [bit_single hj, decide_eq_true_iff] at hbit
    rwa [hbit]

theorem isZero_neg_of_not_contains (hw : IsSingle w) (hin : ¬ Contains v w) :
    isZero (neg v) = false := by
  obtain ⟨k, hk, rfl⟩ := hw
  rw [contains_single hk] at hin
  rw [← Bool.not_eq_true, isZero_neg_iff]
  exact fun hall => hin (hall k hk)

end Bits
