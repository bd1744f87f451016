/-
**Compressed points of the packet-level authentication library.**

An element of the field with `2 ^ 163` elements is given by its coefficients in a normal basis, in
which rotating is squaring. `ec_solve_quad` solves `z ^ 2 + z = beta` by running sums, and a point
is compressed to its `x` coordinate and the first coefficient of `y / x`.
-/

import Mathlib.FieldTheory.Finite.GaloisField
import Mathlib.FieldTheory.Galois.NormalBasis

namespace Blackadder

abbrev GF := GaloisField 2 163

/-- The coefficients of an `elem_t`; the indices go round. `gnb_add` is `+`, and `gnb_one` is 1. -/
abbrev Elem := ZMod 163 → ZMod 2

namespace Elem

def rrotate (a : Elem) : Elem := fun j => a (j - 1)

/-- The loop of `ec_solve_quad`, on `prevbit` and `z`. -/
def solveStep (beta : Elem) (s : ZMod 2 × Elem) (i : ℕ) : ZMod 2 × Elem :=
  let prevbit := s.1 + beta i
  (prevbit, if prevbit ≠ 0 then Function.update s.2 i 1 else s.2)

def ecSolveQuad (beta : Elem) : Elem :=
  let z := ((List.range' 1 162).foldl (solveStep beta) (0, 0)).2
  if beta = rrotate z + z then z else 0

section
variable (mul : Elem → Elem → Elem) (inv : Elem → Elem)

def ecCompressPoint (p : Elem × Elem) : ZMod 2 := mul (inv p.1) p.2 0

def ecDecompressPoint (x : Elem) (y : ZMod 2) : Elem × Elem :=
  let beta := rrotate x
  let alpha := mul beta x + beta + 1
  let z := ecSolveQuad (mul alpha (inv beta))
  let z := if z 0 + y ≠ 0 then z + 1 else z
  (x, mul z x)

/-- The operations are the field's, in a normal basis. -/
structure NormalBasis where
  value : Elem →+ GF
  inj : Function.Injective value
  square (a : Elem) : value (rrotate a) = value a ^ 2
  mul (a b : Elem) : value (mul a b) = value a * value b
  inv (a : Elem) : value (inv a) = (value a)⁻¹

end

/-! ### Roots -/

theorem eq_one {c : ZMod 2} (h : c ≠ 0) : c = 1 := by
  revert c
  decide

variable {y b : Elem}

/-- If there is a root whose first coefficient is 0, the loop computes it. -/
theorem foldl_solveStep (h : rrotate y + y = b) (h0 : y 0 = 0) {n : ℕ} (hn : n < 163) :
    (List.range' 1 n).foldl (solveStep b) (0, 0) =
      (y n, fun j => if j.val ≤ n then y j else 0) := by
  induction n with
  | zero =>
    refine Prod.ext (by simp [h0]) (funext fun j => ?_)
    by_cases hj : j = 0 <;> simp [hj, h0]
  | succ n ih =>
    have hnext : y n + b (n + 1 : ℕ) = y (n + 1 : ℕ) := by
      rw [← h, Pi.add_apply, rrotate, Nat.cast_succ, add_sub_cancel_right, ← add_assoc,
        CharTwo.add_self_eq_zero, zero_add]
    rw [List.range'_1_concat, List.foldl_concat, ih (by omega), solveStep, Nat.add_comm 1 n, hnext]
    refine Prod.ext rfl (funext fun j => ?_)
    have hval : ((n + 1 : ℕ) : ZMod 163).val = n + 1 := ZMod.val_cast_of_lt hn
    generalize ((n + 1 : ℕ) : ZMod 163) = m at hval
    by_cases hj : j = m
    · subst hj
      by_cases hy : y j = 0
      · simp [hy]
      · simp [hval, eq_one hy]
    · have hne : j.val ≠ n + 1 := fun heq => hj (ZMod.val_injective 163 (heq.trans hval.symm))
      have hle : j.val ≤ n + 1 ↔ j.val ≤ n := by omega
      split_ifs <;> simp_all

theorem ecSolveQuad_of_root (h : rrotate y + y = b) :
    ecSolveQuad b = (fun j => y j + y 0) ∧ rrotate (ecSolveQuad b) + ecSolveQuad b = b := by
  have hroot : rrotate (fun j => y j + y 0) + (fun j => y j + y 0) = b := by
    rw [← h]
    funext j
    have htwo : y 0 + y 0 = 0 := CharTwo.add_self_eq_zero _
    simp only [Pi.add_apply, rrotate]
    linear_combination htwo
  have hloop := foldl_solveStep hroot (CharTwo.add_self_eq_zero _) (by decide : 162 < 163)
  have hall : ∀ j : ZMod 163, j.val ≤ 162 := fun j => Nat.le_of_lt_succ j.val_lt
  have heq : ecSolveQuad b = fun j => y j + y 0 := by
    rw [ecSolveQuad, hloop]
    simp only [hall, if_true]
    rw [if_pos hroot.symm]
  exact ⟨heq, heq ▸ hroot⟩

/-- The other root has the other first coefficient. -/
theorem eq_of_first (h : rrotate y + y = b) :
    (if ecSolveQuad b 0 + y 0 ≠ 0 then ecSolveQuad b + 1 else ecSolveQuad b) = y := by
  have htwo : (1 + 1 : ZMod 2) = 0 := CharTwo.add_self_eq_zero 1
  rw [(ecSolveQuad_of_root h).1]
  funext j
  by_cases h0 : y 0 = 0
  · simp [h0]
  · simp [eq_one h0, htwo, add_assoc]

namespace NormalBasis

variable {mul : Elem → Elem → Elem} {inv : Elem → Elem} (N : NormalBasis mul inv)

theorem root_iff : N.value y ^ 2 + N.value y = N.value b ↔ rrotate y + y = b := by
  rw [← N.square, ← map_add, N.inj.eq_iff]

theorem value_one : N.value 1 = 1 := by
  have hne : N.value 1 ≠ 0 := (map_ne_zero_iff N.value N.inj).2 one_ne_zero
  exact (mul_eq_left₀ hne).1 ((sq _).symm.trans (N.square 1).symm)

/-- **Points are decompressed to themselves**, and a quadratic equation with a root is solved. -/
theorem decompress_compress :
    (∀ x y, x ≠ 0 → N.value y ^ 2 + N.value x * N.value y = N.value x ^ 3 + N.value x ^ 2 + 1 →
      ecDecompressPoint mul inv x (ecCompressPoint mul inv (x, y)) = (x, y)) ∧
    ∀ b, ((∃ y, N.value y ^ 2 + N.value y = N.value b) →
        N.value (ecSolveQuad b) ^ 2 + N.value (ecSolveQuad b) = N.value b ∧ ecSolveQuad b 0 = 0) ∧
      ((∀ y, N.value y ^ 2 + N.value y ≠ N.value b) → ecSolveQuad b = 0) := by
  constructor
  · intro x y hx hcurve
    have hx0 : N.value x ≠ 0 := (map_ne_zero_iff N.value N.inj).2 hx
    have hroot : rrotate (mul (inv x) y) + mul (inv x) y =
        mul (mul (rrotate x) x + rrotate x + 1) (inv (rrotate x)) := by
      rw [← N.root_iff]
      simp only [N.mul, N.inv, map_add, N.square, N.value_one]
      rw [← pow_succ, ← hcurve]
      field_simp
    refine congrArg (x, ·) (N.inj ?_)
    rw [ecCompressPoint, eq_of_first hroot, N.mul, N.mul, N.inv]
    field_simp
  · intro b
    simp only [N.root_iff, ne_eq]
    refine ⟨?_, fun hnone => if_neg fun heq => hnone _ heq.symm⟩
    rintro ⟨y, hy⟩
    obtain ⟨heq, hroot⟩ := ecSolveQuad_of_root hy
    exact ⟨hroot, heq ▸ CharTwo.add_self_eq_zero (y 0)⟩

include N in
/-- **A decompressed point has the bit asked for** if `x ≠ 0`. -/
theorem compress_decompress (x : Elem) (c : ZMod 2) :
    ecCompressPoint mul inv (ecDecompressPoint mul inv x c) = c ↔ x ≠ 0 ∨ c = 0 := by
  rw [ecDecompressPoint, ecCompressPoint]
  by_cases hx : x = 0
  · have h0 : ∀ a, mul a 0 = 0 := fun a => N.inj (by simp [N.mul])
    simp [hx, h0, eq_comm]
  · have hx0 := (map_ne_zero_iff N.value N.inj).2 hx
    have hw : ∀ w, mul (inv x) (mul w x) = w := fun w => N.inj (by simp [N.mul, N.inv]; field_simp)
    have hb : ∀ a c : ZMod 2, (if a + c = 0 then a else a + 1) = c := by decide
    simp [hw, hx, ite_apply, hb]

/-! ### Existence -/

open FiniteField in
theorem exists_basis : ∃ B : Module.Basis (ZMod 163) (ZMod 2) GF, ∀ j, B j ^ 2 = B (j + 1) := by
  have hfin : Module.finrank (ZMod 2) GF = 163 := GaloisField.finrank 2 (by decide)
  let frob := frobeniusAlgEquivOfAlgebraic (ZMod 2) GF
  let e : ZMod 163 ≃ Gal(GF/ZMod 2) := (finCongr hfin.symm).trans
    (.ofBijective _ (bijective_frobeniusAlgEquivOfAlgebraic_pow (ZMod 2) GF))
  have he : ∀ j, e (j + 1) = frob * e j := by
    intro j
    change frob ^ (j + 1).val = frob * frob ^ j.val
    rw [← pow_succ', ← pow_mod_orderOf _ (j.val + 1), orderOf_frobeniusAlgEquivOfAlgebraic, hfin]
    rfl
  refine ⟨(IsGalois.normalBasis (ZMod 2) GF).reindex e.symm, fun j => ?_⟩
  rw [Module.Basis.reindex_apply, Module.Basis.reindex_apply, Equiv.symm_symm, he,
    IsGalois.normalBasis_apply, IsGalois.normalBasis_apply (_ * _)]
  rfl

theorem exists_normalBasis : ∃ mul inv, Nonempty (NormalBasis mul inv) := by
  obtain ⟨B, hB⟩ := exists_basis
  let e := B.equivFun
  refine ⟨fun a b => e (e.symm a * e.symm b), fun a => e (e.symm a)⁻¹, ⟨⟨e.symm, e.symm.injective,
    fun a => ?_, fun a b => e.symm_apply_apply _, fun a => e.symm_apply_apply _⟩⟩⟩
  change e.symm (rrotate a) = e.symm a ^ 2
  rw [Module.Basis.equivFun_symm_apply, Module.Basis.equivFun_symm_apply, CharTwo.sum_sq]
  refine Fintype.sum_equiv (Equiv.subRight 1) _ _ fun j => ?_
  have hsq : ∀ c : ZMod 2, c ^ 2 = c := by decide
  rw [Equiv.subRight_apply, rrotate, smul_pow, hB, sub_add_cancel, hsq]

end NormalBasis

end Elem

end Blackadder
