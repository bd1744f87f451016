/-
**Multiplying a point by the tau-adic method.**

`ec_multiply_tau` of the packet-level authentication library multiplies by `r0 + r1 * t`, where `t`
is the Frobenius map of the curve: a step takes off a digit and divides by `t`.
-/

import Mathlib.Tactic.Linarith
import Mathlib.Tactic.Module

namespace Blackadder

/-- The points and the integers of `ec_multiply_tau`. -/
structure TauLoop (G : Type*) where
  q : G
  p : G
  r0 : ℤ
  r1 : ℤ

namespace TauLoop

variable {G : Type*} [AddCommGroup G] (t : G →+ G) (s : TauLoop G)

/-- The loop's body; `t` is the rotation of the coordinates. -/
def body : TauLoop G :=
  let u := 2 - (s.r0 - s.r1 * 2) % 4
  let s :=
    if s.r0 % 2 = 1 then
      if u = 1 then { s with r0 := s.r0 - 1, q := s.q + s.p }
      else if u = -1 then { s with r0 := s.r0 + 1, q := s.q - s.p }
      else s
    else s
  { s with p := t s.p, r0 := s.r1 + s.r0 / 2, r1 := -(s.r0 / 2) }

/-- The main loop, and the point that it leaves in `q`. -/
def loop : ℕ → TauLoop G → Option G
  | 0, _ => none
  | fuel + 1, s => if s.r0 ≠ 0 ∨ s.r1 ≠ 0 then loop fuel (s.body t) else some s.q

/-- The norm of `r0 + r1 * t`, for `t ^ 2 = t - 2`. -/
def norm (r0 r1 : ℤ) : ℤ := r0 * r0 + r0 * r1 + 2 * r1 * r1

/-- Twice the norm, and one more while the next digit is not zero. -/
def rank : ℕ := (2 * norm s.r0 s.r1 + s.r0 % 2).toNat

theorem one_le_mul_self {m : ℤ} (h : m ≠ 0) : 1 ≤ m * m := Int.add_one_le_of_lt (mul_self_pos.2 h)

/-- Four times the rest of a number without its digit, completed to a square. -/
theorem eight_le {k r d : ℤ} (hd : d = 1 ∨ d = -1) (h : (r + k) % 2 = 0) :
    8 ≤ (4 * k + r + 4 * d) * (4 * k + r + 4 * d) + 7 * (r * r) := by
  by_cases hodd : r % 2 = 1
  · have hm := one_le_mul_self (m := 4 * k + r + 4 * d) (by omega)
    have hr := one_le_mul_self (m := r) (by omega)
    omega
  · obtain ⟨n, rfl⟩ : ∃ n, r = 2 * n := ⟨r / 2, by omega⟩
    rcases eq_or_ne n 0 with rfl | hn
    · have hm := one_le_mul_self (m := k + d) (by omega)
      linarith
    · linarith [one_le_mul_self hn, mul_self_nonneg (4 * k + 2 * n + 4 * d)]

variable {t s}

/-- A step takes off a digit `d` and divides by `t`. After a digit that is not zero the next one
is zero, so that the rank becomes smaller also where the norm does not. -/
theorem body_spec (h : s.r0 ≠ 0 ∨ s.r1 ≠ 0) : ∃ d k : ℤ, s.r0 = 2 * k + d ∧
    s.body t = ⟨s.q + d • s.p, t s.p, s.r1 + k, -k⟩ ∧ (s.body t).rank < s.rank := by
  obtain ⟨q, p, r, r1⟩ := s
  simp only at h
  obtain ⟨d, k, rfl, hd, hbody⟩ : ∃ d k : ℤ, r = 2 * k + d ∧
      (d = 0 ∨ (d = 1 ∨ d = -1) ∧ (r1 + k) % 2 = 0) ∧
      body t ⟨q, p, r, r1⟩ = ⟨q + d • p, t p, r1 + k, -k⟩ := by
    simp only [body]
    split_ifs with hodd h1 h2
    · exact ⟨1, (r - 1) / 2, by omega, by omega, by simp⟩
    · exact ⟨-1, (r + 1) / 2, by omega, by omega, by simp [sub_eq_add_neg]⟩
    · omega
    · exact ⟨0, r / 2, by omega, by omega, by simp⟩
  refine ⟨d, k, rfl, hbody, ?_⟩
  rw [hbody, rank, rank]
  have hnew : 8 * norm (r1 + k) (-k) = (4 * k + r1) * (4 * k + r1) + 7 * (r1 * r1) := by
    rw [norm]
    ring
  have hold : norm (2 * k + d) r1 = 2 * norm (r1 + k) (-k) + d * (4 * k + r1) + d * d := by
    rw [norm, norm]
    ring
  simp only [hold]
  rcases hd with rfl | ⟨hd, heven⟩
  · have hpos : 0 < norm (r1 + k) (-k) := by
      rcases eq_or_ne r1 0 with rfl | hr
      · linarith [one_le_mul_self (m := k) (by omega)]
      · linarith [one_le_mul_self hr, mul_self_nonneg (4 * k + r1)]
    omega
  · have h8 := eight_le hd heven
    have hdd : d * d = 1 := by rcases hd with rfl | rfl <;> rfl
    have hnn : 0 ≤ norm (r1 + k) (-k) := by
      linarith [mul_self_nonneg (4 * k + r1), mul_self_nonneg r1]
    have hle : 0 ≤ norm (r1 + k) (-k) + d * (4 * k + r1) + d * d := by linarith
    omega

theorem exists_loop_eq (ht : ∀ x, t (t x) = t x - 2 • x) (s : TauLoop G) :
    ∃ fuel, s.loop t fuel = some (s.q + (s.r0 • s.p + s.r1 • t s.p)) := by
  induction hn : s.rank using Nat.strong_induction_on generalizing s with
  | _ n ih =>
    by_cases h : s.r0 ≠ 0 ∨ s.r1 ≠ 0
    · obtain ⟨d, k, hr0, hbody, hlt⟩ := body_spec (t := t) h
      obtain ⟨fuel, hfuel⟩ := ih _ (hn ▸ hlt) _ rfl
      refine ⟨fuel + 1, ?_⟩
      rw [loop, if_pos h, hfuel, hbody, hr0]
      simp only [ht, Option.some.injEq]
      module
    · push Not at h
      exact ⟨1, by simp [loop, h]⟩

/-- **The loop ends**, with the multiple of the point. -/
theorem exists_multiply_eq (ht : ∀ x, t (t x) = t x - 2 • x) (P : G) (r0 r1 : ℤ) :
    ∃ fuel, loop t fuel ⟨0, P, r0, r1⟩ = some (r0 • P + r1 • t P) := by
  simpa using exists_loop_eq ht ⟨0, P, r0, r1⟩

/-- Over `ℤ[t]` itself: the multiple of `1` is the number. -/
theorem exists_multiply_eq_ring :
    ∃ fuel, loop (.prod (-2 • .snd ℤ ℤ) (.fst ℤ ℤ + .snd ℤ ℤ)) fuel ⟨0, (1, 0), -5, 3⟩ = some (-5, 3) :=
  exists_multiply_eq (t := .prod (-2 • .snd ℤ ℤ) (.fst ℤ ℤ + .snd ℤ ℤ))
    (fun x => by ext <;> simp <;> ring) (1, 0) (-5) 3

end TauLoop

end Blackadder
