/-
**Loops that change a state and emit.**

`sweep step l s` passes the state on, collects what is emitted in order, and stops at a fault.
-/

import Mathlib.Data.List.Basic
import Blackadder.Outcome

universe u v w

namespace Except

open List

variable {ε : Type u} {σ α : Type v} {β : Type w}

def sweep (step : σ → β → Except ε (σ × List α)) : List β → σ → Except ε (σ × List α)
  | [], s => .ok (s, [])
  | b :: l, s => do
    let first ← step s b
    let rest ← sweep step l first.1
    return (rest.1, first.2 ++ rest.2)

variable {step : σ → β → Except ε (σ × List α)} {b : β} {l : List β} {s s' : σ} {out : List α}

theorem sweep_cons_eq_ok : sweep step (b :: l) s = .ok (s', out) ↔
    ∃ m out₁ out₂, step s b = .ok (m, out₁) ∧ sweep step l m = .ok (s', out₂) ∧
      out = out₁ ++ out₂ := by
  rw [sweep, bind_eq_ok]
  constructor
  · intro h
    obtain ⟨⟨m, out₁⟩, h₁, h⟩ := h
    obtain ⟨⟨m', out₂⟩, h₂, h₃⟩ := bind_eq_ok.1 h
    cases h₃
    exact ⟨m, out₁, out₂, h₁, h₂, rfl⟩
  · intro h
    obtain ⟨m, out₁, out₂, h₁, h₂, rfl⟩ := h
    exact ⟨(m, out₁), h₁, bind_eq_ok.2 ⟨(s', out₂), h₂, rfl⟩⟩

/-- **The rule for a loop**, for what its iterations keep and may emit. -/
theorem sweep_invariant {I : σ → Prop} {Q : α → Prop}
    (body : ∀ b ∈ l, ∀ s s' out, I s → step s b = .ok (s', out) → I s' ∧ ∀ a ∈ out, Q a)
    (hs : I s) (h : sweep step l s = .ok (s', out)) : I s' ∧ ∀ a ∈ out, Q a := by
  induction l generalizing s out with
  | nil =>
    cases h
    exact ⟨hs, by simp⟩
  | cons b l ih =>
    obtain ⟨m, out₁, out₂, h₁, h₂, rfl⟩ := sweep_cons_eq_ok.1 h
    obtain ⟨hm, hout₁⟩ := body b mem_cons_self s m out₁ hs h₁
    obtain ⟨hs', hout₂⟩ := ih (fun c hc => body c (mem_cons_of_mem b hc)) hm h₂
    refine ⟨hs', fun a ha => ?_⟩
    rcases mem_append.1 ha with ha | ha
    · exact hout₁ a ha
    · exact hout₂ a ha

theorem sweep_keeps {I : σ → Prop}
    (body : ∀ b ∈ l, ∀ s s' out, I s → step s b = .ok (s', out) → I s')
    (hs : I s) (h : sweep step l s = .ok (s', out)) : I s' :=
  (sweep_invariant (Q := fun _ => True)
    (fun b hb s s' out hs hstep => ⟨body b hb s s' out hs hstep, fun _ _ => trivial⟩) hs h).1

theorem sweep_total {I : σ → Prop}
    (body : ∀ b ∈ l, ∀ s, I s → ∃ s' out, step s b = .ok (s', out) ∧ I s') (hs : I s) :
    ∃ s' out, sweep step l s = .ok (s', out) := by
  induction l generalizing s with
  | nil => exact ⟨s, [], rfl⟩
  | cons b l ih =>
    obtain ⟨m, out₁, h₁, hm⟩ := body b mem_cons_self s hs
    obtain ⟨s', out₂, h₂⟩ := ih (fun c hc => body c (mem_cons_of_mem b hc)) hm
    exact ⟨s', out₁ ++ out₂, sweep_cons_eq_ok.2 ⟨m, out₁, out₂, h₁, h₂, rfl⟩⟩

/-- **A loop whose iterations do not interfere** is described in the state it starts from. -/
theorem sweep_filter {G : σ → β → Prop} {q : σ → β → Bool} {drop : σ → β → σ}
    {emit : σ → β → List α}
    (body : ∀ s b, G s b → step s b = .ok (if q s b then (drop s b, emit s b) else (s, [])))
    (frame : ∀ s b c, G s b → G s c → c ≠ b →
      G (drop s b) c ∧ q (drop s b) c = q s c ∧ emit (drop s b) c = emit s c)
    (hl : l.Nodup) (hs : ∀ b ∈ l, G s b) :
    sweep step l s = .ok ((l.filter (q s)).foldl drop s, (l.filter (q s)).flatMap (emit s)) := by
  induction l generalizing s with
  | nil => rfl
  | cons b l ih =>
    obtain ⟨hb, hl⟩ := nodup_cons.1 hl
    have hGb : G s b := hs b mem_cons_self
    have hGl : ∀ c ∈ l, G s c := fun c hc => hs c (mem_cons_of_mem b hc)
    cases hq : q s b with
    | false =>
      rw [filter_cons_of_neg (by simp [hq])]
      refine sweep_cons_eq_ok.2 ⟨s, [], _, ?_, ih hl hGl, rfl⟩
      simp [body s b hGb, hq]
    | true =>
      have hframe := fun c hc => frame s b c hGb (hGl c hc) fun heq => hb (heq ▸ hc)
      have hfil : l.filter (q (drop s b)) = l.filter (q s) :=
        filter_congr fun c hc => (hframe c hc).2.1
      have hemit : (l.filter (q s)).flatMap (emit (drop s b)) = (l.filter (q s)).flatMap (emit s) :=
        flatMap_congr fun c hc => (hframe c (mem_of_mem_filter hc)).2.2
      rw [filter_cons_of_pos hq]
      refine sweep_cons_eq_ok.2 ⟨drop s b, emit s b, (l.filter (q s)).flatMap (emit s), ?_, ?_, rfl⟩
      · simp [body s b hGb, hq]
      · rw [ih hl fun c hc => (hframe c hc).1, hfil, hemit]
        rfl

end Except
