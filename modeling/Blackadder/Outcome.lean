/-
**Pre- and postconditions for computations that may fail.**

`Except.Meets x E Q`: a returned value satisfies `Q` and a fault satisfies `E`. With `E` empty it
is total correctness, with `E` everything partial correctness.
-/

import Mathlib.Tactic.TypeStar

universe u v w

namespace Except

open List

variable {ε : Type u} {α β : Type v}

/-- A returned value satisfies `Q`, a fault satisfies `E`. -/
def Meets (x : Except ε α) (E : ε → Prop) (Q : α → Prop) : Prop :=
  match x with
  | .ok a => Q a
  | .error e => E e

/-! ### Values, faults and sequencing -/

@[simp] theorem ok_bind (a : α) (f : α → Except ε β) : ((.ok a : Except ε α) >>= f) = f a := rfl

section
variable {x : Except ε α}

variable {E : ε → Prop} {Q : α → Prop} {f : α → Except ε β}

theorem Meets.of_eq_ok {a : α} (h : x.Meets E Q) (hx : x = .ok a) : Q a := by
  subst hx
  exact h

theorem Meets.of_eq_error {e : ε} (h : x.Meets E Q) (hx : x = .error e) : E e := by
  subst hx
  exact h

theorem Meets.exists_ok (h : x.Meets (fun _ => False) Q) : ∃ a, x = .ok a := by
  cases x with
  | error e => exact absurd h id
  | ok a => exact ⟨a, rfl⟩

theorem Meets.mono {E' : ε → Prop} {P : α → Prop} (h : x.Meets E P) (hE : ∀ e, E e → E' e)
    (hPQ : ∀ a, P a → Q a) : x.Meets E' Q := by
  cases x with
  | error e => exact hE e h
  | ok a => exact hPQ a h

theorem Meets.bind {P : α → Prop} {Q : β → Prop} (hx : x.Meets E P)
    (hf : ∀ a, P a → (f a).Meets E Q) : (x >>= f).Meets E Q := by
  cases x with
  | error e => exact hx
  | ok a => exact hf a hx

theorem bind_eq_ok {b : β} : (x >>= f) = .ok b ↔ ∃ a, x = .ok a ∧ f a = .ok b := by
  cases x with
  | error e =>
    constructor
    · intro h; cases h
    · rintro ⟨a, ha, -⟩; cases ha
  | ok a =>
    constructor
    · intro h; exact ⟨a, rfl, h⟩
    · rintro ⟨a', ha, hf⟩; cases ha; exact hf

end

theorem mapError_eq_ok {ε' : Type u} {x : Except ε α} {f : ε → ε'} {a : α} :
    x.mapError f = .ok a ↔ x = .ok a := by
  cases x with
  | error e => exact iff_of_false (fun h => by cases h) fun h => by cases h
  | ok a' => exact ⟨fun h => congrArg ok (ok.inj h), fun h => congrArg ok (ok.inj h)⟩

/-! ### Loops -/

theorem exists_ok_of_map {x : Except ε α} {f : α → β} {b : β} (h : x.map f = .ok b) :
    ∃ a, x = .ok a ∧ f a = b := by
  cases x with
  | error e => cases h
  | ok a => exact ⟨a, rfl, ok.inj h⟩

variable {σ : Type v} {γ : Type w}

variable {f : σ → γ → Except ε σ} {R : γ → σ → σ → Prop} {l : List γ} {s : σ} {I : σ → Prop}

/-- **The rule for a loop.** The invariant is indexed by the elements still to be visited. -/
theorem meets_foldlM {E : ε → Prop} (I : List γ → σ → Prop)
    (step : ∀ c l s, I (c :: l) s → (f s c).Meets E (I l)) :
    ∀ (l : List γ) (s : σ), I l s → (l.foldlM f s).Meets E (I [])
  | [], s, hs => by
    rw [foldlM_nil]
    exact hs
  | c :: l, s, hs => by
    rw [foldlM_cons]
    exact (step c l s hs).bind fun s' hs' => meets_foldlM I step l s' hs'

inductive Runs (R : γ → σ → σ → Prop) : List γ → σ → σ → Prop
  | nil (s : σ) : Runs R [] s s
  | cons {c : γ} {l : List γ} {s s' s'' : σ} (hc : R c s s') (hl : Runs R l s' s'') :
    Runs R (c :: l) s s''

/-- **A loop as a relation**: when every iteration is described by `R`, so is the loop. -/
theorem foldlM_runs {E : ε → Prop} (I : List γ → σ → Prop)
    (step : ∀ c l s, I (c :: l) s → (f s c).Meets E fun s' => R c s s' ∧ I l s') :
    ∀ (l : List γ) (s : σ), I l s → (l.foldlM f s).Meets E fun s' => Runs R l s s' ∧ I [] s'
  | [], s, hs => by
    rw [foldlM_nil]
    exact ⟨Runs.nil s, hs⟩
  | c :: l, s, hs => by
    rw [foldlM_cons]
    refine (step c l s hs).bind fun s' hs' => ?_
    refine (foldlM_runs I step l s' hs'.2).mono (fun _ he => he) ?_
    intro s'' hloop
    obtain ⟨hl, hI⟩ := hloop
    exact ⟨Runs.cons hs'.1 hl, hI⟩

/-- An invariant, which may mention the elements still to be visited. -/
theorem Runs.invariant (I : List γ → σ → Prop) {s' : σ} (hr : Runs R l s s')
    (step : ∀ c l s s', I (c :: l) s → R c s s' → I l s') (hs : I l s) : I [] s' := by
  induction hr with
  | nil s => exact hs
  | cons hc _ ih => exact ih (step _ _ _ _ hs hc)

theorem Runs.map {τ : Type v} {R' : γ → τ → τ → Prop} (f : σ → τ) {s' : σ} (hr : Runs R l s s')
    (h : ∀ c s s', R c s s' → R' c (f s) (f s')) : Runs R' l (f s) (f s') := by
  induction hr with
  | nil s => exact Runs.nil (f s)
  | cons hc _ ih => exact Runs.cons (h _ _ _ hc) ih

/-- In a loop that returned, the body returned at every element, from a state that satisfies any
invariant. -/
theorem foldlM_eq_ok (step : ∀ c s s', I s → f s c = .ok s' → I s') :
    ∀ (l : List γ) (s s' : σ), I s → l.foldlM f s = .ok s' →
      I s' ∧ ∀ c ∈ l, ∃ s₁ s₂, I s₁ ∧ f s₁ c = .ok s₂
  | [], s, s', hs, h => by
    rw [foldlM_nil] at h
    cases h
    exact ⟨hs, by simp⟩
  | c :: l, s, s', hs, h => by
    rw [foldlM_cons] at h
    obtain ⟨s₁, h₁, h₂⟩ := bind_eq_ok.1 h
    obtain ⟨hs', hl⟩ := foldlM_eq_ok step l s₁ s' (step c s s₁ hs h₁) h₂
    refine ⟨hs', ?_⟩
    intro d hd
    rcases mem_cons.1 hd with rfl | hd
    · exact ⟨s, s₁, hs, h₁⟩
    · exact hl d hd

theorem exists_foldlM_eq_ok {Q : γ → Prop} (step : ∀ c s, (∃ s', f s c = .ok s') ↔ Q c) (l : List γ)
    (s : σ) : (∃ s', l.foldlM f s = .ok s') ↔ ∀ c ∈ l, Q c := by
  constructor
  · intro h c hc
    obtain ⟨s', h⟩ := h
    obtain ⟨s₁, s₂, -, hbody⟩ :=
      (foldlM_eq_ok (I := fun _ => True) (fun _ _ _ _ _ => trivial) l s s' trivial h).2 c hc
    exact (step c s₁).1 ⟨s₂, hbody⟩
  · intro hl
    induction l generalizing s with
    | nil => exact ⟨s, foldlM_nil⟩
    | cons c l ih =>
      obtain ⟨s₁, h₁⟩ := (step c s).2 (hl c mem_cons_self)
      obtain ⟨s', h'⟩ := ih s₁ fun d hd => hl d (mem_cons_of_mem c hd)
      refine ⟨s', ?_⟩
      exact bind_eq_ok.2 ⟨s₁, h₁, h'⟩

/-- **A run is right throughout exactly when each step is harmless where it is made.** `P` is what
is right, `I` what the steps rely on. -/
theorem foldlM_prefixes_iff {P : σ → Prop} {H : γ → σ → Prop}
    (keep : ∀ c s s', I s → P s → f s c = .ok s' → I s')
    (step : ∀ c ∈ l, ∀ s, I s → P s → ((∃ s', f s c = .ok s' ∧ P s') ↔ H c s)) (hI : I s) (hP : P s) :
    (∀ before, before <+: l → ∃ s', before.foldlM f s = .ok s' ∧ P s') ↔
      ∀ before c after s', l = before ++ c :: after → before.foldlM f s = .ok s' → H c s' := by
  induction l generalizing s with
  | nil =>
    refine iff_of_true ?_ ?_
    · intro before hpre
      obtain rfl := prefix_nil.1 hpre
      exact ⟨s, foldlM_nil, hP⟩
    · intro before c after s' hsplit
      simp at hsplit
  | cons c l ih =>
    have hstep := step c mem_cons_self s hI hP
    have hrest := fun d hd => step d (mem_cons_of_mem c hd)
    constructor
    · intro hall before d after s' hsplit hrun
      obtain ⟨s₁, h₁, hP₁⟩ := hall [c] (by simp)
      simp only [foldlM_cons, foldlM_nil, bind_pure] at h₁
      cases before with
      | nil =>
        obtain ⟨rfl, -⟩ := cons.inj hsplit
        obtain rfl : s = s' := ok.inj hrun
        exact hstep.1 ⟨s₁, h₁, hP₁⟩
      | cons b before =>
        obtain ⟨rfl, htail⟩ := cons.inj hsplit
        rw [foldlM_cons, h₁] at hrun
        refine (ih hrest (keep c s s₁ hI hP h₁) hP₁).1 ?_ before d after s' htail hrun
        intro before hpre
        obtain ⟨s₂, h₂, hP₂⟩ := hall (c :: before) (cons_prefix_cons.2 ⟨rfl, hpre⟩)
        rw [foldlM_cons, h₁] at h₂
        exact ⟨s₂, h₂, hP₂⟩
    · intro hH before hpre
      cases before with
      | nil => exact ⟨s, foldlM_nil, hP⟩
      | cons b before =>
        obtain ⟨rfl, hbef⟩ := cons_prefix_cons.1 hpre
        obtain ⟨s₁, h₁, hP₁⟩ := hstep.2 (hH [] b l s rfl foldlM_nil)
        rw [foldlM_cons, h₁]
        refine (ih hrest (keep b s s₁ hI hP h₁) hP₁).2 ?_ before hbef
        intro before d after s' hsplit hrun
        refine hH (b :: before) d after s' (by rw [hsplit]; rfl) ?_
        rw [foldlM_cons, h₁, ok_bind, hrun]

/-- **A loop that writes one entry at each element** computes it from what it was before the loop.
-/
theorem foldlM_entries {κ β : Type w} [DecidableEq κ] {f : σ → κ → Except ε σ} {entry : σ → κ → β}
    {g : κ → β → β} {l : List κ} (hl : l.Nodup)
    (body : ∀ k ∈ l, ∀ s, I s → ∃ s', f s k = .ok s' ∧ I s' ∧ ∀ m,
      entry s' m = if m = k then g m (entry s m) else entry s m)
    (hs : I s) : ∃ s', l.foldlM f s = .ok s' ∧ I s' ∧
      ∀ m, entry s' m = if m ∈ l then g m (entry s m) else entry s m := by
  induction l generalizing s with
  | nil => exact ⟨s, foldlM_nil, hs, fun m => (if_neg not_mem_nil).symm⟩
  | cons k l ih =>
    obtain ⟨hk, hl⟩ := nodup_cons.1 hl
    obtain ⟨s₁, h₁, hs₁, he₁⟩ := body k mem_cons_self s hs
    obtain ⟨s₂, h₂, hs₂, he₂⟩ := ih hl (fun m hm => body m (mem_cons_of_mem k hm)) hs₁
    refine ⟨s₂, ?_, hs₂, ?_⟩
    · rw [foldlM_cons, h₁, ok_bind, h₂]
    · intro m
      rw [he₂ m, he₁ m]
      by_cases hmk : m = k
      · subst hmk
        simp [hk]
      · simp [hmk]

theorem length_of_mapM {f : γ → Except ε σ} {l' : List σ} (h : l.mapM f = .ok l') :
    l'.length = l.length := by
  induction l generalizing l' with
  | nil =>
    obtain rfl := ok.inj (mapM_nil.symm.trans h)
    rfl
  | cons a l ih =>
    rw [mapM_cons] at h
    obtain ⟨b, -, h⟩ := bind_eq_ok.1 h
    obtain ⟨bs, hbs, h⟩ := bind_eq_ok.1 h
    obtain rfl := ok.inj h
    rw [length_cons, length_cons, ih hbs]

end Except
