/-
**The metadata cache of the topology manager.**

For an item that is not in the cache, `tm_qos.cpp` subscribes to a QoS item, whose last fragment is
a hash. An update unsubscribes again. When a query expires, the cache unsubscribes from the item
and not from its QoS item.
-/

import Blackadder.Runs
import Blackadder.RvState

namespace Blackadder

structure MetaDataContent where
  querying : Bool
  querytime : ℕ
  created : ℕ

/-- `EXPIRATION_TIME` for what is known, `QUERY_EXP_TIME` for what is queried. -/
def MetaDataContent.expired (mc : MetaDataContent) (now : ℕ) : Bool :=
  if 0 < mc.created then 600 < now - mc.created else mc.querying && 1 < now - mc.querytime

structure IIMetaCache where
  iiMeta : Id → Option MetaDataContent
  lastNonLazyUpdate : ℕ
  subscribed : Id → Bool

def qosItem (hash : Fragment → Fragment) (ii : Id) : Id := ii.dropLast ++ ii.getLast?.toList.map hash

namespace IIMetaCache

def init (now : ℕ) : IIMetaCache := ⟨fun _ => none, now, fun _ => false⟩

def clean (c : IIMetaCache) (looked : Id → Bool) (now : ℕ) : IIMetaCache where
  iiMeta ii := if looked ii then (c.iiMeta ii).filter (!·.expired now) else c.iiMeta ii
  lastNonLazyUpdate := c.lastNonLazyUpdate
  subscribed ii := c.subscribed ii &&
    !(looked ii && (c.iiMeta ii).any fun mc => mc.created = 0 && mc.expired now)

def checkClean (c : IIMetaCache) (ii : Id) (now : ℕ) : IIMetaCache := c.clean (· = ii) now

def cleanAllExpired (c : IIMetaCache) (now : ℕ) : IIMetaCache := c.clean (fun _ => true) now

def getIIMeta (c : IIMetaCache) (ii : Id) (now : ℕ) : IIMetaCache :=
  (if 3600 < now - c.lastNonLazyUpdate then c.cleanAllExpired now else c).checkClean ii now

variable (hash : Fragment → Fragment)

def sendQueryIfNeeded (c : IIMetaCache) (ii : Id) (now : ℕ) : IIMetaCache :=
  let c := c.checkClean ii now
  if (c.iiMeta ii).isSome then c
  else { c with
    -- `addMetaItem`, and then the item itself
    iiMeta := Function.update (Function.update c.iiMeta (qosItem hash ii) (some ⟨false, 0, now⟩)) ii
      (some ⟨true, now, 0⟩)
    subscribed := Function.update c.subscribed (qosItem hash ii) true }

def update (c : IIMetaCache) (ii : Id) (now : ℕ) : IIMetaCache :=
  match c.iiMeta ii with
  | none => c
  | some mc => { c with
    iiMeta := Function.update (Function.update c.iiMeta ii (some ⟨false, mc.querytime, now⟩))
      (qosItem hash ii) none
    subscribed := Function.update c.subscribed (qosItem hash ii) false }

inductive Action
  | cleanAllExpired (now : ℕ)
  | getIIMeta (ii : Id) (now : ℕ)
  | sendQueryIfNeeded (ii : Id) (now : ℕ)
  | update (ii : Id) (now : ℕ)

def step (c : IIMetaCache) : Action → IIMetaCache
  | .cleanAllExpired now => c.cleanAllExpired now
  | .getIIMeta ii now => c.getIIMeta ii now
  | .sendQueryIfNeeded ii now => c.sendQueryIfNeeded hash ii now
  | .update ii now => c.update hash ii now

/-! ### Subscriptions -/

def Querying (c : IIMetaCache) (ii : Id) : Prop := ∃ mc ∈ c.iiMeta ii, mc.querying = true

/-- The topology manager is subscribed to the QoS items of what is queried. -/
def Matches (c : IIMetaCache) : Prop :=
  ∀ x, c.subscribed x = true ↔ ∃ ii, c.Querying ii ∧ qosItem hash ii = x

def InTime (c : IIMetaCache) (looked : Id → Bool) (now : ℕ) : Prop :=
  ∀ ii, looked ii = true → ∀ mc ∈ c.iiMeta ii, mc.querying = true → mc.expired now = false

/-- No query is expired, no known item is entered for a queried one, and an update does not share
its QoS item with another query. -/
def Careful (c : IIMetaCache) : Action → Prop
  | .cleanAllExpired now => c.InTime (fun _ => true) now
  | .getIIMeta ii now => (3600 < now - c.lastNonLazyUpdate → c.InTime (fun _ => true) now) ∧
      c.InTime (· = ii) now
  | .sendQueryIfNeeded ii now => c.InTime (· = ii) now ∧ ¬ c.Querying (qosItem hash ii)
  | .update ii _ => (c.iiMeta ii).isSome = true → ∀ j, c.Querying j →
      (qosItem hash j = qosItem hash ii ∨ j = qosItem hash ii) → j = ii

variable {hash} {c : IIMetaCache} {looked : Id → Bool} {now : ℕ} {ii : Id}

theorem mem_clean {mc : MetaDataContent} : mc ∈ (c.clean looked now).iiMeta ii ↔
    mc ∈ c.iiMeta ii ∧ (looked ii = true → mc.expired now = false) := by
  simp only [clean]
  split
  · next h => simp [h]
  · next h => simp [h]

theorem querying_clean (h : c.InTime looked now) : (c.clean looked now).Querying ii ↔ c.Querying ii := by
  constructor
  · rintro ⟨mc, hmc, hq⟩
    exact ⟨mc, (mem_clean.1 hmc).1, hq⟩
  · rintro ⟨mc, hmc, hq⟩
    exact ⟨mc, mem_clean.2 ⟨hmc, fun hl => h ii hl mc hmc hq⟩, hq⟩

theorem subscribed_clean (h : c.InTime looked now) : (c.clean looked now).subscribed = c.subscribed := by
  funext x
  cases hmc : c.iiMeta x with
  | none => simp [clean, hmc]
  | some mc =>
    have hkept : (looked x && (decide (mc.created = 0) && mc.expired now)) = false := by
      cases hl : looked x with
      | false => rfl
      | true =>
        cases hq : mc.querying with
        | true => simp [h x hl mc hmc hq]
        | false =>
          rw [MetaDataContent.expired, hq]
          split
          · simp [Nat.pos_iff_ne_zero.1 ‹_›]
          · simp
    simp only [clean, hmc, Option.any_some, hkept, Bool.not_false, Bool.and_true]

theorem Matches.clean (h : c.Matches hash) (htime : c.InTime looked now) :
    (c.clean looked now).Matches hash := by
  intro x
  rw [subscribed_clean htime]
  simpa only [querying_clean htime] using h x

theorem InTime.clean {looked' : Id → Bool} (h : c.InTime looked now) :
    (c.clean looked' now).InTime looked now := fun ii hl mc hmc => h ii hl mc (mem_clean.1 hmc).1

theorem querying_getIIMeta {a : Id} (h : c.Careful hash (.getIIMeta a now)) :
    (c.getIIMeta a now).Querying ii ↔ c.Querying ii := by
  rw [getIIMeta]
  split
  · next hall => exact (querying_clean h.2.clean).trans (querying_clean (h.1 hall))
  · exact querying_clean h.2

theorem Matches.getIIMeta (h : c.Matches hash) (hcar : c.Careful hash (.getIIMeta ii now)) :
    (c.getIIMeta ii now).Matches hash := by
  rw [IIMetaCache.getIIMeta]
  split
  · next hall => exact (h.clean (hcar.1 hall)).clean hcar.2.clean
  · exact h.clean hcar.2

theorem querying_sendQueryIfNeeded {a : Id} (h : c.Careful hash (.sendQueryIfNeeded a now)) :
    (c.sendQueryIfNeeded hash a now).Querying ii ↔
      c.Querying ii ∨ ii = a ∧ ((c.checkClean a now).iiMeta a).isSome = false := by
  rw [sendQueryIfNeeded, ← querying_clean h.1]
  split
  case isTrue hsome =>
    rw [hsome, Bool.true_eq_false, and_false, or_false]
    rfl
  case isFalse hnone =>
    have hq : ¬ (c.checkClean a now).Querying (qosItem hash a) := fun hq => h.2 ((querying_clean h.1).1 hq)
    by_cases ha : ii = a
    · simp [ha, Querying, hnone]
    by_cases hi : ii = qosItem hash a
    · simp only [hi ▸ ha, false_and, or_false, hi]
      refine iff_of_false ?_ hq
      simp [Querying, hi ▸ ha]
    · simp [Querying, ha, hi, checkClean]

theorem querying_update {a : Id} (h : c.Careful hash (.update a now)) :
    (c.update hash a now).Querying ii ↔ c.Querying ii ∧ ii ≠ a := by
  rw [update]
  split
  case h_1 hnone =>
    refine (and_iff_left_of_imp ?_).symm
    rintro ⟨mc, hmc, -⟩ rfl
    rw [hnone] at hmc
    cases hmc
  case h_2 mc hsome =>
    have hcar := h (by rw [hsome]; rfl) ii
    by_cases hi : ii = qosItem hash a
    · refine iff_of_false ?_ fun hboth => hboth.2 (hcar hboth.1 (.inr hi))
      simp [Querying, hi]
    by_cases ha : ii = a
    · simp [Querying, ha, ha ▸ hi]
    · simp [Querying, ha, hi]

theorem Matches.step (h : c.Matches hash) {a : Action} (hcar : c.Careful hash a) :
    (c.step hash a).Matches hash ∧ ∀ ii, c.Querying ii → ¬ (c.step hash a).Querying ii →
      (c.step hash a).subscribed (qosItem hash ii) = false := by
  cases a with
  | cleanAllExpired now =>
    exact ⟨h.clean hcar, fun ii hq hnot => absurd ((querying_clean hcar).2 hq) hnot⟩
  | getIIMeta a now =>
    exact ⟨h.getIIMeta hcar, fun ii hq hnot => absurd ((querying_getIIMeta hcar).2 hq) hnot⟩
  | sendQueryIfNeeded a now =>
    refine ⟨fun x => ?_, fun ii hq hnot =>
      absurd ((querying_sendQueryIfNeeded hcar).2 (.inl hq)) hnot⟩
    have hsub : (c.sendQueryIfNeeded hash a now).subscribed x = true ↔ c.subscribed x = true ∨
        qosItem hash a = x ∧ ((c.checkClean a now).iiMeta a).isSome = false := by
      rw [sendQueryIfNeeded, ← subscribed_clean hcar.1]
      split
      case isTrue hsome =>
        rw [hsome, Bool.true_eq_false, and_false, or_false]
        rfl
      case isFalse hnone =>
        by_cases hx : x = qosItem hash a
        · simp [hx, hnone]
        · simp [hx, Ne.symm hx, checkClean]
    simp only [IIMetaCache.step, hsub, h x, querying_sendQueryIfNeeded hcar, or_and_right, exists_or]
    refine or_congr_right ⟨fun hx => ⟨a, ⟨rfl, hx.2⟩, hx.1⟩, ?_⟩
    rintro ⟨ii, ⟨rfl, hnone⟩, hx⟩
    exact ⟨hx, hnone⟩
  | update a now =>
    have hq {ii} : (c.update hash a now).Querying ii ↔ c.Querying ii ∧ ii ≠ a :=
      querying_update hcar
    cases hmc : c.iiMeta a with
    | none =>
      have hsame : c.update hash a now = c := by rw [update, hmc]
      simp only [IIMetaCache.step, hsame]
      exact ⟨h, fun ii hq hnot => absurd hq hnot⟩
    | some mc =>
      have hsub (x) : (c.update hash a now).subscribed x = true ↔
          c.subscribed x = true ∧ x ≠ qosItem hash a := by
        rw [update, hmc]
        by_cases hx : x = qosItem hash a <;> simp [hx]
      have hcol := hcar (by rw [hmc]; rfl)
      refine ⟨fun x => ?_, fun ii hquery hnot => ?_⟩
      · simp only [IIMetaCache.step, hsub, h x, hq]
        constructor
        · rintro ⟨⟨ii, hquery, rfl⟩, hne⟩
          exact ⟨ii, ⟨hquery, fun ha => hne (ha ▸ rfl)⟩, rfl⟩
        · rintro ⟨ii, ⟨hquery, hne⟩, rfl⟩
          exact ⟨⟨ii, hquery, rfl⟩, fun hsame => hne (hcol ii hquery (.inl hsame))⟩
      · rw [IIMetaCache.step, hq, not_and, not_not] at hnot
        rw [IIMetaCache.step, ← Bool.not_eq_true, hsub, hnot hquery]
        exact fun hboth => hboth.2 rfl

/-- **The subscriptions are the QoS items of what is queried**, in every run of careful steps, and
end with the query. -/
theorem matches_run (start : ℕ) (actions : List Action)
    (h : Runs.Along (step hash) (Careful hash) (init start) actions) (k : ℕ) :
    ((actions.take k).foldl (step hash) (init start)).Matches hash ∧
      ∀ ii, ((actions.take k).foldl (step hash) (init start)).Querying ii →
        ¬ ((actions.take (k + 1)).foldl (step hash) (init start)).Querying ii →
        ((actions.take (k + 1)).foldl (step hash) (init start)).subscribed (qosItem hash ii) = false := by
  have hinit : (init start).Matches hash := fun x => by simp [init, Querying]
  generalize init start = c at h hinit ⊢
  induction actions generalizing c k with
  | nil =>
    simp only [List.take_nil]
    exact ⟨hinit, fun ii hq hnot => absurd hq hnot⟩
  | cons a actions ih =>
    obtain ⟨hnext, hende⟩ := hinit.step h.1
    cases k with
    | zero => exact ⟨hinit, hende⟩
    | succ k => exact ih k _ h.2 hnext

theorem matches_run_updated : (([.sendQueryIfNeeded [.ofByte 1] 10, .update [.ofByte 1] 11] :
    List Action).foldl (step fun _ => .ofByte 9) (init 5)).Matches fun _ => .ofByte 9 := by
  have hquery : (init 5).Careful (fun _ => .ofByte 9) (.sendQueryIfNeeded [.ofByte 1] 10) :=
    ⟨nofun, nofun⟩
  refine (matches_run 5 [.sendQueryIfNeeded [.ofByte 1] 10, .update [.ofByte 1] 11]
    ⟨hquery, fun _ j hj _ => ?_, trivial⟩ 2).1
  obtain ⟨_, hnone, -⟩ | ⟨hj, -⟩ := (querying_sendQueryIfNeeded hquery).1 hj
  · cases hnone
  · exact hj

theorem not_matches_expired : ¬ (([.sendQueryIfNeeded [.ofByte 1] 10, .getIIMeta [.ofByte 1] 12] :
    List Action).foldl (step fun _ => .ofByte 9) (init 5)).Matches fun _ => .ofByte 9 := by
  intro h
  obtain ⟨ii, ⟨mc, hmc, hq⟩, -⟩ := (h [.ofByte 9]).1 (by decide)
  have hquery : (init 5).Careful (fun _ => .ofByte 9) (.sendQueryIfNeeded [.ofByte 1] 10) :=
    ⟨nofun, nofun⟩
  have hmem : mc ∈ (((init 5).sendQueryIfNeeded (fun _ => .ofByte 9) [.ofByte 1] 10).clean
    (· = [.ofByte 1]) 12).iiMeta ii := hmc
  obtain ⟨hentry, hexp⟩ := mem_clean.1 hmem
  obtain ⟨_, hnone, -⟩ | ⟨rfl, -⟩ := (querying_sendQueryIfNeeded hquery).1 ⟨mc, hentry, hq⟩
  · cases hnone
  · cases hentry
    cases hexp rfl

end IIMetaCache

end Blackadder
