/-
**Who is listed where.**

A node sees who is listed under an identifier, and under which strategy a request is granted: for a
scope its own, for an item that of the scope above it. Only a publication that links an existing
scope under a further father is not compared with it.
-/

import Blackadder.RvAnnounce

namespace Blackadder

open List

variable {gc : GlobalConf} {st s t m : State} {label label' : Obj → Fragment} {q : Request}
  {fuel : ℕ} {code : RvReturnCode} {st' : State} {r : Role} {κ : Kind} {h : NodeID} {k : Id}
  {strat : Strategy} {upd : Bool} {ID pre : Id} {i f sc : ℕ}

open Except (Runs)

/-! ### The types of requests -/

def RequestType.registers : RequestType → Option (Role × Kind)
  | .publishScope => some (Role.pub, Kind.scope)
  | .publishInfo => some (Role.pub, Kind.item)
  | .subscribeScope => some (Role.sub, Kind.scope)
  | .subscribeInfo => some (Role.sub, Kind.item)
  | _ => none

def RequestType.withdraws : RequestType → Option (Role × Kind)
  | .unpublishScope => some (Role.pub, Kind.scope)
  | .unpublishInfo => some (Role.pub, Kind.item)
  | .unsubscribeScope => some (Role.sub, Kind.scope)
  | .unsubscribeInfo => some (Role.sub, Kind.item)
  | _ => none

def Request.fullID (q : Request) : Id := q.prefixID ++ lastFragment q.ID

/-! ### Lists and strategies -/

def State.Lists (st : State) (r : Role) (h : NodeID) (k : Id) : Prop := ∃ o, h ∈ st.pair r o k

/-- The scope whose strategy a request about an object of the kind is compared with. -/
def Kind.governor : Kind → Id → Id
  | .scope, k => k
  | .item, k => k.dropLast

/-- Requests about the identifier are granted under the strategy. -/
def State.Governs (st : State) (κ : Kind) (k : Id) (strategy : Strategy) : Prop :=
  ∃ p, κ.governor k ∈ st.ids (.scope p) ∧ st.strategy (.scope p) = strategy

theorem State.Wf.exists_governor (hw : st.Wf label) {p : ℕ} (hk : k ∈ st.ids ⟨κ, p⟩) :
    ∃ g, κ.governor k ∈ st.ids (.scope g) := by
  cases κ with
  | scope => exact ⟨p, hk⟩
  | item =>
    obtain ⟨j, rfl⟩ := hw.exists_append hk
    obtain ⟨g, -, -, hg⟩ := hw.father_of_item hk
    refine ⟨g, ?_⟩
    rw [Kind.governor, dropLast_concat]
    exact hg

variable {o : Obj} {g : Option ℕ} {adopts : Obj → ℕ → Prop}

theorem State.Wf.eq_of_mem_pair (hw : st.Wf label) {o' : Obj} (hk : k ∈ st.ids o)
    (hh : h ∈ st.pair r o' k) : o' = o :=
  hw.eq_of_mem (hw.pair_ids _ _ _ _ hh) hk

/-! ### Lists that shrink -/

structure Shrinks (st s : State) : Prop where
  pair : ∀ {r o k h}, h ∈ s.pair r o k → h ∈ st.pair r o k
  ids : ∀ {o k}, k ∈ s.ids o → k ∈ st.ids o
  strategy : s.strategy = st.strategy

theorem Shrinks.refl : Shrinks st st := ⟨fun hh => hh, fun hk => hk, rfl⟩

theorem Shrinks.trans (h₁ : Shrinks st s) (h₂ : Shrinks s t) : Shrinks st t :=
  ⟨fun hh => h₁.pair (h₂.pair hh), fun hk => h₁.ids (h₂.ids hk), h₂.strategy.trans h₁.strategy⟩

theorem shrinks_emits (ps : List Packet) : Shrinks st (st.emits ps) :=
  ⟨fun hh => hh, fun hk => hk, rfl⟩

theorem shrinks_getRemoteHost (h : NodeID) : Shrinks st (st.getRemoteHost h) :=
  ⟨fun hh => hh, fun hk => hk, rfl⟩

theorem Settles.shrinks (hs : Settles label (st.withdraw r o k h) o g m) : Shrinks st m where
  pair := fun hh => (State.mem_withdraw_pair.1 (hs.mem_pair.1 hh)).1
  ids := fun hk => hs.ids_sub hk
  strategy := hs.strategy_eq

theorem LosesPublisher.shrinks (hl : LosesPublisher gc label upd h k i f st s) : Shrinks st s := by
  obtain ⟨m, hs, rfl⟩ := hl.settles
  exact hs.shrinks.trans (shrinks_emits _)

theorem LosesSubscriber.shrinks (hl : LosesSubscriber gc label upd h k i f st s) :
    Shrinks st s := by
  obtain ⟨m, hs, rfl⟩ := hl.settles
  exact hs.shrinks.trans (shrinks_emits _)

theorem UnpublishTry.shrinks (hu : UnpublishTry gc label strat upd h k st s) : Shrinks st s := by
  cases hu with
  | skip => exact Shrinks.refl
  | lose _ hl => exact hl.shrinks

theorem Cascade.shrinks (hw : st.Wf label) (hc : Cascade gc label strat upd h sc st s) :
    Shrinks st s :=
  hc.invariant hw (Shrinks st) (fun _ _ _ _ _ ih hu => ih.trans hu.shrinks) Shrinks.refl

theorem Matches.shrinks (hw : st.Wf label) (hm : Matches gc label strat upd k i st s) :
    Shrinks st s :=
  hm.invariant hw (Shrinks st) (fun _ ps ih => ih.trans (shrinks_emits ps))
    (fun _ _ _ _ _ ih hu => ih.trans hu.shrinks) Shrinks.refl

theorem visits_shrinks {K : Prop} {l : List ℕ} (hw : st.Wf label)
    (hr : Runs (Visits gc label strat upd k K) l st s) : Shrinks st s :=
  visits_invariant hw hr (Shrinks st) (fun _ ps ih => ih.trans (shrinks_emits ps))
    (fun _ _ _ _ _ ih hu => ih.trans hu.shrinks) Shrinks.refl

theorem ReclaimsScope.shrinks {ps : List Packet} (hw : st.Wf label)
    (hr : ReclaimsScope gc label k sc ((st.withdraw r (.scope sc) k h).emits ps) g s) :
    Shrinks st s := by
  obtain ⟨m, qs, hs, rfl, -⟩ := hr.settles (hw.withdraw.emits ps)
  -- packets and the departure commute
  exact ((shrinks_emits ps).trans hs.shrinks).trans (shrinks_emits qs)

theorem State.Governs.shrinks (hg : st.Governs κ k strat) (hw : st.Wf label) (hws : s.Wf label')
    (hs : Shrinks st s) {p : ℕ} (hk : k ∈ s.ids ⟨κ, p⟩) : s.Governs κ k strat := by
  obtain ⟨g, hmem, hstr⟩ := hg
  obtain ⟨g', hmem'⟩ := hws.exists_governor hk
  obtain rfl : g' = g := by simpa using hw.eq_of_mem (hs.ids hmem') hmem
  exact ⟨g', hmem', by rw [hs.strategy, hstr]⟩

/-! ### A host is registered -/

structure Registers (r : Role) (h : NodeID) (o : Obj) (k : Id) (st m : State) : Prop where
  mem : h ∈ m.pair r o k
  pair : ∀ {r' o' k' h'}, h' ∈ m.pair r' o' k' →
    h' ∈ st.pair r' o' k' ∨ (r' = r ∧ o' = o ∧ k' = k ∧ h' = h)
  ids : ∀ {o' k'}, k' ∈ st.ids o' → k' ∈ m.ids o'
  strategy : ∀ {o' k'}, k' ∈ st.ids o' → m.strategy o' = st.strategy o'

theorem Joins.registers (hw : st.Wf label) (hj : Joins label adopts r h st o k m) :
    Registers r h o k st m where
  mem := (hj.mem_pair hw).2 (Or.inr ⟨rfl, rfl, rfl, rfl⟩)
  pair := fun hh => (hj.mem_pair hw).1 hh
  ids := fun hk => hj.ids_mono hw hk
  strategy := fun hk => hj.strategy_of_live hw hk

theorem State.Governs.registers {κ' : Kind} {k' : Id} (hg : st.Governs κ' k' strat)
    (hr : Registers r h o k st m) : m.Governs κ' k' strat := by
  obtain ⟨g, hmem, hstr⟩ := hg
  exact ⟨g, hr.ids hmem, by rw [hr.strategy hmem, hstr]⟩

theorem dropLast_append_lastFragment (hID : ID ≠ []) : (pre ++ lastFragment ID).dropLast = pre := by
  obtain ⟨j, a, hj⟩ := (eq_nil_or_concat ID).resolve_left hID
  rw [hj, concat_eq_append, lastFragment_append, dropLast_concat]

theorem Joins.item_ne_nil (hw : st.Wf label) (hwm : m.Wf label') (hf : pre ∈ st.ids (.scope f))
    (hj : Joins label adopts r h st (.item i) (pre ++ lastFragment ID) m) : ID ≠ [] := by
  rintro rfl
  have hkey := hj.key_mem hw
  rw [lastFragment, drop_nil, append_nil] at hkey
  exact absurd (hwm.eq_of_mem hkey (hj.ids_mono hw hf)) (by simp)

theorem AddsScope.strategy_eq (hw : st.Wf label) (ha : AddsScope gc label r h strat st ID pre sc s)
    (hlink : ∀ sc f, Relinks st .scope ID pre strat (.scope sc) f →
      st.strategy (.scope sc) = strat) : s.strategy (.scope sc) = strat := by
  cases ha with
  | root => exact if_pos rfl
  | born hj _ hstr hm =>
    subst hm
    rw [State.emits_strategy, State.register_strategy, (hw.birth_grows _ _ _ _).strategy_eq]
    exact (if_pos rfl).trans hstr
  | adopted _ hl _ hg _ hm =>
    subst hm
    rw [State.emits_strategy, State.register_strategy, hg.strategy_eq]
    exact hlink sc _ hl

theorem publishScope_strategy (hsc : st.scopeIndex (pre ++ lastFragment ID) = some sc)
    (hok : publishScope gc fuel st h ID pre strat = .ok (.success, s)) :
    st.strategy (.scope sc) = strat := by
  by_contra hne
  unfold publishScope at hok
  split at hok
  case isTrue hlen =>
    obtain ⟨a, rfl⟩ := length_eq_one_iff.1 hlen.2
    obtain rfl := length_eq_zero_iff.1 hlen.1
    have hsc : st.scopeIndex [a] = some sc := hsc
    simp [publishRootScope, hsc, hne] at hok
  · split at hok
    case isTrue hlen =>
      obtain ⟨a, rfl⟩ := length_eq_one_iff.1 hlen.2
      have hsc : st.scopeIndex (pre ++ [a]) = some sc := hsc
      simp only [publishInnerScope, hsc] at hok
      split at hok
      · cases hok
      · split at hok <;> cases hok
    · split at hok
      · simp only [republishInnerScope, hsc] at hok
        split at hok
        · cases hok
        · split at hok
          · cases hok
          · split at hok <;> cases hok
      · cases hok

/-! ### How a request changes the lists -/

def Request.LinksAlike (q : Request) (st : State) : Prop :=
  ∀ sc f, q.Links st (.scope sc) f → st.strategy (.scope sc) = q.strategy

def Request.Joined (q : Request) (st s : State) : Prop :=
  ∃ r κ p m label, q.type.registers = some (r, κ) ∧ m.Wf label ∧
    Registers r q.nodeID ⟨κ, p⟩ q.fullID st m ∧ Shrinks m s ∧
    (q.LinksAlike st → m.Governs κ q.fullID q.strategy)

theorem Request.Joined.of_getRemoteHost (hj : q.Joined (st.getRemoteHost h) s) : q.Joined st s := by
  obtain ⟨r, κ, p, m, label, ht, hwm, hr, hs, hg⟩ := hj
  refine ⟨r, κ, p, m, label, ht, hwm, ⟨hr.mem, hr.pair, hr.ids, hr.strategy⟩, hs, fun hlink => ?_⟩
  refine hg fun sc f hex => ?_
  obtain ⟨κ', ht', hl⟩ := hex
  exact hlink sc f ⟨κ', ht', hl.kind, hl.long, hl.mem, hl.father, hl.free, hl.strategy_eq⟩

section
variable (hw : st.Wf label)
include hw

theorem JoinsInfo.joined (ht : q.type.registers = some (r, Kind.item))
    (hj : JoinsInfo gc label r q.nodeID q.strategy upd st q.ID q.prefixID s) : q.Joined st s := by
  obtain ⟨i, f, m, label', hf, hstr, hj, hwm, hm⟩ := hj
  refine ⟨r, Kind.item, i, m, label', ht, hwm, hj.registers hw, hm.shrinks hwm, fun _ => ?_⟩
  refine ⟨f, ?_, (hj.strategy_of_live hw hf).trans hstr⟩
  rw [Kind.governor, Request.fullID, dropLast_append_lastFragment (hj.item_ne_nil hw hwm hf)]
  exact hj.ids_mono hw hf

section
variable (ht : q.type.registers = some (r, Kind.scope))
include ht

theorem AddsScope.joined (hlong : 1 < q.ID.length → q.type = .publishScope)
    (ha : AddsScope gc label r q.nodeID q.strategy st q.ID q.prefixID sc s) : q.Joined st s := by
  obtain ⟨m, ids, str, subs, hj, hs⟩ := ha.joins hw
  obtain ⟨label', hwm⟩ := hj.wf hw
  have hshr : Shrinks m s := by
    obtain rfl | rfl := hs
    · exact Shrinks.refl
    · exact shrinks_emits _
  refine ⟨r, Kind.scope, sc, m, label', ht, hwm, hj.registers hw, hshr, fun hlink => ?_⟩
  refine ⟨sc, hj.key_mem hw, ?_⟩
  rw [← hshr.strategy]
  exact ha.strategy_eq hw fun sc f hl => hlink sc f ⟨_, .inl ⟨hlong hl.long, rfl⟩, hl⟩

theorem joined_again
    (hk : q.fullID ∈ st.ids (.scope sc)) (hstr : st.strategy (.scope sc) = q.strategy)
    (hs : Shrinks (st.register r (.scope sc) q.fullID q.nodeID) s) : q.Joined st s := by
  have hj : Joins label (fun _ _ => False) r q.nodeID st (.scope sc) q.fullID _ := Joins.there hk
  exact ⟨r, Kind.scope, sc, _, label, ht, hw.register hk, hj.registers hw, hs,
    fun _ => ⟨sc, hk, hstr⟩⟩

end

theorem Effect.listings (he : Effect gc label q st s)
    (hstr : ∀ sc, q.type = .publishScope → st.scopeIndex q.fullID = some sc →
      st.strategy (.scope sc) = q.strategy) : Shrinks st s ∨ q.Joined st s := by
  cases he with
  | publishScope ht he =>
    have hreg : q.type.registers = some (Role.pub, Kind.scope) := by rw [ht]; rfl
    cases he with
    | again hk =>
      exact .inr (joined_again hw hreg hk (hstr _ ht (hw.index_eq_some.2 hk)) Shrinks.refl)
    | added ha => exact .inr (ha.joined hw hreg fun _ => ht)
  | publishInfo ht he => exact .inr (he.joined hw (by rw [ht]; rfl))
  | @unpublishScope a sc t _ ht hID hsc _ hc hmem hr =>
    have hnil : (t.withdraw .pub (.scope sc) (q.prefixID ++ [a]) q.nodeID).emits [] = _ :=
      State.emits_nil
    rw [← hnil] at hr
    exact .inl ((hc.shrinks hw).trans (hr.shrinks (hc.wf hw)))
  | unpublishInfo ht hID _ hl | unsubscribeInfo ht hID hl => exact .inl hl.shrinks
  | @subscribeScope a _ ht hID he =>
    have hreg : q.type.registers = some (Role.sub, Kind.scope) := by rw [ht]; rfl
    have hfull : q.fullID = q.prefixID ++ [a] := by rw [Request.fullID, hID]; rfl
    cases he with
    | again hk hstr hm hr =>
      subst hm
      rw [← hfull] at hk hr
      exact .inr (joined_again hw hreg hk hstr
        ((shrinks_emits _).trans (visits_shrinks ((hw.register hk).emits _) hr)))
    | added ha =>
      rw [← hID] at ha
      exact .inr (ha.joined hw hreg fun hlong => absurd hlong (by simp [hID]))
  | subscribeInfo ht hID he =>
    rw [← hID] at he
    exact .inr (he.joined hw (by rw [ht]; rfl))
  | unsubscribeScope ht hID hsc hmem hwd hr =>
    subst hwd
    exact .inl (hr.shrinks hw)

/-- **How a request changes the lists**: they shrink, or the host is registered first. -/
theorem push_listings (hs : q.Shaped)
    (hpush : push gc fuel q st = .ok (code, st')) : Shrinks st st' ∨ q.Joined st st' := by
  have hwg := hw.getRemoteHost q.nodeID
  cases (push_meets hw hs fuel).of_eq_ok hpush with
  | refused => exact .inl (shrinks_getRemoteHost _)
  | cascaded ht hID hsc hno hc => exact .inl ((shrinks_getRemoteHost _).trans (hc.shrinks hwg))
  | granted he =>
    refine (he.listings hwg fun sc ht hsc => ?_).imp (shrinks_getRemoteHost _).trans
      Request.Joined.of_getRemoteHost
    simp only [push, ht] at hpush
    exact publishScope_strategy hsc hpush

/-! ### Requests that withdraw -/

theorem Settles.not_lists (hk : k ∈ st.ids o)
    (hs : Settles label (st.withdraw r o k h) o g m) : ¬ m.Lists r h k := by
  intro hlist
  obtain ⟨o', hh⟩ := hlist
  obtain ⟨hh, hne⟩ := State.mem_withdraw_pair.1 (hs.mem_pair.1 hh)
  exact hne ⟨rfl, hw.eq_of_mem_pair hk hh, rfl, rfl⟩

end

theorem ReclaimsScope.not_lists {ps : List Packet} (hw : st.Wf label) (hk : k ∈ st.ids (.scope sc))
    (hr : ReclaimsScope gc label k sc ((st.withdraw r (.scope sc) k h).emits ps) g s) :
    ¬ s.Lists r h k := by
  obtain ⟨m, qs, hs, rfl, -⟩ := hr.settles (hw.withdraw.emits ps)
  have hm : ¬ m.Lists r h k := hs.not_lists (hw.emits ps) hk
  exact hm

theorem State.Wf.not_lists_of_not_mem (hw : st.Wf label) (hk : k ∈ st.ids o)
    (hno : h ∉ st.pair r o k) : ¬ st.Lists r h k := by
  intro hlist
  obtain ⟨o', hh⟩ := hlist
  obtain rfl := hw.eq_of_mem_pair hk hh
  exact hno hh

section
variable {a : Fragment}

section
variable (hw : st.Wf label) (hg : st.Governs .scope (pre ++ [a]) strat)
include hw hg

theorem unpublishScope_withdraws (hok : unpublishScope gc st h [a] pre strat upd = .ok (code, s)) :
    ¬ s.Lists .pub h (pre ++ [a]) := by
  obtain ⟨p, hk, hstr⟩ := hg
  have hp := hw.index_eq_some.2 hk
  obtain ⟨-, -, hno⟩ | ⟨sc, t, hsc, -, hc, hres⟩ :=
    (unpublishScope_meets hw h a pre strat upd).of_eq_ok hok
  · exact absurd hstr (hno p hp)
  · have hwt := hc.wf hw
    obtain rfl : sc = p := Option.some.inj (hsc.symm.trans hp)
    have hkt : pre ++ [a] ∈ t.ids (.scope sc) := by
      rw [(hc.scope_eq hw sc).1]
      exact hk
    obtain ⟨-, rfl, hno⟩ | ⟨-, -, hr⟩ := hres
    · exact hwt.not_lists_of_not_mem hkt hno
    · have hnil : (t.withdraw .pub (.scope sc) (pre ++ [a]) h).emits [] = _ := State.emits_nil
      rw [← hnil] at hr
      exact hr.not_lists hwt hkt

theorem unsubscribeScope_withdraws
    (hok : unsubscribeScope gc st h [a] pre strat upd = .ok (code, s)) :
    ¬ s.Lists .sub h (pre ++ [a]) := by
  obtain ⟨p, hk, hstr⟩ := hg
  have hp := hw.index_eq_some.2 hk
  obtain ⟨-, rfl, hno⟩ | ⟨-, sc, w, hsc, -, rfl, hr⟩ :=
    (unsubscribeScope_meets hw h a pre strat upd).of_eq_ok hok
  · exact hw.not_lists_of_not_mem hk (hno p hp hstr)
  · exact hr.not_lists hw (hw.index_eq_some.1 hsc)

end

theorem State.Governs.strategy_of_index (hg : st.Governs .item (pre ++ [a]) strat)
    (hw : st.Wf label) : ∃ f, st.scopeIndex pre = some f ∧ st.strategy (.scope f) = strat := by
  obtain ⟨f, hf, hstr⟩ := hg
  rw [Kind.governor, dropLast_concat] at hf
  exact ⟨f, hw.index_eq_some.2 hf, hstr⟩

section
variable (hw : st.Wf label) (hg : st.Governs .item (pre ++ [a]) strat)
include hw hg

theorem State.Wf.not_lists_of_refused (hno : ∀ i f, st.pubIndex (pre ++ [a]) = some i →
    st.scopeIndex pre = some f →
      st.strategy (.scope f) = strat → h ∉ st.pair r (.item i) (pre ++ [a])) (p : ℕ) :
    h ∉ st.pair r (.item p) (pre ++ [a]) := by
  intro hh
  obtain ⟨f, hf, hstr⟩ := hg.strategy_of_index hw
  exact hno p f (hw.index_eq_some.2 (hw.pair_ids _ _ _ _ hh)) hf hstr hh

theorem unpublishInfo_withdraws (hok : unpublishInfo gc st h [a] pre strat upd = .ok (code, s))
    (p : ℕ) : h ∉ s.pair .pub (.item p) (pre ++ [a]) := by
  obtain ⟨-, rfl, hno⟩ | ⟨-, i, f, -, hl⟩ := (unpublishInfo_meets hw h a pre strat upd).of_eq_ok hok
  · exact hw.not_lists_of_refused hg hno p
  · intro hh
    obtain ⟨m, hs, rfl⟩ := hl.settles
    exact hs.not_lists hw (hl.key_mem hw) ⟨_, hh⟩

theorem unsubscribeInfo_withdraws (hok : unsubscribeInfo gc st h [a] pre strat upd = .ok (code, s))
    (p : ℕ) : h ∉ s.pair .sub (.item p) (pre ++ [a]) := by
  obtain ⟨-, rfl, hno⟩ | ⟨-, i, f, hl⟩ := (unsubscribeInfo_meets hw h a pre strat upd).of_eq_ok hok
  · exact hw.not_lists_of_refused hg hno p
  · intro hh
    obtain ⟨m, hs, rfl⟩ := hl.settles
    exact hs.not_lists hw (hw.pair_ids _ _ _ _ hl.mem) ⟨_, hh⟩

end

end

theorem push_withdraws (hw : st.Wf label) (hs : q.Shaped) (ht : q.type.withdraws = some (r, κ))
    (hg : st.Governs κ q.fullID q.strategy) (hpush : push gc fuel q st = .ok (code, s)) (p : ℕ) :
    q.nodeID ∉ s.pair r ⟨κ, p⟩ q.fullID := by
  have hwg := hw.getRemoteHost q.nodeID
  obtain ⟨a, hID⟩ := hs.exists_fragment (by
    cases htype : q.type <;> rw [htype] at ht <;> first | rfl | cases ht)
  have hfull : q.fullID = q.prefixID ++ [a] := by
    rw [Request.fullID, hID]
    rfl
  rw [hfull] at hg ⊢
  cases htype : q.type with
  | unpublishScope =>
    simp only [push, htype, hID] at hpush
    cases (htype ▸ ht : RequestType.withdraws .unpublishScope = some (r, κ))
    exact fun hh => unpublishScope_withdraws hwg hg hpush ⟨_, hh⟩
  | unpublishInfo =>
    simp only [push, htype, hID] at hpush
    cases (htype ▸ ht : RequestType.withdraws .unpublishInfo = some (r, κ))
    exact unpublishInfo_withdraws hwg hg hpush p
  | unsubscribeScope =>
    simp only [push, htype, hID] at hpush
    cases (htype ▸ ht : RequestType.withdraws .unsubscribeScope = some (r, κ))
    exact fun hh => unsubscribeScope_withdraws hwg hg hpush ⟨_, hh⟩
  | unsubscribeInfo =>
    simp only [push, htype, hID] at hpush
    cases (htype ▸ ht : RequestType.withdraws .unsubscribeInfo = some (r, κ))
    exact unsubscribeInfo_withdraws hwg hg hpush p
  | _ =>
    rw [htype] at ht
    cases ht

/-! ### Publications that are granted -/

/-- The item that the request is about: it has the identifier, or is to get it. -/
def Request.item (q : Request) (st : State) : Option ℕ :=
  match st.pubIndex q.fullID with
  | some i => some i
  | none => if 1 < q.ID.length then st.pubIndex q.ID else none

/-- The item is below a *-over-ICN root scope, or is going to be. -/
def Request.OverIcn (q : Request) (st : State) : Prop :=
  (∃ i, q.item st = some i ∧ ¬ st.Plain (.item i)) ∨
    ∃ f, st.scopeIndex q.prefixID = some f ∧ ¬ st.Plain (.scope f)

theorem Joins.item_eq (hw : st.Wf label)
    (hj : Joins label (Relinks st .item q.ID q.prefixID q.strategy) r h st (.item i) q.fullID m) :
    q.item st = some i ∨ ∀ k, k ∉ st.ids (.item i) := by
  generalize ho : Obj.item i = o at hj
  generalize hk : q.fullID = k at hj
  cases hj with
  | there hmem =>
    subst ho hk
    have hi : st.pubIndex q.fullID = some i := hw.index_eq_some.2 hmem
    simp [Request.item, hi]
  | root => exact absurd ho (by simp)
  | born => exact .inr (hw.unborn _ le_rfl).1
  | adopted _ hl _ _ _ hfree =>
    subst ho
    left
    have hnone : st.pubIndex q.fullID = none := by
      rw [hk]
      exact hw.index_eq_none.2 fun p => hfree _
    simp only [Request.item, hnone, if_pos hl.long]
    exact hw.index_eq_some.2 hl.mem

theorem Joins.item_plain {adopts : Obj → ℕ → Prop} (hw : st.Wf label) (hwm : m.Wf label')
    (hj : Joins label adopts r h st (.item i) k m) (hp : st.Plain (.item i))
    (hf : ∀ g, k.dropLast ∈ st.ids (.scope g) → st.Plain (.scope g)) : m.Plain (.item i) := by
  intro k' hk'
  obtain ⟨g, hg, j, hjg, rfl⟩ := (hwm.inner_mem_iff State.Wf.item_not_root).1 hk'
  have hjg := hj.ids_scope hw hjg
  rw [rootFragment_append (hw.ne_nil hjg)]
  obtain hg | ⟨-, hk, -⟩ := hj.father_cases hw hg
  · exact hw.plain_father hp hg j hjg
  · exact hf g hk j hjg

theorem JoinsInfo.lists (hw : st.Wf label) (hicn : ¬ q.OverIcn st)
    (hj : JoinsInfo gc label r q.nodeID q.strategy upd st q.ID q.prefixID s) :
    s.Lists r q.nodeID q.fullID := by
  obtain ⟨i, f, m, label', hf, -, hj, hwm, hm⟩ := hj
  have hp : st.Plain (.item i) := by
    obtain hi | hnew := Joins.item_eq hw hj
    · by_contra hnot
      exact hicn (.inl ⟨i, hi, hnot⟩)
    · exact fun k hk => absurd hk (hnew k)
  have hplain : m.Plain (.item i) := by
    refine hj.item_plain hw hwm hp fun g hg => ?_
    rw [dropLast_append_lastFragment (hj.item_ne_nil hw hwm hf)] at hg
    by_contra hnot
    exact hicn (.inr ⟨g, hw.index_eq_some.2 hg, hnot⟩)
  have hmem := (hj.registers hw).mem
  cases hm with
  | announce => exact ⟨_, hmem⟩
  | oneShot hknown =>
    exact absurd ((isKnown_of_plain hplain (hj.key_mem hw)).symm.trans hknown) (by simp)

theorem Request.shaped_of_publishes (ht : q.type.registers = some (Role.pub, κ)) : q.Shaped := by
  intro hone
  cases htype : q.type with
  | publishScope =>
    rw [htype] at hone
    cases hone
  | publishInfo =>
    rw [htype] at hone
    cases hone
  | _ =>
    rw [htype] at ht
    cases ht

/-- **The publisher of a granted publication is listed**, but for *-over-ICN items. -/
theorem push_lists (hw : st.Wf label) (ht : q.type.registers = some (Role.pub, κ))
    (hicn : q.type = .publishInfo → ¬ q.OverIcn st)
    (hpush : push gc fuel q st = .ok (.success, s)) : s.Lists .pub q.nodeID q.fullID := by
  have hwg := hw.getRemoteHost q.nodeID
  cases (push_meets hw (Request.shaped_of_publishes ht) fuel).of_eq_ok hpush with
  | refused hc => exact absurd rfl hc
  | granted he =>
    cases he with
    | publishScope htype he =>
      cases he with
      | again hk => exact ⟨_, State.mem_register_pair.2 (.inr ⟨rfl, rfl, rfl, rfl⟩)⟩
      | added ha =>
        obtain ⟨m, ids, str, subs, hj, hs⟩ := ha.joins hwg
        have hmem := (hj.registers hwg).mem
        obtain rfl | rfl := hs
        · exact ⟨_, hmem⟩
        · exact ⟨_, hmem⟩
    | publishInfo htype he => exact he.lists hwg (hicn htype)
    | unpublishScope htype => cases (htype ▸ ht : RequestType.registers .unpublishScope = _)
    | unpublishInfo htype => cases (htype ▸ ht : RequestType.registers .unpublishInfo = _)
    | subscribeScope htype => cases (htype ▸ ht : RequestType.registers .subscribeScope = _)
    | subscribeInfo htype => cases (htype ▸ ht : RequestType.registers .subscribeInfo = _)
    | unsubscribeScope htype => cases (htype ▸ ht : RequestType.registers .unsubscribeScope = _)
    | unsubscribeInfo htype => cases (htype ▸ ht : RequestType.registers .unsubscribeInfo = _)

end Blackadder
