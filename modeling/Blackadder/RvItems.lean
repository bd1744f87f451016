/-
**The view of one item.**

What was last requested for an item, and whether it has a publisher and an interested subscriber,
are functions of its *view*: its hosts, its fathers, and their subscribers. Changes that leave the
view alone and push no request for the item are *quiet*.
-/

import Blackadder.RvRuns

namespace Blackadder

open List

variable {gc : GlobalConf} {st s t m : State} {label : Obj → Fragment} {i : ℕ}

open Except (Runs)

/-! ### Requests for an item -/

def Packet.request (i : ℕ) : Packet → Option (ListSet NodeID × ListSet NodeID)
  | rendezvousRequest pub _ publishers subscribers _ _ =>
    if pub = i then some (publishers, subscribers) else none
  | unicastRequest pub _ publisher subscribers _ _ =>
    if pub = i then some ((∅ : ListSet NodeID).insert publisher, subscribers) else none
  | localPublisher _ _ _ _ => none
  | scopeRequest _ _ _ _ => none
  | localSubscriber _ _ => none

def lastRequest (i : ℕ) (out : List Packet) : Option (ListSet NodeID × ListSet NodeID) :=
  (out.filterMap (Packet.request i)).getLast?

def Silent (i : ℕ) (ps : List Packet) : Prop := ∀ p ∈ ps, p.request i = none

theorem lastRequest_append_silent {ps : List Packet} (hps : Silent i ps) (out : List Packet) :
    lastRequest i (out ++ ps) = lastRequest i out := by
  rw [lastRequest, lastRequest, filterMap_append, filterMap_eq_nil_iff.2 hps, append_nil]

theorem lastRequest_concat {p : Packet} {q : ListSet NodeID × ListSet NodeID}
    (hp : p.request i = some q) (out : List Packet) : lastRequest i (out ++ [p]) = some q := by
  rw [lastRequest, filterMap_append, filterMap_cons_some hp, filterMap_nil, getLast?_concat]

theorem lastRequest_of_isPrefix {out out' : List Packet} (hpre : out <+: out')
    (hnone : lastRequest i out' = none) : lastRequest i out = none := by
  obtain ⟨ps, rfl⟩ := hpre
  rw [lastRequest, getLast?_eq_none_iff, filterMap_append, append_eq_nil_iff] at hnone
  rw [lastRequest, hnone.1]
  rfl

section

theorem Silent.nil : Silent i [] := by simp [Silent]

theorem Silent.flatMap {α : Type} {l : List α} {f : α → List Packet}
    (h : ∀ a ∈ l, Silent i (f a)) : Silent i (l.flatMap f) := by
  intro p hp
  obtain ⟨a, ha, hp⟩ := mem_flatMap.1 hp
  exact h a ha p hp

theorem silent_notifyPackets (type : ScopeEvent) (ids : ListSet Id) (strat : Strategy)
    (subs : ListSet NodeID) : Silent i (notifyPackets gc type ids strat subs) := by
  unfold notifyPackets
  split
  · split
    · simp [Silent, Packet.request]
    · exact .nil
  · split
    · exact .nil
    · simp [Silent, Packet.request]

theorem silent_subscopePackets (sc : ℕ) (h : NodeID) : Silent i (subscopePackets gc st sc h) :=
  Silent.flatMap fun _ _ => silent_notifyPackets _ _ _ _

theorem silent_rendezvousPackets {i' : ℕ} (hne : i' ≠ i) (subs : ListSet NodeID)
    (upd : Bool) : Silent i (rendezvousPackets gc st i' subs upd) := by
  unfold rendezvousPackets
  dsimp only
  split
  · exact .nil
  split
  · simp [Silent, Packet.request]
  split
  · split
    · simp [Silent, Packet.request, hne]
    · simp [Silent, Packet.request, hne]
  · exact .nil

theorem silent_againPackets {i' : ℕ} (hne : i' ≠ i) (roots : List Id) (upd : Bool) :
    Silent i (againPackets gc st roots i' upd) := by
  unfold againPackets
  split
  · exact .nil
  · exact silent_rendezvousPackets hne _ _

end

/-! ### The view -/

/-- The view of the item `i` in `s` is part of its view in `st`. -/
structure Within (i : ℕ) (s st : State) : Prop where
  fathers : ∀ g ∈ s.fatherScopes (.item i), g ∈ st.fatherScopes (.item i)
  hosts : ∀ r k h, h ∈ s.pair r (.item i) k → h ∈ st.pair r (.item i) k
  subscribers : ∀ g ∈ s.fatherScopes (.item i), ∀ k h,
    h ∈ s.pair .sub (.scope g) k → h ∈ st.pair .sub (.scope g) k

namespace Within

theorem of_eq (hf : s.fatherScopes = st.fatherScopes) (hp : s.pair = st.pair) : Within i s st :=
  ⟨fun _ h => hf ▸ h, fun _ _ _ h => hp ▸ h, fun _ _ _ _ h => hp ▸ h⟩

theorem emits {ps : List Packet} : Within i (st.emits ps) st := of_eq rfl rfl

theorem trans (h₁ : Within i t s) (h₂ : Within i s st) : Within i t st where
  fathers := fun g hg => h₂.fathers g (h₁.fathers g hg)
  hosts := fun r k h hh => h₂.hosts r k h (h₁.hosts r k h hh)
  subscribers := fun g hg k h hh =>
    h₂.subscribers g (h₁.fathers g hg) k h (h₁.subscribers g hg k h hh)

variable {label' : Obj → Fragment}

section
variable (hv : Within i s st) (hw : st.Wf label) (hws : s.Wf label')
include hv hw hws

theorem publishers {h : NodeID}
    (hh : h ∈ s.getPublishers (.item i)) : h ∈ st.getPublishers (.item i) := by
  obtain ⟨k, hk⟩ := hws.mem_getHosts.1 hh
  exact hw.mem_getHosts.2 ⟨k, hv.hosts _ _ _ hk⟩

theorem interested {h : NodeID} (hh : h ∈ s.interested i) : h ∈ st.interested i := by
  rw [hw.mem_interested]
  rcases hws.mem_interested.1 hh with ⟨k, hk⟩ | ⟨g, hg, k, hk⟩
  · exact .inl ⟨k, hv.hosts _ _ _ hk⟩
  · exact .inr ⟨g, hv.fathers g hg, k, hv.subscribers g hg _ _ hk⟩

end

theorem withdraw {r : Role} {o : Obj} {k : Id} {h : NodeID} : Within i (st.withdraw r o k h) st :=
  ⟨fun _ hg => hg, fun _ _ _ hh => (State.mem_withdraw_pair.1 hh).1,
    fun _ _ _ _ hh => (State.mem_withdraw_pair.1 hh).1⟩

end Within

theorem Settles.within {o : Obj} {f : Option ℕ} (hs : Settles label st o f m) : Within i m st :=
  ⟨fun _ hg => hs.fatherScopes_sub hg, fun _ _ _ hh => hs.mem_pair.1 hh,
    fun _ _ _ _ hh => hs.mem_pair.1 hh⟩

/-! ### Quiet changes -/

/-- Nothing happens to the item `i`: its view is the same, and no request for it is pushed. -/
structure Quiet (i : ℕ) (st s : State) : Prop where
  within : Within i s st
  covers : Within i st s
  requests : lastRequest i s.out = lastRequest i st.out
  strategy : ∀ k h, h ∈ st.pair .pub (.item i) k → s.strategy (.item i) = st.strategy (.item i)

namespace Quiet

theorem refl : Quiet i st st := ⟨Within.of_eq rfl rfl, Within.of_eq rfl rfl, rfl, fun _ _ _ => rfl⟩

theorem trans (h₁ : Quiet i st s) (h₂ : Quiet i s t) : Quiet i st t where
  within := h₂.within.trans h₁.within
  covers := h₁.covers.trans h₂.covers
  requests := h₂.requests.trans h₁.requests
  strategy := fun k h hh => by
    rw [h₂.strategy k h (h₁.covers.hosts _ _ _ hh), h₁.strategy k h hh]

theorem emits {ps : List Packet} (hps : Silent i ps) : Quiet i st (st.emits ps) :=
  ⟨Within.of_eq rfl rfl, Within.of_eq rfl rfl, lastRequest_append_silent hps _, fun _ _ _ => rfl⟩

theorem host (h : NodeID) : Quiet i st (st.getRemoteHost h) :=
  ⟨Within.of_eq rfl rfl, Within.of_eq rfl rfl, rfl, fun _ _ _ => rfl⟩

theorem withdraw {r : Role} {o : Obj} {k : Id} {h : NodeID} (ho : o ≠ Obj.item i)
    (hsub : r = .sub → ∀ g ∈ st.fatherScopes (.item i), o ≠ Obj.scope g) :
    Quiet i st (st.withdraw r o k h) where
  within := Within.withdraw
  covers := ⟨fun _ hg => hg,
    fun _ _ _ hh => State.mem_withdraw_pair.2 ⟨hh, fun hc => ho hc.2.1.symm⟩,
    fun g hg _ _ hh =>
      State.mem_withdraw_pair.2 ⟨hh, fun hc => hsub hc.1.symm g hg hc.2.1.symm⟩⟩
  requests := rfl
  strategy := fun _ _ _ => rfl

end Quiet

theorem Joins.quiet {adopts : Obj → ℕ → Prop} {r : Role} {h : NodeID} {o : Obj} {k : Id}
    (hw : st.Wf label) (hj : Joins label adopts r h st o k m) (ho : o ≠ Obj.item i)
    (hsub : r = .sub → ∀ g ∈ st.fatherScopes (.item i), o ≠ Obj.scope g) : Quiet i st m := by
  have hback : ∀ g ∈ m.fatherScopes (.item i), g ∈ st.fatherScopes (.item i) := by
    intro g hg
    rcases hj.father_cases hw hg with hg | ⟨he, -⟩
    · exact hg
    · exact absurd he.symm ho
  refine ⟨⟨hback, ?_, ?_⟩, ⟨fun g hg => hj.fatherScopes_mono hw hg, ?_, ?_⟩, ?_, ?_⟩
  · intro r' k' h' hh
    rcases (hj.mem_pair hw).1 hh with hh | ⟨-, he, -⟩
    · exact hh
    · exact absurd he.symm ho
  · intro g hg k' h' hh
    rcases (hj.mem_pair hw).1 hh with hh | ⟨hr, he, -⟩
    · exact hh
    · exact absurd he.symm (hsub hr.symm g (hback g hg))
  · exact fun _ _ _ hh => (hj.mem_pair hw).2 (.inl hh)
  · exact fun _ _ _ _ hh => (hj.mem_pair hw).2 (.inl hh)
  · rw [hj.out_eq hw]
  · exact fun k' h' hh => hj.strategy_of_live hw (hw.pair_ids _ _ _ _ hh)

theorem Settles.quiet {o : Obj} {f : Option ℕ} (hs : Settles label st o f m)
    (ho : o ≠ Obj.item i) : Quiet i st m := by
  have hf := hs.fatherScopes_of_ne ho.symm
  refine ⟨hs.within,
    ⟨?_, fun _ _ _ hh => hs.mem_pair.2 hh, fun _ _ _ _ hh => hs.mem_pair.2 hh⟩, ?_, ?_⟩
  · rw [hf]
    exact fun _ hg => hg
  · rw [hs.out_eq]
  · intro _ _ _
    rw [hs.strategy_eq]

/-! ### Scopes -/

section
variable {k : Id} {sc : ℕ}

theorem ReclaimsScope.quiet {f : Option ℕ} (hw : st.Wf label)
    (hr : ReclaimsScope gc label k sc st f s) : Quiet i st s := by
  obtain ⟨m, ps, hs, rfl, hps⟩ := hr.settles hw
  refine (hs.quiet (by simp)).trans (Quiet.emits ?_)
  rcases hps with rfl | ⟨ids, str, subs, rfl⟩
  · exact .nil
  · exact silent_notifyPackets _ _ _ _

theorem AddsScope.quiet {r : Role} {h : NodeID} {strat : Strategy} {ID pre : Id} (hw : st.Wf label)
    (ha : AddsScope gc label r h strat st ID pre sc s) : Quiet i st s := by
  have hsub : r = .sub → ∀ g ∈ st.fatherScopes (.item i), Obj.scope sc ≠ Obj.scope g := by
    rintro rfl g hg he
    obtain ⟨j, hj⟩ := hw.father_live hg
    have hlt := hw.lt_next hj
    rw [← he] at hlt
    cases ha with
    | root | born => exact lt_irrefl _ hlt
    | adopted hr => cases hr
  obtain ⟨m, ids, str, subs, hj, rfl | rfl⟩ := ha.joins hw
  · exact hj.quiet hw (by simp) hsub
  · exact (hj.quiet hw (by simp) hsub).trans (Quiet.emits (silent_notifyPackets _ _ _ _))

theorem PublishesScope.quiet {h : NodeID} {strat : Strategy} {ID pre : Id} (hw : st.Wf label)
    (hp : PublishesScope gc label h strat st ID pre s) : Quiet i st s := by
  cases hp with
  | @again sc hk =>
    have hj : Joins label (fun _ _ => False) .pub h st (.scope sc) _ _ := Joins.there hk
    exact hj.quiet hw (by simp) (by simp)
  | added ha => exact ha.quiet hw

end

/-! ### Other items -/

section
variable {strat : Strategy} {upd : Bool} {h : NodeID} {k : Id} {i' f : ℕ}

theorem LosesPublisher.quiet (hl : LosesPublisher gc label upd h k i' f st s)
    (hne : i' ≠ i) : Quiet i st s := by
  have ho : Obj.item i' ≠ Obj.item i := by simpa using hne
  obtain ⟨m, hs, rfl⟩ := hl.settles
  exact ((Quiet.withdraw ho (by simp)).trans (hs.quiet ho)).trans
    (Quiet.emits (silent_againPackets hne _ _))

theorem LosesSubscriber.quiet (hl : LosesSubscriber gc label upd h k i' f st s)
    (hne : i' ≠ i) : Quiet i st s := by
  have ho : Obj.item i' ≠ Obj.item i := by simpa using hne
  obtain ⟨m, hs, rfl⟩ := hl.settles
  exact ((Quiet.withdraw ho (by simp)).trans (hs.quiet ho)).trans
    (Quiet.emits (silent_againPackets hne _ _))

theorem UnpublishTry.quiet (hw : st.Wf label) (hk : k ∉ st.ids (.item i))
    (hu : UnpublishTry gc label strat upd h k st s) : Quiet i st s := by
  cases hu with
  | skip => exact .refl
  | lose _ hl =>
    refine hl.quiet ?_
    rintro rfl
    exact hk (hl.key_mem hw)

theorem OneShot.ids_sub {l : List NodeID} (hw : st.Wf label)
    (hr : OneShot gc label strat upd k l st s) {o : Obj} {k' : Id}
    (hk' : k' ∈ s.ids o) : k' ∈ st.ids o :=
  hr.invariant hw (fun t => k' ∈ t.ids o → k' ∈ st.ids o)
    (fun _ _ _ _ ih hu hmem => ih (hu.ids_sub hmem)) (fun hmem => hmem) hk'

theorem OneShot.quiet {l : List NodeID} (hw : st.Wf label) (hk : k ∉ st.ids (.item i))
    (hr : OneShot gc label strat upd k l st s) : Quiet i st s := by
  refine (hr.invariant hw (fun t => k ∉ t.ids (.item i) ∧ Quiet i st t) ?_ ⟨hk, Quiet.refl⟩).2
  intro p t t' hwt hinv hu
  obtain ⟨hkt, hq⟩ := hinv
  exact ⟨fun hmem => hkt (hu.ids_sub hmem), hq.trans (hu.quiet hwt hkt)⟩

theorem Visits.ids_sub {K : Prop} (hw : st.Wf label) (hv : Visits gc label strat upd k K i' st s)
    {o : Obj} {k' : Id} (hk' : k' ∈ s.ids o) : k' ∈ st.ids o := by
  cases hv with
  | announce => exact hk'
  | oneShot hr => exact hr.ids_sub (hw.emits _) hk'

theorem Matches.quiet (hw : st.Wf label) (hne : i' ≠ i) (hk : k ∉ st.ids (.item i))
    (hm : Matches gc label strat upd k i' st s) : Quiet i st s := by
  have hemits : Quiet i st (st.emits (rendezvousPackets gc st i' (st.interested i') upd)) :=
    Quiet.emits (silent_rendezvousPackets hne _ _)
  cases hm with
  | announce => exact hemits
  | oneShot _ hr => exact hemits.trans (hr.quiet (hw.emits _) hk)

theorem JoinsInfo.cases {r : Role} {ID pre : Id} (hw : st.Wf label)
    (hj : JoinsInfo gc label r h strat upd st ID pre s) (i : ℕ) :
    Quiet i st s ∨ ∃ f m label', pre ∈ st.ids (.scope f) ∧ st.strategy (.scope f) = strat ∧
      Joins label (Relinks st .item ID pre strat) r h st (.item i) (pre ++ lastFragment ID) m ∧
      m.Wf label' ∧ Matches gc label' strat upd (pre ++ lastFragment ID) i m s := by
  obtain ⟨i', f, m, label', hf, hstr, hj, hwm, hm⟩ := hj
  by_cases hne : i' = i
  · subst hne
    exact .inr ⟨f, m, label', hf, hstr, hj, hwm, hm⟩
  · have ho : Obj.item i' ≠ Obj.item i := by simpa using hne
    refine .inl ((hj.quiet hw ho (by simp)).trans (hm.quiet hwm hne fun hmem => ?_))
    exact ho (hwm.eq_of_mem (hj.key_mem hw) hmem)

theorem Joins.ids_scope {adopts : Obj → ℕ → Prop} {r : Role} {g : ℕ} {k' : Id} (hw : st.Wf label)
    (hj : Joins label adopts r h st (.item i) k m) (hk' : k' ∈ m.ids (.scope g)) :
    k' ∈ st.ids (.scope g) := by
  generalize ho : Obj.item i = o at hj
  cases hj with
  | there => exact hk'
  | root => exact absurd ho (by simp)
  | born hj =>
    rcases (hw.mem_birth_ids hj).1 hk' with hk' | ⟨he, -⟩
    · exact hk'
    · exact absurd (ho.trans he.symm) (by simp)
  | @adopted _ f j k₀ s _ _ _ _ _ _ _ hg =>
    -- a new name of a scope would come from a shorter new name of a father
    have hmain : ∀ n g k', k'.length ≤ n → k' ∈ s.ids (.scope g) → k' ∈ st.ids (.scope g) := by
      intro n
      induction n with
      | zero =>
        intro g k' hlen hk'
        rcases hg.sound _ _ hk' with hk' | ⟨f', -, j', -, rfl⟩
        · exact hk'
        · simp at hlen
      | succ n ih =>
        intro g k' hlen hk'
        rcases hg.sound _ _ hk' with hk' | ⟨f', hf', j', hj', rfl⟩
        · exact hk'
        · have hj' := ih f' j' (by simpa using hlen) hj'
          rcases State.mem_link_fatherScopes.1 hf' with hf' | ⟨he, -⟩
          · exact hw.mem_of_father hf' hj'
          · exact absurd (ho.trans he.symm) (by simp)
    exact hmain _ g k' le_rfl hk'

end

end Blackadder
