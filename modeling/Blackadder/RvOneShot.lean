/-
**One-shot items.**

An item below a *-over-ICN root scope loses its publishers when it has an interested subscriber as
well, but under one name of the item only. A publication that meets subscribers leaves no trace; a
subscription leaves the publishers under other names.
-/

import Blackadder.RvItems

namespace Blackadder

open ListSet List

variable {gc : GlobalConf} {st s t m : State} {label label' : Obj → Fragment} {i : ℕ}
  {past : List State}

open Except (Runs)

/-! ### Departures shrink the view -/

section
variable {strat : Strategy} {upd : Bool} {h : NodeID} {k : Id} {i' f sc : ℕ}

theorem LosesPublisher.within (hl : LosesPublisher gc label upd h k i' f st s) : Within i s st := by
  obtain ⟨m, hs, rfl⟩ := hl.settles
  exact Within.emits.trans (hs.within.trans Within.withdraw)

theorem LosesSubscriber.within (hl : LosesSubscriber gc label upd h k i' f st s) :
    Within i s st := by
  obtain ⟨m, hs, rfl⟩ := hl.settles
  exact Within.emits.trans (hs.within.trans Within.withdraw)

theorem UnpublishTry.within (hu : UnpublishTry gc label strat upd h k st s) : Within i s st := by
  cases hu with
  | skip => exact Within.of_eq rfl rfl
  | lose _ hl => exact hl.within

theorem OneShot.within {l : List NodeID} (hw : st.Wf label)
    (hr : OneShot gc label strat upd k l st s) : Within i s st :=
  hr.invariant hw (fun t => Within i t st) (fun _ _ _ _ ih hu => hu.within.trans ih)
    (Within.of_eq rfl rfl)

theorem Cascade.within (hw : st.Wf label) (hc : Cascade gc label strat upd h sc st s) :
    Within i s st :=
  hc.invariant hw (fun t => Within i t st) (fun _ _ _ _ _ ih hu => hu.within.trans ih)
    (Within.of_eq rfl rfl)

theorem Matches.within (hw : st.Wf label) (hm : Matches gc label strat upd k i' st s) :
    Within i s st :=
  hm.invariant hw (fun t => Within i t st) (fun _ _ ih => Within.emits.trans ih)
    (fun _ _ _ _ _ ih hu => hu.within.trans ih) (Within.of_eq rfl rfl)

theorem Visits.within {K : Prop} (hw : st.Wf label)
    (hv : Visits gc label strat upd k K i' st s) : Within i s st :=
  hv.invariant hw (fun t => Within i t st) (fun _ _ ih => Within.emits.trans ih)
    (fun _ _ _ _ _ ih hu => hu.within.trans ih) (Within.of_eq rfl rfl)

end

/-! ### Spent items -/

/-- All names of the object are below *-over-ICN root scopes. -/
def State.OverICN (st : State) (o : Obj) : Prop :=
  ∀ k ∈ st.ids o, rootFragment k ∈ knownRootscopes

instance (st : State) (o : Obj) : Decidable (st.OverICN o) :=
  inferInstanceAs (Decidable (∀ k ∈ (st.ids o).toList, rootFragment k ∈ knownRootscopes))

theorem isKnown_of_overICN {k : Id} (hp : st.OverICN (.item i)) (hk : k ∈ st.ids (.item i)) :
    isKnown gc (st.getRootScopes i) = true := by
  refine isKnown_eq_of_forall (getRootScopes_ne_nil hk) fun r hr => ?_
  obtain ⟨j, hj, rfl⟩ := mem_map.1 hr
  exact decide_eq_true (hp j hj)

/-- The item has no publisher, or nobody is interested. -/
def State.Spent (st : State) (i : ℕ) : Prop :=
  (∃ k p, p ∈ st.pair .pub (.item i) k) → ∀ n, n ∉ st.interested i

theorem State.Spent.of_within (hs : st.Spent i) (hw : st.Wf label) (hws : s.Wf label')
    (hv : Within i s st) : s.Spent i := by
  intro hex n hn
  obtain ⟨k, p, hp⟩ := hex
  exact hs ⟨k, p, hv.hosts _ _ _ hp⟩ n (hv.interested hw hws hn)

theorem State.spent_of_no_publisher (h : ∀ k p, p ∉ st.pair .pub (.item i) k) : st.Spent i := by
  intro hex
  obtain ⟨k, p, hp⟩ := hex
  exact absurd hp (h k p)

/-! ### The removal -/

section
variable {strat : Strategy} {upd : Bool} {h p : NodeID} {k : Id} {f : ℕ}
  {l : List NodeID}

/-- **The removal**: the list does not publish the item under the name any more. -/
theorem OneShot.removes (hw : st.Wf label) (hf : k.dropLast ∈ st.ids (.scope f))
    (hstr : st.strategy (.scope f) = strat) (hr : OneShot gc label strat upd k l st s)
    (hp : p ∈ l) : p ∉ s.pair .pub (.item i) k := by
  -- whoever is not left on the list is gone
  have hloop := Runs.invariant (fun rest t => t.Wf label ∧ k.dropLast ∈ t.ids (.scope f) ∧
    t.strategy (.scope f) = strat ∧ (p ∈ rest ∨ p ∉ t.pair .pub (.item i) k)) hr ?_
    ⟨hw, hf, hstr, .inl hp⟩
  · exact hloop.2.2.2.resolve_left (by simp)
  intro q rest t t' hinv hu
  obtain ⟨hwt, hft, hstrt, hgone⟩ := hinv
  have hwit := hu.within (i := i)
  refine ⟨hu.wf hwt, by rwa [hu.ids_scope], by rwa [hu.strategy_eq], ?_⟩
  by_cases hrest : p ∈ rest
  · exact .inl hrest
  refine .inr fun hmem => ?_
  have hmem' := hwit.hosts _ _ _ hmem
  have hk := hwt.pair_ids _ _ _ _ hmem'
  obtain rfl : p = q := (mem_cons.1 (hgone.resolve_right fun hno => hno hmem')).resolve_right hrest
  cases hu with
  | skip hno => exact hno i f (hwt.index_eq_some.2 hk) (hwt.index_eq_some.2 hft) hstrt hmem
  | @lose i' f' _ _ hl =>
    have hi : Obj.item i = .item i' := hwt.eq_of_mem hk (hl.key_mem hwt)
    exact (hl.mem_pair.1 hmem).2 ⟨rfl, hi, rfl, rfl⟩

theorem Settles.father_gone (hs : Settles label st (.item i) (some f) m)
    (hno : ¬ st.UsedUnder (.item i) f) : f ∉ m.fatherScopes (.item i) := by
  cases hs with
  | keep hneed =>
    refine absurd (hneed.resolve_left fun hc => ?_) hno
    exact absurd hc.1 (by simp)
  | whole => exact fun hf => (State.mem_delete_fatherScopes.1 hf).2 rfl
  | branch => exact fun hf => (State.mem_deleteBranch_fatherScopes.1 hf).2 ⟨rfl, rfl⟩

theorem OneShot.father_gone (hw : st.Wf label) (hf : k.dropLast ∈ st.ids (.scope f))
    (honly : ∀ r k' h', h' ∈ st.pair r (.item i) k' → k'.dropLast ∈ st.ids (.scope f) →
      r = .pub ∧ k' = k ∧ h' = h)
    (hr : OneShot gc label strat upd k l st s)
    (hgone : h ∉ s.pair .pub (.item i) k) (hmem : h ∈ st.pair .pub (.item i) k) :
    f ∉ s.fatherScopes (.item i) := by
  have hinv := hr.invariant hw (fun t => Within i t st ∧ t.ids (.scope f) = st.ids (.scope f) ∧
    (h ∈ t.pair .pub (.item i) k ∨ f ∉ t.fatherScopes (.item i))) ?_
    ⟨Within.of_eq rfl rfl, rfl, .inl hmem⟩
  · exact hinv.2.2.resolve_left hgone
  intro q t t' hwt hinv hu
  obtain ⟨hwit, hids, hor⟩ := hinv
  refine ⟨hu.within.trans hwit, (hu.ids_scope f).trans hids, ?_⟩
  cases hu with
  | skip => exact hor
  | @lose i' f' _ _ hl =>
    by_cases hne : i' = i
    swap
    · have ho : Obj.item i ≠ Obj.item i' := by simpa using Ne.symm hne
      rw [hl.fatherScopes_of_ne ho]
      refine hor.imp (fun hmem => hl.mem_pair.2 ⟨hmem, fun hc => ho hc.2.1⟩) id
    -- the host under the name is the only one below the father
    subst hne
    obtain ⟨-, -, rfl⟩ := honly _ _ _ (hwit.hosts _ _ _ hl.mem) hf
    have hff : Obj.scope f' = .scope f := hwt.eq_of_mem hl.name (by rwa [hids])
    obtain rfl : f' = f := by simpa using hff
    obtain ⟨m, hs, rfl⟩ := hl.settles
    refine .inr (hs.father_gone ?_)
    intro hex
    obtain ⟨r, k', h', hh, hk'⟩ := hex
    obtain ⟨hh, hnot⟩ := State.mem_withdraw_pair.1 hh
    rw [State.withdraw_ids, hids] at hk'
    obtain ⟨rfl, rfl, rfl⟩ := honly _ _ _ (hwit.hosts _ _ _ hh) hk'
    exact hnot ⟨rfl, rfl, rfl, rfl⟩

end

/-! ### Publications -/

section
variable {strat : Strategy} {upd : Bool} {h : NodeID} {k : Id} {f : ℕ}
  {adopts : Obj → ℕ → Prop}

/-- **A publication that meets subscribers leaves no trace**: the publisher and the father it
brought are removed. -/
theorem Joins.no_trace (hw : st.Wf label) (hwm : m.Wf label')
    (hj : Joins label adopts .pub h st (.item i) k m) (hf : k.dropLast ∈ st.ids (.scope f))
    (hstr : st.strategy (.scope f) = strat) {ps : List Packet}
    (hr : OneShot gc label' strat upd k (m.getPublishers (.item i)).toList (m.emits ps) s) :
    Within i s st := by
  have hwit : Within i s m := (hr.within (hwm.emits ps)).trans Within.emits
  have hf' := hj.ids_mono hw hf
  have hrem : ∀ p, p ∉ s.pair .pub (.item i) k := by
    intro p hp
    refine hr.removes (hwm.emits ps) hf' ?_ ?_ hp
    · rw [State.emits_strategy, hj.strategy_of_live hw hf, hstr]
    · exact mem_toList.2 (hwm.mem_getHosts.2 ⟨k, hwit.hosts _ _ _ hp⟩)
  have hhosts : ∀ r k' h', h' ∈ s.pair r (.item i) k' → h' ∈ st.pair r (.item i) k' := by
    intro r k' h' hh
    rcases (hj.mem_pair hw).1 (hwit.hosts _ _ _ hh) with hold | ⟨rfl, -, rfl, rfl⟩
    · exact hold
    · exact absurd hh (hrem h')
  have hfat : ∀ g ∈ s.fatherScopes (.item i), g ∈ st.fatherScopes (.item i) := by
    intro g hg
    by_contra hnew
    have hname : k.dropLast ∈ st.ids (.scope g) :=
      ((hj.father_cases hw (hwit.fathers g hg)).resolve_left hnew).2.1
    have hname' := hj.ids_mono hw hname
    refine hr.father_gone (hwm.emits ps) hname' ?_ (hrem h)
      ((hj.mem_pair hw).2 (.inr ⟨rfl, rfl, rfl, rfl⟩)) hg
    -- a host that was there under the new father would make it an old one
    intro r k' h' hh hk'
    rcases (hj.mem_pair hw).1 hh with hold | ⟨rfl, -, rfl, rfl⟩
    · have hmem := hw.pair_ids _ _ _ _ hold
      obtain ⟨j, rfl⟩ := hw.exists_append hmem
      rw [dropLast_concat] at hk'
      exact absurd (hw.father_of_index (hw.index_eq_some.2 (hj.ids_scope hw hk')) hmem).1 hnew
    · exact ⟨rfl, rfl, rfl⟩
  refine ⟨hfat, hhosts, fun g hg k' h' hh => ?_⟩
  rcases (hj.mem_pair hw).1 (hwit.subscribers g hg _ _ hh) with hold | ⟨hr, -⟩
  · exact hold
  · cases hr

theorem Matches.spent_publish (hw : st.Wf label) (hwm : m.Wf label') (hs : st.Spent i)
    (hj : Joins label adopts .pub h st (.item i) k m) (hf : k.dropLast ∈ st.ids (.scope f))
    (hstr : st.strategy (.scope f) = strat) (hm : Matches gc label' strat upd k i m s)
    (hknown : s.OverICN (.item i)) : s.Spent i := by
  cases hm with
  | announce hno =>
    -- a known item is only announced when nobody is interested
    have hm : m.OverICN (.item i) := hknown
    exact fun _ => hno (isKnown_of_overICN hm (hj.key_mem hw))
  | oneShot _ hr =>
    exact hs.of_within hw (hr.wf (hwm.emits _)) (hj.no_trace hw hwm hf hstr hr)

/-! ### Subscriptions -/

theorem Joins.there_of_sub {o : Obj} {k' : Id} (hw : st.Wf label)
    (hj : Joins label adopts .sub h st o k m) (hk' : k' ∈ st.ids o) : k ∈ st.ids o := by
  cases hj with
  | there hk => exact hk
  | root => exact absurd hk' ((hw.unborn (.scope (st.next .scope)) le_rfl).1 k')
  | @born κ => exact absurd hk' ((hw.unborn ⟨κ, st.next κ⟩ le_rfl).1 k')
  | adopted hrole => cases hrole

theorem Matches.spent_subscribe (hw : st.Wf label) (hwm : m.Wf label')
    (hj : Joins label adopts .sub h st (.item i) k m) (hf : k.dropLast ∈ st.ids (.scope f))
    (hstr : st.strategy (.scope f) = strat)
    (hreach : k ∈ st.ids (.item i) → ∀ k' p, p ∈ st.pair .pub (.item i) k' → k' = k)
    (hm : Matches gc label' strat upd k i m s) (hknown : s.OverICN (.item i)) : s.Spent i := by
  have hwit := hm.within (i := i) hwm
  have hpubs : ∀ k' p, p ∈ s.pair .pub (.item i) k' → p ∈ st.pair .pub (.item i) k' := by
    intro k' p hp
    rcases (hj.mem_pair hw).1 (hwit.hosts _ _ _ hp) with hold | ⟨hr, -⟩
    · exact hold
    · cases hr
  cases hm with
  | announce hno =>
    have hm : m.OverICN (.item i) := hknown
    exact fun _ => hno (isKnown_of_overICN hm (hj.key_mem hw))
  | oneShot _ hr =>
    refine State.spent_of_no_publisher fun k' p hp => ?_
    -- an item with a publisher is there already
    have hk := hj.there_of_sub hw (hw.pair_ids _ _ _ _ (hpubs k' p hp))
    obtain rfl := hreach hk k' p (hpubs k' p hp)
    have hf' := hj.ids_mono hw hf
    refine hr.removes (hwm.emits _) hf' ?_ ?_ hp
    · rw [State.emits_strategy, hj.strategy_of_live hw hf, hstr]
    · exact mem_toList.2 (hwm.mem_getHosts.2 ⟨k', hwit.hosts _ _ _ hp⟩)

end

section
variable {strat : Strategy} {upd : Bool} {h : NodeID} {k : Id} {sc : ℕ}

theorem visits_spent {K : Prop} {l : List ℕ} (hw : st.Wf label) (hK : K)
    (hk : k ∈ st.ids (.scope sc)) (hstr : st.strategy (.scope sc) = strat)
    (hreach : ∀ k' p, p ∈ st.pair .pub (.item i) k' → k' = k ++ [label (.item i)]) (hi : i ∈ l)
    (hr : Runs (Visits gc label strat upd k K) l st s) : ∀ k' p, p ∉ s.pair .pub (.item i) k' := by
  have hloop := Runs.invariant (fun rest t => t.Wf label ∧ Within i t st ∧
    t.ids (.scope sc) = st.ids (.scope sc) ∧ t.strategy = st.strategy ∧
    (i ∈ rest ∨ ∀ k' p, p ∉ t.pair .pub (.item i) k')) hr ?_
    ⟨hw, Within.of_eq rfl rfl, rfl, rfl, .inl hi⟩
  · exact hloop.2.2.2.2.resolve_left (by simp)
  intro i' rest t t' hinv hv
  obtain ⟨hwt, hwit, hids, hstrt, hor⟩ := hinv
  have hwit' := hv.within (i := i) hwt
  have hscope : t'.ids (.scope sc) = t.ids (.scope sc) ∧ t'.strategy = t.strategy :=
    hv.invariant hwt (fun u => u.ids (.scope sc) = t.ids (.scope sc) ∧
      u.strategy = t.strategy) (fun _ _ ih => ih)
      (fun _ _ _ _ _ ih hu => ⟨(hu.ids_scope sc).trans ih.1, hu.strategy_eq.trans ih.2⟩) ⟨rfl, rfl⟩
  refine ⟨hv.wf hwt, hwit'.trans hwit, hscope.1.trans hids, hscope.2.trans hstrt, ?_⟩
  by_cases hrest : i ∈ rest
  · exact .inl hrest
  refine .inr fun k' p hp => ?_
  have hp' := hwit'.hosts _ _ _ hp
  obtain rfl : i = i' :=
    (mem_cons.1 (hor.resolve_right fun hno => hno k' p hp')).resolve_right hrest
  cases hv with
  | announce hno => exact hno hK
  | oneShot hr =>
    obtain rfl := hreach k' p (hwit.hosts _ _ _ hp')
    refine hr.removes (hwt.emits _) (f := sc) ?_ ?_ ?_ hp
    · rw [dropLast_concat, State.emits_ids, hids]
      exact hk
    · rw [State.emits_strategy, hstrt]
      exact hstr
    · exact mem_toList.2 (hwt.mem_getHosts.2 ⟨_, hp'⟩)

theorem SubscribesScope.spent {a : Fragment} {pre : Id} (hw : st.Wf label) (hs : st.Spent i)
    (hreach : ∀ sc ∈ st.fatherScopes (.item i), pre ++ [a] ∈ st.ids (.scope sc) →
      ∀ k' p, p ∈ st.pair .pub (.item i) k' →
        k'.dropLast = pre ++ [a] ∧ st.AllKnown sc (pre ++ [a]))
    (hsub : SubscribesScope gc label h strat upd st a pre s) (hws : s.Wf label') :
    s.Spent i := by
  cases hsub with
  | added hadd => exact hs.of_within hw hws (hadd.quiet hw).within
  | @again sc _ _ hk hstr hm hr =>
    subst hm
    have hwm := hw.register (r := .sub) (h := h) hk
    have hwit : Within i s (st.register .sub (.scope sc) (pre ++ [a]) h) :=
      visits_invariant (hwm.emits _) hr (fun t => Within i t _)
        (fun _ _ ih => Within.emits.trans ih) (fun _ _ _ _ _ ih hu => hu.within.trans ih)
        Within.emits
    by_cases hf : sc ∈ st.fatherScopes (.item i)
    · refine State.spent_of_no_publisher fun k' p hp => ?_
      have hold : ∀ k' p, p ∈ (st.register .sub (.scope sc) (pre ++ [a]) h).pair
          Role.pub (.item i) k' → p ∈ st.pair .pub (.item i) k' := by
        intro k' p hp
        exact (State.mem_register_pair.1 hp).resolve_right (by simp)
      have hall := (hreach sc hf hk k' p (hold _ _ (hwit.hosts _ _ _ hp))).2
      refine visits_spent (hwm.emits _) hall hk hstr ?_ ((hw.links (.item i) sc).1 hf) hr k' p hp
      intro k' p hp
      obtain ⟨j, rfl⟩ := hw.exists_append (hw.pair_ids _ _ _ _ hp)
      rw [← (hreach sc hf hk _ p hp).1, dropLast_concat]
    · have hj : Joins label (fun _ _ => False) .sub h st (.scope sc) _ _ := Joins.there hk
      refine hs.of_within hw hws (hwit.trans (hj.quiet hw (by simp) fun _ g hg he => hf ?_).within)
      obtain rfl : sc = g := by simpa using he
      exact hg

end

/-! ### Requests and runs -/

/-- A subscription reaches all publishers of `i`: it names the one identifier that the item is
published under, or that of a father, and other items of the scope do not keep it from the removal.
-/
structure Request.Clears (r : Request) (st : State) (i : ℕ) : Prop where
  info : r.type = .subscribeInfo → r.prefixID ++ r.ID ∈ st.ids (.item i) →
    ∀ k p, p ∈ st.pair .pub (.item i) k → k = r.prefixID ++ r.ID
  scope : r.type = .subscribeScope → ∀ sc ∈ st.fatherScopes (.item i),
    r.prefixID ++ r.ID ∈ st.ids (.scope sc) → ∀ k p, p ∈ st.pair .pub (.item i) k →
      k.dropLast = r.prefixID ++ r.ID ∧ st.AllKnown sc (r.prefixID ++ r.ID)

theorem State.Wf.dropLast_key (hw : st.Wf label) {f : ℕ} {ID pre : Id}
    (hf : pre ∈ st.ids (.scope f)) (hk : pre ++ lastFragment ID ∈ st.ids (.item i)) :
    (pre ++ lastFragment ID).dropLast = pre := by
  rcases eq_nil_or_concat ID with rfl | ⟨l, x, rfl⟩
  · rw [show lastFragment [] = [] from rfl, append_nil] at hk
    exact absurd (hw.eq_of_mem hf hk) (by simp)
  · rw [concat_eq_append, lastFragment_append, dropLast_concat]

theorem Effect.spent {r : Request} (hw : st.Wf label) (hs : st.Spent i) (hr : r.Clears st i)
    (he : Effect gc label r st s) (hws : s.Wf label') (hknown : s.OverICN (.item i)) :
    s.Spent i := by
  cases he with
  | publishScope ht he => exact hs.of_within hw hws (he.quiet hw).within
  | publishInfo ht he =>
    rcases he.cases hw i with hq | ⟨f, m, label', hf, hstr, hj, hwm, hm⟩
    · exact hs.of_within hw hws hq.within
    · have hlast := hwm.dropLast_key (hj.ids_mono hw hf) (hj.key_mem hw)
      exact hm.spent_publish hw hwm hs hj (by rwa [hlast]) hstr hknown
  | unpublishScope ht hID hsc hstr hc hmem hrec =>
    have hwt := hc.wf hw
    exact hs.of_within hw hws
      (((hrec.quiet hwt.withdraw).within.trans Within.withdraw).trans (hc.within hw))
  | unpublishInfo ht hID hstr hl | unsubscribeInfo ht hID hl => exact hs.of_within hw hws hl.within
  | subscribeScope ht hID he =>
    have hreach := hr.scope ht
    rw [hID] at hreach
    exact he.spent hw hs hreach hws
  | subscribeInfo ht hID he =>
    rcases he.cases hw i with hq | ⟨f, m, label', hf, hstr, hj, hwm, hm⟩
    · exact hs.of_within hw hws hq.within
    · have hlast := hwm.dropLast_key (hj.ids_mono hw hf) (hj.key_mem hw)
      have hreach := hr.info ht
      rw [hID] at hreach
      exact hm.spent_subscribe hw hwm hj (by rwa [hlast]) hstr hreach hknown
  | unsubscribeScope ht hID hsc hmem hwd hrec =>
    subst hwd
    exact hs.of_within hw hws
      (((hrec.quiet (hw.withdraw.emits _)).within.trans Within.emits).trans Within.withdraw)

theorem Handles.spent {r : Request} {res : RvReturnCode × State} (hw : st.Wf label)
    (hs : st.Spent i) (hr : r.Clears st i) (hh : Handles gc label r st res) (hws : res.2.Wf label')
    (hknown : res.2.OverICN (.item i)) : res.2.Spent i := by
  have hwg := hw.getRemoteHost r.nodeID
  have hsg := hs.of_within hw hwg (Quiet.host r.nodeID).within
  cases hh with
  | refused => exact hsg
  | cascaded ht hID hsc hno hc => exact hsg.of_within hwg hws (hc.within hwg)
  | granted he =>
    have hrg : r.Clears (st.getRemoteHost r.nodeID) i := ⟨hr.info, hr.scope⟩
    exact he.spent hwg hsg hrg hws hknown

theorem RunIf.spent (h : RunIf gc (fun r st => r.Clears st i) past st)
    (hknown : ∀ t ∈ st :: past, t.OverICN (.item i)) : st.Spent i := by
  induction h with
  | initial => exact State.spent_of_no_publisher fun _ p => not_mem_empty p
  | @step past st st' r fuel code hr hs hP hpush ih =>
    obtain ⟨label, hw⟩ := hr.wf
    obtain ⟨label', hw'⟩ := (RunIf.step hr hs hP hpush).wf
    have hh := (push_meets hw hs fuel).of_eq_ok hpush
    exact hh.spent hw (ih fun t ht => hknown t (mem_cons_of_mem st' ht)) hP hw'
      (hknown st' mem_cons_self)

/-- **Publishers and interested subscribers never meet** if all names of `i` are always below
*-over-ICN root scopes and every subscription reaches all publishers. -/
theorem never_both (h : RunIf gc (fun r st => r.Clears st i) past st)
    (hknown : ∀ t ∈ st :: past, t.OverICN (.item i)) :
    ¬ ((∃ p, p ∈ st.getPublishers (.item i)) ∧ ∃ n, n ∈ st.interested i) := by
  intro hboth
  obtain ⟨⟨p, hp⟩, n, hn⟩ := hboth
  obtain ⟨label, hw⟩ := h.wf
  obtain ⟨k, hk⟩ := hw.mem_getHosts.1 hp
  exact h.spent hknown ⟨k, p, hk⟩ n hn

def httpItem : List Request :=
  [.small 1 .publishScope [] [1] domainLocal, .small 1 .publishInfo [1] [20] domainLocal]

/-- A subscription to the item removes its publisher. -/
theorem never_both_httpItem :
    ∃ st', push exampleConf 8 (.small 3 .subscribeInfo [1] [20] domainLocal) (exampleRun httpItem) =
        .ok (.success, st') ∧
      ¬ ((∃ p, p ∈ st'.getPublishers (.item 0)) ∧ ∃ n, n ∈ st'.interested 0) := by
  have hres : (push exampleConf 8 (.small 3 .subscribeInfo [1] [20] domainLocal)
      (exampleRun httpItem)).map (fun res => (res.1, decide (res.2.OverICN (.item 0)))) =
        .ok (.success, true) := by
    decide +kernel
  obtain ⟨⟨code, st'⟩, hpush, hpart⟩ := Except.exists_ok_of_map hres
  obtain ⟨rfl, hkno'⟩ := Prod.mk.inj hpart
  have htype : ∀ r ∈ httpItem, r.type ≠ .subscribeInfo ∧ r.type ≠ .subscribeScope := by decide
  have hrun : RunIf exampleConf (fun r st => r.Clears st 0) (examplePast httpItem)
      (exampleRun httpItem) :=
    runIf_pushAll httpItem RunIf.initial (by decide) fun r hr st =>
      ⟨fun ht => absurd ht (htype r hr).1, fun ht => absurd ht (htype r hr).2⟩
  have hknown : ∀ t ∈ exampleRun httpItem :: examplePast httpItem, t.OverICN (.item 0) := by
    decide +kernel
  have hcle : (Request.small 3 .subscribeInfo [1] [20] domainLocal).Clears
      (exampleRun httpItem) 0 := by
    refine ⟨fun _ _ k p hp => ?_, fun ht => absurd ht (by decide)⟩
    obtain ⟨label, hw⟩ := hrun.wf
    have hids : (exampleRun httpItem).ids (.item 0) =
        (∅ : ListSet Id).insert ([1, 20].map .ofByte) := by decide +kernel
    have hk := hw.pair_ids _ _ _ _ hp
    rw [hids, mem_insert] at hk
    exact hk.resolve_right (not_mem_empty k)
  refine ⟨st', hpush, never_both (RunIf.step hrun (by decide) hcle hpush) ?_⟩
  intro t ht
  rcases mem_cons.1 ht with rfl | ht
  · exact of_decide_eq_true hkno'
  · exact hknown t ht

/-- An item is published below two root scopes, and there is a subscription below the first. -/
def twiceKnown : List Request :=
  [.small 1 .publishScope [] [0] domainLocal, .small 1 .publishScope [] [1] domainLocal,
    .small 1 .publishInfo [0] [20] domainLocal, .small 2 .publishInfo [1] [0, 20] domainLocal,
    .small 3 .subscribeInfo [0] [20] domainLocal]

/-- The publisher under the second name is still there. -/
theorem both_twiceKnown :
    RunIf exampleConf (fun _ _ => True) (examplePast twiceKnown) (exampleRun twiceKnown) ∧
    (∀ t ∈ exampleRun twiceKnown :: examplePast twiceKnown, t.OverICN (.item 0)) ∧
    .ofByte 2 ∈ (exampleRun twiceKnown).getPublishers (.item 0) ∧
    .ofByte 3 ∈ (exampleRun twiceKnown).interested 0 :=
  ⟨runIf_pushAll twiceKnown RunIf.initial (by decide) fun _ _ _ => trivial, by decide +kernel,
    by decide +kernel, by decide +kernel⟩

end Blackadder
