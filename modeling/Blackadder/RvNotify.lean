/-
**Notifications about scopes.**

The subscribers of a father should be told its identifiers, extended by the fragment of the scope
that appears or disappears. But a scope that gets a further father is announced with all its
identifiers but the one of the request, and a branch that is cut off with that one only.
-/

import Blackadder.RvRuns

namespace Blackadder

open ListSet

variable {gc : GlobalConf} {st s t m w : State} {label : Obj → Fragment} {sc f : ℕ}

open Except (Runs)

/-! ### Fathers of scopes -/

section
variable {strat : Strategy} {upd : Bool} {k : Id} {i : ℕ}

theorem Matches.fatherScopes_scope (hw : st.Wf label) (hm : Matches gc label strat upd k i st s) :
    s.fatherScopes (.scope sc) = st.fatherScopes (.scope sc) :=
  hm.invariant hw (fun t => t.fatherScopes (.scope sc) = st.fatherScopes (.scope sc))
    (fun _ _ ih => ih) (fun _ _ _ _ _ ih hu => (hu.fatherScopes_scope sc).trans ih) rfl

theorem visits_fatherScopes_scope {K : Prop} {l : List ℕ} (hw : st.Wf label)
    (hr : Runs (Visits gc label strat upd k K) l st s) :
    s.fatherScopes (.scope sc) = st.fatherScopes (.scope sc) :=
  visits_invariant hw hr (fun t => t.fatherScopes (.scope sc) = st.fatherScopes (.scope sc))
    (fun _ _ ih => ih) (fun _ _ _ _ _ ih hu => (hu.fatherScopes_scope sc).trans ih) rfl

variable {h : NodeID}

theorem JoinsInfo.fatherScopes_scope {r : Role} {ID pre : Id} (hw : st.Wf label)
    (hj : JoinsInfo gc label r h strat upd st ID pre s) (g : ℕ) :
    g ∈ s.fatherScopes (.scope sc) ↔ g ∈ st.fatherScopes (.scope sc) := by
  obtain ⟨i, f, m, label', -, -, hj, hwm, hm⟩ := hj
  rw [hm.fatherScopes_scope hwm]
  refine ⟨fun hg => ?_, hj.fatherScopes_mono hw⟩
  rcases hj.father_cases hw hg with hg | ⟨ho, -⟩
  · exact hg
  · exact absurd ho (by simp)

theorem LosesPublisher.fatherScopes_scope (hl : LosesPublisher gc label upd h k i f st s) :
    s.fatherScopes (.scope sc) = st.fatherScopes (.scope sc) :=
  hl.fatherScopes_of_ne (by simp)

theorem LosesSubscriber.fatherScopes_scope (hl : LosesSubscriber gc label upd h k i f st s) :
    s.fatherScopes (.scope sc) = st.fatherScopes (.scope sc) := by
  obtain ⟨m, hs, rfl⟩ := hl.settles
  exact hs.fatherScopes_of_ne (by simp)

end

/-! ### A scope appears under a father -/

/-- The list about a scope that appears under `f` is exact if and only if it had no identifier but
that of the request. -/
def Appears (gc : GlobalConf) (st st' : State) (ID : Id) (sc f : ℕ) : Prop :=
  ∃ ids, st'.out = st.out ++ notifyPackets gc .scopePublished ids (st'.strategy (.scope sc))
      (st'.getSubscribers (.scope f)) ∧
    ((∀ k, k ∈ ids ↔ k ∈ st'.ids (.scope sc) ∧ k ∉ st.ids (.scope sc)) ↔
      ∀ k ∈ st.ids (.scope sc), k = ID)

variable {r : Role} {pre : Id} {sc₀ : ℕ} {o : Obj}

theorem AddsScope.appears {h : NodeID} {strat : Strategy} {ID : Id} (hw : st.Wf label)
    (ha : AddsScope gc label r h strat st ID pre sc₀ s) (hno : f ∉ st.fatherScopes (.scope sc))
    (hf : f ∈ s.fatherScopes (.scope sc)) : Appears gc st s ID sc f := by
  cases ha with
  | root => exact absurd hf hno
  | @born a _ g hj hfree hstr m hm =>
    subst hm
    have hgrow := hw.birth_grows .scope (st.strategy (.scope g)) g a
    -- the new link is the one of the new scope
    rw [State.emits_fatherScopes, State.register_fatherScopes, hgrow.fatherScopes_eq] at hf
    obtain ⟨ho, rfl⟩ := (State.mem_newborn_fatherScopes.1 hf).resolve_left hno
    obtain rfl : sc = st.next .scope := by simpa using ho
    have hdead := (hw.unborn (.scope (st.next .scope)) le_rfl).1
    refine ⟨_, congrArg (· ++ _) hgrow.out_eq, iff_of_true (fun k => ?_) fun k hk => ?_⟩
    · exact ⟨fun hk => ⟨hk, hdead k⟩, And.left⟩
    · exact absurd hk (hdead k)
  | @adopted _ _ _ g s m hr hlink hnb hg hws hm =>
    subst hm
    rw [State.emits_fatherScopes, State.register_fatherScopes, hg.fatherScopes_eq] at hf
    obtain ⟨ho, rfl⟩ := (State.mem_link_fatherScopes.1 hf).resolve_left hno
    obtain rfl : sc = sc₀ := by simpa using ho
    refine ⟨_, congrArg (· ++ _) hg.out_eq, ?_⟩
    constructor
    · intro hexact k hk
      by_contra hne
      exact ((hexact k).1 (mem_erase.2 ⟨hne, hg.mono _ _ hk⟩)).2 hk
    · intro honly k
      rw [mem_erase]
      constructor
      · intro hboth
        obtain ⟨hne, hk⟩ := hboth
        exact ⟨hk, fun hold => hne (honly k hold)⟩
      · intro hboth
        obtain ⟨hk, hold⟩ := hboth
        refine ⟨?_, hk⟩
        rintro rfl
        exact hold hlink.mem

/-! ### A scope disappears from a father -/

/-- The list about a scope that disappears from `f` is exact if and only if `f` was the only father,
or has no identifier but that of the request. -/
def Disappears (gc : GlobalConf) (st st' : State) (prefixID : Id) (sc f : ℕ) : Prop :=
  ∃ pre ids, st.out <+: pre ∧
    st'.out = pre ++ notifyPackets gc .scopeUnpublished ids (st.strategy (.scope sc))
      (st'.getSubscribers (.scope f)) ∧
    ((∀ k, k ∈ ids ↔ k ∈ st.ids (.scope sc) ∧ k ∉ st'.ids (.scope sc)) ↔
      (∀ g ∈ st.fatherScopes (.scope sc), g = f) ∨ ∀ j ∈ st.ids (.scope f), j = prefixID)

theorem Disappears.of_eq (hd : Disappears gc w s prefixID sc f)
    (hids : ∀ p, w.ids (.scope p) = st.ids (.scope p))
    (hfath : w.fatherScopes (.scope sc) = st.fatherScopes (.scope sc))
    (hstr : w.strategy = st.strategy) (hout : st.out <+: w.out) :
    Disappears gc st s prefixID sc f := by
  obtain ⟨pre, ids, hpre, hpost, hiff⟩ := hd
  rw [hids, hids, hfath] at hiff
  rw [hstr] at hpost
  exact ⟨pre, ids, hout.trans hpre, hpost, hiff⟩

theorem State.getHosts_congr (hids : s.ids o = st.ids o) (hpair : s.pair r o = st.pair r o) :
    s.getHosts r o = st.getHosts r o := by
  rw [State.getHosts, State.getHosts, hids, hpair]

section
variable (hw : st.Wf label) (hf : f ∈ st.fatherScopes o)
include hw hf

theorem State.Wf.cut_iff (k : Id) : (k ∈ st.ids o ∧ k ∉ (st.deleteBranch o f [label o]).ids o) ↔
      ∃ j ∈ st.ids (.scope f), k = j ++ [label o] := by
  rw [State.mem_deleteBranch_ids, State.mem_namesUnder]
  constructor
  · intro hcut
    by_contra hno
    exact hcut.2 ⟨hcut.1, fun h => hno h.2⟩
  · intro hname
    obtain ⟨j, hj, rfl⟩ := hname
    exact ⟨hw.mem_of_father hf hj, fun h => h.2 ⟨rfl, j, hj, rfl⟩⟩

theorem State.Wf.cut_exact_iff (hp : pre ∈ st.ids (.scope f)) :
    (∀ k, k ∈ (st.ids o).filter (fun k => decide (k = pre ++ [label o])) ↔
        k ∈ st.ids o ∧ k ∉ (st.deleteBranch o f [label o]).ids o) ↔
      ∀ j ∈ st.ids (.scope f), j = pre := by
  simp only [hw.cut_iff hf, mem_filter, decide_eq_true_iff]
  constructor
  · intro hexact j hj
    have hmem := (hexact _).2 ⟨j, hj, rfl⟩
    exact (List.append_singleton_inj.1 hmem.2).1
  · intro honly k
    constructor
    · intro hk
      exact ⟨pre, hp, hk.2⟩
    · intro hname
      obtain ⟨j, hj, rfl⟩ := hname
      rw [honly j hj]
      exact ⟨hw.mem_of_father hf hp, rfl⟩

end

theorem ReclaimsScope.disappears {a : Fragment} {father : Option ℕ} (hw : st.Wf label)
    (hk : pre ++ [a] ∈ st.ids (.scope sc₀))
    (hr : ReclaimsScope gc label (pre ++ [a]) sc₀ st father s)
    (hname : ∀ g, father = some g → pre ∈ st.ids (.scope g)) (hf : f ∈ st.fatherScopes (.scope sc))
    (hno : f ∉ s.fatherScopes (.scope sc)) : Disappears gc st s pre sc f := by
  have hne : Obj.scope f ≠ Obj.scope sc := by
    intro he
    obtain rfl : f = sc := by simpa using he
    exact hw.not_father_self hf
  cases hr with
  | keep => exact absurd hf hno
  | root hleaf hroot hunu =>
    have hsc : Obj.scope sc = .scope sc₀ := by
      by_contra hsc
      exact hno (State.mem_delete_fatherScopes.2 ⟨hf, hsc⟩)
    rw [hsc] at hf
    exact absurd (State.scope_mem_graph_fathers.2 hf) (hw.named.root_fathers _ hroot _)
  | @whole g hleaf hg honly hunu =>
    rw [State.emits_fatherScopes] at hno
    have hsc : Obj.scope sc = .scope sc₀ := by
      by_contra hsc
      exact hno (State.mem_delete_fatherScopes.2 ⟨hf, hsc⟩)
    obtain rfl : sc = sc₀ := by simpa using hsc
    obtain rfl := honly f hf
    have hsubs : (st.delete (.scope sc) (some f)).getHosts .sub (.scope f) =
        st.getHosts .sub (.scope f) :=
      State.getHosts_congr (if_neg hne) (funext fun _ => if_neg hne)
    refine ⟨st.out, st.ids (.scope sc), List.prefix_rfl, ?_, iff_of_true (fun k => ?_) (.inl honly)⟩
    · exact congrArg (fun subs => st.out ++ notifyPackets gc _ _ _ subs) hsubs.symm
    · refine ⟨fun hk => ⟨hk, fun hk' => ?_⟩, And.left⟩
      rw [State.emits_ids, State.mem_delete_ids] at hk'
      exact hk'.2 rfl
  | @branch f₀ g hleaf hf₀ hg hgne hunu =>
    rw [State.emits_fatherScopes] at hno
    have hthis : Obj.scope sc = .scope sc₀ ∧ f = f₀ := by
      by_contra hthis
      exact hno (State.mem_deleteBranch_fatherScopes.2 ⟨hf, hthis⟩)
    obtain ⟨hsc, rfl⟩ := hthis
    obtain rfl : sc = sc₀ := by simpa using hsc
    have hp := hname f rfl
    have ha : a = label (.scope sc) := by
      obtain ⟨j, hj⟩ := hw.exists_append hk
      exact (List.append_singleton_inj.1 hj).2
    subst ha
    have hsubs : (st.deleteBranch (.scope sc) f [label (.scope sc)]).getHosts .sub
        (.scope f) = st.getHosts .sub (.scope f) :=
      State.getHosts_congr (if_neg hne) (funext fun _ => if_neg fun hc => hne hc.1)
    refine ⟨st.out, _, List.prefix_rfl,
      congrArg (fun subs => st.out ++ notifyPackets gc _ _ _ subs) hsubs.symm,
      (hw.cut_exact_iff hf hp).trans ⟨Or.inr, fun hcond => ?_⟩⟩
    exact hcond.resolve_left fun hall => hgne (hall g hg)

/-! ### Requests -/

theorem Effect.appears {r : Request} (hw : st.Wf label) (he : Effect gc label r st s)
    (hno : f ∉ st.fatherScopes (.scope sc)) (hf : f ∈ s.fatherScopes (.scope sc)) :
    Appears gc st s r.ID sc f := by
  cases he with
  | publishScope ht he =>
    cases he with
    | again => exact absurd hf hno
    | added ha => exact ha.appears hw hno hf
  | publishInfo ht he | subscribeInfo ht hID he =>
    exact absurd ((he.fatherScopes_scope hw f).1 hf) hno
  | unpublishScope ht hID hsc hstr hc hmem hr =>
    obtain ⟨m, ps, hs, rfl, -⟩ := hr.settles (hc.wf hw).withdraw
    have hf' := hs.fatherScopes_sub hf
    rw [State.withdraw_fatherScopes, (hc.scope_eq hw sc).2.1] at hf'
    exact absurd hf' hno
  | unpublishInfo ht hID hstr hl => exact absurd (hl.fatherScopes_sub hf) hno
  | subscribeScope ht hID he =>
    cases he with
    | again hk hstr hm hr =>
      subst hm
      rw [visits_fatherScopes_scope ((hw.register hk).emits _) hr] at hf
      exact absurd hf hno
    | added ha =>
      rw [hID]
      exact ha.appears hw hno hf
  | unsubscribeScope ht hID hsc hmem hwd hr =>
    subst hwd
    obtain ⟨m, ps, hs, rfl, -⟩ := hr.settles (hw.withdraw.emits _)
    exact absurd (hs.fatherScopes_sub hf) hno
  | unsubscribeInfo ht hID hl =>
    rw [hl.fatherScopes_scope] at hf
    exact absurd hf hno

theorem AddsScope.fatherScopes_mono {h : NodeID} {strat : Strategy} {ID : Id} (hw : st.Wf label)
    (ha : AddsScope gc label r h strat st ID pre sc₀ s)
    (hf : f ∈ st.fatherScopes (.scope sc)) : f ∈ s.fatherScopes (.scope sc) := by
  obtain ⟨m, ids, str, subs, hj, rfl | rfl⟩ := ha.joins hw
  · exact hj.fatherScopes_mono hw hf
  · rw [State.emits_fatherScopes]
    exact hj.fatherScopes_mono hw hf

theorem Effect.disappears {r : Request} (hw : st.Wf label) (he : Effect gc label r st s)
    (hf : f ∈ st.fatherScopes (.scope sc)) (hno : f ∉ s.fatherScopes (.scope sc)) :
    Disappears gc st s r.prefixID sc f := by
  cases he with
  | publishScope ht he =>
    cases he with
    | again => exact absurd hf hno
    | added ha => exact absurd (ha.fatherScopes_mono hw hf) hno
  | publishInfo ht he | subscribeInfo ht hID he =>
    exact absurd ((he.fatherScopes_scope hw f).2 hf) hno
  | @unpublishScope a sc₀ t _ ht hID hsc hstr hc hmem hr =>
    have hwt := hc.wf hw
    have hscope := fun p => hc.scope_eq hw p
    have hk : r.prefixID ++ [a] ∈ t.ids (.scope sc₀) := hwt.pair_ids _ _ _ _ hmem
    have hstr : t.strategy = st.strategy := hc.invariant hw (fun t => t.strategy = st.strategy)
        (fun _ _ _ _ _ ih hu => hu.strategy_eq.trans ih) rfl
    have hout : st.out <+: t.out := (hc.moves (A := fun _ _ _ => True) hw).later.out
    have hd : Disappears gc (t.withdraw .pub (.scope sc₀) (r.prefixID ++ [a]) r.nodeID) s
        r.prefixID sc f := hr.disappears hwt.withdraw hk ?_ ?_ hno
    · exact hd.of_eq (fun p => (hscope p).1) (hscope sc).2.1 hstr hout
    · intro g hg
      rw [State.withdraw_ids, (hscope g).1]
      exact hw.index_eq_some.1 hg
    · rw [State.withdraw_fatherScopes, (hscope sc).2.1]
      exact hf
  | unpublishInfo ht hID hstr hl | unsubscribeInfo ht hID hl =>
    rw [hl.fatherScopes_scope] at hno
    exact absurd hf hno
  | subscribeScope ht hID he =>
    cases he with
    | again hk hstr hm hr =>
      subst hm
      rw [visits_fatherScopes_scope ((hw.register hk).emits _) hr] at hno
      exact absurd hf hno
    | added ha => exact absurd (ha.fatherScopes_mono hw hf) hno
  | unsubscribeScope ht hID hsc hmem hwd hr =>
    subst hwd
    have hk := hw.index_eq_some.1 hsc
    have hd := hr.disappears (hw.withdraw.emits _) hk (fun g hg => hw.index_eq_some.1 hg) hf hno
    exact hd.of_eq (fun _ => rfl) rfl rfl (List.prefix_append _ _)

/-- **When the lists are exact**: about a scope that is put under a father, if it had no identifier
but that of the request; about one that is taken away, if it had no other father, or the father has
no identifier but that of the request. -/
theorem scope_notifications_exact_iff (h : Reachable gc st) (r : Request) (hs : r.Shaped) (fuel : ℕ)
    (code : RvReturnCode) (st' : State) (hpush : push gc fuel r st = .ok (code, st')) (sc f : ℕ) :
    (f ∉ st.fatherScopes (.scope sc) → f ∈ st'.fatherScopes (.scope sc) →
      ∃ ids, st'.out = st.out ++ notifyPackets gc .scopePublished ids
          (st'.strategy (.scope sc)) (st'.getSubscribers (.scope f)) ∧
        ((∀ k, k ∈ ids ↔ st'.scopeIndex k = some sc ∧ st.scopeIndex k ≠ some sc) ↔
          ∀ k, st.scopeIndex k = some sc → k = r.ID)) ∧
    (f ∈ st.fatherScopes (.scope sc) → f ∉ st'.fatherScopes (.scope sc) →
      ∃ pre ids, st.out <+: pre ∧ st'.out = pre ++ notifyPackets gc .scopeUnpublished ids
          (st.strategy (.scope sc)) (st'.getSubscribers (.scope f)) ∧
        ((∀ k, k ∈ ids ↔ st.scopeIndex k = some sc ∧ st'.scopeIndex k ≠ some sc) ↔
          (∀ g ∈ st.fatherScopes (.scope sc), g = f) ∨
            ∀ k, st.scopeIndex k = some f → k = r.prefixID)) := by
  obtain ⟨label, hw⟩ := h.wf
  obtain ⟨past, hrun⟩ := h
  obtain ⟨label', hw'⟩ := (RunIf.step hrun hs trivial hpush).wf
  have hwg := hw.getRemoteHost r.nodeID
  have hh := (push_meets hw hs fuel).of_eq_ok hpush
  simp only [ne_eq, hw.index_eq_some, hw'.index_eq_some]
  cases hh with
  | refused => exact ⟨fun hno hf => absurd hf hno, fun hf hno => absurd hf hno⟩
  | cascaded ht hID hsc hno hc =>
    rw [(hc.scope_eq hwg sc).2.1]
    exact ⟨fun hno hf => absurd hf hno, fun hf hno => absurd hf hno⟩
  | granted he =>
    have happe : _ → _ → Appears gc (st.getRemoteHost r.nodeID) st' r.ID sc f := he.appears hwg
    have hdis : _ → _ → Disappears gc (st.getRemoteHost r.nodeID) st' r.prefixID sc f :=
      he.disappears hwg
    exact ⟨happe, hdis⟩

def threeRoots : List Request :=
  [.small 1 .publishScope [] [10] domainLocal, .small 1 .publishScope [] [11] domainLocal,
    .small 1 .publishScope [] [12] domainLocal, .small 5 .subscribeScope [] [12] domainLocal,
    .small 1 .publishScope [10] [20] domainLocal]

/-- The scope is put under the last root: the list is exact. -/
theorem scope_notifications_exact_threeRoots :
    ∃ st', push exampleConf 8 (.small 1 .publishScope [12] [10, 20] domainLocal)
        (exampleRun threeRoots) = .ok (.success, st') ∧
      ∃ ids, st'.out = (exampleRun threeRoots).out ++ notifyPackets exampleConf .scopePublished ids
          (st'.strategy (.scope 3)) (st'.getSubscribers (.scope 2)) ∧
        ∀ k, k ∈ ids ↔ st'.scopeIndex k = some 3 ∧ (exampleRun threeRoots).scopeIndex k ≠ some 3 := by
  have hres : (push exampleConf 8 (.small 1 .publishScope [12] [10, 20] domainLocal)
      (exampleRun threeRoots)).map
      (fun res => (res.1, decide (2 ∈ res.2.fatherScopes (.scope 3)))) = .ok (.success, true) := by
    decide +kernel
  obtain ⟨⟨code, st'⟩, hpush, hpart⟩ := Except.exists_ok_of_map hres
  obtain ⟨rfl, hf⟩ := Prod.mk.inj hpart
  have hreach := reachable_exampleRun threeRoots (by decide)
  obtain ⟨ids, hout, hiff⟩ := (scope_notifications_exact_iff hreach _ (by decide) 8 _ st' hpush 3 2).1
    (by decide +kernel) (of_decide_eq_true hf)
  refine ⟨st', hpush, ids, hout, hiff.2 fun k hk => ?_⟩
  -- so far the scope has the name under the first root only
  obtain ⟨label, hw⟩ := hreach.wf
  have hids : (exampleRun threeRoots).ids (.scope 3) =
      (∅ : ListSet Id).insert ([10, 20].map .ofByte) := by decide +kernel
  rw [hw.index_eq_some, hids, mem_insert] at hk
  exact hk.resolve_right (not_mem_empty k)

/-- The list repeats the name under the second root, which is not new. -/
theorem published_list_repeats_old_name : Reachable exampleConf
      (exampleRun (threeRoots ++ [.small 1 .publishScope [11] [10, 20] domainLocal])) ∧
    (exampleRun (threeRoots ++ [.small 1 .publishScope [11] [10, 20] domainLocal])).scopeIndex
      ([11, 20].map .ofByte) = some 3 ∧
    ∃ st', push exampleConf 8 (.small 1 .publishScope [12] [10, 20] domainLocal)
        (exampleRun (threeRoots ++ [.small 1 .publishScope [11] [10, 20] domainLocal])) =
          .ok (.success, st') ∧
      ∃ ids, [11, 20].map .ofByte ∈ ids ∧ st'.out.getLast? = some (.scopeRequest .scopePublished ids
          ((∅ : ListSet NodeID).insert (.ofByte 5)) domainLocal) := by
  refine ⟨reachable_exampleRun _ (by decide), by decide +kernel, ?_⟩
  have hres : (push exampleConf 8 (.small 1 .publishScope [12] [10, 20] domainLocal)
      (exampleRun (threeRoots ++ [.small 1 .publishScope [11] [10, 20] domainLocal]))).map
      (fun res => (res.1, res.2.out.getLast?)) = .ok (.success, some (.scopeRequest .scopePublished
          (((∅ : ListSet Id).insert ([11, 20].map .ofByte)).insert ([12, 20].map .ofByte))
          ((∅ : ListSet NodeID).insert (.ofByte 5)) domainLocal)) := by
    decide +kernel
  obtain ⟨⟨code, st'⟩, hpush, hpart⟩ := Except.exists_ok_of_map hres
  obtain ⟨rfl, hlast⟩ := Prod.mk.inj hpart
  exact ⟨st', hpush, _, by decide, hlast⟩

end Blackadder
