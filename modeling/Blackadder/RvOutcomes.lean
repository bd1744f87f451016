/-
**Which requests complete, and which change nothing.**

The recursion that renames a scope with a new father ends exactly when the father is not below the
scope; nothing checks this. A request that is answered with an error changes nothing, but the
unpublication of a scope tries its items before it looks for the publisher.
-/

import Blackadder.RvRuns

namespace Blackadder

open Except Option

variable {gc : GlobalConf} {st s t : State} {label : Obj → Fragment}

open NameGraph (Below Ranked)

/-! ### Completion -/

variable {ID pre : Id} {strat : Strategy} {sc f : ℕ}

theorem publishScope_relinks {h : NodeID} (hw : st.Wf label) (fuel : ℕ)
    (hl : Relinks st .scope ID pre strat (.scope sc) f) :
    publishScope gc fuel st h ID pre strat = (do
      let s ← (st.link (.scope sc) f).recursivelyUpdateIDs fuel sc (lastFragment ID)
      addHost s .pub (.scope sc) (pre ++ lastFragment ID) h fun s =>
        .ok (notifySubscribers gc s .scopePublished
          ((s.ids (.scope sc)).erase (ID.take (ID.length - 1) ++ lastFragment ID))
          (s.strategy (.scope sc)) (s.getSubscribers (.scope f)))) := by
  have hlong := hl.long
  have hne : 0 < pre.length := List.length_pos_of_ne_nil (hw.ne_nil hl.father)
  have hitem : st.pubIndex (pre ++ lastFragment ID) = none := hw.index_eq_none.2 fun p => hl.free _
  have hscope : st.scopeIndex (pre ++ lastFragment ID) = none :=
    hw.index_eq_none.2 fun p => hl.free _
  have hf : st.scopeIndex pre = some f := hw.index_eq_some.2 hl.father
  have hsc : st.scopeIndex ID = some sc := hw.index_eq_some.2 hl.mem
  rw [publishScope, if_neg (by omega), if_neg (by omega), if_pos ⟨hne, hlong⟩]
  simp [republishInnerScope, hitem, hf, hsc, hscope, if_pos hl.strategy_eq]

theorem publishScope_ok_of_relinks (gc : GlobalConf) (h : NodeID) (hw : st.Wf label)
    (hl : Relinks st .scope ID pre strat (.scope sc) f)
    (hnb : ¬ Below st.graph.fathers (.scope sc) (.scope f)) :
    ∃ fuel res, publishScope gc fuel st h ID pre strat = .ok res := by
  have hlast := (hw.long_mem hl.mem hl.long).1
  obtain ⟨n, s, hs⟩ := hw.exists_recursivelyUpdateIDs_link hl.mem hnb
  refine ⟨n, ?_⟩
  rw [publishScope_relinks hw n hl, hlast, hs, ok_bind]
  by_cases hk : pre ++ [label (.scope sc)] ∈ s.ids (.scope sc)
  · rw [addHost_eq hk]
    split
    · exact ⟨_, rfl⟩
    · exact ⟨_, rfl⟩
  · rw [addHost_new hk]
    exact ⟨_, rfl⟩

theorem publishScope_ne_ok_of_below {h : NodeID} (hw : st.Wf label) (fuel : ℕ)
    (hl : Relinks st .scope ID pre strat (.scope sc) f)
    (hb : Below st.graph.fathers (.scope sc) (.scope f)) (res : RvReturnCode × State) :
    publishScope gc fuel st h ID pre strat ≠ .ok res := by
  intro hok
  obtain ⟨hlast, hor⟩ := hw.long_mem hl.mem hl.long
  rw [publishScope_relinks hw fuel hl, bind_eq_ok] at hok
  obtain ⟨s, hs, -⟩ := hok
  have hfree := hl.free
  rw [hlast] at hs hfree
  exact ((hw.recursivelyUpdateIDs_link fuel hl.mem hor hl.father hfree).of_eq_ok hs).1 hb

/-- **When a publication of a scope completes**: with enough stack, unless it links a scope under
itself or below; then no stack is enough. -/
theorem publish_scope_completes_iff (h : Reachable gc st) (r : Request)
    (ht : r.type = .publishScope) :
    (∃ fuel code st', push gc fuel r st = .ok (code, st') ∧ Ranked st'.graph.fathers) ↔
      ∀ sc f, r.Links st (.scope sc) f → ¬ Below st.graph.fathers (.scope sc) (.scope f) := by
  obtain ⟨label, hw⟩ := h.wf
  have hwg := hw.getRemoteHost r.nodeID
  -- the entry of the host does not matter
  have hlinks : ∀ sc f, r.Links st (.scope sc) f ↔ Relinks (st.getRemoteHost r.nodeID)
      Kind.scope r.ID r.prefixID r.strategy (.scope sc) f := by
    intro sc f
    constructor
    · intro hex
      obtain ⟨κ, -, hl⟩ := hex
      exact ⟨rfl, hl.long, hl.mem, hl.father, hl.free, hl.strategy_eq⟩
    · intro hl
      exact ⟨Kind.scope, .inl ⟨ht, rfl⟩, rfl, hl.long, hl.mem, hl.father, hl.free, hl.strategy_eq⟩
  have hpush : ∀ fuel, push gc fuel r st =
      publishScope gc fuel (st.getRemoteHost r.nodeID) r.nodeID r.ID r.prefixID r.strategy := by
    simp [push, ht]
  constructor
  · intro hex sc f hl hb
    obtain ⟨fuel, code, st', hok, -⟩ := hex
    rw [hpush] at hok
    exact publishScope_ne_ok_of_below hwg fuel ((hlinks sc f).1 hl) hb _ hok
  · intro hno
    have hok : ∃ fuel res, push gc fuel r st = .ok res := by
      by_cases hl : ∃ sc f, r.Links st (.scope sc) f
      · obtain ⟨sc, f, hl⟩ := hl
        obtain ⟨fuel, res, hok⟩ := publishScope_ok_of_relinks gc r.nodeID hwg
          ((hlinks sc f).1 hl) (hno sc f hl)
        exact ⟨fuel, res, (hpush fuel).trans hok⟩
      · have hfault : (1 = 0 ∨ ∃ sc f, Relinks (st.getRemoteHost r.nodeID) .scope r.ID
            r.prefixID r.strategy (.scope sc) f) → False := by
          intro hcase
          rcases hcase with h0 | ⟨sc, f, hr⟩
          · exact absurd h0 (by simp)
          · exact hl ⟨sc, f, (hlinks sc f).2 hr⟩
        have hmee : (publishScope gc 1 (st.getRemoteHost r.nodeID) r.nodeID r.ID r.prefixID
            r.strategy).Meets (fun _ => False) _ :=
          publishScope_meets hwg 1 r.nodeID r.ID r.prefixID r.strategy hfault
        obtain ⟨res, hok⟩ := hmee.exists_ok
        exact ⟨1, res, (hpush 1).trans hok⟩
    obtain ⟨fuel, ⟨code, st'⟩, hok⟩ := hok
    have hs : r.Shaped := by
      intro hone
      rw [ht] at hone
      cases hone
    obtain ⟨past, hrun⟩ := h
    obtain ⟨label', hw'⟩ := (RunIf.step hrun hs trivial hok).wf
    exact ⟨fuel, code, st', hok, hw'.ranked⟩

def twoRoots : List Request :=
  [.small 1 .publishScope [] [10] domainLocal, .small 1 .publishScope [] [11] domainLocal,
    .small 1 .publishScope [10] [20] domainLocal]

/-- The scope under the first root is republished under the second. -/
theorem publish_scope_completes_twoRoots :
    ∃ fuel code st', push exampleConf fuel (.small 1 .publishScope [11] [10, 20] domainLocal)
      (exampleRun twoRoots) = .ok (code, st') ∧ Ranked st'.graph.fathers := by
  have hreach := reachable_exampleRun twoRoots (by decide)
  obtain ⟨label, hw⟩ := hreach.wf
  refine (publish_scope_completes_iff hreach _ rfl).2 ?_
  intro sc f hex hb
  obtain ⟨κ, -, hl⟩ := hex
  have hsc : 2 = sc := by
    have hi : (exampleRun twoRoots).scopeIndex ([10, 20].map .ofByte) = some 2 := by
      decide +kernel
    exact some_inj.1 (hi.symm.trans (hw.index_eq_some.2 hl.mem))
  have hf : 1 = f := by
    have hi : (exampleRun twoRoots).scopeIndex ([11].map .ofByte) = some 1 := by
      decide +kernel
    exact some_inj.1 (hi.symm.trans (hw.index_eq_some.2 hl.father))
  subst hsc hf
  -- the second root has no father
  rcases Relation.ReflTransGen.cases_tail hb with he | ⟨g, -, hg⟩
  · exact absurd he (by decide)
  · have hempty : (exampleRun twoRoots).fatherScopes (.scope 1) = ∅ := by decide +kernel
    have hmem := hg.2
    exact ListSet.not_mem_empty _ hmem

/-- **Requests only fault for want of stack**, in any run. -/
theorem push_ne_error (h : Reachable gc st) {r : Request} (hs : r.Shaped) (fuel : ℕ) {e : Fault}
    (he : e ≠ .stackOverflow) : push gc fuel r st ≠ .error e := by
  obtain ⟨label, hw⟩ := h.wf
  intro hpush
  exact he ((push_meets hw hs fuel).of_eq_error hpush)

theorem push_ne_error_twoRoots : push exampleConf 8
    (.small 1 .unpublishScope [10] [20] domainLocal) (exampleRun twoRoots) ≠ .error .nullPointer :=
  push_ne_error (reachable_exampleRun _ (by decide)) (by decide) 8 (by decide)

theorem republished_under_itself_overflows : Reachable exampleConf (exampleRun twoRoots) ∧
    ¬ ∃ fuel code st', push exampleConf fuel
      (.small 1 .publishScope [10, 20] [10, 20] domainLocal) (exampleRun twoRoots) =
        .ok (code, st') := by
  have hreach := reachable_exampleRun twoRoots (by decide)
  refine ⟨hreach, ?_⟩
  intro hex
  obtain ⟨fuel, code, st', hok⟩ := hex
  obtain ⟨label, hw⟩ := hreach.wf
  have hwg := hw.getRemoteHost (.ofByte 1)
  have hmem : [10, 20].map .ofByte ∈ (exampleRun twoRoots).ids (.scope 2) := by
    decide +kernel
  have hfree := hw.free_of_index (k := [10, 20, 20].map .ofByte) (by decide +kernel)
    (by decide +kernel)
  have hl : Relinks ((exampleRun twoRoots).getRemoteHost (.ofByte 1)) .scope
      ([10, 20].map .ofByte) ([10, 20].map .ofByte) domainLocal (.scope 2) 2 :=
    ⟨rfl, by decide, hmem, hmem, hfree, by decide +kernel⟩
  exact publishScope_ne_ok_of_below hwg fuel hl Relation.ReflTransGen.refl _ hok

/-! ### Requests that fail -/

section
variable {strat : Strategy} {upd : Bool} {h : NodeID} {sc : ℕ}

theorem Cascade.mem_pair (hw : st.Wf label) (hc : Cascade gc label strat upd h sc st s) (r : Role)
    (o : Obj) (k : Id) (n : NodeID) :
    (n ∈ s.pair r o k → n ∈ st.pair r o k) ∧
    (n ∈ st.pair r o k → n ∈ s.pair r o k ∨
      (r = .pub ∧ o.kind = .item ∧ n = h ∧ k.dropLast ∈ st.ids (.scope sc))) := by
  refine hc.invariant hw (fun t => (n ∈ t.pair r o k → n ∈ st.pair r o k) ∧
    (n ∈ st.pair r o k → n ∈ t.pair r o k ∨ (r = .pub ∧ o.kind = .item ∧ n = h ∧
      k.dropLast ∈ st.ids (.scope sc)))) ?_ ⟨fun hn => hn, Or.inl⟩
  intro k' t t' _ hk' hex hu
  obtain ⟨ih₁, ih₂⟩ := hex
  cases hu with
  | skip => exact ⟨ih₁, ih₂⟩
  | @lose i f t' hs hl =>
    refine ⟨fun hn => ih₁ (hl.mem_pair.1 hn).1, fun hn => ?_⟩
    rcases ih₂ hn with hn | hgone
    · by_cases hthis : r = .pub ∧ o = .item i ∧ k = k' ∧ n = h
      · obtain ⟨rfl, rfl, rfl, rfl⟩ := hthis
        exact .inr ⟨rfl, rfl, rfl, hk'⟩
      · exact .inl (hl.mem_pair.2 ⟨hn, hthis⟩)
    · exact .inr hgone

end

/-- **Requests that fail change nothing** but the entry of the host, unless they unpublish a scope
that the requester does not publish; these only withdraw its publications of items under the scope.
-/
theorem errors_change_nothing (h : Reachable gc st) (r : Request) (hs : r.Shaped) (fuel : ℕ)
    (code : RvReturnCode) (st' : State) (hpush : push gc fuel r st = .ok (code, st'))
    (hcode : code ≠ .success) :
    st' = st.getRemoteHost r.nodeID ∨
    (r.type = .unpublishScope ∧ code = .doesNotExist ∧
      ∃ sc, st.scopeIndex (r.prefixID ++ r.ID) = some sc ∧
        r.nodeID ∉ st.pair .pub (.scope sc) (r.prefixID ++ r.ID) ∧
        (∀ p, st'.ids (.scope p) = st.ids (.scope p) ∧
          st'.fatherScopes (.scope p) = st.fatherScopes (.scope p)) ∧
        ∀ ρ o k n, (n ∈ st'.pair ρ o k → n ∈ st.pair ρ o k) ∧
          (n ∈ st.pair ρ o k → n ∈ st'.pair ρ o k ∨ (ρ = .pub ∧ o.kind = .item ∧
            n = r.nodeID ∧ k.dropLast ∈ st.ids (.scope sc)))) := by
  obtain ⟨label, hw⟩ := h.wf
  have hh := (push_meets hw hs fuel).of_eq_ok hpush
  cases hh with
  | refused => exact .inl rfl
  | granted => exact absurd rfl hcode
  | @cascaded a sc _ ht hID hsc hno hc =>
    have hwg := hw.getRemoteHost r.nodeID
    have hpair := hc.mem_pair hwg
    rw [hID]
    refine .inr ⟨ht, rfl, sc, hsc, fun hn => ?_, fun p => ?_, hpair⟩
    · rcases (hpair .pub (.scope sc) (r.prefixID ++ [a]) r.nodeID).2 hn with hn | hgone
      · exact hno hn
      · exact absurd hgone.2.1 (by simp)
    · obtain ⟨hids, hfath, -⟩ := hc.scope_eq hwg p
      exact ⟨hids, hfath⟩

/-- An item cannot be published under a scope that does not exist. -/
theorem errors_change_nothing_twoRoots :
    ∃ st', push exampleConf 8 (.small 1 .publishInfo [12] [20] domainLocal) (exampleRun twoRoots) =
      .ok (.fatherDoesNotExist, st') ∧
      st' = (exampleRun twoRoots).getRemoteHost (.ofByte 1) := by
  have hcode : (push exampleConf 8 (.small 1 .publishInfo [12] [20] domainLocal)
      (exampleRun twoRoots)).map Prod.fst = .ok .fatherDoesNotExist := by decide +kernel
  obtain ⟨⟨code, st'⟩, hpush, rfl⟩ := exists_ok_of_map hcode
  refine ⟨st', hpush, ?_⟩
  have hreach := reachable_exampleRun twoRoots (by decide)
  rcases errors_change_nothing hreach _ (by decide) 8 _ st' hpush (by decide) with h | ⟨ht, -⟩
  · exact h
  · exact absurd ht (by decide)

def foreignItem : List Request :=
  [.small 1 .publishScope [] [10] domainLocal, .small 2 .publishInfo [10] [20] domainLocal]

/-- The second host is told that it does not publish the scope, and its item is gone. -/
theorem failed_unpublication_removes_item : Reachable exampleConf (exampleRun foreignItem) ∧
    (exampleRun foreignItem).pubIndex ([10, 20].map .ofByte) = some 0 ∧
    ∃ st', push exampleConf 8 (.small 2 .unpublishScope [] [10] domainLocal)
        (exampleRun foreignItem) = .ok (.doesNotExist, st') ∧
      st'.pubIndex ([10, 20].map .ofByte) = none := by
  refine ⟨reachable_exampleRun foreignItem (by decide), by decide +kernel, ?_⟩
  have hres : (push exampleConf 8 (.small 2 .unpublishScope [] [10] domainLocal)
      (exampleRun foreignItem)).map
      (fun res => (res.1, res.2.pubIndex ([10, 20].map .ofByte))) = .ok (.doesNotExist, none) := by
    decide +kernel
  obtain ⟨⟨code, st'⟩, hpush, hpart⟩ := exists_ok_of_map hres
  obtain ⟨rfl, hgone⟩ := Prod.mk.inj hpart
  exact ⟨st', hpush, hgone⟩

end Blackadder
