/-
**The proxy knows what its node is listed for.**

A node that is listed for an identifier should have an entry for it. The elements can lose track of
each other in three ways: the proxy does not compare the kinds of a request and an entry; a scope
that gets a further father is granted under the strategy of the father and withdrawn under its own;
a further subscription under a local strategy is passed on, but not its withdrawal.
-/

import Blackadder.NodeSystem

namespace Blackadder

open List
open Proxy (requestOf)

variable {gc : GlobalConf} {fuel : ℕ} {conf : ProxyConf} {nd nd' : Node} {input : Input}
  {st st' rv rv' : State} {label : Obj → Fragment} {q : Request} {code : RvReturnCode}
  {n : NodeID} {r : Role} {κ : Kind} {p : ℕ} {k : Id} {strat : Strategy}

open Proxy (announced)

/-! ### Lists and strategies, over requests -/

theorem State.Governs.push (hg : st.Governs κ k strat) (hw : st.Wf label)
    (hs : q.Shaped) (hpush : push gc fuel q st = .ok (code, st')) (hh : n ∈ st'.pair r ⟨κ, p⟩ k) :
    st'.Governs κ k strat := by
  obtain ⟨label', hw'⟩ := push_wf hw hs hpush
  have hk := hw'.pair_ids _ _ _ _ hh
  obtain hshr | ⟨_, _, _, m, label'', -, hwm, hr, hshr, -⟩ := push_listings hw hs hpush
  · exact hg.shrinks hw hw' hshr hk
  · exact (hg.registers hr).shrinks hwm hw' hshr hk

theorem push_shrinks (hw : st.Wf label) (hs : q.Shaped) {x : Role × Kind}
    (ht : q.type.withdraws = some x) (hpush : push gc fuel q st = .ok (code, st')) :
    Shrinks st st' := by
  refine (push_listings hw hs hpush).resolve_right fun hj => ?_
  obtain ⟨_, _, -, -, -, hreg, -⟩ := hj
  rw [RequestType.withdraws_of_registers hreg] at ht
  cases ht

theorem foldlM_withdraws (qs : List RvRequest) (hs : ∀ q ∈ qs, (q.arrive n).Shaped)
    (hwd : ∀ q ∈ qs, ∃ x, q.type.withdraws = some x) (hw : rv.Wf label)
    (hrv : qs.foldlM (deliver gc fuel n) rv = .ok rv') :
    (∃ label', rv'.Wf label') ∧ Shrinks rv rv' ∧ ∀ q ∈ qs, ∀ r κ p, q.type.withdraws = some (r, κ) →
      rv.Governs κ (q.arrive n).fullID q.strategy → n ∉ rv'.pair r ⟨κ, p⟩ (q.arrive n).fullID := by
  induction qs generalizing rv label with
  | nil =>
    cases hrv
    exact ⟨⟨label, hw⟩, Shrinks.refl, by simp⟩
  | cons q qs ih =>
    obtain ⟨s, hq, hrv⟩ := Except.bind_eq_ok.1 hrv
    obtain ⟨code, hpush⟩ := Node.deliver_eq_ok.1 hq
    have hsq := hs q mem_cons_self
    obtain ⟨x, hx⟩ := hwd q mem_cons_self
    have hshr : Shrinks rv s := push_shrinks hw hsq hx hpush
    obtain ⟨label', hws⟩ := push_wf hw hsq hpush
    obtain ⟨hw', hrest, hnot⟩ := ih (fun q' hq' => hs q' (mem_cons_of_mem q hq'))
      (fun q' hq' => hwd q' (mem_cons_of_mem q hq')) hws hrv
    refine ⟨hw', hshr.trans hrest, fun q' hq' r κ p ht hg hh => ?_⟩
    have hhs := hrest.pair hh
    obtain rfl | hq' := mem_cons.1 hq'
    · exact push_withdraws hw hsq ht hg hpush p hhs
    · -- what the first request has left on the list is granted as before
      exact hnot q' hq' r κ p ht (hg.shrinks hw hws hshr (hws.pair_ids _ _ _ _ hhs)) hh

namespace Node

/-! ### The invariant -/

/-- A listing has an entry of its kind; the rendezvous element knows it, and grants requests under
its strategy. -/
def Backed (conf : ProxyConf) (nd : Node) : Prop :=
  ∀ r κ p k, conf.nodeID ∈ nd.rv.pair r ⟨κ, p⟩ k → ∃ a, (nd.proxy.index r).get k = some a ∧
    a.kind = κ ∧ nd.rv.Governs κ k a.strategy ∧ announced r a.strategy = true

theorem backed_initial : Backed conf ⟨Proxy.initial conf, State.initial gc⟩ := by
  intro r κ p k hh
  exact absurd hh (ListSet.not_mem_empty _)

theorem Backed.foreign (hb : nd.Backed conf) (hw : nd.rv.Wf label) (hne : q.nodeID ≠ conf.nodeID)
    (hs : q.Shaped) (hpush : push gc fuel q nd.rv = .ok (code, rv)) :
    Backed conf ⟨nd.proxy, rv⟩ := by
  intro r κ p k hh
  have hbef : conf.nodeID ∈ nd.rv.pair r ⟨κ, p⟩ k := by
    obtain hshr | ⟨_, _, _, m, _, -, -, hr, hshr, -⟩ := push_listings hw hs hpush
    · exact hshr.pair hh
    · exact (hr.pair (hshr.pair hh)).resolve_right fun hnew => hne hnew.2.2.2.symm
  obtain ⟨a, ha, hkind, hg, hann⟩ := hb r κ p k hbef
  exact ⟨a, ha, hkind, hg.push hw hs hpush hh, hann⟩

/-! ### Consistent inputs -/

/-- The request is of the kind of its entry, no further subscription is local, and no scope of
another strategy is linked. -/
structure Agreeable (nd : Node) (q : Request) : Prop where
  withdraws : ∀ r κ a, q.type.withdraws = some (r, κ) → (nd.proxy.index r).get q.fullID = some a →
    a.strategy = q.strategy → a.kind = κ
  subscribes : ∀ κ a, q.type.registers = some (Role.sub, κ) →
    (nd.proxy.index .sub).get q.fullID = some a → a.strategy = q.strategy →
    a.kind = κ ∧ recordedLocally q.strategy = false
  links : q.LinksAlike nd.rv

def Consistent (conf : ProxyConf) (nd : Node) (input : Input) : Prop :=
  ∀ q, input.asks conf.nodeID = some q → nd.Agreeable q

/-! ### The steps -/

variable {px' : Proxy} {h : HostRef}

theorem exists_entry_of_registers {px : Proxy} {f : Id} {type : RequestType}
    (hs : Proxy.Served px h f strat type (true, px')) (hq : px.Quiescent)
    (hreg : type.registers = some (r, κ))
    (hsub : ∀ a, type.registers = some (Role.sub, κ) → (px.index .sub).get f = some a →
      a.strategy = strat → a.kind = κ ∧ recordedLocally strat = false) :
    ∃ a, (px'.index r).get f = some a ∧ a.kind = κ ∧ a.strategy = strat ∧
      announced r strat = true := by
  generalize hres : (true, px') = res at hs
  cases hs with
  | ignored => cases hres
  | again _ hap hs hne => exact absurd (hq.idle _ _ _ _ hap hs) hne
  | created _ hreg' =>
    obtain ⟨hann, rfl⟩ := Prod.mk.inj hres
    cases hreg.symm.trans hreg'
    exact ⟨_, Proxy.get_newEntry, rfl, rfl, hann.symm⟩
  | joined hreg' ha hstr =>
    obtain ⟨hfwd, rfl⟩ := Prod.mk.inj hres
    cases hreg.symm.trans hreg'
    obtain rfl : r = .sub := of_decide_eq_true hfwd.symm
    obtain ⟨hkind, hrec⟩ := hsub _ hreg ha hstr
    refine ⟨_, Proxy.get_joinEntry, hkind, hstr, ?_⟩
    rw [announced, hrec]
    rfl
  | left hwd =>
    rw [RequestType.withdraws_of_registers hreg] at hwd
    cases hwd

theorem Backed.kept {type : RequestType} {ID pre : WireId} {fwd : Bool} (hb : nd.Backed conf)
    (hagr : nd.Agreeable ⟨conf.nodeID, type, ID, pre, strat⟩)
    (hh : h ∈ (nd.proxy.admitted conf input).hosts)
    (hs : Proxy.Served (nd.proxy.admitted conf input) h (pre ++ lastFragment ID) strat type
      (fwd, px'))
    (hlist : conf.nodeID ∈ nd.rv.pair r ⟨κ, p⟩ k) :
    ∃ a : ActiveEntry, nd.rv.Governs κ k a.strategy ∧
      ((∃ a', (px'.index r).get k = some a' ∧ a'.kind = κ ∧ a'.strategy = a.strategy ∧
        announced r a.strategy = true) ∨
      (k = pre ++ lastFragment ID ∧ a.strategy = strat ∧
        type.withdraws = some (r, κ) ∧ fwd = true)) := by
  obtain ⟨a, ha, hkind, hg, hann⟩ := hb r κ p k hlist
  refine ⟨a, hg, ?_⟩
  have ha' : ((nd.proxy.admitted conf input).index r).get k = some a := by
    rw [Proxy.index_admitted]
    exact ha
  obtain ⟨a', hget, hkind', hstr'⟩ | ⟨hk, hstr, ⟨κ', hwd⟩, hfwd⟩ := hs.keeps hh ha'
  · exact .inl ⟨a', hget, hkind'.trans hkind, hstr', hann⟩
  · subst hk
    have hκ : κ = κ' := hkind.symm.trans (hagr.withdraws r κ' a hwd ha hstr)
    rw [← hstr, hann] at hfwd
    exact .inr ⟨rfl, hstr, hκ ▸ hwd, hfwd⟩

theorem Backed.request {type : RequestType} {ID pre : WireId} {fwd : Bool}
    (hb : nd.Backed conf) (hw : nd.rv.Wf label) (hq : nd.proxy.Quiescent)
    (hagr : nd.Agreeable ⟨conf.nodeID, type, ID, pre, strat⟩)
    (hh : h ∈ (nd.proxy.admitted conf input).hosts)
    (hs : Proxy.Served (nd.proxy.admitted conf input) h (pre ++ lastFragment ID) strat type
      (fwd, px'))
    (hsha : Request.Shaped ⟨conf.nodeID, type, ID, pre, strat⟩)
    (hrv : if fwd then
        ∃ code, push gc fuel ⟨conf.nodeID, type, ID, pre, strat⟩ nd.rv = .ok (code, rv)
      else rv = nd.rv) :
    Backed conf ⟨px', rv⟩ := by
  cases fwd with
  | false =>
    cases hrv
    intro r κ p k hlist
    obtain ⟨a, hg, ⟨a', hget, hkind, hstr, hann⟩ | ⟨-, -, -, hfwd⟩⟩ := hb.kept hagr hh hs hlist
    · exact ⟨a', hget, hkind, hstr ▸ hg, hstr ▸ hann⟩
    · cases hfwd
  | true =>
    obtain ⟨code, hpush⟩ := hrv
    intro r κ p k hlist
    -- an entry for what was listed before
    have hold : conf.nodeID ∈ nd.rv.pair r ⟨κ, p⟩ k → ∃ a, (px'.index r).get k = some a ∧
        a.kind = κ ∧ rv.Governs κ k a.strategy ∧ announced r a.strategy = true := by
      intro hbef
      obtain ⟨a, hg, ⟨a', hget, hkind, hstr, hann⟩ | ⟨rfl, hstr, hwd, -⟩⟩ := hb.kept hagr hh hs hbef
      · exact ⟨a', hget, hkind, hstr ▸ hg.push hw hsha hpush hlist, hstr ▸ hann⟩
      · subst hstr
        exact absurd hlist (push_withdraws hw hsha hwd hg hpush p)
    obtain hshr | ⟨r₀, κ₀, p₀, m, label', hreg, hwm, hr, hshr, hgov⟩ := push_listings hw hsha hpush
    · exact hold (hshr.pair hlist)
    · obtain hbef | ⟨rfl, ho, rfl, -⟩ := hr.pair (hshr.pair hlist)
      · exact hold hbef
      · cases ho
        have hsub : ∀ a, type.registers = some (Role.sub, κ) →
            ((nd.proxy.admitted conf input).index .sub).get (pre ++ lastFragment ID) =
              some a → a.strategy = strat → a.kind = κ ∧ recordedLocally strat = false := by
          rw [Proxy.index_admitted]
          exact hagr.subscribes κ
        obtain ⟨a, hget, hkind, hstr, hann⟩ :=
          exists_entry_of_registers hs (hq.admitted input) hreg hsub
        obtain ⟨label'', hw'⟩ := push_wf hw hsha hpush
        exact ⟨a, hget, hkind, hstr ▸ (hgov hagr.links).shrinks hwm hw' hshr
          (hw'.pair_ids _ _ _ _ hlist), hstr ▸ hann⟩

theorem Backed.leave (hb : nd.Backed conf) (hw : nd.rv.Wf label) (hpx : nd.proxy.Wf)
    (hq : nd.proxy.Quiescent) (w : Proxy.Withdrawal (nd.proxy.admitted conf input) h)
    (hg : Proxy.Gone conf h (nd.proxy.admitted conf input) px')
    (hrv : (w.order.filterMap ((nd.proxy.admitted conf input).withdrawalAt h)).foldlM
      (deliver gc fuel conf.nodeID) nd.rv = .ok rv) :
    Backed conf ⟨px', rv⟩ := by
  have hpx' : (nd.proxy.admitted conf input).Wf := hpx.admitted input
  -- each request withdraws an entry
  have hentry : ∀ q ∈ w.order.filterMap ((nd.proxy.admitted conf input).withdrawalAt h),
      (q.arrive conf.nodeID).Shaped ∧ ∃ x, q.type.withdraws = some x := by
    intro q hmem
    obtain ⟨x, -, hx⟩ := mem_filterMap.1 hmem
    obtain ⟨a, j, b, -, -, rfl⟩ := Proxy.withdrawalAt_shape hpx' (hq.admitted input) hx
    exact ⟨fun _ => rfl, _, Proxy.withdraws_withdrawalType _ _⟩
  obtain ⟨⟨label', hw'⟩, hshr, hnot⟩ := foldlM_withdraws _ (fun q hmem => (hentry q hmem).1)
    (fun q hmem => (hentry q hmem).2) hw hrv
  intro r κ p k hlist
  obtain ⟨a, ha, hkind, hgov, hann⟩ := hb r κ p k (hshr.pair hlist)
  have hgov' := hgov.shrinks hw hw' hshr (hw'.pair_ids _ _ _ _ hlist)
  have ha' : ((nd.proxy.admitted conf input).index r).get k = some a := by
    rw [Proxy.index_admitted]
    exact ha
  by_cases hrea : (nd.proxy.admitted conf input).Reached r h k
  · have hget := hg.left r k hrea
    rw [ha'] at hget
    cases hrest : Proxy.restOf conf r h a with
    | some a' =>
      obtain ⟨-, hstr, hscope, -⟩ := Proxy.restOf_eq_some hrest
      refine ⟨a', hget.trans hrest, ?_, hstr ▸ hgov', hstr ▸ hann⟩
      rw [ActiveEntry.kind, hscope]
      exact hkind
    | none =>
      -- the entry is erased, so that a request withdraws it
      obtain ⟨q, hx⟩ := Proxy.withdrawalAt_of_soleHost hpx' ha'
        ((hpx'.size_erase_eq_zero ha').1 (Proxy.restOf_eq_none.1 hrest)) hann
      have hmem := mem_filterMap.2 ⟨_, w.mem_order.2 hrea, hx⟩
      obtain ⟨a₀, j, b, ha₀, hk, rfl⟩ := Proxy.withdrawalAt_shape hpx' (hq.admitted input) hx
      cases ha'.symm.trans ha₀
      subst hkind
      have hfull : k = j ++ [b] := hk
      subst hfull
      exact absurd hlist (hnot _ hmem r a.kind p (Proxy.withdraws_withdrawalType r a.isScope) hgov)
  · exact ⟨a, (hg.kept r k hrea).trans ha', hkind, hgov', hann⟩

theorem Backed.step {P : Node → Input → Prop} (hb : nd.Backed conf) (hrun : Run conf gc fuel P nd)
    (hi : input.Issued) (hc : nd.Consistent conf input)
    (hh : nd.handle conf gc fuel input = .ok nd') : nd'.Backed conf := by
  obtain ⟨label, hw⟩ := hrun.reachable_rv.wf
  obtain ⟨qs, hpass, -, hrv⟩ := hrun.passesOn hi hh
  cases hpass with
  | @request h type ID pre strat fwd hask hiss hmem hs =>
    have hrv : if fwd then ∃ code, push gc fuel ⟨conf.nodeID, type, ID, pre, strat⟩ nd.rv =
        .ok (code, nd'.rv) else nd'.rv = nd.rv := by
      cases fwd with
      | true =>
        obtain ⟨s, hq, hret⟩ := Except.bind_eq_ok.1 hrv
        cases hret
        exact deliver_eq_ok.1 hq
      | false => exact (Except.ok.inj hrv).symm
    exact hb.request hw hrun.quiescent (hc _ hask) hmem hs hiss.shaped hrv
  | leave w hd hg => exact hb.leave hw hrun.reachable_proxy.wf hrun.quiescent w hg hrv

theorem Run.backed (hrun : Run conf gc fuel (Consistent conf) nd) : nd.Backed conf := by
  induction hrun with
  | initial => exact backed_initial
  | step hrun hi hc hh ih => exact ih.step hrun hi hc hh
  | foreign hrun hne hs hpush ih =>
    obtain ⟨label, hw⟩ := hrun.reachable_rv.wf
    exact ih.foreign hw hne hs hpush

/-- **No leaks.** In every run of consistent inputs, a node that is listed for an identifier has an
entry for it. -/
theorem exists_entry_of_lists (hrun : Run conf gc fuel (Consistent conf) nd) (r : Role) (f : Id)
    (hlist : nd.rv.Lists r conf.nodeID f) : ∃ a, (nd.proxy.index r).get f = some a := by
  obtain ⟨⟨κ, p⟩, hh⟩ := hlist
  obtain ⟨a, ha, -⟩ := hrun.backed r κ p f hh
  exact ⟨a, ha⟩

def publishedItem : List Input :=
  [requestOf 7 .publishScope [] [10] domainLocal, requestOf 7 .publishInfo [10] [20] domainLocal]

theorem exists_entry_of_lists_published :
    Run Proxy.exampleProxyConf exampleConf 8 (Consistent Proxy.exampleProxyConf)
        (runOf publishedItem) ∧
      (runOf publishedItem).rv.Lists .pub (.ofByte 0) ([10, 20].map .ofByte) ∧
      ∃ a, ((runOf publishedItem).proxy.index .pub).get ([10, 20].map .ofByte) = some a := by
  have hrun : Run Proxy.exampleProxyConf exampleConf 8 (Consistent Proxy.exampleProxyConf)
      (runOf publishedItem) := by
    refine run_runOf publishedItem (by decide) fun input hmem nd q hq => ?_
    -- publications of one fragment agree with everything
    have hpub : q.ID.length ≤ 1 ∧ q.type.withdraws = none ∧
        ∀ κ, q.type.registers ≠ some (Role.sub, κ) := by
      obtain rfl | rfl : input = _ ∨ input = _ := by simpa [publishedItem] using hmem
      · cases hq
        exact ⟨by decide, rfl, fun κ hreg => by cases hreg⟩
      · cases hq
        exact ⟨by decide, rfl, fun κ hreg => by cases hreg⟩
    refine ⟨fun r κ a hwd => ?_, fun κ a hreg => absurd hreg (hpub.2.2 κ), fun sc f hl => ?_⟩
    · rw [hpub.2.1] at hwd
      cases hwd
    · exact absurd hl (Request.not_links_of_short hpub.1 _ _)
  have hlist : (runOf publishedItem).rv.Lists .pub (.ofByte 0) ([10, 20].map .ofByte) :=
    ⟨Obj.item 0, by decide +kernel⟩
  exact ⟨hrun, hlist, exists_entry_of_lists hrun _ _ hlist⟩

def mistakenKind : List Input :=
  [requestOf 7 .publishScope [] [10] domainLocal, requestOf 7 .publishScope [10] [20] domainLocal,
    requestOf 7 .unpublishInfo [10] [20] domainLocal]

def linkedElsewhere : List Input :=
  [requestOf 7 .publishScope [] [10] domainLocal, requestOf 7 .publishScope [] [11] nodeLocal,
    requestOf 7 .publishScope [10] [20] domainLocal,
    requestOf 7 .publishScope [11] [10, 20] nodeLocal,
    requestOf 7 .unpublishScope [11] [20] nodeLocal]

def recordedTwice : List Input :=
  [requestOf 7 .subscribeScope [] [10] implicitRendezvous,
    requestOf 8 .subscribeScope [] [10] implicitRendezvous, Proxy.leaveOf 7, Proxy.leaveOf 8]

/-- Each of the three ways to lose track: the node is listed, and there is no entry. -/
theorem lists_without_entry :
    (Run Proxy.exampleProxyConf exampleConf 8 (fun _ _ => True) (runOf mistakenKind) ∧
      (runOf mistakenKind).rv.Lists .pub (.ofByte 0) ([10, 20].map .ofByte) ∧
      ((runOf mistakenKind).proxy.index .pub).get ([10, 20].map .ofByte) = none) ∧
    (Run Proxy.exampleProxyConf exampleConf 8 (fun _ _ => True) (runOf linkedElsewhere) ∧
      (runOf linkedElsewhere).rv.Lists .pub (.ofByte 0) ([11, 20].map .ofByte) ∧
      ((runOf linkedElsewhere).proxy.index .pub).get ([11, 20].map .ofByte) = none) ∧
    Run Proxy.exampleProxyConf exampleConf 8 (fun _ _ => True) (runOf recordedTwice) ∧
      (runOf recordedTwice).rv.Lists .sub (.ofByte 0) ([10].map .ofByte) ∧
      ((runOf recordedTwice).proxy.index .sub).get ([10].map .ofByte) = none := by
  refine ⟨⟨run_runOf _ (by decide) fun _ _ _ => trivial, ⟨Obj.scope 1, by decide +kernel⟩,
      by decide +kernel⟩, ⟨run_runOf _ (by decide) fun _ _ _ => trivial,
      ⟨Obj.scope 2, by decide +kernel⟩, by decide +kernel⟩,
    run_runOf _ (by decide) fun _ _ _ => trivial, ⟨Obj.scope 0, by decide +kernel⟩, by decide +kernel⟩

end Node

end Blackadder
