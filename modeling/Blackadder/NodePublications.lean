/-
**Publications that the proxy keeps to itself.**

The entry of a publication is made before the rendezvous element answers, and stays when it refuses:
later publications are suppressed. Only those under `NODE_LOCAL` and `DOMAIN_LOCAL` are passed on.
-/

import Blackadder.NodeSystem

namespace Blackadder

open Except

theorem State.Wf.not_lists_of_free {st : State} {label : Obj → Fragment} (hw : st.Wf label) {r : Role}
    {h : NodeID} {k : Id} (hs : st.scopeIndex k = none) (hi : st.pubIndex k = none) :
    ¬ st.Lists r h k := by
  intro hlist
  obtain ⟨o, hh⟩ := hlist
  exact hw.free_of_index hs hi o (hw.pair_ids _ _ _ _ hh)

namespace Node

variable {conf : ProxyConf} {gc : GlobalConf} {fuel : ℕ} {P : Node → Input → Prop} {nd : Node}
  {type : RequestType} {κ : Kind} {strategy : Strategy}

theorem forwarded_publication_iff {px : Proxy} {h : HostRef} {ID pre : Id} {rvFID : BABitvector}
    (hq : px.Quiescent) (hreg : type.registers = some (Role.pub, κ)) :
    (px.handleLocalRequest type h ID pre strategy rvFID).1 = true ↔
      (strategy = nodeLocal ∨ strategy = domainLocal) ∧
        (px.index .pub).get (pre ++ lastFragment ID) = none := by
  have hun : ∀ f, px.Unannounced h f ↔ (px.index .pub).get f = none := by
    intro f
    constructor
    · intro hun
      cases ha : (px.index .pub).get f with
      | none => rfl
      | some a =>
        -- the host would have been told to publish
        obtain hs | hs := hun a ha
        · cases hq.idle f a h _ ha hs
        · cases hq.idle f a h _ ha hs
    · intro hnone a ha
      cases hnone.symm.trans ha
  have hstore : ∀ isScope f, (px.storeActivePublication h f strategy rvFID isScope).1 = true ↔
      (strategy = nodeLocal ∨ strategy = domainLocal) ∧ (px.index .pub).get f = none := by
    intro isScope f
    rw [Proxy.storeActivePublication_forwarded, hun]
  rw [← Proxy.requestedID_eq]
  cases type with
  | publishScope => exact hstore true _
  | publishInfo => exact hstore false _
  | _ => cases hreg

/-- **When a publication is registered**: when the node is listed already, or has no entry and the
strategy is one of the two. -/
theorem lists_handle_iff (hrun : Run conf gc fuel P nd) (htype : HostType) (descriptor : ℕ)
    {ID prefixID : WireId} (hreg : type.registers = some (Role.pub, κ))
    (hicn : type = .publishInfo →
      ¬ Request.OverIcn ⟨conf.nodeID, type, ID, prefixID, strategy⟩ nd.rv) {rv : State}
    (hgrant : push gc fuel ⟨conf.nodeID, type, ID, prefixID, strategy⟩ nd.rv = .ok (.success, rv)) :
    ∃ nd', nd.handle conf gc fuel (.host htype descriptor (.request type ID prefixID strategy)) =
        .ok nd' ∧
      (nd'.rv.Lists .pub conf.nodeID (prefixID ++ lastFragment ID) ↔
        nd.rv.Lists .pub conf.nodeID (prefixID ++ lastFragment ID) ∨
          (strategy = nodeLocal ∨ strategy = domainLocal) ∧
            (nd.proxy.index .pub).get (prefixID ++ lastFragment ID) = none) := by
  obtain ⟨label, hw⟩ := hrun.reachable_rv.wf
  have hlists : rv.Lists .pub conf.nodeID (prefixID ++ lastFragment ID) :=
    push_lists hw hreg hicn hgrant
  -- the proxy handles the request, and the rendezvous element gets it or not
  obtain ⟨h, px, rvFID, hp, hind, hq⟩ : ∃ (h : HostRef) (px : Proxy) (rvFID : BABitvector),
      nd.proxy.push conf (.host htype descriptor (.request type ID prefixID strategy)) =
        .ok ((px.handleLocalRequest type h ID prefixID strategy rvFID).2, .read .entered ::
          if (px.handleLocalRequest type h ID prefixID strategy rvFID).1 then
            [publishReqToRV conf ⟨type, UInt8.ofNat ID.val.length, ID, UInt8.ofNat prefixID.val.length,
              prefixID, strategy⟩ rvFID]
          else [.kill .entered]) ∧ px.index = nd.proxy.index ∧ px.Quiescent :=
    ⟨_, _, _, Proxy.push_request, Proxy.index_getLocalHost _ _,
      hrun.quiescent.admitted (.host htype descriptor (.request type ID prefixID strategy))⟩
  have hfwd : (px.handleLocalRequest type h ID prefixID strategy rvFID).1 = true ↔ _ :=
    forwarded_publication_iff hq hreg
  rw [hind] at hfwd
  cases hb : (px.handleLocalRequest type h ID prefixID strategy rvFID).1 with
  | true =>
    rw [hb] at hp
    have hdeli : deliver gc fuel conf.nodeID nd.rv ⟨type, UInt8.ofNat ID.val.length, ID,
        UInt8.ofNat prefixID.val.length, prefixID, strategy⟩ = .ok rv := deliver_eq_ok.2 ⟨_, hgrant⟩
    refine ⟨⟨_, rv⟩, handle_eq_ok.2 ⟨_, hp, bind_eq_ok.2 ⟨rv, hdeli, rfl⟩⟩, ?_⟩
    exact iff_of_true hlists (.inr (hfwd.1 hb))
  | false =>
    rw [hb] at hp
    refine ⟨⟨_, nd.rv⟩, handle_eq_ok.2 ⟨_, hp, rfl⟩, (or_iff_left fun hcond => ?_).symm⟩
    rw [hfwd.2 hcond] at hb
    cases hb

def itemRequest : Request :=
  ⟨.ofByte 0, .publishInfo, Proxy.smallId [20], Proxy.smallId [10], domainLocal⟩

def publishedScope : List Input := [Proxy.requestOf 7 .publishScope [] [10] domainLocal]

def publishedEarly : List Input :=
  [Proxy.requestOf 7 .publishInfo [10] [20] domainLocal,
    Proxy.requestOf 7 .publishScope [] [10] domainLocal]

theorem not_overIcn_itemRequest {rv : State} (hitem : itemRequest.item rv = none)
    (hscope : rv.scopeIndex ([10].map .ofByte) = some 0) (hplain : rv.Plain (.scope 0)) :
    ¬ itemRequest.OverIcn rv := by
  intro hicn
  obtain ⟨i, hi, -⟩ | ⟨f, hf, hnot⟩ := hicn
  · cases hitem.symm.trans hi
  · cases hscope.symm.trans hf
    exact hnot hplain

theorem lists_handle_iff_published :
    ∃ nd', (runOf publishedScope).handle Proxy.exampleProxyConf exampleConf 8
        (Proxy.requestOf 7 .publishInfo [10] [20] domainLocal) = .ok nd' ∧
      nd'.rv.Lists .pub (.ofByte 0) ([10, 20].map .ofByte) := by
  have hrun : Run Proxy.exampleProxyConf exampleConf 8 (fun _ _ => True) (runOf publishedScope) :=
    run_runOf _ (by decide) fun _ _ _ => trivial
  have hcode : (push exampleConf 8 itemRequest (runOf publishedScope).rv).map Prod.fst =
      .ok .success := by decide +kernel
  obtain ⟨⟨code, rv⟩, hgra, rfl⟩ := exists_ok_of_map hcode
  have hicn : ¬ itemRequest.OverIcn (runOf publishedScope).rv :=
    not_overIcn_itemRequest (by decide +kernel) (by decide +kernel) (by decide +kernel)
  have hreg : itemRequest.type.registers = some (Role.pub, Kind.item) := rfl
  obtain ⟨nd', hh, hiff⟩ := lists_handle_iff hrun .localProcess 7 hreg (fun _ => hicn) hgra
  exact ⟨nd', hh, hiff.2 (.inr ⟨.inr rfl, by decide +kernel⟩)⟩

/-- An item is published before its scope, and again: the second time is kept back. -/
theorem not_lists_of_published_early :
    Run Proxy.exampleProxyConf exampleConf 8 (fun _ _ => True) (runOf publishedEarly) ∧
      (∃ rv, push exampleConf 8 itemRequest (runOf publishedEarly).rv = .ok (.success, rv)) ∧
      ¬ itemRequest.OverIcn (runOf publishedEarly).rv ∧
      ∃ nd', (runOf publishedEarly).handle Proxy.exampleProxyConf exampleConf 8
          (Proxy.requestOf 7 .publishInfo [10] [20] domainLocal) = .ok nd' ∧
        ¬ nd'.rv.Lists .pub (.ofByte 0) ([10, 20].map .ofByte) := by
  have hrun : Run Proxy.exampleProxyConf exampleConf 8 (fun _ _ => True) (runOf publishedEarly) :=
    run_runOf _ (by decide) fun _ _ _ => trivial
  have hcode : (push exampleConf 8 itemRequest (runOf publishedEarly).rv).map Prod.fst =
      .ok .success := by decide +kernel
  obtain ⟨⟨code, rv⟩, hgra, rfl⟩ := exists_ok_of_map hcode
  have hicn : ¬ itemRequest.OverIcn (runOf publishedEarly).rv :=
    not_overIcn_itemRequest (by decide +kernel) (by decide +kernel) (by decide +kernel)
  refine ⟨hrun, ⟨rv, hgra⟩, hicn, ?_⟩
  have hpart : ((runOf publishedEarly).handle Proxy.exampleProxyConf exampleConf 8
      (Proxy.requestOf 7 .publishInfo [10] [20] domainLocal)).map (fun nd =>
        (nd.rv.scopeIndex ([10, 20].map .ofByte), nd.rv.pubIndex ([10, 20].map .ofByte))) =
      .ok (none, none) := by decide +kernel
  obtain ⟨nd', hh, hfree⟩ := exists_ok_of_map hpart
  obtain ⟨hscope, hitem⟩ := Prod.mk.inj hfree
  obtain ⟨label, hw⟩ := (hrun.step (by decide) trivial hh).reachable_rv.wf
  exact ⟨nd', hh, hw.not_lists_of_free hscope hitem⟩

/-- **A node only sends well-formed requests**, in any run. -/
theorem sent_wellFormed (hrun : Run conf gc fuel P nd) {input : Input} (hi : input.Issued) :
    (nd.proxy.push conf input).Meets (fun _ => True) fun res =>
      ∀ q ∈ requests res.2, q.Sized ∧ (q.arrive conf.nodeID).Shaped := by
  have hw := hrun.reachable_proxy.wf
  cases hp : nd.proxy.push conf input with
  | error => trivial
  | ok res =>
    have hpass := Proxy.passesOn_push hw hi hp
    intro q hq
    exact ⟨hpass.sized hw hrun.quiescent q hq, hpass.shaped hw hrun.quiescent _ q hq⟩

theorem sent_wellFormed_leave :
    ((runOf publishedScope).proxy.push Proxy.exampleProxyConf (Proxy.leaveOf 7)).Meets
      (fun _ => True) fun res => ∀ q ∈ requests res.2, q.Sized ∧ (q.arrive (.ofByte 0)).Shaped :=
  sent_wellFormed (P := fun _ _ => True) (run_runOf _ (by decide) fun _ _ _ => trivial) (by decide)

end Node

end Blackadder
