/-
**Where requests go.**

The forwarding identifier of a request under `DOMAIN_LOCAL` is the current `defaultRV_dl`, that of a
withdrawal for a host that leaves the copy in the entry. `DISCONNECTED` clears `defaultRV_dl`, so
that requests go to the own node; after `UPDATE_RVFID` the copies are stale.
-/

import Blackadder.ProxyReferences

namespace Blackadder

/-- Requests under `DOMAIN_LOCAL` go over the network, with this forwarding identifier. -/
def RoutedTo (fid : BABitvector) (actions : List Action) : Prop :=
  ∀ p dest q, .request p dest q ∈ actions → q.strategy = domainLocal → dest = .network fid

namespace Proxy

variable {conf : ProxyConf} {st st' : Proxy} {r : Role} {h : HostRef} {f : Id} {a : ActiveEntry}
  {strat : Strategy} {rvFID : BABitvector} {actions : List Action} {input : Input}

/-! ### Which requests are passed on -/

def Unannounced (st : Proxy) (h : HostRef) (f : Id) : Prop :=
  ∀ ap, st.activePublicationIndex.get f = some ap →
    ap.hosts.get h = some .rePublish ∨ ap.hosts.get h = some .resumePublish

def SoleUnder (st : Proxy) (r : Role) (h : HostRef) (f : Id) (strategy : Strategy) : Prop :=
  ∃ a, (st.index r).get f = some a ∧ a.strategy = strategy ∧ a.SoleHost h

def Subscribable (st : Proxy) (f : Id) (strategy : Strategy) : Prop :=
  match st.activeSubscriptionIndex.get f with
  | none => recordedLocally strategy = false
  | some as => as.strategy = strategy

def Forwarded (st : Proxy) (h : HostRef) (f : Id) (strategy : Strategy) : RequestType → Prop
  | .publishScope | .publishInfo =>
    (strategy = nodeLocal ∨ strategy = domainLocal) ∧ st.Unannounced h f
  | .unpublishScope | .unpublishInfo =>
    (strategy = nodeLocal ∨ strategy = domainLocal) ∧ st.SoleUnder .pub h f strategy
  | .subscribeScope | .subscribeInfo => st.Subscribable f strategy
  | .unsubscribeScope | .unsubscribeInfo =>
    st.SoleUnder .sub h f strategy ∧ recordedLocally strategy = false
  | .other type => type = publishDataISub ∧ st.Subscribable f strategy

theorem storeActivePublication_forwarded {isScope : Bool} :
    (st.storeActivePublication h f strat rvFID isScope).1 = true ↔
      (strat = nodeLocal ∨ strat = domainLocal) ∧ st.Unannounced h f := by
  rw [storeActivePublication]
  split
  case isFalse hst => simp [hst]
  case isTrue hst =>
    simp only [hst, true_and, Unannounced]
    cases hap : st.activePublicationIndex.get f with
    | none => simp
    | some ap =>
      simp only [Option.some.injEq, forall_eq']
      split
      · next hre => simp [hre]
      case isFalse hre =>
        split
        · simpa using hre
        · simpa using hre

theorem leaveEntry_fst (hw : st.Wf) (ha : (st.index r).get f = some a) {k : Id} :
    (st.leaveEntry r h f k a).1 = true ↔ a.SoleHost h := by
  rw [← hw.size_erase_eq_zero ha, leaveEntry]
  split
  case isTrue hsize | isFalse hsize => simp [hsize]

theorem removeActivePublication_forwarded (hw : st.Wf) :
    (st.removeActivePublication h f strat).1 = true ↔
      (strat = nodeLocal ∨ strat = domainLocal) ∧ st.SoleUnder .pub h f strat := by
  rw [removeActivePublication]
  split
  case isFalse hst => simp [hst]
  case isTrue hst =>
    simp only [hst, true_and, SoleUnder]
    cases hap : st.activePublicationIndex.get f with
    | none => simp
    | some ap =>
      simp only [Option.some.injEq, exists_eq_left']
      split
      · next heq => simp [heq, leaveEntry_fst hw hap]
      · next hne => simp [hne]

theorem storeActiveSubscription_forwarded {isScope : Bool} :
    (st.storeActiveSubscription h f strat rvFID isScope).1 = true ↔ st.Subscribable f strat := by
  rw [storeActiveSubscription, Subscribable]
  cases st.activeSubscriptionIndex.get f with
  | none => simp
  | some as =>
    dsimp only
    split
    · next heq => simp [heq]
    · next hne => simp [hne]

theorem removeActiveSubscription_forwarded (hw : st.Wf) :
    (st.removeActiveSubscription h f strat).1 = true ↔
      st.SoleUnder .sub h f strat ∧ recordedLocally strat = false := by
  rw [removeActiveSubscription, SoleUnder]
  cases has : st.activeSubscriptionIndex.get f with
  | none => simp
  | some as =>
    simp only [Option.some.injEq, exists_eq_left']
    split
    · next heq => simp [heq, leaveEntry_fst hw has]
    · next hne => simp [hne]

theorem handleLocalRequest_forwarded (hw : st.Wf) {type : RequestType} {ID pre : Id} :
    (st.handleLocalRequest type h ID pre strat rvFID).1 = true ↔
      st.Forwarded h (requestedID ID pre) strat type := by
  cases type with
  | publishScope | publishInfo => exact storeActivePublication_forwarded
  | unpublishScope | unpublishInfo => exact removeActivePublication_forwarded hw
  | subscribeScope | subscribeInfo => exact storeActiveSubscription_forwarded
  | unsubscribeScope | unsubscribeInfo => exact removeActiveSubscription_forwarded hw
  | other type =>
    unfold handleLocalRequest
    dsimp only
    split
    · next htype => simp [Forwarded, htype, storeActiveSubscription_forwarded]
    · next htype => simp [Forwarded, htype]

theorem forwarded_congr (hind : st'.index = st.index) (h : HostRef) (f : Id) (strat : Strategy)
    (type : RequestType) : st'.Forwarded h f strat type ↔ st.Forwarded h f strat type := by
  cases type <;> simp [Forwarded, Unannounced, SoleUnder, Subscribable, activePublicationIndex,
    activeSubscriptionIndex, hind]

/-! ### Where they go -/

variable {fid : BABitvector}

theorem rvDestination_eq (hrv : conf.rv = false) :
    rvDestination conf rvFID = .network fid ↔ rvFID = fid ∧ fid.zero = false := by
  rw [rvDestination]
  cases hzero : rvFID.zero with
  | true =>
    refine iff_of_false (by simp) fun hboth => ?_
    rw [← hboth.1, hzero] at hboth
    cases hboth.2
  | false =>
    simp only [hrv, Bool.false_eq_true, or_self, if_false, Destination.network.injEq]
    exact ⟨fun heq => ⟨heq, heq ▸ hzero⟩, fun hboth => hboth.1⟩

theorem routedTo_publishReqToRV (hrv : conf.rv = false) {q : RvRequest} :
    RoutedTo fid [publishReqToRV conf q rvFID] ↔
      (q.strategy = domainLocal → rvFID = fid ∧ fid.zero = false) := by
  constructor
  · intro hr hq
    exact (rvDestination_eq hrv).1 (hr _ _ q List.mem_cons_self hq)
  · intro hr p dest q' hmem hq'
    cases List.mem_singleton.1 hmem
    exact (rvDestination_eq hrv).2 (hr hq')

theorem request_mem_tellAt {p : Option PacketRef} {dest : Destination} {q : RvRequest} :
    .request p dest q ∈ tellAt conf r h st f ↔ ∃ a, (st.index r).get f = some a ∧
      (a.hosts.erase h).size = 0 ∧ announced r a.strategy = true ∧ Action.request p dest q =
        createAndSendPacketToRV conf (withdrawalType r a.isScope) a.fullID a.rvFID a.strategy := by
  rw [tellAt]
  cases ha : (st.index r).get f with
  | none => simp
  | some a =>
    simp only [Option.map_some, Option.getD_some, Option.some.injEq, exists_eq_left', tellOf]
    split
    case isTrue hsize =>
      split
      · next hann => simp [hsize, hann]
      · next hann => simp [hann]
    case isFalse hsize =>
      refine iff_of_false ?_ fun hall => hsize hall.1
      split <;> simp

theorem announced_domainLocal (r : Role) : announced r domainLocal = true := by
  cases r <;> rfl

theorem routedTo_actions (hrv : conf.rv = false) (hw : st.Wf) (w : Withdrawal st h) :
    RoutedTo fid (w.actions conf) ↔ ∀ r f a, st.Reached r h f →
      (st.index r).get f = some a → a.strategy = domainLocal → a.SoleHost h →
      a.rvFID = fid ∧ fid.zero = false := by
  constructor
  · intro hr r f a hrea ha hst hsole
    have hmem : createAndSendPacketToRV conf (withdrawalType r a.isScope) a.fullID a.rvFID a.strategy ∈
        w.actions conf := w.mem_actions.2 ⟨r, f, hrea, request_mem_tellAt.2
      ⟨a, ha, (hw.size_erase_eq_zero ha).2 hsole, hst ▸ announced_domainLocal r, rfl⟩⟩
    exact (rvDestination_eq hrv).1 (hr _ _ _ hmem hst)
  · intro hall p dest q hmem hq
    obtain ⟨r, f, hrea, hmem⟩ := w.mem_actions.1 hmem
    obtain ⟨a, ha, hsize, -, heq⟩ := request_mem_tellAt.1 hmem
    cases heq
    exact (rvDestination_eq hrv).2 (hall r f a hrea ha hq ((hw.size_erase_eq_zero ha).1 hsize))

/-! ### The element -/

/-- The rendezvous node is known when a request is passed on, and the copies in the entries of a
leaving host are current. -/
def RvCurrent (conf : ProxyConf) (st : Proxy) (input : Input) : Prop :=
  (∀ type descriptor rtype ID prefixID,
    input = .host type descriptor (.request rtype ID prefixID domainLocal) →
    st.Forwarded (st.getLocalHost conf type descriptor).1 (requestedID ID prefixID) domainLocal rtype →
    st.defaultRV.zero = false) ∧
  ∀ h, st.disconnecting conf input = some h → ∀ r f a, st.Reached r h f →
    (st.index r).get f = some a → a.strategy = domainLocal → a.SoleHost h →
    a.rvFID = st.defaultRV ∧ st.defaultRV.zero = false

theorem reached_admitted (input : Input) :
    (st.admitted conf input).Reached r h f ↔ st.Reached r h f := by
  rw [Reached, Reached, own_admitted, scopeAt, scopeAt, index_admitted]

theorem defaultRV_getLocalHost (type : HostType) (id : ℕ) :
    (st.getLocalHost conf type id).2.defaultRV = st.defaultRV := by
  rw [getLocalHost]
  split <;> rfl

theorem routedTo_of_tells (ht : st.Tells actions) : RoutedTo fid actions := by
  intro p dest q hmem
  exact absurd (ht _ hmem) id

theorem routedTo_cons_read {l : List Action} :
    RoutedTo fid (.read .entered :: l) ↔ RoutedTo fid l := by
  simp [RoutedTo]

theorem routedTo_append_kill {l : List Action} :
    RoutedTo fid (l ++ [.kill .entered]) ↔ RoutedTo fid l := by
  simp [RoutedTo]

theorem routedTo_push_request (hrv : conf.rv = false) (hw : st.Wf) {type : HostType}
    {fd : ℕ} {rtype : RequestType} {ID pre : WireId}
    (hp : st.push conf (.host type fd (.request rtype ID pre strat)) = .ok (st', actions)) :
    RoutedTo st.defaultRV actions ↔ (strat = domainLocal →
      st.Forwarded (st.getLocalHost conf type fd).1 (requestedID ID pre) domainLocal
        rtype → st.defaultRV.zero = false) := by
  cases push_request.symm.trans hp
  rw [routedTo_cons_read, ← forwarded_congr (index_getLocalHost type fd)]
  split
  case isTrue hfwd =>
    rw [routedTo_publishReqToRV hrv]
    refine imp_congr_right fun hst => ?_
    subst hst
    have hfwd := (handleLocalRequest_forwarded (hw.getLocalHost type fd)).1 hfwd
    rw [rvFIDOf, if_pos rfl, defaultRV_getLocalHost]
    exact ⟨fun hboth _ => hboth.2, fun hzero => ⟨rfl, hzero hfwd⟩⟩
  case isFalse hfwd =>
    refine iff_of_true (by simp [RoutedTo]) fun hst hcon => absurd ?_ hfwd
    subst hst
    exact (handleLocalRequest_forwarded (hw.getLocalHost type fd)).2 hcon

/-- **Where requests go.** All requests under `DOMAIN_LOCAL` carry the current identifier of
another rendezvous node exactly if it is known, and the stored copies are current. -/
theorem routedTo_iff_rvCurrent (hreach : Reachable conf st) (hrv : conf.rv = false)
    (hp : st.push conf input = .ok (st', actions)) :
    RoutedTo st.defaultRV actions ↔ RvCurrent conf st input := by
  have hw := hreach.wf
  cases hd : st.disconnecting conf input with
  | some h =>
    obtain ⟨w, -, rfl⟩ := push_of_disconnecting hw hd hp
    rw [routedTo_cons_read, routedTo_append_kill, routedTo_actions hrv (hw.admitted input),
      RvCurrent]
    simp only [reached_admitted, index_admitted, hd, Option.some.injEq, forall_eq']
    refine (and_iff_right ?_).symm
    intro type fd rtype ID pre heq
    subst heq
    cases hd
  | none =>
    have hlea : RvCurrent conf st input ↔ ∀ type fd rtype ID pre,
        input = .host type fd (.request rtype ID pre domainLocal) →
        st.Forwarded (st.getLocalHost conf type fd).1 (requestedID ID pre) domainLocal
          rtype → st.defaultRV.zero = false := by
      rw [RvCurrent, hd]
      simp
    rw [hlea]
    cases hq : requesting input with
    | false =>
      refine iff_of_true (routedTo_of_tells (tells_push hd hq hp)) ?_
      intro type fd rtype ID pre heq
      subst heq
      cases hq
    | true =>
      cases input with
      | network packet | management fd m => cases hq
      | host type fd m =>
        cases m with
        | request rtype ID pre strategy =>
          rw [routedTo_push_request hrv hw hp]
          constructor
          · intro hzero type' descriptor' rtype' ID' prefixID' heq
            cases heq
            exact hzero rfl
          · intro hzero hst
            subst hst
            exact hzero type fd rtype ID pre rfl
        | _ => cases hq

def updateRVFIDOf (conf : ProxyConf) (b : UInt8) : Input :=
  networkOf [conf.notificationIID] publishData (updateRVFID :: List.replicate fidLen b)

/-- A request after `UPDATE_RVFID` carries the new identifier. -/
theorem routedTo_iff_rvCurrent_updated :
    ∃ st' q, (runOf exampleProxyConf [updateRVFIDOf exampleProxyConf 2]).push exampleProxyConf
        (requestOf 1 .publishScope [] [1] domainLocal) =
      .ok (st', [.read .entered,
        .request (some .entered) (.network (.bits (List.Vector.replicate fidLen 2))) q]) ∧
      RoutedTo (.bits (List.Vector.replicate fidLen 2)) [.read .entered,
        .request (some .entered) (.network (.bits (List.Vector.replicate fidLen 2))) q] := by
  have hcur : RvCurrent exampleProxyConf (runOf exampleProxyConf
      [updateRVFIDOf exampleProxyConf 2]) (requestOf 1 .publishScope [] [1] domainLocal) := by
    refine ⟨fun _ _ _ _ _ _ _ => by decide +kernel, fun h hd => ?_⟩
    cases hd
  exact ⟨_, _, rfl, (routedTo_iff_rvCurrent (reachable_runOf _ _) rfl rfl).2 hcur⟩

/-- A request while disconnected is handed to the own node; and after `UPDATE_RVFID` a scope is
withdrawn at the old rendezvous node. -/
theorem not_routed_of_disconnected : let conf := exampleProxyConf
    let off := runOf conf [.management 9 (.setConnectionStatus disconnected)]
    let moved := runOf conf [requestOf 1 .publishScope [] [1] domainLocal, updateRVFIDOf conf 2]
    (conf.rv = false ∧ (Proxy.initial conf).defaultRV.zero = false) ∧
    (Reachable conf off ∧ ∃ st' q, off.push conf (requestOf 1 .publishScope [] [1] domainLocal) =
        .ok (st', [.read .entered, .request (some .entered) .localRV q]) ∧
      q.strategy = domainLocal) ∧
    Reachable conf moved ∧ moved.defaultRV ≠ .bits conf.defaultRV ∧ ∃ st' q,
      moved.push conf (leaveOf 1) =
        .ok (st', [.read .entered, .request none (.network (.bits conf.defaultRV)) q,
          .kill .entered]) ∧
      q.strategy = domainLocal :=
  ⟨⟨rfl, by decide +kernel⟩, ⟨reachable_runOf _ _, _, _, rfl, rfl⟩, reachable_runOf _ _,
    by decide +kernel, _, _, rfl, rfl⟩

end Proxy

end Blackadder
