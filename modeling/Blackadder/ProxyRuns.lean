/-
**Runs of the local proxy.**

A packet leaves the registrations as they are, or enters a host into one entry or takes it out of
one, or takes a host out of every entry. The invariant of the tables follows for whole runs.
-/

import Blackadder.ProxyData
import Blackadder.ProxyDisconnect

namespace Blackadder.Proxy

open Table Except List

variable {conf : ProxyConf} {st st' : Proxy} {r : Role} {h : HostRef} {f : Id} {a : ActiveEntry}
  {actions : List Action}

/-! ### Who is referred to -/

def Refers (st : Proxy) (h : HostRef) : Prop :=
  (∃ r f, st.Registered r h f) ∨ st.PublishesToNode h

def Informs (st : Proxy) : Action → Prop
  | .notify _ k _ => st.Refers k
  | .implicitRequest _ => True
  | _ => False

theorem Quiet.refers (hq : Quiet st st') (hr : st'.Refers h) : st.Refers h := by
  obtain ⟨r, f, hreg⟩ | hn := hr
  · exact .inl ⟨r, f, hq.registered_iff.1 hreg⟩
  · obtain hn | ⟨f, hreg⟩ := hq.nodes h hn
    · exact .inr hn
    · exact .inl ⟨Role.sub, f, hreg⟩

theorem Quiet.informs (hq : Quiet st st') {x : Action} (hx : st'.Informs x) : st.Informs x := by
  cases x with
  | notify e k ID => exact hq.refers hx
  | _ => exact hx

/-- The registrations stay, and some table refers to who is notified. -/
structure Alerts (st st' : Proxy) (actions : List Action) : Prop where
  quiet : Quiet st st'
  informs : ∀ x ∈ actions, st.Informs x

theorem Alerts.refl (st : Proxy) : Alerts st st [] := ⟨.refl st, by simp⟩

theorem alerts_sweep {β : Type} {step : Proxy → β → Handled} {l : List β}
    (body : ∀ b s s' out, step s b = .ok (s', out) → Alerts s s' out)
    (hp : Except.sweep step l st = .ok (st', actions)) : Alerts st st' actions := by
  obtain ⟨hqui, hinf⟩ := sweep_invariant (I := Quiet st) (Q := st.Informs)
    (fun b _ s s' out hs hstep => ⟨hs.trans (body b s s' out hstep).quiet, fun x hx =>
      hs.informs ((body b s s' out hstep).informs x hx)⟩) (Quiet.refl st) hp
  exact ⟨hqui, hinf⟩

theorem registered_of_first (ha : (st.index r).get f = some a)
    (hfirst : conf.hostOrder.first a.hosts.keys.toList = some h) : st.Registered r h f :=
  ⟨a, ha, conf.hostOrder.first_mem hfirst⟩

/-! ### Notifications -/

variable {IDs : List Id} {ID : Id} {strat : Strategy} {rvFID : BABitvector} {input : Input}

theorem informs_notifyScopes {type : ScopeEvent} :
    ∀ x ∈ st.notifyScopes conf type IDs, st.Informs x := by
  intro x hx
  obtain ⟨g, -, hx⟩ := mem_flatMap.1 hx
  obtain ⟨h, hh, rfl⟩ := mem_map.1 hx
  rw [Traversal.mem_visit, findActiveSubscriptions] at hh
  split at hh
  case h_1 => cases hh
  case h_2 as has =>
    split at hh
    · exact .inl ⟨Role.sub, _, as, has, hh⟩
    · cases hh

theorem quiet_assignFID (IDs : List Id) (fid : FID) : Quiet st (st.assignFID IDs fid) := by
  suffices hgen : ∀ l : List Id, Quiet st (l.foldl (fun st ID => st.modifyEntry .pub ID fun ap =>
      { ap with allKnownIDs := IDs, fid := .bits fid }) st) from hgen IDs
  intro l
  induction l generalizing st with
  | nil => exact .refl st
  | cons ID l ih =>
    refine Quiet.trans ?_ ih
    exact quiet_modifyEntry fun _ => rfl

theorem alerts_notifyFirstPublisher
    (hp : notifyFirstPublisher conf st ID = .ok (st', actions)) : Alerts st st' actions := by
  unfold notifyFirstPublisher at hp
  split at hp
  case h_1 =>
    cases hp
    exact .refl _
  case h_2 ap hap =>
    split at hp
    case h_1 =>
      cases hp
      exact .refl _
    case h_2 h hfirst =>
      cases hp
      refine ⟨quiet_setEntry hap (registration_set (conf.hostOrder.first_mem hfirst)),
        fun x hx => ?_⟩
      rw [mem_singleton.1 hx]
      exact .inl ⟨Role.pub, _, registered_of_first hap hfirst⟩

theorem informs_updateFirstPublisher : ∀ x ∈ st.updateFirstPublisher conf ID, st.Informs x := by
  unfold updateFirstPublisher
  split
  case h_1 => simp
  case h_2 ap hap =>
    split
    case h_1 => simp
    case h_2 h hfirst =>
      split
      · intro x hx
        rw [mem_singleton.1 hx]
        exact .inl ⟨Role.pub, _, registered_of_first hap hfirst⟩
      · simp

theorem mem_inState {pubs : Table HostRef PublisherState} {s : PublisherState} :
    h ∈ inState conf pubs s ↔ pubs.get h = some s := by
  rw [inState, mem_filter, Traversal.mem_visit, decide_eq_true_eq]
  refine and_iff_right_of_imp fun hget => ?_
  exact mem_of_get hget

theorem informs_inState {ap : ActiveEntry} {s : PublisherState} {e : LocalEvent}
    (hap : st.activePublicationIndex.get f = some ap) :
    ∀ x ∈ (inState conf ap.hosts s).map fun h => Action.notify e h ID, st.Informs x := by
  intro x hx
  obtain ⟨h, hh, rfl⟩ := mem_map.1 hx
  exact .inl ⟨Role.pub, _, ap, hap, mem_of_get (mem_inState.1 hh)⟩

theorem alerts_stopPublishers (hp : stopPublishers conf IDs st ID = .ok (st', actions)) :
    Alerts st st' actions := by
  unfold stopPublishers at hp
  split at hp
  case h_1 =>
    cases hp
    exact .refl _
  case h_2 ap hap =>
    cases hp
    exact ⟨quiet_setEntry hap rfl, informs_inState hap⟩

theorem quiet_setNode {n : NodeID} {an : ActiveNode} (hn : ∀ h, h ∈ an.publishers →
    st.PublishesToNode h ∨ ∃ f, st.Registered .sub h f) : Quiet st (st.setNode n an) where
  hosts := rfl
  localPubSubIndex := rfl
  entry := fun _ _ => rfl
  nodes := fun h hpub => by
    obtain ⟨n', an', han', hmem⟩ := hpub
    rw [setNode, get_set] at han'
    split at han'
    · cases han'
      exact hn h hmem
    · exact .inl ⟨n', an', han', hmem⟩

theorem alerts_updateNode {isubscriber : NodeID × FID}
    (hp : updateNode conf st isubscriber = .ok (st', actions)) : Alerts st st' actions := by
  unfold updateNode at hp
  split at hp
  case h_1 =>
    cases hp
    exact .refl _
  case h_2 an han =>
    dsimp only at hp
    split at hp
    case h_1 =>
      cases hp
      exact ⟨quiet_setNode fun h hmem => .inl ⟨_, an, han, hmem⟩, by simp⟩
    case h_2 k hfirst =>
      cases hp
      refine ⟨quiet_setNode fun h hmem => .inl ⟨_, an, han, ?_⟩, fun x hx => ?_⟩
      · obtain rfl | hmem := mem_set.1 hmem
        · exact conf.hostOrder.first_mem hfirst
        · exact hmem
      · rw [mem_singleton.1 hx]
        exact .inr ⟨_, an, han, conf.hostOrder.first_mem hfirst⟩

theorem alerts_handleRVNotification {n : Notification}
    (hp : st.handleRVNotification conf n = .ok (st', actions)) : Alerts st st' actions := by
  cases n with
  | scopePublished IDs | scopeUnpublished IDs =>
    cases hp
    exact ⟨.refl st, informs_notifyScopes⟩
  | startPublish IDs fid =>
    have hq : Quiet st (st.assignFID IDs fid) := quiet_assignFID IDs fid
    obtain ⟨hqui, hinf⟩ := alerts_sweep (fun _ _ _ _ hstep => alerts_notifyFirstPublisher hstep) hp
    exact ⟨hq.trans hqui, fun x hx => hq.informs (hinf x hx)⟩
  | updateFID IDs fid =>
    cases hp
    refine ⟨quiet_assignFID IDs fid, fun x hx => ?_⟩
    obtain ⟨g, -, hx⟩ := mem_flatMap.1 hx
    exact (quiet_assignFID IDs fid).informs (informs_updateFirstPublisher x hx)
  | updateRVFID fid | updateTMFID fid | other type =>
    cases hp
    exact ⟨Quiet.of_eq rfl rfl rfl rfl, by simp⟩
  | stopPublish IDs =>
    exact alerts_sweep (fun _ _ _ _ hstep => alerts_stopPublishers hstep) hp
  | updateFIDISub isubscribers =>
    exact alerts_sweep (fun _ _ _ _ hstep => alerts_updateNode hstep) hp

theorem quiet_mapValues {g : ActiveEntry → ActiveEntry}
    (hg : ∀ a, (g a).registration = a.registration) (hhosts : st'.hosts = st.hosts)
    (hloc : st'.localPubSubIndex = st.localPubSubIndex)
    (hind : st'.index = fun r =>
      if r = .pub then st.activePublicationIndex.mapValues fun _ => g else st.index r)
    (hnodes : ∀ h, st'.PublishesToNode h → st.PublishesToNode h) : Quiet st st' where
  hosts := hhosts
  localPubSubIndex := hloc
  entry := fun r f => by
    rw [hind]
    cases r with
    | sub => rfl
    | pub =>
      dsimp only
      rw [if_pos rfl, get_mapValues, Option.map_map]
      exact congrArg (fun g => Option.map g _) (funext hg)
  nodes := fun h hn => Or.inl (hnodes h hn)

theorem registration_invalidate (lid : FID) (ap : ActiveEntry) :
    (invalidate lid ap).registration = ap.registration := by
  unfold invalidate
  split
  · rfl
  · split
    · rfl
    · rfl

theorem registration_pause (ap : ActiveEntry) : (pause ap).registration = ap.registration := by
  unfold pause
  split
  · rfl
  · rfl

theorem quiet_processTMNotification {lid : FID}
    (hp : st.processTMNotification conf lid = .ok (st', actions)) : Quiet st st' := by
  obtain ⟨affected, -, hret⟩ := bind_eq_ok.1 hp
  cases hret
  exact quiet_mapValues (registration_invalidate lid) rfl rfl rfl fun _ hn => hn

section
variable (hp : resume conf st f = .ok (st', actions))
include hp

theorem resume_cases :
    (st' = st ∧ actions = []) ∨ ∃ ap ID, st.activePublicationIndex.get f = some ap ∧
      st' = st.setEntry .pub f
        { ap with hosts := replaceState ap.hosts .pausePublish .resumePublish } ∧
      actions = (inState conf ap.hosts .pausePublish).map fun h =>
        .notify (.publisher .resumePublish) h ID := by
  unfold resume at hp
  split at hp
  case h_1 =>
    cases hp
    exact .inl ⟨rfl, rfl⟩
  case h_2 ap hap =>
    split at hp
    · cases hp
      exact .inl ⟨rfl, rfl⟩
    · split at hp
      case h_1 =>
        cases hp
        exact .inl ⟨rfl, rfl⟩
      case h_2 => cases hp
      case h_3 h l ID _ hpau _ =>
        cases hp
        exact .inr ⟨ap, ID, hap, rfl, by rw [hpau]⟩

theorem alerts_resume : Alerts st st' actions := by
  obtain ⟨rfl, rfl⟩ | ⟨ap, ID, hap, rfl, rfl⟩ := resume_cases hp
  · exact .refl _
  · exact ⟨quiet_setEntry hap rfl, informs_inState hap⟩

end

theorem alerts_updateStates {state : UInt8}
    (hp : st.updateStates conf state = .ok (st', actions)) : Alerts st st' actions := by
  unfold updateStates at hp
  split at hp
  · cases hp
    refine ⟨quiet_mapValues registration_pause rfl rfl rfl fun h hn => ?_, by simp⟩
    obtain ⟨n, an, han, hmem⟩ := hn
    obtain ⟨an', han', rfl⟩ := Option.map_eq_some_iff.1 han
    rw [ActiveNode.publishers_emptied] at hmem
    exact ⟨n, an', han', hmem⟩
  · split at hp
    · obtain ⟨res, hswe, hret⟩ := bind_eq_ok.1 hp
      cases hret
      obtain ⟨hqui, hinf⟩ := alerts_sweep (fun _ _ _ _ hstep => alerts_resume hstep) hswe
      refine ⟨hqui, fun x hx => ?_⟩
      rcases mem_append.1 hx with hx | hx
      · exact hinf x hx
      · split at hx
        · cases hx
        · rw [mem_singleton.1 hx]
          trivial
    · cases hp
      exact .refl _

theorem quiet_storeActiveNode (n : NodeID) (IDs : List Id) :
    Quiet st (st.storeActiveNode n IDs).2 := by
  unfold storeActiveNode
  split
  · refine quiet_setNode fun h hmem => .inr ?_
    rw [mem_foldl_findInsert, or_iff_left (not_mem_empty h)] at hmem
    obtain ⟨k, -, hk | hk⟩ := mem_findLocalSubscribers.1 hmem
    · exact ⟨k, hk⟩
    · exact ⟨k.dropLast, hk⟩
  · exact .refl st

/-! ### Registrations -/

inductive Registration (st : Proxy) (h : HostRef) : Proxy → Prop
  | unchanged : Registration st h st
  | created {r : Role} {f : Id} (strategy : Strategy) (rvFID : BABitvector) (isScope : Bool) :
    (st.index r).get f = none → f.length ≤ 256 →
    Registration st h (st.newEntry r h f strategy rvFID isScope)
  | joined {r : Role} {f : Id} {a : ActiveEntry} : (st.index r).get f = some a →
    Registration st h (st.joinEntry r h f a)
  | left {r : Role} {f : Id} {a : ActiveEntry} : (st.index r).get f = some a →
    Registration st h (st.leaveEntry r h f f a).2

theorem storeActivePublication_registration {isScope : Bool} (hf : f.length ≤ 256) :
    Registration st h (st.storeActivePublication h f strat rvFID isScope).2 := by
  unfold storeActivePublication
  split
  · split
    case h_1 hnone => exact .created strat rvFID isScope hnone hf
    case h_2 ap hap =>
      split
      · exact .unchanged
      · split
        · exact .joined hap
        · exact .unchanged
  · exact .unchanged

theorem removeActivePublication_registration :
    Registration st h (st.removeActivePublication h f strat).2 := by
  unfold removeActivePublication
  split
  · split
    case h_1 => exact .unchanged
    case h_2 ap hap =>
      split
      · exact .left hap
      · exact .unchanged
  · exact .unchanged

theorem storeActiveSubscription_registration {isScope : Bool} (hf : f.length ≤ 256) :
    Registration st h (st.storeActiveSubscription h f strat rvFID isScope).2 := by
  unfold storeActiveSubscription
  split
  case h_1 hnone => exact .created strat rvFID isScope hnone hf
  case h_2 as has =>
    split
    · exact .joined has
    · exact .unchanged

theorem removeActiveSubscription_registration :
    Registration st h (st.removeActiveSubscription h f strat).2 := by
  unfold removeActiveSubscription
  split
  case h_1 => exact .unchanged
  case h_2 as has =>
    split
    · exact .left has
    · exact .unchanged

theorem lastFragment_length_le (k : Id) : (lastFragment k).length ≤ 1 := by
  rw [lastFragment, length_drop]
  omega

theorem requestedID_length_le (ID : Id) {pre : Id} (hpre : pre.length ≤ 255) :
    (requestedID ID pre).length ≤ 256 := by
  have hlast := lastFragment_length_le ID
  rw [requestedID]
  split
  · rw [length_append]
    omega
  · rw [length_append]
    omega

theorem handleLocalRequest_registration {type : RequestType} {pre : Id} (hpre : pre.length ≤ 255) :
    Registration st h (st.handleLocalRequest type h ID pre strat rvFID).2 := by
  have hlen := requestedID_length_le ID hpre
  unfold handleLocalRequest
  cases type with
  | publishScope | publishInfo => exact storeActivePublication_registration hlen
  | unpublishScope | unpublishInfo => exact removeActivePublication_registration
  | subscribeScope | subscribeInfo => exact storeActiveSubscription_registration hlen
  | unsubscribeScope | unsubscribeInfo => exact removeActiveSubscription_registration
  | other type =>
    dsimp only
    split
    · exact storeActiveSubscription_registration hlen
    · exact .unchanged

def rvFIDOf (st : Proxy) (strategy : Strategy) : BABitvector :=
  if strategy = domainLocal then st.defaultRV else .zeros

theorem handleRequest_eq (conf : ProxyConf) (st : Proxy) (h : HostRef) (type : RequestType)
    (ID pre : WireId) (strat : Strategy) :
    st.handleRequest conf h type ID pre strat =
      .ok ((st.handleLocalRequest type h ID pre strat (st.rvFIDOf strat)).2,
        if (st.handleLocalRequest type h ID pre strat (st.rvFIDOf strat)).1 then
          [publishReqToRV conf ⟨type, UInt8.ofNat ID.val.length, ID, UInt8.ofNat pre.val.length,
            pre, strat⟩ (st.rvFIDOf strat)]
        else [.kill .entered]) := by
  unfold handleRequest
  dsimp only
  rw [← rvFIDOf]
  split
  case h_1 heq => rw [heq, if_pos rfl]
  case h_2 heq =>
    rw [heq]
    rfl

section
variable (hr : Registration st h st')
include hr

theorem Registration.wf (hw : st.Wf) (hh : h ∈ st.hosts) : st'.Wf := by
  cases hr with
  | unchanged => exact hw
  | created _ _ _ hnone hlen => exact hw.newEntry hh hnone hlen
  | joined hf => exact hw.joinEntry hh hf
  | left hf => exact hw.leaveEntry hf

theorem Registration.sameHosts (hh : h ∈ st.hosts) : SameHosts st st' := by
  cases hr with
  | unchanged => exact SameHosts.refl
  | created _ _ _ _ _ => exact (touches_newEntry hh).same
  | joined _ => exact (touches_joinEntry hh).same
  | left _ => exact touches_leaveEntry.same

theorem Registration.nodes : st'.activeNodeIndex = st.activeNodeIndex := by
  cases hr with
  | unchanged | created _ _ _ _ _ | joined _ => rfl
  | left _ =>
    rw [leaveEntry]
    split <;> rfl

theorem Registration.mirrored (hm : st.Mirrored) (hh : h ∈ st.hosts) : st'.Mirrored := by
  intro r' h' f' hreg
  cases hr with
  | unchanged => exact hm r' h' f' hreg
  | created _ _ _ hnone hlen =>
    rw [mem_own_newEntry hh]
    exact ((registered_newEntry hh hnone).1 hreg).imp_right (hm r' h' f')
  | joined hf =>
    rw [mem_own_joinEntry hh]
    exact ((registered_joinEntry hh hf).1 hreg).imp_right (hm r' h' f')
  | left hf =>
    rw [mem_own_leaveEntry]
    exact ((registered_leaveEntry hf).1 hreg).imp_right (hm r' h' f')

end

/-! ### Steps -/

def admitted (conf : ProxyConf) (st : Proxy) : Input → Proxy
  | .network _ => st
  | .management descriptor _ => (st.getLocalHost conf .localProcess descriptor).2
  | .host type descriptor _ => (st.getLocalHost conf type descriptor).2

def sender (conf : ProxyConf) (st : Proxy) : Input → Option HostRef
  | .network _ => none
  | .management descriptor _ => some (st.getLocalHost conf .localProcess descriptor).1
  | .host type descriptor _ => some (st.getLocalHost conf type descriptor).1

def disconnecting (conf : ProxyConf) (st : Proxy) : Input → Option HostRef
  | .management descriptor .disconnect => some (st.getLocalHost conf .localProcess descriptor).1
  | .host type descriptor .disconnect => some (st.getLocalHost conf type descriptor).1
  | _ => none

@[simp] theorem index_admitted (input : Input) : (st.admitted conf input).index = st.index := by
  cases input with
  | network pkt => rfl
  | management fd m | host type fd m => exact index_getLocalHost _ _

@[simp] theorem own_admitted (input : Input) (r : Role) (h : HostRef) :
    (st.admitted conf input).own r h = st.own r h := by
  cases input with
  | network pkt => rfl
  | management fd m | host type fd m => exact own_getLocalHost _ _ r h

theorem Wf.admitted (hw : st.Wf) (input : Input) : (st.admitted conf input).Wf := by
  cases input with
  | network pkt => exact hw
  | management fd m | host type fd m => exact hw.getLocalHost _ _

theorem registered_admitted (input : Input) :
    (st.admitted conf input).Registered r h f ↔ st.Registered r h f := by
  rw [Registered, Registered, index_admitted]

theorem isScope_admitted (input : Input) : (st.admitted conf input).IsScope r f ↔ st.IsScope r f := by
  rw [IsScope, IsScope, index_admitted]

theorem mirrored_admitted (input : Input) : (st.admitted conf input).Mirrored ↔ st.Mirrored := by
  simp [Mirrored, registered_admitted]

theorem sender_mem (hw : st.Wf) (hs : st.sender conf input = some h) :
    h ∈ (st.admitted conf input).hosts := by
  cases input with
  | network pkt => cases hs
  | management fd m | host type fd m =>
    cases hs
    exact getLocalHost_mem hw _ _

theorem sender_of_disconnecting (hd : st.disconnecting conf input = some h) :
    st.sender conf input = some h := by
  cases input with
  | network pkt => cases hd
  | management fd m | host type fd m => cases m <;> first | exact hd | cases hd

theorem push_of_disconnecting (hw : st.Wf) (hd : st.disconnecting conf input = some h)
    (hp : st.push conf input = .ok (st', actions)) :
    ∃ w : Withdrawal (st.admitted conf input) h, Gone conf h (st.admitted conf input) st' ∧
      actions = .read .entered :: (w.actions conf ++ [.kill .entered]) := by
  obtain ⟨w, s, heq, hg⟩ := disconnect_eq conf (hw.admitted input)
    (sender_mem hw (sender_of_disconnecting hd))
  have hpush : st.push conf input =
      .ok (s, .read .entered :: (w.actions conf ++ [.kill .entered])) := by
    refine bind_eq_ok.2 ⟨(s, w.actions conf ++ [.kill .entered]), ?_, rfl⟩
    cases input with
    | network pkt => cases hd
    | management fd m | host type fd m =>
      cases m with
      | disconnect =>
        cases hd
        exact bind_eq_ok.2 ⟨_, heq, rfl⟩
      | _ => cases hd
  rw [hpush] at hp
  cases hp
  exact ⟨w, hg, rfl⟩

theorem push_request {type : HostType} {fd : ℕ} {rtype : RequestType} {ID pre : WireId} :
    st.push conf (.host type fd (.request rtype ID pre strat)) =
      let s := (st.getLocalHost conf type fd).2
      let res := s.handleLocalRequest rtype (st.getLocalHost conf type fd).1 ID pre
        strat (s.rvFIDOf strat)
      .ok (res.2, .read .entered :: if res.1 then
          [publishReqToRV conf ⟨rtype, UInt8.ofNat ID.val.length, ID,
            UInt8.ofNat pre.val.length, pre, strat⟩ (s.rvFIDOf strat)]
        else [.kill .entered]) := by
  rw [push, dispatch, handleLocalMessage, handleRequest_eq]
  rfl

/-- **What a step can do** to the state in which its message is handled. -/
inductive Change (conf : ProxyConf) (st : Proxy) (input : Input) : Proxy → Prop
  | same : Change conf st input (st.admitted conf input)
  | notification {n : Notification} {st' : Proxy} {out : List Action} :
    (st.admitted conf input).handleRVNotification conf n = .ok (st', out) →
    Change conf st input st'
  | path {lid : FID} {st' : Proxy} {out : List Action} :
    (st.admitted conf input).processTMNotification conf lid = .ok (st', out) →
    Change conf st input st'
  | status {descriptor : ℕ} {status : UInt8} {st' : Proxy} {out : List Action} :
    input = .management descriptor (.setConnectionStatus status) →
    { st.admitted conf input with status := status }.updateStates conf status = .ok (st', out) →
    Change conf st input st'
  | implicit (n : NodeID) (IDs : List Id) :
    Change conf st input ((st.admitted conf input).storeActiveNode n IDs).2
  | multicast (f ID : Id) : Change conf st input
    ((st.admitted conf input).modifyEntry .pub f fun ap => { ap with allKnownIDs := [ID] })
  | request {hostType : HostType} {descriptor : ℕ} {type : RequestType} {ID prefixID : WireId}
    {strategy : Strategy} (rvFID : BABitvector) :
    input = .host hostType descriptor (.request type ID prefixID strategy) →
    Change conf st input ((st.admitted conf input).handleLocalRequest type
      (st.getLocalHost conf hostType descriptor).1 ID prefixID strategy rvFID).2
  | subscription {h : HostRef} {ID : Id} (strategy : Strategy) (rvFID : BABitvector) :
    st.sender conf input = some h → ID.dropLast.length ≤ 255 →
    Change conf st input ((st.admitted conf input).handleLocalRequest (.other publishDataISub) h ID
      ID.dropLast strategy rvFID).2
  | gone {h : HostRef} {st' : Proxy} : st.disconnecting conf input = some h →
    Gone conf h (st.admitted conf input) st' → Change conf st input st'

section
variable (hw : st.Wf) (hp : st.push conf input = .ok (st', actions))
include hw hp

theorem push_change : Change conf st input st' := by
  cases hd : st.disconnecting conf input with
  | some h =>
    obtain ⟨w, hg, -⟩ := push_of_disconnecting hw hd hp
    exact .gone hd hg
  | none =>
  obtain ⟨⟨s, l⟩, hres, hret⟩ := bind_eq_ok.1 hp
  cases hret
  cases input with
  | network pkt =>
    cases networkData_of_ok hres with
    | notification _ _ hn => exact .notification hn
    | path _ _ hn => exact .path hn
    | data => exact .same
    | implicit => exact .implicit _ _
  | management fd m =>
    cases m with
    | getNodeID | getRVTMFID | other type =>
      cases hres
      exact .same
    | setConnectionStatus status =>
      obtain ⟨res, hsta, hret⟩ := bind_eq_ok.1 hres
      cases hret
      exact .status rfl hsta
    | disconnect => cases hd
  | host type fd m =>
    cases m with
    | disconnect => cases hd
    | publishData ID strat fid payload =>
      cases hostData_of_ok hres with
      | notification _ _ hn => exact .notification hn
      | path _ _ hn => exact .path hn
      | addressed | plain => exact .same
    | publishDataISub ID strat stale =>
      unfold dispatch handleLocalMessage handlePublishDataISub at hres
      dsimp only at hres
      split at hres
      · cases hres
        refine .subscription _ _ rfl ?_
        have hbyte : (byteAt stale 0).toNat < 256 := (byteAt stale 0).toNat_lt
        rw [length_dropLast, idAt_length]
        omega
      · cases hres
        exact .same
    | publishDataIMulticast ID strat nodeIDs =>
      unfold dispatch handleLocalMessage handleUserMulticastRequest at hres
      dsimp only at hres
      split at hres
      case h_1 =>
        cases hres
        exact .same
      case h_2 =>
        cases hres
        exact .multicast _ _
    | request type ID pre strat =>
      cases (handleRequest_eq _ _ _ _ _ _ _).symm.trans hres
      exact .request _ rfl

theorem push_cases : Quiet (st.admitted conf input) st' ∨
      (∃ h, st.sender conf input = some h ∧ Registration (st.admitted conf input) h st') ∨
      ∃ h, st.disconnecting conf input = some h ∧ Gone conf h (st.admitted conf input) st' := by
  cases push_change hw hp with
  | same => exact .inl (.refl _)
  | notification hn => exact .inl ((alerts_handleRVNotification hn).quiet)
  | path hn => exact .inl (quiet_processTMNotification hn)
  | status _ hsta =>
    refine .inl (Quiet.trans ?_ ((alerts_updateStates hsta).quiet))
    exact Quiet.of_eq rfl rfl rfl rfl
  | implicit n IDs => exact .inl (quiet_storeActiveNode n IDs)
  | multicast f ID => exact .inl (quiet_modifyEntry fun _ => rfl)
  | @request _ _ _ _ pre _ _ hi =>
    subst hi
    exact .inr (.inl ⟨_, rfl, handleLocalRequest_registration (Nat.le_of_lt_succ pre.2)⟩)
  | subscription _ _ hs hlen => exact .inr (.inl ⟨_, hs, handleLocalRequest_registration hlen⟩)
  | gone hd hg => exact .inr (.inr ⟨_, hd, hg⟩)

theorem Wf.push : st'.Wf := by
  obtain hq | ⟨h, hs, hr⟩ | ⟨h, hd, hg⟩ := push_cases hw hp
  · exact hq.wf (hw.admitted input)
  · exact hr.wf (hw.admitted input) (sender_mem hw hs)
  · exact hg.wf (hw.admitted input) (sender_mem hw (sender_of_disconnecting hd))

end

/-! ### Runs -/

variable {P : Proxy → Input → Prop} {past : List Input}

theorem Run.wf (hrun : Run conf P past st) : st.Wf := by
  induction hrun with
  | initial => exact wf_initial conf
  | step _ _ hp ih => exact ih.push hp

theorem ReachableIf.wf (hreach : ReachableIf conf P st) : st.Wf := by
  obtain ⟨past, hrun⟩ := hreach
  exact hrun.wf

/-! ### Executing runs -/

def pushAll (conf : ProxyConf) (inputs : List Input) (st : Proxy) : Proxy :=
  inputs.foldl (fun st input => match st.push conf input with
    | .ok (st', _) => st'
    | .error _ => st) st

theorem reachableIf_pushAll (inputs : List Input) (hst : ReachableIf conf P st)
    (hP : ∀ input ∈ inputs, ∀ st, P st input) : ReachableIf conf P (pushAll conf inputs st) := by
  induction inputs generalizing st with
  | nil => exact hst
  | cons input inputs ih =>
    have hP' : ∀ input' ∈ inputs, ∀ st, P st input' :=
      fun input' hmem => hP input' (mem_cons_of_mem input hmem)
    obtain ⟨past, hrun⟩ := hst
    simp only [pushAll, foldl_cons]
    cases hpush : st.push conf input with
    | ok res => exact ih ⟨_, hrun.step (hP input mem_cons_self st) hpush⟩ hP'
    | error e => exact ih ⟨past, hrun⟩ hP'

def smallId (l : List UInt8) : WireId :=
  ⟨(l.take 255).map .ofByte, by
    rw [length_map, length_take]
    omega⟩

def requestOf (d : ℕ) (type : RequestType) (prefixID ID : List UInt8) (strategy : Strategy) : Input :=
  .host .localProcess d (.request type (smallId ID) (smallId prefixID) strategy)

def leaveOf (d : ℕ) : Input := .host .localProcess d .disconnect

def idBytesOf (k : Id) : List UInt8 := UInt8.ofNat k.length :: k.flatMap List.Vector.toList

def networkOf (IDs : List Id) (type : UInt8) (data : List UInt8) : Input :=
  .network (UInt8.ofNat IDs.length :: IDs.flatMap idBytesOf ++ type :: data)

/-- Not the rendezvous node of the domain, which some links lead to. -/
def exampleProxyConf : ProxyConf :=
  .inListOrder (GlobalConf.inListOrder (.ofByte 0) (List.Vector.replicate fidLen 0)
    (List.Vector.replicate fidLen 0)) false (List.Vector.replicate fidLen 1)

def runOf (conf : ProxyConf) (inputs : List Input) : Proxy :=
  pushAll conf inputs (Proxy.initial conf)

theorem reachable_runOf (conf : ProxyConf) (inputs : List Input) :
    Reachable conf (runOf conf inputs) :=
  reachableIf_pushAll inputs ⟨[], .initial⟩ fun _ _ _ => trivial

end Blackadder.Proxy
