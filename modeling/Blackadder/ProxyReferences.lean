/-
**Hosts that have left.**

A host that leaves is taken out of the entries of publications and subscriptions, scopes without a
name excepted, but never out of the entry of a node with implicit subscriptions; the first of the
hosts there is notified of every later path, whether or not it still exists.
-/

import Blackadder.ProxyRegistry

namespace Blackadder.Proxy

open Table Except Option List

variable {conf : ProxyConf} {st st' : Proxy} {r : Role} {h : HostRef} {f : Id} {a : ActiveEntry}
  {actions : List Action} {input : Input}

variable {IDs : List Id} {ID : Id} {k : HostRef}

/-! ### Notifications -/

def Permits (st : Proxy) : Action → Prop
  | .notify _ k _ => st.Refers k
  | .request _ _ _ => False
  | _ => True

def Tells (st : Proxy) (actions : List Action) : Prop := ∀ x ∈ actions, st.Permits x

theorem tells_of_informs (hi : ∀ x ∈ actions, st.Informs x) : st.Tells actions := by
  intro x hx
  have hinf := hi x hx
  cases x with
  | _ => trivial

theorem tells_of_carries (hc : ∀ x ∈ actions, x.carries = true) : st.Tells actions := by
  intro x hx
  have hcar := hc x hx
  cases x with
  | _ => trivial

theorem Tells.append {l l' : List Action} (hl : st.Tells l) (hl' : st.Tells l') :
    st.Tells (l ++ l') := by
  intro x hx
  rcases mem_append.1 hx with hx | hx
  · exact hl x hx
  · exact hl' x hx

theorem tells_kill : st.Tells [.kill .entered] := tells_of_carries (by simp [Action.carries])

theorem tells_processTMNotification {lid : FID}
    (hp : st.processTMNotification conf lid = .ok (st', actions)) : st.Tells actions := by
  obtain ⟨affected, -, hret⟩ := bind_eq_ok.1 hp
  cases hret
  refine (tells_of_carries (by simp [Action.carries])).append (tells_of_informs fun x hx => ?_)
  split at hx
  · cases hx
  · rw [mem_singleton.1 hx]
    trivial

theorem registered_of_sourceOf {ap : ActiveEntry} (hsou : st.sourceOf ID = some (ap, IDs))
    (hh : h ∈ ap.hosts) : ∃ f, st.Registered .pub h f := by
  rw [sourceOf] at hsou
  split at hsou
  case h_1 ap' hap =>
    cases hsou
    exact ⟨_, ap, hap, hh⟩
  case h_2 =>
    obtain ⟨ap', hap, heq⟩ := map_eq_some_iff.1 hsou
    cases heq
    exact ⟨_, ap, hap, hh⟩

theorem tells_handleUserPublication {type apiType : UInt8} :
    st.Tells (st.handleUserPublication conf ID type h apiType) := by
  have hu := userPublication_handleUserPublication conf st ID type h apiType
  generalize st.handleUserPublication conf ID type h apiType = l at hu
  cases hu with
  | unpublished | dropped => exact tells_kill
  | told hsou hfid hget hs =>
    refine tells_of_informs fun x hx => ?_
    rw [mem_singleton.1 hx]
    exact .inl ⟨Role.pub, registered_of_sourceOf hsou (mem_of_get hget)⟩
  | remote => exact tells_of_carries (carries_pushDataToRemoteSubscribers _ _ _ _)
  | both =>
    refine (tells_of_carries fun x hx => ?_).append (tells_of_carries (carries_deliverAll _ _ _))
    rcases mem_cons.1 hx with rfl | hx
    · rfl
    · exact carries_pushDataToRemoteSubscribers _ _ _ _ x hx

theorem tells_read_kill (hl : st.Tells actions) :
    st.Tells (.read .entered :: actions ++ [.kill .entered]) := by
  refine Tells.append (fun x hx => ?_) tells_kill
  rcases mem_cons.1 hx with rfl | hx
  · trivial
  · exact hl x hx

theorem tells_handlePublishData {strat : Strategy} {fid : FID} {pay : List UInt8}
    (hp : st.handlePublishData conf h ID strat fid pay = .ok (st', actions)) :
    st.Tells actions := by
  cases hostData_of_ok hp with
  | notification _ _ hn => exact tells_read_kill (tells_of_informs (alerts_handleRVNotification hn).informs)
  | path _ _ hn =>
    exact (tells_of_carries (carries_sentOf _ _ _ _ _ _)).append (tells_processTMNotification hn)
  | addressed => exact tells_of_carries (carries_handleUserPublicationTo _ _ _ _ _ _ _)
  | plain => exact tells_handleUserPublication

theorem tells_handlePublishDataISub {strat : Strategy} {stale : List UInt8}
    (hp : st.handlePublishDataISub conf h ID strat stale = .ok (st', actions)) :
    st.Tells actions := by
  unfold handlePublishDataISub at hp
  split at hp
  · cases hp
    exact tells_handleUserPublication.append (tells_of_carries (by simp [Action.carries]))
  · cases hp
    exact tells_of_carries (by simp)

theorem tells_handleNetworkPacket {p : NetworkPacket}
    (hp : st.handleNetworkPacket conf p = .ok (st', actions)) : st.Tells actions := by
  cases networkData_of_ok hp with
  | notification _ _ hn => exact tells_read_kill (tells_of_informs (alerts_handleRVNotification hn).informs)
  | path _ _ hn => exact tells_processTMNotification hn
  | data => exact tells_of_carries (carries_handleNetworkPublication _ _ _ _)
  | implicit =>
    refine Tells.append ?_ (tells_of_carries (carries_handleNetworkPublication _ _ _ _))
    refine tells_of_informs fun x hx => ?_
    split at hx
    · rw [mem_singleton.1 hx]
      trivial
    · cases hx

theorem Withdrawal.notify_mem (w : Withdrawal st h) {e : LocalEvent}
    (hmem : .notify e k ID ∈ w.actions conf) : k ≠ h ∧ st.Refers k := by
  obtain ⟨r, f, -, hmem⟩ := w.mem_actions.1 hmem
  rw [tellAt] at hmem
  cases ha : (st.index r).get f with
  | none => simp [ha] at hmem
  | some a =>
    rw [ha, map_some, tellOf] at hmem
    split at hmem
    · split at hmem
      · simp [createAndSendPacketToRV] at hmem
      · cases hmem
    · split at hmem
      case h_1 => cases hmem
      case h_2 h' hsucc =>
        cases mem_singleton.1 hmem
        rw [successor] at hsucc
        split at hsucc
        · obtain ⟨hne, hh'⟩ := mem_erase.1 (conf.hostOrder.first_mem hsucc)
          exact ⟨hne, .inl ⟨r, f, a, ha, hh'⟩⟩
        · cases hsucc

/-! ### Steps and runs -/

theorem publishesToNode_admitted (input : Input) :
    (st.admitted conf input).PublishesToNode h ↔ st.PublishesToNode h := by
  have hnodes : (st.admitted conf input).activeNodeIndex = st.activeNodeIndex := by
    cases input with
    | network pkt => rfl
    | management fd m | host type fd m =>
      rw [admitted, getLocalHost]
      split <;> rfl
  rw [PublishesToNode, PublishesToNode, hnodes]

def requesting : Input → Bool
  | .host _ _ (.request _ _ _ _) => true
  | _ => false

theorem tells_push (hd : st.disconnecting conf input = none) (hq : requesting input = false)
    (hp : st.push conf input = .ok (st', actions)) : (st.admitted conf input).Tells actions := by
  obtain ⟨res, hres, hret⟩ := bind_eq_ok.1 hp
  cases hret
  suffices htells : (st.admitted conf input).Tells res.2 by
    intro x hx
    rcases mem_cons.1 hx with rfl | hx
    · trivial
    · exact htells x hx
  cases input with
  | network pkt => exact tells_handleNetworkPacket hres
  | management fd m =>
    have hrepl : ∀ answer k, (st.admitted conf (.management fd m)).Tells
        [.reply answer k, .kill .entered] := fun answer k => by simp [Tells, Permits]
    cases m with
    | getNodeID | getRVTMFID =>
      cases hres
      exact hrepl _ _
    | setConnectionStatus status =>
      obtain ⟨res, hsta, hret⟩ := bind_eq_ok.1 hres
      cases hret
      exact (tells_of_informs (alerts_updateStates hsta).informs).append tells_kill
    | disconnect => cases hd
    | other type =>
      cases hres
      exact tells_kill
  | host type fd m =>
    cases m with
    | disconnect => cases hd
    | publishData ID' strat fid pay => exact tells_handlePublishData hres
    | publishDataISub ID' strat stale => exact tells_handlePublishDataISub hres
    | publishDataIMulticast ID' strat nodeIDs =>
      exact tells_of_carries (carries_handleUserMulticastRequest hres)
    | request type ID' prefixID strat => cases hq

/-- **A notification goes to a host that some table refers to** and that is not leaving. -/
theorem push_notifies (hw : st.Wf) (hp : st.push conf input = .ok (st', actions)) {e : LocalEvent}
    (hmem : .notify e k ID ∈ actions) :
    (st.admitted conf input).Refers k ∧ st.disconnecting conf input ≠ some k := by
  cases hd : st.disconnecting conf input with
  | some h =>
    obtain ⟨w, -, rfl⟩ := push_of_disconnecting hw hd hp
    have hmem : .notify e k ID ∈ w.actions conf := by simpa using hmem
    obtain ⟨hne, href⟩ := w.notify_mem hmem
    exact ⟨href, fun heq => hne (some.inj heq).symm⟩
  | none =>
    refine ⟨?_, by simp⟩
    cases hq : requesting input with
    | false => exact tells_push hd hq hp _ hmem
    | true =>
      -- a request is forwarded or killed
      cases input with
      | network pkt | management fd m => cases hq
      | host type fd m =>
        cases m with
        | request rtype ID' prefixID strat =>
          cases push_request.symm.trans hp
          simp only [mem_cons, reduceCtorEq, false_or] at hmem
          split at hmem
          · cases mem_singleton.1 hmem
          · cases mem_singleton.1 hmem
        | _ => cases hq

def Forgettable (st : Proxy) (h : HostRef) : Prop :=
  ¬ st.PublishesToNode h ∧ ∀ r, ¬ st.Nameless r h

def LeavesForgettable (conf : ProxyConf) (st : Proxy) (input : Input) : Prop :=
  ∀ h, st.disconnecting conf input = some h → st.Forgettable h

theorem LeavesForgettable.leavesNamed (hl : LeavesForgettable conf st input) :
    LeavesNamed conf st input := fun h hd => (hl h hd).2

theorem Gone.not_refers_iff (hg : Gone conf h st st') (hw : st.Wf) :
    ¬ st'.Refers h ↔ st.Forgettable h := by
  have hnodes : st'.PublishesToNode h ↔ st.PublishesToNode h := by
    rw [PublishesToNode, PublishesToNode, hg.nodes]
  rw [Refers, not_or, hnodes, and_comm]
  refine and_congr_right fun _ => ?_
  constructor
  · intro hno r hnl
    refine hno ⟨r, [], hg.registered_iff.2 ⟨fun hrea => ?_, hnl.1⟩⟩
    have hscope := isScope_iff_scopeAt.1 hnl.2
    rw [hrea.2.2 rfl] at hscope
    cases hscope
  · intro hnamed hex
    obtain ⟨r, f, hreg⟩ := hex
    obtain ⟨hno, hreg⟩ := hg.registered_iff.1 hreg
    refine hno ⟨rfl, ?_, fun hnil => ?_⟩
    · obtain hown | ⟨rfl, hscope⟩ := hw.own r h f hreg
      · exact hown
      · exact absurd ⟨hreg, hscope⟩ (hnamed r)
    · subst hnil
      by_contra hscope
      rw [Bool.not_eq_false, ← isScope_iff_scopeAt] at hscope
      exact hnamed r ⟨hreg, hscope⟩

theorem Gone.mem_hosts (hg : Gone conf h st st') (hne : k ≠ h) (hk : k ∈ st.hosts) :
    k ∈ st'.hosts := by
  have hid := hg.id k
  obtain ⟨host, hhost⟩ := mem_iff.1 hk
  rw [if_neg hne, hhost, map_some, map_eq_some_iff] at hid
  obtain ⟨host', hhost', -⟩ := hid
  exact mem_of_get hhost'

theorem mem_hosts_push (hw : st.Wf) (hp : st.push conf input = .ok (st', actions))
    (hk : k ∈ (st.admitted conf input).hosts) (hne : st.disconnecting conf input ≠ some k) :
    k ∈ st'.hosts := by
  obtain hq | ⟨h, hs, hr⟩ | ⟨h, hd, hg⟩ := push_cases hw hp
  · rw [hq.hosts]
    exact hk
  · exact (hr.sameHosts (sender_mem hw hs)).mem_iff.2 hk
  · exact hg.mem_hosts (fun heq => hne (heq ▸ hd)) hk

theorem forgettable_admitted (input : Input) :
    (st.admitted conf input).Forgettable h ↔ st.Forgettable h := by
  simp [Forgettable, Nameless, publishesToNode_admitted, registered_admitted, isScope_admitted]

def Current (st : Proxy) : Prop := ∀ h, st.Refers h → h ∈ st.hosts

theorem Mirrored.mem_hosts (hm : st.Mirrored) (hreg : st.Registered r h f) : h ∈ st.hosts :=
  mem_hosts_of_mem_own (hm r h f hreg)

theorem mem_hosts_admitted (input : Input) (hh : h ∈ st.hosts) :
    h ∈ (st.admitted conf input).hosts := by
  have hget : ∀ type d, h ∈ (st.getLocalHost conf type d).2.hosts := by
    intro type d
    rw [getLocalHost]
    split
    · exact hh
    · exact mem_set.2 (.inr hh)
  cases input with
  | network pkt => exact hh
  | management fd m | host type fd m => exact hget _ _

theorem Current.admitted (hc : st.Current) (input : Input) : (st.admitted conf input).Current := by
  intro h href
  refine mem_hosts_admitted input (hc h ?_)
  obtain ⟨r, f, hreg⟩ | hn := href
  · exact .inl ⟨r, f, (registered_admitted input).1 hreg⟩
  · exact .inr ((publishesToNode_admitted input).1 hn)

theorem Current.push (hc : st.Current) (hw : st.Wf) (hm : st'.Mirrored)
    (hl : LeavesForgettable conf st input) (hp : st.push conf input = .ok (st', actions)) :
    st'.Current := by
  intro k href
  obtain ⟨r, f, hreg⟩ | hn := href
  · exact hm.mem_hosts hreg
  · -- the tables of nodes change in quiet steps only
    obtain hq | ⟨h, hs, hr⟩ | ⟨h, hd, hg⟩ := push_cases hw hp
    · rw [hq.hosts]
      exact hc.admitted input k (hq.refers (.inr hn))
    · rw [PublishesToNode, hr.nodes] at hn
      exact (hr.sameHosts (sender_mem hw hs)).mem_iff.2 (hc.admitted input k (.inr hn))
    · rw [PublishesToNode, hg.nodes] at hn
      refine hg.mem_hosts (fun heq => ?_) (hc.admitted input k (.inr hn))
      rw [heq] at hn
      exact (hl h hd).1 ((publishesToNode_admitted input).1 hn)

theorem ReachableIf.current (hreach : ReachableIf conf (LeavesForgettable conf) st) :
    st.Mirrored ∧ st.Current := by
  obtain ⟨past, hrun⟩ := hreach
  induction hrun with
  | initial =>
    refine ⟨mirrored_initial conf, fun h href => ?_⟩
    obtain ⟨r, f, hreg⟩ | ⟨n, an, han, -⟩ := href
    · exact (mirrored_initial conf).mem_hosts hreg
    · exact absurd han (by simp [initial])
  | step hrun hP hp ih =>
    have hm := ih.1.push hrun.wf hP.leavesNamed hp
    exact ⟨hm, ih.2.push hrun.wf hm hP hp⟩

theorem Wf.exists_descriptor (hw : st.Wf) (hh : h ∈ st.hosts) :
    ∃ d, st.localPubSubIndex.get d = some h := by
  obtain ⟨host, hhost⟩ := mem_iff.1 hh
  exact ⟨host.id, (hw.hosts host.id h).2 ⟨host, hhost, rfl⟩⟩

/-- **A host that left is forgotten** exactly when it published to no node and was registered with
no scope without a name. If only such hosts leave, tables refer to, and notifications go to,
existing hosts. -/
theorem forgotten_iff_forgettable (conf : ProxyConf) :
    (∀ st input h st' actions, Reachable conf st → st.disconnecting conf input = some h →
      st.push conf input = .ok (st', actions) → (¬ st'.Refers h ↔ st.Forgettable h)) ∧
    ∀ st, ReachableIf conf (LeavesForgettable conf) st →
      (∀ h, st.Refers h → ∃ d, st.localPubSubIndex.get d = some h) ∧
      ∀ input st' actions, LeavesForgettable conf st input →
        st.push conf input = .ok (st', actions) → ∀ e k ID, .notify e k ID ∈ actions →
          ∃ d, st'.localPubSubIndex.get d = some k := by
  constructor
  · intro st input h st' actions hreach hd hp
    obtain ⟨w, hg, -⟩ := push_of_disconnecting hreach.wf hd hp
    rw [hg.not_refers_iff (hreach.wf.admitted input), forgettable_admitted]
  · intro st hreach
    obtain ⟨_, hc⟩ := hreach.current
    have hw := hreach.wf
    refine ⟨fun h href => hw.exists_descriptor (hc h href), ?_⟩
    intro input st' actions _ hp e k ID hmem
    obtain ⟨href, hne⟩ := push_notifies hw hp hmem
    exact (hw.push hp).exists_descriptor (mem_hosts_push hw hp (hc.admitted input k href) hne)

theorem forgotten_iff_forgettable_published :
    let st := runOf exampleProxyConf [requestOf 7 .publishScope [] [1] domainLocal]
    st.Forgettable 1 ∧ ∃ st' actions, st.push exampleProxyConf (leaveOf 7) = .ok (st', actions) ∧
      ¬ st'.Refers 1 := by
  have hf : (runOf exampleProxyConf
      [requestOf 7 .publishScope [] [1] domainLocal]).Forgettable 1 := by
    refine ⟨fun hn => ?_, fun r hnl => ?_⟩
    · obtain ⟨n, an, han, -⟩ := hn
      cases han
    · revert hnl
      cases r <;> exact fun hnl => absurd hnl.1 (by decide)
  refine ⟨hf, _, _, rfl, ?_⟩
  exact ((forgotten_iff_forgettable exampleProxyConf).1 _ (leaveOf 7) 1 _ _ (reachable_runOf _ _) rfl
    rfl).2 hf

/-- An application subscribes to a scope, a node to an item under it, and the application leaves:
its address is told a path. -/
theorem notified_after_disconnect : let conf := exampleProxyConf
    let st := runOf conf [requestOf 7 .subscribeScope [] [1] implicitRendezvous,
      networkOf [[Fragment.ofByte 1, Fragment.ofByte 2]] publishDataISub (NodeID.ofByte 5).toList,
      leaveOf 7]
    Reachable conf st ∧ st.Refers 1 ∧ st.localPubSubIndex.size = 0 ∧
      ∃ st' actions, st.push conf (networkOf [conf.notificationIID] publishData
          ([updateFIDISub, 1] ++ (NodeID.ofByte 5).toList ++ List.replicate fidLen 1)) =
        .ok (st', actions) ∧ st'.localPubSubIndex.size = 0 ∧
        .notify (.nodePublisher .startPublishISub) 1 [.ofByte 5] ∈ actions := by
  refine ⟨reachable_runOf _ _, .inr ⟨.ofByte 5, _, rfl, ?_⟩, ?_, _, _, rfl, ?_, ?_⟩
  · decide +kernel
  · decide +kernel
  · decide +kernel
  · decide +kernel

end Blackadder.Proxy
