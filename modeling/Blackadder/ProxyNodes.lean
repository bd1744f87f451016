/-
**Nodes that have sent implicit subscriptions.**

The path to such a node becomes an empty bit vector when the own node is disconnected, while a
failure of a link and a publication to several nodes take it for one of full length. The first of
the hosts that publish to it is told about its path.
-/

import Blackadder.ProxyPackets

namespace Blackadder

open Table Except

def BABitvector.size : BABitvector → ℕ
  | .empty => 0
  | .bits _ => fidLen * 8

theorem BABitvector.size_eq_iff {v : BABitvector} : v.size = fidLen * 8 ↔ v ≠ .empty := by
  cases v with
  | empty => simp [size, fidLen]
  | bits v => simp [size]

namespace Proxy

variable {conf : ProxyConf} {st st' : Proxy} {acts : List Action} {input : Input} {n : NodeID}

/-! ### Bit vectors that are combined -/

def LinkFailure : Input → Prop
  | .network packet => (NetworkPacket.read packet).type = publishData ∧
    (NetworkPacket.read packet).IDs = [pathMgmtIID]
  | .host _ _ (.publishData ID strategy _ _) => strategy = implicitRendezvous ∧ ID.val = pathMgmtIID
  | _ => False

/-- What an input combines with a vector of full length: by `&` with a failed link, by `|` with the
paths of a publication to several nodes. -/
inductive Combines (st : Proxy) : Input → BABitvector → Prop
  | publication {input : Input} {f : Id} {ap : ActiveEntry} : LinkFailure input →
    st.activePublicationIndex.get f = some ap → ap.isScope = false → ap.fid.zero = false →
    Combines st input ap.fid
  | node {input : Input} {n : NodeID} {an : ActiveNode} : LinkFailure input →
    st.activeNodeIndex.get n = some an → Combines st input an.fid
  | multicast {type : HostType} {descriptor : ℕ} {ID : WireId} {strategy : Strategy}
    {nodeIDs : ListSet NodeID} {n : NodeID} {an : ActiveNode} : (st.sourceOf ID).isSome →
    n ∈ nodeIDs.toList → st.activeNodeIndex.get n = some an →
    Combines st (.host type descriptor (.publishDataIMulticast ID strategy nodeIDs)) an.fid

def OperandsFull (st : Proxy) : Prop :=
  ∀ input v, st.Combines input v → v.size = fidLen * 8

/-- The failure of a link is not handled to the end when some path is empty: `&` asserts that both
vectors have the same size. -/
theorem hasPaths_of_linkFailure (hlink : LinkFailure input)
    (hp : st.push conf input = .ok (st', acts)) : st.HasPaths := by
  obtain ⟨⟨s, l⟩, hres, -⟩ := bind_eq_ok.1 hp
  cases input with
  | network pkt =>
    obtain ⟨htype, hIDs⟩ := hlink
    rw [dispatch, handleNetworkPacket, if_pos htype, if_neg, if_pos hIDs] at hres
    · exact hasPaths_of_processTMNotification hres
    · rw [hIDs]
      exact fun heq => notificationIID_ne_pathMgmtIID conf (List.cons.inj heq).1.symm
  | management fd m => cases hlink
  | host type fd m =>
    cases m with
    | publishData ID strategy fid payload =>
      obtain ⟨rfl, hID⟩ := hlink
      unfold dispatch handleLocalMessage handlePublishData at hres
      dsimp only at hres
      rw [hID, if_pos rfl, if_neg (notificationIID_ne_pathMgmtIID conf).symm] at hres
      obtain ⟨r, hproc, -⟩ := bind_eq_ok.1 hres
      have hr := hasPaths_of_processTMNotification hproc
      rwa [HasPaths, activeNodeIndex_getLocalHost] at hr
    | _ => cases hlink

theorem operandsFull_iff_hasPaths : st.OperandsFull ↔ st.HasPaths := by
  constructor
  · intro hfull n an han
    have hlink : LinkFailure (.host .localProcess 0 (.publishData ⟨pathMgmtIID, by decide⟩
        implicitRendezvous (List.Vector.replicate fidLen 0) [])) := ⟨rfl, rfl⟩
    exact BABitvector.size_eq_iff.1 (hfull _ _ (.node hlink han))
  · intro hpaths input v hc
    rw [BABitvector.size_eq_iff]
    cases hc with
    | publication _ _ _ hz =>
      intro heq
      rw [heq] at hz
      cases hz
    | node _ han | multicast _ _ han => exact hpaths _ _ han

theorem HasPaths.of_eq (hpaths : st.HasPaths) (heq : st'.activeNodeIndex = st.activeNodeIndex) :
    st'.HasPaths := by
  intro n an han
  rw [heq] at han
  exact hpaths n an han

theorem HasPaths.setNode {an : ActiveNode} (hpaths : st.HasPaths) (han : an.fid ≠ .empty) :
    (st.setNode n an).HasPaths := by
  intro n' an' han'
  rw [Proxy.setNode, get_set] at han'
  split at han'
  · cases han'
    exact han
  · exact hpaths n' an' han'

theorem hasPaths_updateNode {isubscriber : NodeID × FID} (hpaths : st.HasPaths)
    (hp : updateNode conf st isubscriber = .ok (st', acts)) : st'.HasPaths := by
  unfold updateNode at hp
  split at hp
  case h_1 =>
    cases hp
    exact hpaths
  case h_2 =>
    dsimp only at hp
    split at hp
    all_goals
      cases hp
      exact hpaths.setNode nofun

theorem activeNodeIndex_sweep {step : Proxy → Id → Handled} {l : List Id}
    (hstep : ∀ s f s' out, step s f = .ok (s', out) → s'.activeNodeIndex = s.activeNodeIndex)
    (hp : Except.sweep step l st = .ok (st', acts)) : st'.activeNodeIndex = st.activeNodeIndex :=
  sweep_keeps (I := fun s : Proxy => s.activeNodeIndex = st.activeNodeIndex)
    (fun f _ s s' out hs heq => (hstep s f s' out heq).trans hs) rfl hp

theorem hasPaths_handleRVNotification {m : Notification} (hpaths : st.HasPaths)
    (hp : st.handleRVNotification conf m = .ok (st', acts)) : st'.HasPaths := by
  have hass (IDs : List Id) (fid : FID) :
      (st.assignFID IDs fid).activeNodeIndex = st.activeNodeIndex :=
    List.foldlRecOn (motive := fun s : Proxy => s.activeNodeIndex = st.activeNodeIndex) IDs _ rfl
      fun s hs ID _ => hs
  cases m with
  | startPublish IDs fid =>
    refine hpaths.of_eq ((activeNodeIndex_sweep (fun s f s' out hstep => ?_) hp).trans
      (hass IDs fid))
    unfold notifyFirstPublisher at hstep
    split at hstep
    · cases hstep
      rfl
    · split at hstep <;> cases hstep <;> rfl
  | updateFID IDs fid =>
    cases hp
    exact hpaths.of_eq (hass IDs fid)
  | stopPublish IDs =>
    refine hpaths.of_eq (activeNodeIndex_sweep (fun s f s' out hstep => ?_) hp)
    unfold stopPublishers at hstep
    split at hstep <;> cases hstep <;> rfl
  | updateFIDISub isubscribers =>
    exact sweep_keeps (I := HasPaths)
      (fun n _ s s' out hs hstep => hasPaths_updateNode hs hstep) hpaths hp
  | _ =>
    cases hp
    exact hpaths

def KeepsPaths (st : Proxy) (input : Input) : Prop :=
  ∀ descriptor, input = .management descriptor (.setConnectionStatus disconnected) →
    ∀ n, st.activeNodeIndex.get n = none

theorem activeNodeIndex_admitted (input : Input) :
    (st.admitted conf input).activeNodeIndex = st.activeNodeIndex := by
  cases input with
  | network pkt => rfl
  | management fd m | host type fd m => exact activeNodeIndex_getLocalHost _ _

theorem hasPaths_updateStates {state : UInt8} (hpaths : st.HasPaths)
    (hkeeps : state = disconnected → ∀ n, st.activeNodeIndex.get n = none)
    (hp : st.updateStates conf state = .ok (st', acts)) : st'.HasPaths := by
  unfold updateStates at hp
  split at hp
  case isTrue hdis =>
    cases hp
    intro n an han
    rw [get_mapValues, hkeeps hdis n] at han
    cases han
  · split at hp
    · obtain ⟨res, hswe, hret⟩ := bind_eq_ok.1 hp
      cases hret
      refine hpaths.of_eq (activeNodeIndex_sweep (fun s f s' out hstep => ?_) hswe)
      obtain ⟨rfl, rfl⟩ | ⟨ap, ID, -, rfl, rfl⟩ := resume_cases hstep <;> rfl
    · cases hp
      exact hpaths

theorem HasPaths.push (hpaths : st.HasPaths) (hw : st.Wf) (hkeeps : st.KeepsPaths input)
    (hp : st.push conf input = .ok (st', acts)) : st'.HasPaths := by
  have hadm : (st.admitted conf input).HasPaths := hpaths.of_eq (activeNodeIndex_admitted input)
  cases push_change hw hp with
  | same | multicast f ID => exact hadm
  | notification hn => exact hasPaths_handleRVNotification hadm hn
  | path hn =>
    obtain ⟨affected, -, hret⟩ := bind_eq_ok.1 hn
    cases hret
    exact hadm
  | @status fd _ _ _ hi hsta =>
    refine hasPaths_updateStates ?_ (fun hdis n => ?_) hsta
    · exact hadm
    · subst hdis
      exact (congrArg (fun t => t.get n) (activeNodeIndex_admitted input)).trans (hkeeps fd hi n)
  | implicit n IDs =>
    unfold storeActiveNode
    split
    · exact hadm.setNode nofun
    · exact hadm
  | @request _ _ _ _ prefixID _ _ _ =>
    exact hadm.of_eq (handleLocalRequest_registration (Nat.le_of_lt_succ prefixID.2)).nodes
  | subscription _ _ _ hlen => exact hadm.of_eq (handleLocalRequest_registration hlen).nodes
  | gone _ hg => exact hadm.of_eq hg.nodes

/-- **The combined bit vectors have full length** as long as no known node has lost its path, so if
the own node is disconnected only while it knows no nodes. -/
theorem operandsFull_iff {P : Proxy → Input → Prop} {past : List Input} (hrun : Run conf P past st) :
    ((∀ s i, P s i → s.KeepsPaths i) → st.OperandsFull) ∧ (st.OperandsFull ↔ st.HasPaths) ∧
      ∀ input r, LinkFailure input → ¬ st.OperandsFull → st.push conf input ≠ .ok r := by
  refine ⟨fun hP => operandsFull_iff_hasPaths.2 ?_, operandsFull_iff_hasPaths,
    fun _ _ hlink hfull hp => hfull (operandsFull_iff_hasPaths.2 (hasPaths_of_linkFailure hlink hp))⟩
  induction hrun with
  | initial =>
    intro n an han
    cases han
  | step hrun hPi hp ih => exact ih.push hrun.wf (hP _ _ hPi) hp

def isubOf (ID : List UInt8) : Input :=
  networkOf [smallId ID] publishDataISub (NodeID.ofByte 5).toList

theorem operandsFull_iff_connected : (runOf exampleProxyConf [isubOf [1, 2]]).OperandsFull := by
  have hrun : Run exampleProxyConf KeepsPaths [isubOf [1, 2]]
      (runOf exampleProxyConf [isubOf [1, 2]]) := by
    refine .step .initial ?_ rfl
    exact nofun
  exact (operandsFull_iff hrun).1 fun _ _ => id

/-- A node is heard of, the node of the proxy is disconnected, and a link fails. -/
theorem not_operandsFull_disconnected :
    let st := runOf exampleProxyConf
      [isubOf [1, 2], .management 1 (.setConnectionStatus disconnected)]
    Reachable exampleProxyConf st ∧ ¬ st.OperandsFull ∧ st.push exampleProxyConf
      (networkOf [pathMgmtIID] publishData (List.replicate fidLen 1)) = .error .assertion := by
  refine ⟨reachable_runOf _ _, fun hfull => ?_, rfl⟩
  exact (operandsFull_iff_hasPaths.1 hfull) (NodeID.ofByte 5) _ rfl rfl

/-! ### Hosts that publish to a node -/

def publishersOf (st : Proxy) (n : NodeID) : List HostRef :=
  (st.activeNodeIndex.get n).elim [] fun an => an.publishers.keys.toList

def Matches (st : Proxy) (IDs : List Id) (h : HostRef) : Prop := ∃ k ∈ IDs, st.Subscribes h k

theorem mem_publishersOf_storeActiveNode {IDs : List Id} {h : HostRef} :
    h ∈ (st.storeActiveNode n IDs).2.publishersOf n ↔
      h ∈ st.publishersOf n ∨ st.activeNodeIndex.get n = none ∧ st.Matches IDs h := by
  unfold storeActiveNode publishersOf
  cases han : st.activeNodeIndex.get n with
  | none =>
    rw [setNode, get_set, if_pos rfl, and_iff_right rfl, Option.elim_none,
      or_iff_right List.not_mem_nil]
    exact (mem_foldl_findInsert _ _ _).trans
      ((or_iff_left (not_mem_empty h)).trans mem_findLocalSubscribers)
  | some an => simp [han]

theorem notify_mem_updateNode {fid : FID} {h : HostRef}
    (hp : updateNode conf st (n, fid) = .ok (st', acts)) :
    (∃ state, .notify (.nodePublisher state) h [n.fragment] ∈ acts) ↔
      conf.hostOrder.first (st.publishersOf n) = some h := by
  unfold updateNode at hp
  unfold publishersOf
  split at hp
  case h_1 hnone =>
    cases hp
    rw [hnone]
    refine iff_of_false (fun hex => ?_) fun hfirst => ?_
    · cases hex.choose_spec
    · cases conf.hostOrder.first_mem hfirst
  case h_2 an han =>
    dsimp only at han hp
    rw [han, Option.elim_some]
    split at hp
    case h_1 hfirst =>
      cases hp
      simp [hfirst]
    case h_2 k hfirst =>
      cases hp
      simp only [List.mem_singleton, Action.notify.injEq, hfirst, Option.some.injEq]
      exact ⟨fun hex => hex.choose_spec.2.1.symm, fun heq => ⟨_, rfl, heq.symm, trivial⟩⟩

def isubscriber (p : NetworkPacket) : NodeID := vectorAt nodeIDLen p.data 0

/-- The subscribers that match publish to the node, and are told about a path to it. -/
structure TellsAll (conf : ProxyConf) (st st' : Proxy) (p : NetworkPacket) : Prop where
  entered : ∀ h, st.Matches p.IDs h → h ∈ st'.publishersOf (isubscriber p)
  told : ∀ fid s out, updateNode conf st' (isubscriber p, fid) = .ok (s, out) →
    ∀ h, st.Matches p.IDs h →
      ∃ state, .notify (.nodePublisher state) h [(isubscriber p).fragment] ∈ out

/-- A new node finds at most one subscriber, and a known one only the first of its hosts. -/
def OneToTell (conf : ProxyConf) (st : Proxy) (p : NetworkPacket) : Prop :=
  match st.activeNodeIndex.get (isubscriber p) with
  | none => ∀ h h', st.Matches p.IDs h → st.Matches p.IDs h' → h = h'
  | some an => ∀ h, st.Matches p.IDs h → conf.hostOrder.first an.publishers.keys.toList = some h

theorem tellsAll_iff_first {p : NetworkPacket} : TellsAll conf st st' p ↔
    ∀ h, st.Matches p.IDs h → conf.hostOrder.first (st'.publishersOf (isubscriber p)) = some h := by
  constructor
  · intro ht h hh
    obtain ⟨s, out, hswe⟩ := handleRVNotification_total conf st'
      (.updateFIDISub [(isubscriber p, List.Vector.replicate fidLen 0)])
    obtain ⟨s, out, -, hu, -⟩ := sweep_cons_eq_ok.1 hswe
    exact (notify_mem_updateNode hu).1 (ht.told _ _ _ hu h hh)
  · intro hall
    exact ⟨fun h hh => conf.hostOrder.first_mem (hall h hh),
      fun fid s out hu h hh => (notify_mem_updateNode hu).2 (hall h hh)⟩

theorem tellsAll_storeActiveNode_iff {p : NetworkPacket} :
    TellsAll conf st (st.storeActiveNode (isubscriber p) p.IDs).2 p ↔ OneToTell conf st p := by
  rw [tellsAll_iff_first, OneToTell]
  cases hget : st.activeNodeIndex.get (isubscriber p) with
  | some an => simp [publishersOf, storeActiveNode, hget]
  | none =>
    have hmem (h : HostRef) : h ∈ (st.storeActiveNode (isubscriber p) p.IDs).2.publishersOf
        (isubscriber p) ↔ st.Matches p.IDs h := by
      rw [mem_publishersOf_storeActiveNode]
      simp [publishersOf, hget]
    constructor
    · intro hall h h' hh hh'
      exact Option.some.inj ((hall h hh).symm.trans (hall h' hh'))
    · intro hone h hh
      cases hfirst : conf.hostOrder.first
          ((st.storeActiveNode (isubscriber p) p.IDs).2.publishersOf (isubscriber p)) with
      | none =>
        rw [Traversal.first_eq_none_iff] at hfirst
        cases hfirst ▸ (hmem h).2 hh
      | some h' => rw [hone h' h ((hmem h').1 (conf.hostOrder.first_mem hfirst)) hh]

/-- **Whom an implicit subscription enters, and who is told**: all matching subscribers, exactly
when there is only one each time. -/
theorem publishersOf_iff (conf : ProxyConf) (inputs : List Input) :
    (∀ pre packet, pre ++ [.network packet] <+: inputs →
      (NetworkPacket.read packet).type = publishDataISub →
      TellsAll conf (runOf conf pre) (runOf conf (pre ++ [.network packet])) (.read packet)) ↔
    ∀ pre packet, pre ++ [.network packet] <+: inputs →
      (NetworkPacket.read packet).type = publishDataISub →
      OneToTell conf (runOf conf pre) (.read packet) := by
  refine forall₄_congr fun pre packet _ htype => ?_
  have hstep : runOf conf (pre ++ [.network packet]) = ((runOf conf pre).storeActiveNode
      (isubscriber (.read packet)) (NetworkPacket.read packet).IDs).2 := by
    rw [runOf, pushAll, List.foldl_append, List.foldl_cons, push, dispatch, handleNetworkPacket,
      if_neg (by rw [htype]; decide), if_pos htype]
    rfl
  rw [hstep]
  exact tellsAll_storeActiveNode_iff

def twoSubscribers : List Input :=
  [requestOf 1 .subscribeInfo [1] [2] nodeLocal, requestOf 2 .subscribeInfo [1] [2] nodeLocal]

/-- Of two subscribers one is told; and a node that subscribed before is known. -/
theorem not_publishersOf_second :
    let st := runOf exampleProxyConf (twoSubscribers ++ [isubOf [1, 2]])
    (∀ h ∈ [1, 2], st.Matches [smallId [1, 2]] h ∧ h ∈ st.publishersOf (.ofByte 5)) ∧
    (∃ s, updateNode exampleProxyConf st (NodeID.ofByte 5, List.Vector.replicate fidLen 1) =
      .ok (s, [.notify (.nodePublisher .startPublishISub) 2 [(NodeID.ofByte 5).fragment]])) ∧
    (runOf exampleProxyConf (twoSubscribers ++ [isubOf [3, 4], isubOf [1, 2]])).publishersOf
      (.ofByte 5) = [] := by
  refine ⟨?_, ⟨_, rfl⟩, rfl⟩
  unfold Matches
  decide +kernel

end Proxy

end Blackadder
