/-
**Local deliveries.**

Data is matched with local subscribers under all its identifiers. Data from the network is
delivered with the identifier that a subscriber was found with, data from a host with the one that
it published.
-/

import Blackadder.ProxyReferences

namespace Blackadder

open Table Except List

def Action.delivery : Action → Option (HostRef × Id)
  | .deliver _ h ID _ => some (h, ID)
  | _ => none

def deliveries (actions : List Action) : List (HostRef × Id) := actions.filterMap Action.delivery

@[simp] theorem deliveries_append (l l' : List Action) :
    deliveries (l ++ l') = deliveries l ++ deliveries l' := filterMap_append

namespace Proxy

variable {conf : ProxyConf} {st st' : Proxy} {h : HostRef} {actions : List Action} {input : Input}

/-! ### Deliveries of the handlers -/

@[simp] theorem deliveries_deliverAll (type : UInt8) (n : ℕ) (l : List (HostRef × Id)) :
    deliveries (deliverAll type n l) = l := by
  induction n, l using deliverAll.induct with
  | case1 n | case2 n x => rfl
  | case3 n x y l ih => exact congrArg (x :: ·) ih

@[simp] theorem deliveries_pushDataToRemoteSubscribers (p : PacketRef) (IDs : List Id)
    (type : Option UInt8) (fid : BABitvector) :
    deliveries (pushDataToRemoteSubscribers p IDs type fid) = [] := by
  cases type <;> rfl

@[simp] theorem deliveries_sendCopy (IDs : List Id) (type : Option UInt8) (fid : FID) :
    deliveries (st.sendCopy IDs type fid) = [] := by
  rw [sendCopy]
  split
  · rfl
  · exact deliveries_pushDataToRemoteSubscribers _ _ _ _

theorem deliveries_read_kill (l : List Action) :
    deliveries (.read .entered :: l ++ [.kill .entered]) = deliveries l := by
  rw [deliveries_append]
  exact append_nil _

theorem deliveries_of_informs (hi : ∀ x ∈ actions, st.Informs x) : deliveries actions = [] := by
  refine filterMap_eq_nil_iff.2 fun x hx => ?_
  have hinf := hi x hx
  cases x with
  | deliver p h ID type => cases hinf
  | _ => rfl

theorem deliveries_processTMNotification {lid : FID}
    (hp : st.processTMNotification conf lid = .ok (st', actions)) : deliveries actions = [] := by
  obtain ⟨affected, -, hret⟩ := bind_eq_ok.1 hp
  cases hret
  split <;> rfl

theorem deliveries_tellAll (r : Role) (dl : List Id) :
    deliveries (tellAll conf st h r dl) = [] := by
  refine filterMap_eq_nil_iff.2 fun x hx => ?_
  obtain ⟨f, -, hx⟩ := mem_flatMap.1 hx
  rw [tellAt] at hx
  cases ha : (st.index r).get f with
  | none => simp [ha] at hx
  | some a =>
    rw [ha, Option.map_some, tellOf] at hx
    split at hx
    · split at hx
      · rw [mem_singleton.1 hx]
        rfl
      · cases hx
    · split at hx
      · cases hx
      · rw [mem_singleton.1 hx]
        rfl

theorem Withdrawal.deliveries_actions (w : Withdrawal st h) : deliveries (w.actions conf) = [] := by
  simp [Withdrawal.actions, deliveries_tellAll]

/-! ### The identifiers under which data is matched -/

def forwardedIDs (st : Proxy) (ID : Id) : List Id :=
  match st.sourceOf ID with
  | none => []
  | some (ap, IDs) => if ap.fid.zero then [] else IDs

def matchedIDs (conf : ProxyConf) (st : Proxy) : LocalMessage → List Id
  | .publishData ID strategy _ _ =>
    if recordedLocally strategy = false then st.forwardedIDs ID
    else if strategy = implicitRendezvous ∧ (ID.val = conf.notificationIID ∨ ID.val = pathMgmtIID)
    then []
    else st.augmentedIDs ID
  | .publishDataISub ID strategy _ => if strategy = domainLocal then st.forwardedIDs ID else []
  | .disconnect | .publishDataIMulticast _ _ _ | .request _ _ _ _ => []

def publishedID : LocalMessage → Id
  | .publishData ID _ _ _ => ID
  | .publishDataISub ID _ _ => ID
  | _ => []

@[simp] theorem otherSubscribers_nil (conf : ProxyConf) (st : Proxy) (h : HostRef) (ID : Id) :
    st.otherSubscribers conf [] h ID = [] := by
  rw [otherSubscribers, map_eq_nil_iff, eq_nil_iff_forall_not_mem]
  intro k hk
  rw [Traversal.mem_visit] at hk
  exact not_mem_empty k (mem_erase.1 hk).2

theorem deliveries_handleUserPublication (conf : ProxyConf) (st : Proxy) (ID : Id) (type : UInt8)
    (h : HostRef) (apiType : UInt8) :
    deliveries (st.handleUserPublication conf ID type h apiType) =
      st.otherSubscribers conf (st.forwardedIDs ID) h ID := by
  have hu := userPublication_handleUserPublication conf st ID type h apiType
  generalize st.handleUserPublication conf ID type h apiType = l at hu
  cases hu with
  | unpublished hsou =>
    rw [forwardedIDs, hsou, otherSubscribers_nil]
    rfl
  | told hsou hfid _ _ | dropped hsou hfid _ _ =>
    simp only [forwardedIDs, hsou, hfid, if_true, otherSubscribers_nil]
    rfl
  | remote hsou hfid hsub => simp [forwardedIDs, hsou, hfid, hsub]
  | both hsou hfid _ =>
    simp only [forwardedIDs, hsou, hfid, deliveries_append, deliveries_deliverAll]
    exact congrArg (· ++ _) (deliveries_pushDataToRemoteSubscribers _ _ _ _)

theorem deliveries_handleUserPublicationTo (conf : ProxyConf) (st : Proxy) (ID : Id)
    (type : Option UInt8) (fid : FID) (h : HostRef) (apiType : UInt8) :
    deliveries (st.handleUserPublicationTo conf ID type fid h apiType) =
      st.otherSubscribers conf (st.augmentedIDs ID) h ID := by
  unfold handleUserPublicationTo
  dsimp only
  split
  · next hlen => simp [length_eq_zero_iff.1 hlen]
  · simp

theorem deliveries_handlePublishData {ID : WireId} {strat : Strategy} {fid : FID} {pay : List UInt8}
    (hp : st.handlePublishData conf h ID strat fid pay = .ok (st', actions)) :
    deliveries actions = st.otherSubscribers conf
      (st.matchedIDs conf (.publishData ID strat fid pay)) h ID := by
  have hnot : recordedLocally implicitRendezvous = true := by decide
  cases hostData_of_ok hp with
  | notification himp hID hn =>
    have hnone := deliveries_of_informs (alerts_handleRVNotification hn).informs
    have hmat : st.matchedIDs conf (.publishData ID strat fid pay) = [] := by
      simp [matchedIDs, himp, hnot, hID]
    rw [hmat, otherSubscribers_nil, deliveries_read_kill, hnone]
  | path himp hID hn =>
    have hmat : st.matchedIDs conf (.publishData ID strat fid pay) = [] := by
      simp [matchedIDs, himp, hnot, hID]
    rw [hmat, otherSubscribers_nil, deliveries_append, deliveries_processTMNotification hn,
      append_nil, sentOf]
    split
    · exact deliveries_pushDataToRemoteSubscribers _ _ _ _
    · exact deliveries_sendCopy _ _ _
  | addressed haddr =>
    have hmat : st.matchedIDs conf (.publishData ID strat fid pay) = st.augmentedIDs ID := by
      have hrec : recordedLocally strat = true := by
        obtain rfl | rfl | ⟨rfl, -⟩ := haddr <;> decide
      rw [matchedIDs, hrec, if_neg (by simp), if_neg]
      intro hspe
      obtain rfl | rfl | ⟨-, hn, hpath⟩ := haddr
      · exact absurd hspe.1 (by decide)
      · exact absurd hspe.1 (by decide)
      · exact hspe.2.elim hn hpath
    rw [hmat, deliveries_handleUserPublicationTo]
  | plain hplain =>
    have hmat : st.matchedIDs conf (.publishData ID strat fid pay) =
        st.forwardedIDs ID := if_pos hplain
    rw [hmat, deliveries_handleUserPublication]

theorem deliveries_handleLocalMessage (hw : st.Wf) (hh : h ∈ st.hosts) {m : LocalMessage}
    (hp : st.handleLocalMessage conf h m = .ok (st', actions)) :
    deliveries actions = st.otherSubscribers conf (st.matchedIDs conf m) h (publishedID m) := by
  cases m with
  | disconnect =>
    obtain ⟨w, s, heq, -⟩ := disconnect_eq conf hw hh
    obtain ⟨res, hdis, hret⟩ := bind_eq_ok.1 hp
    rw [heq] at hdis
    cases hdis
    cases hret
    rw [deliveries_append, w.deliveries_actions, matchedIDs, otherSubscribers_nil]
    rfl
  | publishData ID strat fid pay => exact deliveries_handlePublishData hp
  | publishDataISub ID strat stale =>
    unfold handleLocalMessage handlePublishDataISub at hp
    dsimp only at hp
    split at hp
    case isTrue hdom =>
      cases hp
      rw [deliveries_append, deliveries_handleUserPublication, matchedIDs, if_pos hdom]
      exact append_nil _
    case isFalse hdom =>
      cases hp
      rw [matchedIDs, if_neg hdom, otherSubscribers_nil]
      rfl
  | publishDataIMulticast ID strat nodeIDs =>
    rw [matchedIDs, otherSubscribers_nil]
    unfold handleLocalMessage handleUserMulticastRequest at hp
    dsimp only at hp
    split at hp
    case h_1 =>
      cases hp
      rfl
    case h_2 =>
      cases hp
      exact deliveries_pushDataToRemoteSubscribers _ _ _ _
  | request type ID prefixID strat =>
    rw [matchedIDs, otherSubscribers_nil]
    unfold handleLocalMessage handleRequest at hp
    dsimp only at hp
    split at hp
    · cases hp
      rfl
    · cases hp
      rfl

/-! ### Network publications -/

theorem deliveries_handleNetworkPublication (conf : ProxyConf) (st : Proxy) (IDs : List Id)
    (type : UInt8) : deliveries (st.handleNetworkPublication conf IDs type) =
      (conf.hostOrder.visit (st.findLocalSubscribers IDs).keys.toList).filterMap fun h =>
        ((st.findLocalSubscribers IDs).get h).map fun k => (h, k) := by
  unfold handleNetworkPublication
  dsimp only
  split
  case isTrue hsize =>
    symm
    refine filterMap_eq_nil_iff.2 fun h hmem => ?_
    rw [Traversal.mem_visit] at hmem
    exact absurd hmem (size_eq_zero_iff.1 hsize h)
  · exact deliveries_deliverAll _ _ _

/-- Each host but the publisher gets it once, under an identifier that it subscribes to, or below
one. -/
structure Delivers (conf : ProxyConf) (st : Proxy) (input : Input) (actions : List Action) :
    Prop where
  once : ((deliveries actions).map Prod.fst).Nodup
  notBack : ∀ h, st.sender conf input = some h → ∀ k, (h, k) ∉ deliveries actions
  labelled : ∀ h k, (h, k) ∈ deliveries actions → st.Subscribes h k

def Labelled (conf : ProxyConf) (st : Proxy) : Input → Prop
  | .host type descriptor m => ∀ k, k ≠ (st.getLocalHost conf type descriptor).1 →
    ∀ g ∈ st.matchedIDs conf m, st.Subscribes k g → st.Subscribes k (publishedID m)
  | _ => True

theorem delivers_of_network {IDs : List Id} {type : UInt8} {s : Proxy} (hs : s.index = st.index)
    (hdel : deliveries actions = deliveries (s.handleNetworkPublication conf IDs type))
    {pkt : List UInt8} : Delivers conf st (.network pkt) actions := by
  rw [deliveries_handleNetworkPublication] at hdel
  have hsub : ∀ h k, s.Subscribes h k ↔ st.Subscribes h k := by simp [Subscribes, Registered, hs]
  constructor
  case once =>
    rw [hdel]
    refine pairwise_map.2 (pairwise_filterMap.2 ?_)
    refine (conf.hostOrder.nodup_visit (s.findLocalSubscribers IDs).keys.nodup).imp ?_
    intro h h' hne x hx y hy heq
    obtain ⟨k, -, rfl⟩ := Option.map_eq_some_iff.1 hx
    obtain ⟨k', -, rfl⟩ := Option.map_eq_some_iff.1 hy
    exact hne heq
  case notBack =>
    intro h hsen
    cases hsen
  case labelled =>
    intro h k hmem
    rw [hdel, mem_filterMap] at hmem
    obtain ⟨h', -, hx⟩ := hmem
    obtain ⟨k', hget, heq⟩ := Option.map_eq_some_iff.1 hx
    cases heq
    exact (hsub h k).1 (subscribes_of_get hget).2

theorem delivers_of_nothing (hdel : deliveries actions = []) : Delivers conf st input actions := by
  refine ⟨?_, fun h _ k => ?_, fun h k hmem => ?_⟩
  · simp [hdel]
  · simp [hdel]
  · simp [hdel] at hmem

theorem delivers_iff_of_host {type : HostType} {fd : ℕ} {m : LocalMessage} {s : Proxy}
    (hs : s.index = st.index) (hdel : deliveries actions =
      s.otherSubscribers conf (st.matchedIDs conf m) (st.getLocalHost conf type fd).1
        (publishedID m)) :
    Delivers conf st (.host type fd m) actions ↔ Labelled conf st (.host type fd m) := by
  have hsub : ∀ h k, s.Subscribes h k ↔ st.Subscribes h k := by simp [Subscribes, Registered, hs]
  have hmem : ∀ h k, (h, k) ∈ deliveries actions ↔ h ≠ (st.getLocalHost conf type fd).1 ∧
      (∃ g ∈ st.matchedIDs conf m, st.Subscribes h g) ∧ k = publishedID m := by
    intro h k
    simp only [hdel, otherSubscribers, mem_map, Traversal.mem_visit, Prod.mk.injEq,
      ListSet.mem_toList, mem_keys_iff, mem_erase, mem_findLocalSubscribers, hsub]
    constructor
    · intro hex
      obtain ⟨h', hh', rfl, rfl⟩ := hex
      exact ⟨hh'.1, hh'.2, rfl⟩
    · intro hand
      exact ⟨h, ⟨hand.1, hand.2.1⟩, rfl, hand.2.2.symm⟩
  constructor
  · intro hd k hne g hg hsubg
    exact hd.labelled k (publishedID m) ((hmem k _).2 ⟨hne, ⟨g, hg, hsubg⟩, rfl⟩)
  · intro hl
    constructor
    case once =>
      have hfst : (deliveries actions).map Prod.fst = conf.hostOrder.visit
          ((s.findLocalSubscribers (st.matchedIDs conf m)).erase
            (st.getLocalHost conf type fd).1).keys.toList := by
        rw [hdel, otherSubscribers, map_map]
        exact map_id _
      rw [hfst]
      exact conf.hostOrder.nodup_visit (ListSet.nodup _)
    case notBack =>
      intro h hsen k hk
      cases hsen
      exact ((hmem _ _).1 hk).1 rfl
    case labelled =>
      intro h k hk
      obtain ⟨hne, ⟨g, hg, hsubg⟩, rfl⟩ := (hmem h k).1 hk
      exact hl h hne g hg hsubg

theorem matchedIDs_congr {s : Proxy} (hs : s.index = st.index) (m : LocalMessage) :
    s.matchedIDs conf m = st.matchedIDs conf m := by
  cases m <;> simp [matchedIDs, forwardedIDs, sourceOf, augmentedIDs, activePublicationIndex, hs]

theorem index_storeActiveNode (n : NodeID) (IDs : List Id) :
    (st.storeActiveNode n IDs).2.index = st.index := by
  unfold storeActiveNode
  split <;> rfl

theorem deliveries_handleMappRequest (hw : st.Wf) (hh : h ∈ st.hosts) {m : ManagementMessage}
    (hp : st.handleMappRequest conf h m = .ok (st', actions)) : deliveries actions = [] := by
  cases m with
  | getNodeID | getRVTMFID | other type =>
    cases hp
    rfl
  | setConnectionStatus status =>
    obtain ⟨res, hsta, hret⟩ := bind_eq_ok.1 hp
    cases hret
    rw [deliveries_append, deliveries_of_informs (alerts_updateStates hsta).informs]
    rfl
  | disconnect =>
    obtain ⟨w, s, heq, -⟩ := disconnect_eq conf hw hh
    obtain ⟨res, hdis, hret⟩ := bind_eq_ok.1 hp
    rw [heq] at hdis
    cases hdis
    cases hret
    rw [deliveries_append, w.deliveries_actions]
    rfl

/-- **Data is delivered once to each local host but the publisher, under an identifier that the
receiver subscribes to**, exactly when every other matching host subscribes to the published one. -/
theorem delivers_iff_labelled (hreach : Reachable conf st)
    (hp : st.push conf input = .ok (st', actions)) :
    Delivers conf st input actions ↔ Labelled conf st input := by
  have hw := hreach.wf
  obtain ⟨⟨s, l⟩, hres, hret⟩ := bind_eq_ok.1 hp
  cases hret
  have hcons : deliveries (.read .entered :: l) = deliveries l := rfl
  cases input with
  | network pkt =>
    refine iff_of_true ?_ trivial
    cases networkData_of_ok hres with
    | notification _ _ hn =>
      refine delivers_of_nothing (hcons.trans ?_)
      rw [deliveries_read_kill, deliveries_of_informs (alerts_handleRVNotification hn).informs]
    | path _ _ hn => exact delivers_of_nothing (hcons.trans (deliveries_processTMNotification hn))
    | data => exact delivers_of_network rfl hcons
    | @implicit asks =>
      have hasks : deliveries (if asks = true then
          [.implicitRequest [vectorAt nodeIDLen (NetworkPacket.read pkt).data 0]] else []) =
          [] := by split <;> rfl
      rw [deliveries_append, hasks] at hcons
      exact delivers_of_network (index_storeActiveNode _ _) hcons
  | management fd m =>
    refine iff_of_true (delivers_of_nothing (hcons.trans ?_)) trivial
    exact deliveries_handleMappRequest (hw.getLocalHost _ _) (getLocalHost_mem hw _ _) hres
  | host type fd m =>
    have hdel := deliveries_handleLocalMessage (hw.getLocalHost type fd)
      (getLocalHost_mem hw type fd) hres
    rw [hdel, matchedIDs_congr (index_getLocalHost type fd)] at hcons
    exact delivers_iff_of_host (index_getLocalHost type fd) hcons

/-- An application publishes an item with another name, and is told to start. -/
def aliasRun : List Input :=
  [requestOf 7 .publishInfo [1] [2] nodeLocal,
    networkOf [exampleProxyConf.notificationIID] publishData
      ([startPublish, 2] ++ idBytesOf [.ofByte 1, .ofByte 2] ++
        idBytesOf [.ofByte 3, .ofByte 4] ++ List.replicate fidLen 1)]

def aliasData : Input := .host .localProcess 7
  (.publishData (smallId [1, 2]) nodeLocal (List.Vector.replicate fidLen 0) [])

/-- A host that subscribes to the published name gets the data once, under that name. -/
theorem delivers_iff_labelled_subscribed :
    let st := runOf exampleProxyConf (aliasRun ++ [requestOf 8 .subscribeInfo [1] [2] nodeLocal])
    Reachable exampleProxyConf st ∧ ∃ st' actions,
      st.push exampleProxyConf aliasData = .ok (st', actions) ∧
      deliveries actions = [(2, [.ofByte 1, .ofByte 2])] ∧
      Delivers exampleProxyConf st aliasData actions := by
  refine ⟨reachable_runOf _ _, _, _, rfl, by decide +kernel,
    (delivers_iff_labelled (reachable_runOf _ _) rfl).2 ?_⟩
  intro k _ g hg hsub
  -- nobody subscribes to the other name
  have hmat : g = [.ofByte 1, .ofByte 2] ∨ g = [.ofByte 3, .ofByte 4] := by
    clear hsub
    revert g
    decide +kernel
  obtain rfl | rfl := hmat
  · exact hsub
  · obtain ⟨a, ha, -⟩ | ⟨a, ha, -⟩ := hsub
    · cases ha
    · cases ha

/-- A subscriber of the other name gets the published one. -/
theorem not_labelled_of_alias :
    let st := runOf exampleProxyConf (aliasRun ++ [requestOf 8 .subscribeInfo [3] [4] nodeLocal])
    Reachable exampleProxyConf st ∧ ∃ st' actions,
      st.push exampleProxyConf aliasData = .ok (st', actions) ∧
      deliveries actions = [(2, [.ofByte 1, .ofByte 2])] ∧
      ¬ st.Subscribes 2 [.ofByte 1, .ofByte 2] :=
  ⟨reachable_runOf _ _, _, _, rfl, by decide +kernel, by decide +kernel⟩

end Proxy

end Blackadder
