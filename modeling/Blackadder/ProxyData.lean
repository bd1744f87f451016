/-
**Publications of data.**

What the proxy does with data depends on the strategy and on a few identifiers; the branches are
listed here once, with what is known in each.
-/

import Blackadder.ProxyEntries

namespace Blackadder

open Table Except List

def Action.carries : Action → Bool
  | .read _ | .clone _ | .kill _ | .deliver _ _ _ _ | .forward _ _ _ | .send _ _ _ => true
  | _ => false

namespace Proxy

variable {conf : ProxyConf} {st st' : Proxy} {h : HostRef} {actions : List Action}

/-! ### Local subscribers -/

theorem get_addSubscribers (st : Proxy) (knownID f : Id) (found : Table HostRef Id) (h : HostRef) :
    (st.addSubscribers knownID f found).get h =
      if st.Registered .sub h f then some knownID else found.get h := by
  unfold addSubscribers
  split
  case h_1 hnone => simp [Registered, hnone]
  case h_2 as has =>
    rw [get_foldl_set]
    simp [Registered, has]

/-- The host subscribes to the identifier, or to what is above it. -/
def Subscribes (st : Proxy) (h : HostRef) (k : Id) : Prop :=
  st.Registered .sub h k ∨ st.Registered .sub h k.dropLast

instance (st : Proxy) (h : HostRef) (k : Id) : Decidable (st.Subscribes h k) :=
  inferInstanceAs (Decidable (_ ∨ _))

theorem subscribes_of_get {IDs : List Id} {k : Id}
    (hget : (st.findLocalSubscribers IDs).get h = some k) : k ∈ IDs ∧ st.Subscribes h k := by
  suffices hgen : ∀ (l : List Id) (found : Table HostRef Id),
      (l.foldl (fun found knownID => st.addSubscribers knownID knownID.dropLast
        (st.addSubscribers knownID knownID found)) found).get h = some k →
      found.get h = some k ∨ k ∈ l ∧ st.Subscribes h k by
    obtain hnone | hfou := hgen IDs ∅ hget
    · cases hnone
    · exact hfou
  intro l
  induction l with
  | nil => exact fun found hget => .inl hget
  | cons knownID l ih =>
    intro found hget
    obtain hhead | ⟨hk, hsub⟩ := ih _ hget
    · rw [get_addSubscribers, get_addSubscribers] at hhead
      split at hhead
      case isTrue habo =>
        cases hhead
        exact .inr ⟨mem_cons_self, .inr habo⟩
      · split at hhead
        case isTrue hself =>
          cases hhead
          exact .inr ⟨mem_cons_self, .inl hself⟩
        · exact .inl hhead
    · exact .inr ⟨mem_cons_of_mem _ hk, hsub⟩

theorem mem_findLocalSubscribers {IDs : List Id} :
    h ∈ st.findLocalSubscribers IDs ↔ ∃ k ∈ IDs, st.Subscribes h k := by
  constructor
  · intro hmem
    obtain ⟨k, hget⟩ := mem_iff.1 hmem
    exact ⟨k, subscribes_of_get hget⟩
  · suffices hgen : ∀ (l : List Id) (found : Table HostRef Id),
        (h ∈ found ∨ ∃ k ∈ l, st.Subscribes h k) →
        h ∈ l.foldl (fun found knownID => st.addSubscribers knownID knownID.dropLast
          (st.addSubscribers knownID knownID found)) found from fun hex => hgen IDs ∅ (.inr hex)
    have hadd : ∀ knownID f (found : Table HostRef Id),
        h ∈ st.addSubscribers knownID f found ↔ st.Registered .sub h f ∨ h ∈ found := by
      intro knownID f found
      rw [mem_iff, get_addSubscribers, mem_iff]
      split
      case isTrue hreg | isFalse hreg => simp [hreg]
    intro l
    induction l with
    | nil => simp
    | cons knownID l ih =>
      intro found hex
      refine ih _ ?_
      rw [hadd, hadd]
      obtain hfou | ⟨k, hk, hsub⟩ := hex
      · exact .inl (.inr (.inr hfou))
      · rcases mem_cons.1 hk with rfl | hk
        · obtain hsub | hsub := hsub
          · exact .inl (.inr (.inl hsub))
          · exact .inl (.inl hsub)
        · exact .inr ⟨k, hk, hsub⟩

/-! ### Publications of a host -/

/-- The publication of the identifier, under all its names, or else the one above it. -/
def sourceOf (st : Proxy) (ID : Id) : Option (ActiveEntry × List Id) :=
  match st.activePublicationIndex.get ID with
  | some ap => some (ap, ap.allKnownIDs)
  | none => (st.activePublicationIndex.get ID.dropLast).map fun ap => (ap, [ID])

inductive UserPublication (conf : ProxyConf) (st : Proxy) (ID : Id) (type : UInt8) (host : HostRef)
    (apiType : UInt8) : List Action → Prop
  | unpublished : st.sourceOf ID = none →
    UserPublication conf st ID type host apiType [.kill .entered]
  | told {ap : ActiveEntry} {IDs : List Id} {s : PublisherState} : st.sourceOf ID = some (ap, IDs) →
    ap.fid.zero = true → ap.hosts.get host = some s → s = .rePublish ∨ s = .pausePublish →
    UserPublication conf st ID type host apiType [.notify (.publisher s) host ID]
  | dropped {ap : ActiveEntry} {IDs : List Id} : st.sourceOf ID = some (ap, IDs) →
    ap.fid.zero = true → ap.hosts.get host ≠ some .rePublish →
    ap.hosts.get host ≠ some .pausePublish →
    UserPublication conf st ID type host apiType [.kill .entered]
  | remote {ap : ActiveEntry} {IDs : List Id} : st.sourceOf ID = some (ap, IDs) →
    ap.fid.zero = false → st.otherSubscribers conf IDs host ID = [] →
    UserPublication conf st ID type host apiType
      (pushDataToRemoteSubscribers .entered IDs (some type) ap.fid)
  | both {ap : ActiveEntry} {IDs : List Id} : st.sourceOf ID = some (ap, IDs) →
    ap.fid.zero = false → st.otherSubscribers conf IDs host ID ≠ [] →
    UserPublication conf st ID type host apiType
      (.clone 0 :: pushDataToRemoteSubscribers (.copy 0) IDs (some type) ap.fid ++
        deliverAll apiType 1 (st.otherSubscribers conf IDs host ID))

theorem userPublication_handleUserPublication (conf : ProxyConf) (st : Proxy) (ID : Id)
    (type : UInt8) (host : HostRef) (apiType : UInt8) : UserPublication conf st ID type host apiType
      (st.handleUserPublication conf ID type host apiType) := by
  unfold handleUserPublication
  dsimp only
  split
  case h_1 hnone =>
    refine .unpublished ?_
    rw [sourceOf]
    cases hID : st.activePublicationIndex.get ID with
    | none => simpa [hID] using hnone
    | some ap => simp [hID] at hnone
  case h_2 ap hap =>
    have hsou : st.sourceOf ID = some (ap,
        if (st.activePublicationIndex.get ID).isNone = true then [ID] else ap.allKnownIDs) := by
      rw [sourceOf]
      cases hID : st.activePublicationIndex.get ID with
      | none => simpa [hID] using hap
      | some ap' =>
        simp only [hID, Option.isNone_some, Bool.false_eq_true, if_false, Option.some.injEq] at hap
        simp [hap]
    generalize (if (st.activePublicationIndex.get ID).isNone = true then [ID]
      else ap.allKnownIDs) = IDs at hsou ⊢
    cases hfid : ap.fid.zero with
    | false =>
      by_cases hsub : st.otherSubscribers conf IDs host ID = []
      · simpa [hsub] using UserPublication.remote hsou hfid hsub
      · simpa [hsub] using UserPublication.both hsou hfid hsub
    | true =>
      split
      · next hcon => simp at hcon
      · split
        case h_1 hget => exact .told hsou hfid hget (.inl rfl)
        case h_2 hget => exact .told hsou hfid hget (.inr rfl)
        case h_3 hre hpau => exact .dropped hsou hfid hre hpau

/-! ### Sending data -/

theorem carries_deliverAll (type : UInt8) (n : ℕ) (l : List (HostRef × Id)) :
    ∀ x ∈ deliverAll type n l, x.carries = true := by
  induction n, l using deliverAll.induct with
  | case1 _ => simp [deliverAll]
  | case2 _ x => simp [deliverAll, Action.carries]
  | case3 n x y l ih => simpa [deliverAll, Action.carries] using ih

theorem carries_pushDataToRemoteSubscribers (p : PacketRef) (IDs : List Id) (type : Option UInt8)
    (fid : BABitvector) : ∀ x ∈ pushDataToRemoteSubscribers p IDs type fid, x.carries = true := by
  cases type with
  | none | some type => simp [pushDataToRemoteSubscribers, Action.carries]

theorem carries_handleNetworkPublication (conf : ProxyConf) (st : Proxy) (IDs : List Id)
    (type : UInt8) : ∀ x ∈ st.handleNetworkPublication conf IDs type, x.carries = true := by
  unfold handleNetworkPublication
  dsimp only
  split
  · simp [Action.carries]
  · exact carries_deliverAll _ _ _

theorem carries_sendCopy (st : Proxy) (IDs : List Id) (type : Option UInt8) (fid : FID) :
    ∀ x ∈ st.sendCopy IDs type fid, x.carries = true := by
  rw [sendCopy]
  split
  · simp
  · intro x hx
    rcases mem_cons.1 hx with rfl | hx
    · rfl
    · exact carries_pushDataToRemoteSubscribers _ _ _ _ x hx

theorem carries_handleUserPublicationTo (conf : ProxyConf) (st : Proxy) (ID : Id)
    (type : Option UInt8) (fid : FID) (h : HostRef) (apiType : UInt8) :
    ∀ x ∈ st.handleUserPublicationTo conf ID type fid h apiType, x.carries = true := by
  intro x hx
  unfold handleUserPublicationTo at hx
  dsimp only at hx
  split at hx
  · exact carries_pushDataToRemoteSubscribers _ _ _ _ x hx
  · rcases mem_append.1 hx with hx | hx
    · exact carries_sendCopy _ _ _ _ x hx
    · exact carries_deliverAll _ _ _ x hx

theorem carries_handleUserMulticastRequest {ID : Id} {type : UInt8} {nodeIDs : ListSet NodeID}
    (hp : st.handleUserMulticastRequest conf ID type nodeIDs = .ok (st', actions)) :
    ∀ x ∈ actions, x.carries = true := by
  unfold handleUserMulticastRequest at hp
  dsimp only at hp
  split at hp
  case h_1 =>
    cases hp
    simp [Action.carries]
  case h_2 =>
    cases hp
    exact carries_pushDataToRemoteSubscribers _ _ _ _

/-! ### The branches -/

def Addressed (conf : ProxyConf) (ID : Id) (strategy : Strategy) : Prop :=
  strategy = linkLocal ∨ strategy = broadcastIF ∨
    strategy = implicitRendezvous ∧ ID ≠ conf.notificationIID ∧ ID ≠ pathMgmtIID

def sentOf (conf : ProxyConf) (st : Proxy) (ID : Id) (type : UInt8) (fid : FID) (host : HostRef) :
    List Action :=
  if (st.otherSubscribers conf (st.augmentedIDs ID) host ID).length = 0 then
    pushDataToRemoteSubscribers .entered (st.augmentedIDs ID) (some type) (.bits fid)
  else st.sendCopy (st.augmentedIDs ID) (some type) fid

inductive HostData (conf : ProxyConf) (st : Proxy) (host : HostRef) (ID : Id) (strategy : Strategy)
    (fid : FID) (payload : List UInt8) : Proxy → List Action → Prop
  | notification {st' : Proxy} {actions : List Action} :
    strategy = implicitRendezvous → ID = conf.notificationIID →
    st.handleRVNotification conf (readNotification payload) = .ok (st', actions) →
    HostData conf st host ID strategy fid payload st'
      (.read .entered :: actions ++ [.kill .entered])
  | path {st' : Proxy} {actions : List Action} :
    strategy = implicitRendezvous → ID = pathMgmtIID →
    st.processTMNotification conf (vectorAt fidLen payload 0) = .ok (st', actions) →
    HostData conf st host ID strategy fid payload st'
      (st.sentOf conf ID publishData fid host ++ actions)
  | addressed {type : Option UInt8} {fid' : FID} : Addressed conf ID strategy →
    HostData conf st host ID strategy fid payload st
      (st.handleUserPublicationTo conf ID type fid' host publishedData)
  | plain : recordedLocally strategy = false →
    HostData conf st host ID strategy fid payload st
      (st.handleUserPublication conf ID publishData host publishedData)

theorem carries_sentOf (conf : ProxyConf) (st : Proxy) (ID : Id) (type : UInt8) (fid : FID)
    (h : HostRef) : ∀ x ∈ st.sentOf conf ID type fid h, x.carries = true := by
  rw [sentOf]
  split
  · exact carries_pushDataToRemoteSubscribers _ _ _ _
  · exact carries_sendCopy _ _ _ _

theorem nodeTMScope_ne_pathMgmtIID (conf : ProxyConf) :
    conf.nodeTMScope ≠ pathMgmtIID ∧ conf.nodeTMScopeUC ≠ pathMgmtIID := by
  have hne : managementFragment 254 ≠ managementFragment 249 := by decide
  constructor
  · intro heq
    exact hne (cons.inj heq).1
  · intro heq
    exact hne (cons.inj heq).1

theorem hostData_of_ok {ID : Id} {strategy : Strategy} {fid : FID} {pay : List UInt8}
    (hp : st.handlePublishData conf h ID strategy fid pay = .ok (st', actions)) :
    HostData conf st h ID strategy fid pay st' actions := by
  unfold handlePublishData at hp
  split at hp
  case isTrue himp =>
    split at hp
    case isTrue hID =>
      obtain ⟨res, hn, hret⟩ := bind_eq_ok.1 hp
      cases hret
      exact .notification himp hID hn
    case isFalse hnot =>
      split at hp
      case isTrue htm =>
        cases hp
        refine .addressed (.inr (.inr ⟨himp, hnot, ?_⟩))
        obtain rfl | rfl := htm
        · exact (nodeTMScope_ne_pathMgmtIID conf).1
        · exact (nodeTMScope_ne_pathMgmtIID conf).2
      · split at hp
        case isTrue hpath =>
          obtain ⟨res, hn, hret⟩ := bind_eq_ok.1 hp
          cases hret
          exact .path himp hpath hn
        case isFalse hpath =>
          cases hp
          exact .addressed (.inr (.inr ⟨himp, hnot, hpath⟩))
  case isFalse himp =>
    split at hp
    case isTrue hlink =>
      cases hp
      exact .addressed (.inl hlink)
    case isFalse hlink =>
      split at hp
      case isTrue hbro =>
        cases hp
        exact .addressed (.inr (.inl hbro))
      case isFalse hbro =>
        cases hp
        refine .plain ?_
        simp [recordedLocally, himp, hlink, hbro]

inductive NetworkData (conf : ProxyConf) (st : Proxy) (p : NetworkPacket) :
    Proxy → List Action → Prop
  | notification {st' : Proxy} {actions : List Action} :
    p.type = publishData → p.IDs = [conf.notificationIID] →
    st.handleRVNotification conf (readNotification p.data) = .ok (st', actions) →
    NetworkData conf st p st' (.read .entered :: actions ++ [.kill .entered])
  | path {st' : Proxy} {actions : List Action} : p.type = publishData → p.IDs = [pathMgmtIID] →
    st.processTMNotification conf (vectorAt fidLen p.data 0) = .ok (st', actions) →
    NetworkData conf st p st' actions
  | data : NetworkData conf st p st (st.handleNetworkPublication conf p.IDs publishedData)
  | implicit {asks : Bool} : NetworkData conf st p
    (st.storeActiveNode (vectorAt nodeIDLen p.data 0) p.IDs).2
    ((if asks then [.implicitRequest [vectorAt nodeIDLen p.data 0]] else []) ++
      (st.storeActiveNode (vectorAt nodeIDLen p.data 0) p.IDs).2.handleNetworkPublication conf
        p.IDs publishedDataISub)

theorem networkData_of_ok {p : NetworkPacket}
    (hp : st.handleNetworkPacket conf p = .ok (st', actions)) :
    NetworkData conf st p st' actions := by
  unfold handleNetworkPacket at hp
  split at hp
  case isTrue htype =>
    split at hp
    case isTrue hIDs =>
      obtain ⟨res, hn, hret⟩ := bind_eq_ok.1 hp
      cases hret
      exact .notification htype hIDs hn
    · split at hp
      · next hIDs => exact .path htype hIDs hp
      · cases hp
        exact .data
  · split at hp
    · cases hp
      exact .implicit
    · cases hp
      exact .data

end Proxy

end Blackadder
