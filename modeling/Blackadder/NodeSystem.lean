/-
**A node and its rendezvous element.**

An input is handled by the proxy, and what it passes on by the rendezvous element; requests of other
nodes come in between. The checks of `lib/blackadder.cpp` make the requests well formed.
-/

import Blackadder.ProxyRequests
import Blackadder.RvListings

namespace Blackadder

open Except List

/-! ### The client library -/

/-- The checks of the library: `publish_info` does not look at the identifier, and only publishing
ones take more than one fragment. -/
def RequestType.Issued (ID prefixID : Id) : RequestType → Prop
  | .publishScope => ID ≠ []
  | .publishInfo => prefixID ≠ []
  | .unpublishScope | .subscribeScope | .unsubscribeScope => ID.length = 1
  | .unpublishInfo | .subscribeInfo | .unsubscribeInfo => ID.length = 1 ∧ prefixID ≠ []
  | .other _ => False

instance (ID prefixID : Id) (type : RequestType) : Decidable (type.Issued ID prefixID) := by
  cases type <;> unfold RequestType.Issued <;> infer_instance

theorem RequestType.Issued.shaped {ID pre : Id} {type : RequestType} {n : NodeID} {strat : Strategy}
    (hi : type.Issued ID pre) : Request.Shaped ⟨n, type, ID, pre, strat⟩ := by
  intro hone
  cases type with
  | unpublishScope => exact hi
  | subscribeScope => exact hi
  | unsubscribeScope => exact hi
  | unpublishInfo => exact hi.1
  | subscribeInfo => exact hi.1
  | unsubscribeInfo => exact hi.1
  | _ => cases hone

def Input.Issued : Input → Prop
  | .host _ _ (.request type ID prefixID _) => type.Issued ID prefixID
  | .host _ _ .disconnect => True
  | .management _ .disconnect => True
  | _ => False

instance (input : Input) : Decidable input.Issued := by
  unfold Input.Issued
  split <;> infer_instance

def Input.asks (n : NodeID) : Input → Option Request
  | .host _ _ (.request type ID prefixID strategy) => some ⟨n, type, ID, prefixID, strategy⟩
  | _ => none

/-! ### Both elements -/

structure Node where
  proxy : Proxy
  rv : State

inductive NodeFault
  | proxy (e : ProxyFault)
  | rv (e : Fault)
deriving DecidableEq

def RvRequest.arrive (q : RvRequest) (n : NodeID) : Request :=
  ⟨n, q.type, q.ID, q.prefixID, q.strategy⟩

def RvRequest.Sized (q : RvRequest) : Prop :=
  q.idLength.toNat = q.ID.length ∧ q.prefixIDLength.toNat = q.prefixID.length

def deliver (gc : GlobalConf) (fuel : ℕ) (n : NodeID) (rv : State) (q : RvRequest) :
    Except Fault State := do
  let res ← push gc fuel (q.arrive n) rv
  return res.2

namespace Node

def handle (conf : ProxyConf) (gc : GlobalConf) (fuel : ℕ) (nd : Node) (input : Input) :
    Except NodeFault Node := do
  let res ← (nd.proxy.push conf input).mapError .proxy
  let rv ← ((requests res.2).foldlM (deliver gc fuel conf.nodeID) nd.rv).mapError .rv
  return ⟨res.1, rv⟩

/-- Every input meets `P` in its state; other nodes send requests in between. -/
inductive Run (conf : ProxyConf) (gc : GlobalConf) (fuel : ℕ) (P : Node → Input → Prop) : Node → Prop
  | initial : Run conf gc fuel P ⟨Proxy.initial conf, State.initial gc⟩
  | step {nd nd' : Node} {input : Input} : Run conf gc fuel P nd → input.Issued → P nd input →
    nd.handle conf gc fuel input = .ok nd' → Run conf gc fuel P nd'
  | foreign {nd : Node} {q : Request} {code : RvReturnCode} {rv : State} : Run conf gc fuel P nd →
    q.nodeID ≠ conf.nodeID → q.Shaped → push gc fuel q nd.rv = .ok (code, rv) →
    Run conf gc fuel P ⟨nd.proxy, rv⟩

variable {conf : ProxyConf} {gc : GlobalConf} {fuel : ℕ} {nd nd' : Node} {input : Input}

theorem handle_eq_ok : nd.handle conf gc fuel input = .ok nd' ↔ ∃ acts,
    nd.proxy.push conf input = .ok (nd'.proxy, acts) ∧
      (requests acts).foldlM (deliver gc fuel conf.nodeID) nd.rv = .ok nd'.rv := by
  unfold handle
  rw [bind_eq_ok]
  constructor
  · intro hex
    obtain ⟨⟨px, acts⟩, hp, hbind⟩ := hex
    obtain ⟨rv, hrv, hret⟩ := bind_eq_ok.1 hbind
    cases hret
    exact ⟨acts, mapError_eq_ok.1 hp, mapError_eq_ok.1 hrv⟩
  · intro hex
    obtain ⟨acts, hp, hrv⟩ := hex
    exact ⟨_, mapError_eq_ok.2 hp, bind_eq_ok.2 ⟨_, mapError_eq_ok.2 hrv, rfl⟩⟩

end Node

/-! ### What a request does to the proxy -/

def kindOf : Bool → Kind
  | true => Kind.scope
  | false => Kind.item

def ActiveEntry.kind (a : ActiveEntry) : Kind := kindOf a.isScope

theorem RequestType.withdraws_of_registers {type : RequestType} {x : Role × Kind}
    (hreg : type.registers = some x) : type.withdraws = none := by
  cases type <;> first | rfl | cases hreg

namespace Proxy

variable {conf : ProxyConf} {st st' : Proxy} {r : Role} {h : HostRef} {f k : Id} {a : ActiveEntry}
  {strat : Strategy} {rvFID : BABitvector} {acts : List Action} {input : Input}
  {type : RequestType} {fwd : Bool} {qs : List RvRequest} {q : RvRequest}

theorem withdraws_withdrawalType (r : Role) (isScope : Bool) :
    (withdrawalType r isScope).withdraws = some (r, kindOf isScope) := by
  cases r <;> cases isScope <;> rfl

inductive Served (st : Proxy) (h : HostRef) (f : Id) (strategy : Strategy) (type : RequestType) :
    Bool × Proxy → Prop
  | ignored : Served st h f strategy type (false, st)
  /-- The forwarding identifier of the publication has been invalidated. -/
  | again {κ : Kind} {ap : ActiveEntry} {s : PublisherState}
    (hreg : type.registers = some (Role.pub, κ)) (hap : (st.index .pub).get f = some ap)
    (hs : ap.hosts.get h = some s) (hne : s ≠ .stopPublish) : Served st h f strategy type (true, st)
  | created {r : Role} {isScope : Bool} (rvFID : BABitvector)
    (hreg : type.registers = some (r, kindOf isScope)) (hnone : (st.index r).get f = none) :
    Served st h f strategy type (announced r strategy, st.newEntry r h f strategy rvFID isScope)
  /-- A further subscription is passed on, whatever its strategy. -/
  | joined {r : Role} {κ : Kind} {a : ActiveEntry} (hreg : type.registers = some (r, κ))
    (ha : (st.index r).get f = some a) (hstr : a.strategy = strategy) :
    Served st h f strategy type (decide (r = .sub), st.joinEntry r h f a)
  | left {r : Role} {κ : Kind} {a : ActiveEntry} (hwd : type.withdraws = some (r, κ))
    (ha : (st.index r).get f = some a) (hstr : a.strategy = strategy) :
    Served st h f strategy type
      ((st.leaveEntry r h f f a).1 && announced r strategy, (st.leaveEntry r h f f a).2)

theorem storeActivePublication_served {isScope : Bool}
    (hreg : type.registers = some (Role.pub, kindOf isScope)) :
    Served st h f strat type (st.storeActivePublication h f strat rvFID isScope) := by
  unfold storeActivePublication
  split
  case isFalse => exact .ignored
  case isTrue =>
    split
    case h_1 hnone => exact .created rvFID hreg hnone
    case h_2 ap hap =>
      split
      case isTrue hs =>
        obtain hs | hs := hs
        · exact .again hreg hap hs (by simp)
        · exact .again hreg hap hs (by simp)
      · split
        · rename_i hstr
          exact .joined hreg hap hstr
        · exact .ignored

theorem removeActivePublication_served {κ : Kind} (hwd : type.withdraws = some (Role.pub, κ)) :
    Served st h f strat type (st.removeActivePublication h f strat) := by
  unfold removeActivePublication
  split
  case isFalse => exact .ignored
  case isTrue =>
    split
    case h_1 => exact .ignored
    case h_2 ap hap =>
      split
      · rename_i hstr
        have hleft := Served.left (h := h) hwd hap hstr
        rw [show announced .pub strat = true from rfl, Bool.and_true] at hleft
        exact hleft
      · exact .ignored

theorem storeActiveSubscription_served {isScope : Bool}
    (hreg : type.registers = some (Role.sub, kindOf isScope)) :
    Served st h f strat type (st.storeActiveSubscription h f strat rvFID isScope) := by
  unfold storeActiveSubscription
  split
  case h_1 hnone => exact .created rvFID hreg hnone
  case h_2 as has =>
    split
    · rename_i hstr
      exact .joined hreg has hstr
    · exact .ignored

theorem removeActiveSubscription_served {κ : Kind} (hwd : type.withdraws = some (Role.sub, κ)) :
    Served st h f strat type (st.removeActiveSubscription h f strat) := by
  unfold removeActiveSubscription
  split
  case h_1 => exact .ignored
  case h_2 as has =>
    split
    · rename_i hstr
      exact .left hwd has hstr
    · exact .ignored

theorem requestedID_eq (ID pre : Id) : requestedID ID pre = pre ++ lastFragment ID := by
  rw [requestedID]
  split
  · next hlen => rw [lastFragment, hlen, drop_zero]
  · rfl

theorem handleLocalRequest_served {ID pre : Id} (hi : type.Issued ID pre) :
    Served st h (pre ++ lastFragment ID) strat type
      (st.handleLocalRequest type h ID pre strat rvFID) := by
  rw [← requestedID_eq]
  cases type with
  | publishScope | publishInfo => exact storeActivePublication_served rfl
  | unpublishScope | unpublishInfo => exact removeActivePublication_served rfl
  | subscribeScope | subscribeInfo => exact storeActiveSubscription_served rfl
  | unsubscribeScope | unsubscribeInfo => exact removeActiveSubscription_served rfl
  | other type => exact absurd hi id

section
variable (hs : Served st h f strat type (fwd, st')) (hh : h ∈ st.hosts)
include hs hh

theorem Served.get_of_ne (hne : k ≠ f) : (st'.index r).get k = (st.index r).get k := by
  have hother : ∀ r', ¬ (r = r' ∧ k = f) := fun r' hboth => hne hboth.2
  cases hs with
  | ignored | again => rfl
  | created => exact (touches_newEntry hh).index r k (hother _)
  | joined => exact (touches_joinEntry hh).index r k (hother _)
  | left => exact touches_leaveEntry.index r k (hother _)

/-- An entry keeps its kind and strategy, or is withdrawn, and the request is passed on if the entry
was. -/
theorem Served.keeps (ha : (st.index r).get k = some a) :
    (∃ a', (st'.index r).get k = some a' ∧ a'.kind = a.kind ∧ a'.strategy = a.strategy) ∨
      (k = f ∧ a.strategy = strat ∧ (∃ κ, type.withdraws = some (r, κ)) ∧
        fwd = announced r strat) := by
  have hsame : (st'.index r).get k = (st.index r).get k → ∃ a', (st'.index r).get k = some a' ∧
      a'.kind = a.kind ∧ a'.strategy = a.strategy := fun heq => ⟨a, heq.trans ha, rfl, rfl⟩
  cases hs with
  | ignored | again => exact .inl (hsame rfl)
  | @created r' _ _ _ hnone =>
    refine .inl (hsame ((touches_newEntry hh).index r k fun heq => ?_))
    rw [heq.1, heq.2, hnone] at ha
    cases ha
  | @joined r' _ a₀ _ ha₀ =>
    by_cases heq : r = r' ∧ k = f
    · obtain ⟨rfl, rfl⟩ := heq
      rw [ha₀] at ha
      cases ha
      exact .inl ⟨_, get_joinEntry, rfl, rfl⟩
    · exact .inl (hsame ((touches_joinEntry hh).index r k heq))
  | @left r' _ a₀ hwd ha₀ hstr =>
    by_cases heq : r = r' ∧ k = f
    · obtain ⟨rfl, rfl⟩ := heq
      rw [ha₀] at ha
      cases ha
      by_cases hsize : (a.hosts.erase h).size = 0
      · refine .inr ⟨rfl, hstr, ⟨_, hwd⟩, ?_⟩
        rw [leaveEntry, if_pos hsize]
        rfl
      · exact .inl ⟨_, get_leaveEntry.trans (if_neg hsize), rfl, rfl⟩
    · exact .inl (hsame (touches_leaveEntry.index r k heq))

end

/-! ### Proxies that handle nothing but requests -/

/-- No entry is without a name, and no publisher has been told to publish. -/
structure Quiescent (st : Proxy) : Prop where
  named : ∀ r, (st.index r).get [] = none
  idle : ∀ f a h s, (st.index .pub).get f = some a → a.hosts.get h = some s → s = .stopPublish

theorem quiescent_initial (conf : ProxyConf) : (Proxy.initial conf).Quiescent where
  named := fun _ => by simp [initial]
  idle := fun f a h s ha => by simp [initial] at ha

theorem Quiescent.admitted (hq : st.Quiescent) (input : Input) :
    (st.admitted conf input).Quiescent where
  named := by
    rw [index_admitted]
    exact hq.named
  idle := by
    rw [index_admitted]
    exact hq.idle

variable {t : Table HostRef PublisherState} {s : PublisherState}

theorem idle_findInsert {h' : HostRef} (ht : ∀ h s, t.get h = some s → s = .stopPublish)
    (hs : (t.findInsert h .stopPublish).get h' = some s) : s = .stopPublish := by
  rw [Table.get_findInsert] at hs
  split at hs
  · cases hs
    rfl
  · exact ht h' s hs

theorem idle_erase {h' : HostRef} (ht : ∀ h s, t.get h = some s → s = .stopPublish)
    (hs : (t.erase h).get h' = some s) : s = .stopPublish := by
  rw [Table.get_erase] at hs
  split at hs
  · cases hs
  · exact ht h' s hs

theorem Served.quiescent (hs : Served st h f strat type (fwd, st')) (hq : st.Quiescent)
    (hh : h ∈ st.hosts) (hf : f ≠ []) : st'.Quiescent where
  named := fun r => (hs.get_of_ne hh hf.symm).trans (hq.named r)
  idle := fun k a h' s ha hget => by
    by_cases hk : k = f
    case neg => exact hq.idle k a h' s ((hs.get_of_ne hh hk).symm.trans ha) hget
    subst hk
    cases hs with
    | ignored | again => exact hq.idle k a h' s ha hget
    | @created r _ _ _ hnone =>
      cases r with
      | sub =>
        exact hq.idle k a h' s ha hget
      | pub =>
        cases get_newEntry.symm.trans ha
        have hnob : ∀ h s, (∅ : Table HostRef PublisherState).get h = some s →
            s = .stopPublish := by simp
        exact idle_findInsert hnob hget
    | @joined r _ a₀ _ ha₀ =>
      cases r with
      | sub =>
        exact hq.idle k a h' s ha hget
      | pub =>
        cases get_joinEntry.symm.trans ha
        exact idle_findInsert (fun h s => hq.idle k a₀ h s ha₀) hget
    | @left r _ a₀ _ ha₀ =>
      cases r with
      | sub =>
        rw [touches_leaveEntry.index _ _ (by simp)] at ha
        exact hq.idle k a h' s ha hget
      | pub =>
        rw [get_leaveEntry] at ha
        split at ha
        · cases ha
        · cases ha
          exact idle_erase (fun h s => hq.idle k a₀ h s ha₀) hget

theorem Gone.quiescent (hg : Gone conf h st st') (hq : st.Quiescent) (hw : st.Wf) :
    st'.Quiescent where
  named := fun r => by
    cases ha : (st'.index r).get [] with
    | none => rfl
    | some a' =>
      obtain ⟨a, ha, -⟩ := hg.exists_get_same ha
      rw [hq.named r] at ha
      cases ha
  idle := fun f a' h' s ha' hget => by
    obtain ⟨a, ha, ⟨hrea, hrest⟩ | ⟨-, rfl⟩⟩ := hg.exists_get ha'
    · obtain ⟨a₀, ha₀, hmem⟩ := hw.registered _ _ _ hrea.1
      rw [ha] at ha₀
      cases ha₀
      obtain ⟨s₀, hs₀⟩ := Table.mem_iff.1 hmem
      obtain rfl := hq.idle f a h s₀ ha hs₀
      have hnone : successor conf .pub h a = none := by simp [successor, hs₀]
      rw [restOf, hnone] at hrest
      split at hrest
      · cases hrest
      · cases hrest
        exact idle_erase (fun h s => hq.idle f a h s ha) hget
    · exact hq.idle f a' h' s ha hget

/-! ### What is passed on -/

/-- How the proxy handles an input of the library, and what it passes on. -/
inductive PassesOn (conf : ProxyConf) (st : Proxy) (input : Input) (st' : Proxy) :
    List RvRequest → Prop
  | request {h : HostRef} {type : RequestType} {ID prefixID : WireId} {strategy : Strategy} {fwd : Bool}
    (hask : input.asks conf.nodeID = some ⟨conf.nodeID, type, ID, prefixID, strategy⟩)
    (hi : type.Issued ID prefixID) (hh : h ∈ (st.admitted conf input).hosts)
    (hs : Served (st.admitted conf input) h (prefixID ++ lastFragment ID) strategy type (fwd, st')) :
    PassesOn conf st input st' (if fwd then [⟨type, UInt8.ofNat ID.val.length, ID,
      UInt8.ofNat prefixID.val.length, prefixID, strategy⟩] else [])
  | leave {h : HostRef} (w : Withdrawal (st.admitted conf input) h)
    (hd : st.disconnecting conf input = some h)
    (hg : Gone conf h (st.admitted conf input) st') :
    PassesOn conf st input st' (w.order.filterMap (withdrawalAt (st.admitted conf input) h))

theorem passesOn_push (hw : st.Wf) (hi : input.Issued) (hp : st.push conf input = .ok (st', acts)) :
    PassesOn conf st input st' (requests acts) := by
  cases hd : st.disconnecting conf input with
  | some h =>
    obtain ⟨w, hg, rfl⟩ := push_of_disconnecting hw hd hp
    have hreq : requests (.read .entered :: (w.actions conf ++ [.kill .entered])) =
        requests (w.actions conf) := by
      rw [requests, filterMap_cons_none rfl, filterMap_append]
      exact append_nil _
    rw [hreq, w.requests_actions]
    exact .leave w hd hg
  | none =>
    cases input with
    | network packet => exact absurd hi id
    | management fd m =>
      cases m with
      | disconnect => cases hd
      | _ => exact absurd hi id
    | host htype fd m =>
      cases m with
      | request type ID pre strat =>
        cases push_request.symm.trans hp
        have hreq : ∀ b : Bool, requests (.read .entered :: if b then
            [publishReqToRV conf ⟨type, UInt8.ofNat ID.val.length, ID,
              UInt8.ofNat pre.val.length, pre, strat⟩
              ((st.getLocalHost conf htype fd).2.rvFIDOf strat)]
            else [.kill .entered]) = if b then [⟨type, UInt8.ofNat ID.val.length, ID,
              UInt8.ofNat pre.val.length, pre, strat⟩] else [] := by
          intro b
          cases b <;> rfl
        rw [hreq]
        exact .request rfl hi (getLocalHost_mem hw _ _) (handleLocalRequest_served hi)
      | disconnect => cases hd
      | _ => exact absurd hi id

theorem fullID_ne_nil {ID pre : Id} (hi : type.Issued ID pre) : pre ++ lastFragment ID ≠ [] := by
  have hlast : ID ≠ [] → lastFragment ID ≠ [] := by
    intro hne
    obtain ⟨j, b, hj⟩ := (eq_nil_or_concat ID).resolve_left hne
    rw [hj, concat_eq_append, lastFragment_append]
    exact cons_ne_nil _ _
  have hone : ID.length = 1 → ID ≠ [] := by
    intro hlen hnil
    rw [hnil] at hlen
    cases hlen
  rw [Ne, append_eq_nil_iff, not_and_or]
  cases type with
  | publishScope => exact .inr (hlast hi)
  | publishInfo => exact .inl hi
  | unpublishScope | subscribeScope | unsubscribeScope => exact .inr (hlast (hone hi))
  | unpublishInfo | subscribeInfo | unsubscribeInfo => exact .inl hi.2
  | other type => exact absurd hi id

theorem PassesOn.quiescent (hpass : PassesOn conf st input st' qs) (hw : st.Wf) (hq : st.Quiescent) :
    st'.Quiescent := by
  cases hpass with
  | request hask hi hh hs => exact hs.quiescent (hq.admitted input) hh (fullID_ne_nil hi)
  | leave w hd hg => exact hg.quiescent (hq.admitted input) (hw.admitted input)

theorem withdrawalAt_shape (hw : st.Wf) (hq : st.Quiescent) {x : Role × Id}
    (hx : st.withdrawalAt h x = some q) : ∃ a j b, (st.index x.1).get x.2 = some a ∧
      x.2 = j ++ [b] ∧
      q = ⟨withdrawalType x.1 a.isScope, 1, [b], UInt8.ofNat (x.2.length + 255), j, a.strategy⟩ := by
  obtain ⟨a, ha, -, -, rfl⟩ := withdrawalAt_eq hw hx
  rcases eq_nil_or_concat x.2 with hnil | ⟨j, b, hk⟩
  · rw [hnil, hq.named] at ha
    cases ha
  · rw [concat_eq_append] at hk
    refine ⟨a, j, b, ha, hk, ?_⟩
    rw [hk, lastFragment_append, dropLast_concat]

section
variable (hpass : PassesOn conf st input st' qs) (hw : st.Wf) (hq : st.Quiescent)
include hpass hw hq

/-- **The lengths are right**: the identifiers are read as the proxy means them. -/
theorem PassesOn.sized : ∀ q ∈ qs, q.Sized := by
  have hbyte : ∀ k : WireId, (UInt8.ofNat k.val.length).toNat = k.val.length := by
    intro k
    rw [UInt8.toNat_ofNat', Nat.mod_eq_of_lt k.2]
  intro q hmem
  cases hpass with
  | request hask hi hh hs =>
    split at hmem
    · cases mem_singleton.1 hmem
      exact ⟨hbyte _, hbyte _⟩
    · exact absurd hmem not_mem_nil
  | leave w hd hg =>
    obtain ⟨x, -, hx⟩ := mem_filterMap.1 hmem
    have hw' : (st.admitted conf input).Wf := hw.admitted input
    obtain ⟨a, j, b, ha, hk, rfl⟩ := withdrawalAt_shape hw' (hq.admitted input) hx
    have hshort := hw'.short x.1 x.2 a ha
    rw [hk] at hshort ⊢
    exact ⟨rfl, withdrawal_prefixIDLength hshort⟩

theorem PassesOn.shaped (n : NodeID) : ∀ q ∈ qs, (q.arrive n).Shaped := by
  intro q hmem
  cases hpass with
  | request hask hi hh hs =>
    split at hmem
    · cases mem_singleton.1 hmem
      exact hi.shaped
    · exact absurd hmem not_mem_nil
  | leave w hd hg =>
    obtain ⟨x, -, hx⟩ := mem_filterMap.1 hmem
    obtain ⟨a, j, b, -, -, rfl⟩ := withdrawalAt_shape (hw.admitted input) (hq.admitted input) hx
    exact fun _ => rfl

end

end Proxy

/-! ### Runs of both elements -/

namespace Node

variable {conf : ProxyConf} {gc : GlobalConf} {fuel : ℕ} {nd nd' : Node} {input : Input}
  {P : Node → Input → Prop}

section
variable (hrun : Run conf gc fuel P nd)
include hrun

theorem Run.reachable_proxy : Proxy.Reachable conf nd.proxy := by
  induction hrun with
  | initial => exact ⟨[], .initial⟩
  | step _ _ _ hh ih =>
    obtain ⟨acts, hp, -⟩ := handle_eq_ok.1 hh
    obtain ⟨past, hrun⟩ := ih
    exact ⟨_, hrun.step trivial hp⟩
  | foreign _ _ _ _ ih => exact ih

theorem Run.quiescent : nd.proxy.Quiescent := by
  induction hrun with
  | initial => exact Proxy.quiescent_initial conf
  | step hrun hi _ hh ih =>
    obtain ⟨acts, hp, -⟩ := handle_eq_ok.1 hh
    have hw := hrun.reachable_proxy.wf
    exact (Proxy.passesOn_push hw hi hp).quiescent hw ih
  | foreign _ _ _ _ ih => exact ih

theorem Run.passesOn (hi : input.Issued) (hh : nd.handle conf gc fuel input = .ok nd') : ∃ qs,
      Proxy.PassesOn conf nd.proxy input nd'.proxy qs ∧ (∀ q ∈ qs, (q.arrive conf.nodeID).Shaped) ∧
      qs.foldlM (deliver gc fuel conf.nodeID) nd.rv = .ok nd'.rv := by
  obtain ⟨acts, hp, hrv⟩ := handle_eq_ok.1 hh
  have hw := hrun.reachable_proxy.wf
  have hpass := Proxy.passesOn_push hw hi hp
  exact ⟨_, hpass, hpass.shaped hw hrun.quiescent _, hrv⟩

end

theorem deliver_eq_ok {n : NodeID} {rv rv' : State} {q : RvRequest} :
    deliver gc fuel n rv q = .ok rv' ↔ ∃ code, push gc fuel (q.arrive n) rv = .ok (code, rv') := by
  unfold deliver
  rw [bind_eq_ok]
  constructor
  · intro hex
    obtain ⟨⟨code, s⟩, hpush, hret⟩ := hex
    cases hret
    exact ⟨code, hpush⟩
  · intro hex
    obtain ⟨code, hpush⟩ := hex
    exact ⟨_, hpush, rfl⟩

theorem reachable_foldlM {n : NodeID} (qs : List RvRequest) {rv rv' : State}
    (hs : ∀ q ∈ qs, (q.arrive n).Shaped) (hreach : Reachable gc rv)
    (hrv : qs.foldlM (deliver gc fuel n) rv = .ok rv') : Reachable gc rv' := by
  induction qs generalizing rv with
  | nil =>
    cases hrv
    exact hreach
  | cons q qs ih =>
    obtain ⟨s, hq, hrv⟩ := bind_eq_ok.1 hrv
    obtain ⟨code, hpush⟩ := deliver_eq_ok.1 hq
    obtain ⟨past, hrun⟩ := hreach
    exact ih (fun q' hq' => hs q' (mem_cons_of_mem q hq'))
      ⟨_, hrun.step (hs q mem_cons_self) trivial hpush⟩ hrv

theorem Run.reachable_rv (hrun : Run conf gc fuel P nd) : Reachable gc nd.rv := by
  induction hrun with
  | initial => exact ⟨[], .initial⟩
  | step hrun hi _ hh ih =>
    obtain ⟨qs, -, hs, hrv⟩ := hrun.passesOn hi hh
    exact reachable_foldlM qs hs ih hrv
  | foreign _ _ hs hpush ih =>
    obtain ⟨past, hrun⟩ := ih
    exact ⟨_, hrun.step hs trivial hpush⟩

/-! ### Executing runs -/

def handleAll (conf : ProxyConf) (gc : GlobalConf) (fuel : ℕ) (inputs : List Input) (nd : Node) :
    Node :=
  inputs.foldl (fun nd input => match nd.handle conf gc fuel input with
    | .ok nd' => nd'
    | .error _ => nd) nd

theorem run_handleAll (inputs : List Input) (hrun : Run conf gc fuel P nd)
    (hi : ∀ input ∈ inputs, input.Issued) (hP : ∀ input ∈ inputs, ∀ nd, P nd input) :
    Run conf gc fuel P (handleAll conf gc fuel inputs nd) := by
  induction inputs generalizing nd with
  | nil => exact hrun
  | cons input inputs ih =>
    have hi' : ∀ input' ∈ inputs, input'.Issued :=
      fun input' hmem => hi input' (mem_cons_of_mem input hmem)
    have hP' : ∀ input' ∈ inputs, ∀ nd, P nd input' :=
      fun input' hmem => hP input' (mem_cons_of_mem input hmem)
    simp only [handleAll, foldl_cons]
    cases hh : nd.handle conf gc fuel input with
    | ok nd' =>
      exact ih (hrun.step (hi input mem_cons_self) (hP input mem_cons_self nd) hh) hi' hP'
    | error e => exact ih hrun hi' hP'

def runOf (inputs : List Input) : Node :=
  handleAll Proxy.exampleProxyConf exampleConf 8 inputs
    ⟨Proxy.initial Proxy.exampleProxyConf, State.initial exampleConf⟩

theorem run_runOf (inputs : List Input) (hi : ∀ input ∈ inputs, input.Issued)
    (hP : ∀ input ∈ inputs, ∀ nd, P nd input) :
    Run Proxy.exampleProxyConf exampleConf 8 P (runOf inputs) :=
  run_handleAll inputs .initial hi hP

end Node

end Blackadder
