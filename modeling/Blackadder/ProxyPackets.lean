/-
**What becomes of a packet.**

A Click packet is given away once, by killing it or pushing it on, and not touched afterwards. The
rule is broken on five paths: `PUBLISH_DATA_iSUB` of a host reads the packet after it was given
away, and forgets it under all strategies but `DOMAIN_LOCAL`; `PUBLISH_DATA_iMULTICAST` without a
publication kills it twice; a link failure of the node's own topology manager is read and killed
again when no other host subscribes; a publisher that pauses or publishes again forgets it; and an
empty path stops the element.
-/

import Blackadder.ProxyNames
import Blackadder.ProxyReferences

namespace Blackadder

open Except List

/-! ### The use of a packet -/

def Action.consumes (p : PacketRef) : Action → Bool
  | .kill q => decide (q = p)
  | .deliver q _ _ _ => decide (q = p)
  | .forward q _ _ => decide (q = p)
  | .request (some q) _ _ => decide (q = p)
  | _ => false

def Action.uses (p : PacketRef) : Action → Bool
  | .read q => decide (q = p)
  | .clone _ => decide (p = .entered)
  | x => x.consumes p

def usedOnce (p : PacketRef) : List Action → Bool
  | [] => false
  | x :: l => if x.consumes p then l.all fun y => !y.uses p else usedOnce p l

structure Linear (actions : List Action) : Prop where
  entered : usedOnce .entered actions = true
  copies : ∀ n, .clone n ∈ actions → usedOnce (.copy n) actions = true

def Aside (actions : List Action) : Prop := ∀ x ∈ actions, ∀ p, x.uses p = false

variable {p : PacketRef} {x : Action} {l l' : List Action}

theorem Action.uses_of_consumes (hc : x.consumes p = true) : x.uses p = true := by
  cases x with
  | read q => cases hc
  | clone n => cases hc
  | _ => exact hc

theorem Action.not_consumes_of_not_uses (hu : x.uses p = false) : x.consumes p = false := by
  cases hc : x.consumes p with
  | false => rfl
  | true => rw [uses_of_consumes hc] at hu; cases hu

theorem usedOnce_append_left (hl : ∀ x ∈ l, x.consumes p = false) :
    usedOnce p (l ++ l') = usedOnce p l' := by
  induction l with
  | nil => rfl
  | cons x l ih =>
    rw [cons_append, usedOnce, hl x mem_cons_self]
    exact ih fun y hy => hl y (mem_cons_of_mem x hy)

theorem usedOnce_append_right (hl : ∃ x ∈ l, x.consumes p = true) :
    usedOnce p (l ++ l') = true ↔ usedOnce p l = true ∧ ∀ y ∈ l', y.uses p = false := by
  induction l with
  | nil => simp at hl
  | cons x l ih =>
    rw [cons_append, usedOnce, usedOnce]
    cases hx : x.consumes p with
    | true => simp
    | false =>
      refine ih ?_
      obtain ⟨y, hy, hyc⟩ := hl
      rcases mem_cons.1 hy with rfl | hy
      · rw [hx] at hyc
        cases hyc
      · exact ⟨y, hy, hyc⟩

theorem exists_consumes (hl : usedOnce p l = true) : ∃ x ∈ l, x.consumes p = true := by
  induction l with
  | nil => cases hl
  | cons x l ih =>
    rw [usedOnce] at hl
    split at hl
    · next hx => exact ⟨x, mem_cons_self, hx⟩
    · obtain ⟨y, hy, hyc⟩ := ih hl
      exact ⟨y, mem_cons_of_mem x hy, hyc⟩

theorem Aside.not_clone (ha : Aside l) (n : ℕ) : Action.clone n ∉ l := by
  intro hmem
  cases ha _ hmem .entered

theorem Aside.linear_append (ha : Aside l) (hlin : Linear l') : Linear (l ++ l') := by
  have hskip : ∀ p, usedOnce p (l ++ l') = usedOnce p l' := fun p =>
    usedOnce_append_left fun x hx => Action.not_consumes_of_not_uses (ha x hx p)
  refine ⟨(hskip _).trans hlin.entered, fun n hn => ?_⟩
  exact (hskip _).trans (hlin.copies n ((mem_append.1 hn).resolve_left (ha.not_clone n)))

theorem Linear.append_aside (hl : Linear l) (ha : Aside l') : Linear (l ++ l') := by
  have hkeep : ∀ p, usedOnce p l = true → usedOnce p (l ++ l') = true := fun p hp =>
    (usedOnce_append_right (exists_consumes hp)).2 ⟨hp, fun y hy => ha y hy p⟩
  refine ⟨hkeep _ hl.entered, fun n hn => hkeep _ (hl.copies n ?_)⟩
  exact (mem_append.1 hn).resolve_right (ha.not_clone n)

theorem linear_read_iff : Linear (.read .entered :: l) ↔ Linear l := by
  constructor
  · intro hlin
    exact ⟨hlin.entered, fun n hn => hlin.copies n (mem_cons_of_mem _ hn)⟩
  · intro hlin
    exact ⟨hlin.entered, fun n hn => hlin.copies n (by simpa using hn)⟩

theorem linear_kill : Linear [.kill .entered] := ⟨rfl, by simp⟩

theorem linear_append_kill (ha : Aside l) : Linear (l ++ [.kill .entered]) :=
  ha.linear_append linear_kill

theorem not_linear_of_append (hl : ∃ x ∈ l, x.consumes .entered = true)
    (hl' : ∃ y ∈ l', y.uses .entered = true) : ¬ Linear (l ++ l') := by
  intro hlin
  obtain ⟨y, hy, hu⟩ := hl'
  rw [((usedOnce_append_right hl).1 hlin.entered).2 y hy] at hu
  cases hu

theorem not_linear_of_not_consumes (hl : ∀ x ∈ l, x.consumes .entered = false) : ¬ Linear l := by
  intro hlin
  obtain ⟨x, hx, hc⟩ := exists_consumes hlin.entered
  rw [hl x hx] at hc
  cases hc

theorem not_linear_append_read (l : List Action) : ¬ Linear (l ++ [.read .entered]) := by
  by_cases hl : ∃ x ∈ l, x.consumes .entered = true
  · exact not_linear_of_append hl ⟨.read .entered, mem_cons_self, rfl⟩
  · refine not_linear_of_not_consumes fun x hx => ?_
    rcases mem_append.1 hx with hx | hx
    · exact Bool.eq_false_iff.2 fun hc => hl ⟨x, hx, hc⟩
    · rw [mem_singleton.1 hx]
      rfl

namespace Proxy

variable {conf : ProxyConf} {st st' : Proxy} {h : HostRef} {actions : List Action} {input : Input}

/-! ### Sending data -/

theorem linear_pushDataToRemoteSubscribers (IDs : List Id) (type : Option UInt8) (fid : BABitvector) :
    Linear (pushDataToRemoteSubscribers .entered IDs type fid) := by
  cases type with
  | none | some type => exact ⟨rfl, by simp [pushDataToRemoteSubscribers]⟩

variable {type : UInt8} {subs : List (HostRef × Id)} {fid : FID} {ID : Id}

theorem le_of_uses_deliverAll {n m : ℕ} :
    ∀ x ∈ deliverAll type n subs, x.uses (.copy m) = true → n ≤ m := by
  induction n, subs using deliverAll.induct with
  | case1 n => simp [deliverAll]
  | case2 n y => simp [deliverAll, Action.uses, Action.consumes]
  | case3 n y z l ih =>
    intro x hx hu
    rcases mem_cons.1 hx with rfl | hx
    · cases hu
    · rcases mem_cons.1 hx with rfl | hx
      · have heq : PacketRef.copy n = .copy m := of_decide_eq_true hu
        cases heq
        exact le_rfl
      · have hle := ih x hx hu
        omega

theorem linear_deliverAll {n : ℕ} (hne : subs ≠ []) : Linear (deliverAll type n subs) := by
  induction n, subs using deliverAll.induct with
  | case1 n => exact absurd rfl hne
  | case2 n y => exact ⟨rfl, by simp [deliverAll]⟩
  | case3 n y z l ih =>
    have hrest := ih (by simp)
    rw [deliverAll]
    refine ⟨hrest.entered, fun m hm => ?_⟩
    by_cases hmn : m = n
    · -- the copy that this iteration makes is not used by a later one
      subst hmn
      simp only [usedOnce, Action.consumes, Bool.false_eq_true, if_false, decide_true, if_true,
        all_eq_true]
      intro x hx
      cases hu : x.uses (.copy m) with
      | false => rfl
      | true =>
        have hle := le_of_uses_deliverAll x hx hu
        omega
    · have hcopy : usedOnce (.copy m) (deliverAll type (n + 1) (z :: l)) = true :=
        hrest.copies m (by simpa [hmn] using hm)
      have hne' : ¬ PacketRef.copy n = .copy m := fun heq => hmn (PacketRef.copy.inj heq).symm
      simpa [usedOnce, Action.consumes, hne'] using hcopy

theorem linear_clone {IDs : List Id} {type : Option UInt8} {fid : BABitvector} (hl : Linear l)
    (hcopy : ∀ x ∈ l, x.uses (.copy 0) = false) :
    Linear (.clone 0 :: pushDataToRemoteSubscribers (.copy 0) IDs type fid ++ l) := by
  have hother : ∀ p, p ≠ .copy 0 → usedOnce p
      (.clone 0 :: pushDataToRemoteSubscribers (.copy 0) IDs type fid ++ l) = usedOnce p l := by
    intro p hp
    refine usedOnce_append_left fun x hx => ?_
    cases type with
    | none =>
      simp only [pushDataToRemoteSubscribers, mem_cons, not_mem_nil, or_false] at hx
      obtain rfl | rfl := hx
      · rfl
      · exact decide_eq_false hp.symm
    | some type =>
      simp only [pushDataToRemoteSubscribers, mem_cons, not_mem_nil, or_false] at hx
      obtain rfl | rfl | rfl | rfl := hx
      · rfl
      · rfl
      · exact decide_eq_false hp.symm
      · rfl
  refine ⟨(hother _ (by simp)).trans hl.entered, fun n hn => ?_⟩
  cases n with
  | zero =>
    refine (usedOnce_append_right ?_).2 ⟨?_, hcopy⟩
    · cases type with
      | none => exact ⟨.forward (.copy 0) IDs fid, by simp [pushDataToRemoteSubscribers], rfl⟩
      | some type => exact ⟨.kill (.copy 0), by simp [pushDataToRemoteSubscribers], rfl⟩
    · cases type with
      | none | some type => rfl
  | succ n =>
    refine (hother _ (by simp)).trans (hl.copies (n + 1) ?_)
    cases type with
    | none | some type => simpa [pushDataToRemoteSubscribers] using hn

theorem linear_sendCopy {IDs : List Id} {type : Option UInt8} (hl : Linear l)
    (hcopy : ∀ x ∈ l, x.uses (.copy 0) = false) : Linear (st.sendCopy IDs type fid ++ l) := by
  rw [sendCopy]
  split
  · exact hl
  · exact linear_clone hl hcopy

theorem copy_deliverAll : ∀ x ∈ deliverAll type 1 subs, x.uses (.copy 0) = false := by
  intro x hx
  cases hu : x.uses (.copy 0) with
  | false => rfl
  | true =>
    have hle := le_of_uses_deliverAll x hx hu
    omega

theorem linear_handleNetworkPublication (conf : ProxyConf) (st : Proxy) (IDs : List Id)
    (type : UInt8) : Linear (st.handleNetworkPublication conf IDs type) := by
  unfold handleNetworkPublication
  dsimp only
  split
  · exact linear_kill
  case isFalse hsize =>
    refine linear_deliverAll fun hnil => hsize ?_
    -- every key of the table of subscribers has a value
    refine Table.size_eq_zero_iff.2 fun k hk => ?_
    obtain ⟨v, hv⟩ := Table.mem_iff.1 hk
    have hmem : (k, v) ∈ (conf.hostOrder.visit (st.findLocalSubscribers IDs).keys.toList).filterMap
        fun h => ((st.findLocalSubscribers IDs).get h).map fun k => (h, k) :=
      mem_filterMap.2 ⟨k, conf.hostOrder.mem_visit.2 hk, by rw [hv]; rfl⟩
    rw [hnil] at hmem
    cases hmem

theorem linear_handleUserPublicationTo (conf : ProxyConf) (st : Proxy) (ID : Id)
    (type : Option UInt8) (fid : FID) (h : HostRef) (apiType : UInt8) :
    Linear (st.handleUserPublicationTo conf ID type fid h apiType) := by
  unfold handleUserPublicationTo
  dsimp only
  split
  · exact linear_pushDataToRemoteSubscribers _ _ _
  case isFalse hne =>
    refine linear_sendCopy (linear_deliverAll fun hnil => hne ?_) copy_deliverAll
    rw [hnil]
    rfl

def Told (st : Proxy) (h : HostRef) (ID : Id) : Prop :=
  ∃ source ∈ st.sourceOf ID, source.1.fid.zero = true ∧
    (source.1.hosts.get h = some .rePublish ∨ source.1.hosts.get h = some .pausePublish)

theorem linear_handleUserPublication (conf : ProxyConf) (st : Proxy) (ID : Id) (type : UInt8)
    (h : HostRef) (apiType : UInt8) :
    Linear (st.handleUserPublication conf ID type h apiType) ↔ ¬ st.Told h ID := by
  have hu := userPublication_handleUserPublication conf st ID type h apiType
  generalize st.handleUserPublication conf ID type h apiType = l at hu
  cases hu with
  | unpublished hsou =>
    refine iff_of_true linear_kill fun htold => ?_
    obtain ⟨source, hsome, -⟩ := htold
    rw [hsou] at hsome
    cases hsome
  | told hsou hfid hget hs =>
    refine iff_of_false (not_linear_of_not_consumes (by simp [Action.consumes])) fun hnot => ?_
    refine hnot ⟨_, hsou, hfid, ?_⟩
    obtain rfl | rfl := hs
    · exact .inl hget
    · exact .inr hget
  | dropped hsou hfid hre hpau =>
    refine iff_of_true linear_kill fun htold => ?_
    obtain ⟨source, hsome, -, htold⟩ := htold
    rw [hsou] at hsome
    cases hsome
    exact htold.elim hre hpau
  | remote hsou hfid =>
    refine iff_of_true (linear_pushDataToRemoteSubscribers _ _ _) fun htold => ?_
    obtain ⟨source, hsome, hzero, -⟩ := htold
    rw [hsou] at hsome
    cases hsome
    rw [hfid] at hzero
    cases hzero
  | both hsou hfid hne =>
    refine iff_of_true (linear_clone (linear_deliverAll hne) copy_deliverAll) fun htold => ?_
    obtain ⟨source, hsome, hzero, -⟩ := htold
    rw [hsou] at hsome
    cases hsome
    rw [hfid] at hzero
    cases hzero

/-! ### Notifications -/

theorem aside_of_informs (hi : ∀ x ∈ actions, st.Informs x) : Aside actions := by
  intro x hx p
  have hinf := hi x hx
  cases x with
  | notify e k ID => rfl
  | implicitRequest nodeIDs => rfl
  | _ => exact absurd hinf id

theorem sweep_of_total {β : Type} {step : Proxy → β → Handled}
    (hstep : ∀ b s, ∃ s' out, step s b = .ok (s', out)) (l : List β) (st : Proxy) :
    ∃ st' actions, Except.sweep step l st = .ok (st', actions) := by
  refine sweep_total (I := fun _ => True) (fun b _ s _ => ?_) trivial
  obtain ⟨s', out, heq⟩ := hstep b s
  exact ⟨s', out, heq, trivial⟩

theorem handleRVNotification_total (conf : ProxyConf) (st : Proxy) (n : Notification) :
    ∃ st' actions, st.handleRVNotification conf n = .ok (st', actions) := by
  cases n with
  | startPublish IDs fid =>
    refine sweep_of_total (fun ID s => ?_) _ _
    unfold notifyFirstPublisher
    split
    · exact ⟨_, _, rfl⟩
    · split <;> exact ⟨_, _, rfl⟩
  | stopPublish IDs =>
    refine sweep_of_total (fun ID s => ?_) _ _
    unfold stopPublishers
    split <;> exact ⟨_, _, rfl⟩
  | updateFIDISub isubscribers =>
    refine sweep_of_total (fun n s => ?_) _ _
    unfold updateNode
    split
    · exact ⟨_, _, rfl⟩
    · dsimp only
      split <;> exact ⟨_, _, rfl⟩
  | _ => exact ⟨_, _, rfl⟩

/-- No path to a node was emptied, so that it can be compared with a failed link. -/
def HasPaths (st : Proxy) : Prop := ∀ n an, st.activeNodeIndex.get n = some an → an.fid ≠ .empty

theorem exists_affected (conf : ProxyConf) (st : Proxy) (lid : FID) :
    (∃ affected, (conf.nodeOrder.visit st.activeNodeIndex.keys.toList).foldlM
      (addAffected lid st.activeNodeIndex) ∅ = .ok affected) ↔ st.HasPaths := by
  rw [exists_foldlM_eq_ok
    (Q := fun n => ∀ an, st.activeNodeIndex.get n = some an → an.fid ≠ .empty)]
  · simp only [Traversal.mem_visit]
    exact ⟨fun h n an han => h n (Table.mem_of_get han) an han, fun h n _ => h n⟩
  · intro n affected
    rw [addAffected]
    cases han : st.activeNodeIndex.get n with
    | none => simp
    | some an =>
      cases hfid : an.fid with
      | empty =>
        refine iff_of_false (fun hex => ?_) fun hne => hne an rfl hfid
        obtain ⟨s', hs'⟩ := hex
        simp only [hfid] at hs'
        cases hs'
      | bits v =>
        refine iff_of_true ?_ (by simp [hfid])
        simp only [hfid, BABitvector.contains, ok_bind]
        split <;> exact ⟨_, rfl⟩

/-! ### The handlers -/

def HandledOnce (result : Handled) : Prop :=
  ∃ st' actions, result = .ok (st', actions) ∧ Linear actions

@[simp] theorem handledOnce_ok : HandledOnce (.ok (st, actions)) ↔ Linear actions := by
  constructor
  · intro hh
    obtain ⟨st', actions', heq, hlin⟩ := hh
    cases heq
    exact hlin
  · exact fun hlin => ⟨st, actions, rfl, hlin⟩

theorem not_handledOnce_error (e : ProxyFault) : ¬ HandledOnce (.error e) := by
  intro hh
  obtain ⟨st', actions, heq, -⟩ := hh
  cases heq

theorem handledOnce_push :
    HandledOnce (st.push conf input) ↔ HandledOnce (st.dispatch conf input) := by
  rw [push]
  cases st.dispatch conf input with
  | error e => exact iff_of_false (not_handledOnce_error e) (not_handledOnce_error e)
  | ok res =>
    exact handledOnce_ok.trans (linear_read_iff.trans handledOnce_ok.symm)

theorem handledOnce_kill {result : Handled} (hres : result = .ok (st', actions))
    (ha : Aside actions) :
    HandledOnce (do let r ← result; return (r.1, r.2 ++ [.kill .entered])) := by
  subst hres
  exact handledOnce_ok.2 (linear_append_kill ha)

theorem handledOnce_notification (conf : ProxyConf) (st : Proxy) (n : Notification) :
    HandledOnce (do
      let r ← st.handleRVNotification conf n
      return (r.1, .read .entered :: r.2 ++ [.kill .entered])) := by
  obtain ⟨st', actions, heq⟩ := handleRVNotification_total conf st n
  rw [heq]
  exact handledOnce_ok.2
    (linear_read_iff.2 (linear_append_kill (aside_of_informs (alerts_handleRVNotification heq).informs)))

theorem aside_actions (w : Withdrawal st h) : Aside (w.actions conf) := by
  intro x hx p
  obtain ⟨r, f, -, hx⟩ := w.mem_actions.1 hx
  rw [tellAt] at hx
  cases ha : (st.index r).get f with
  | none => simp [ha] at hx
  | some a =>
    simp only [ha, Option.map_some, tellOf] at hx
    split at hx
    · split at hx
      · rw [mem_singleton.1 hx]
        rfl
      · cases hx
    · split at hx
      · cases hx
      · rw [mem_singleton.1 hx]
        rfl

theorem handledOnce_disconnect (conf : ProxyConf) (hw : st.Wf) (hh : h ∈ st.hosts) : HandledOnce (do
      let r ← st.disconnect conf h
      return (r.1, r.2 ++ [.kill .entered])) := by
  obtain ⟨w, st', heq, -⟩ := disconnect_eq conf hw hh
  exact handledOnce_kill heq (aside_actions w)

theorem handledOnce_handleMappRequest (conf : ProxyConf) (hw : st.Wf) (hk : st.NamesKnown)
    (hh : h ∈ st.hosts) (m : ManagementMessage) : HandledOnce (st.handleMappRequest conf h m) := by
  cases m with
  | getNodeID | getRVTMFID => exact handledOnce_ok.2 ⟨rfl, by simp⟩
  | setConnectionStatus status =>
    have hk' : NamesKnown { st with status := status } := namesKnown_of_index hk rfl
    obtain ⟨st', actions, heq⟩ := updateStates_total conf hk' status
    exact handledOnce_kill heq (aside_of_informs (alerts_updateStates heq).informs)
  | disconnect => exact handledOnce_disconnect conf hw hh
  | other type => exact handledOnce_ok.2 linear_kill

theorem processTMNotification_ok (conf : ProxyConf) (hn : st.HasPaths)
    (lid : FID) : ∃ st' l, st.processTMNotification conf lid =
      .ok (st', .read .entered :: .kill .entered :: l) ∧ Aside l := by
  obtain ⟨affected, heq⟩ := (exists_affected conf st lid).2 hn
  refine ⟨_, _, bind_eq_ok.2 ⟨affected, heq, rfl⟩, fun x hx p => ?_⟩
  split at hx
  · cases hx
  · rw [mem_singleton.1 hx]
    rfl

theorem hasPaths_of_processTMNotification {lid : FID}
    (hp : st.processTMNotification conf lid = .ok (st', actions)) :
    st.HasPaths := by
  obtain ⟨affected, heq, -⟩ := bind_eq_ok.1 hp
  exact (exists_affected conf st lid).1 ⟨affected, heq⟩

theorem handledOnce_processTMNotification {lid : FID} :
    HandledOnce (st.processTMNotification conf lid) ↔ st.HasPaths := by
  constructor
  · intro hh
    obtain ⟨st', actions, heq, -⟩ := hh
    exact hasPaths_of_processTMNotification heq
  · intro hn
    obtain ⟨st', l, heq, ha⟩ := processTMNotification_ok conf hn lid
    rw [heq]
    exact handledOnce_ok.2 (linear_read_iff.2 (linear_kill.append_aside ha))

theorem handledOnce_handleUserTMPublication {pay : List UInt8} :
    HandledOnce (st.handleUserTMPublication conf ID type fid h pay) ↔ st.HasPaths ∧
        st.otherSubscribers conf (st.augmentedIDs ID) h ID ≠ [] := by
  by_cases hn : st.HasPaths
  · obtain ⟨st', l, heq, ha⟩ := processTMNotification_ok conf hn (vectorAt fidLen pay 0)
    have hres : st.handleUserTMPublication conf ID type fid h pay = .ok (st',
        st.sentOf conf ID type fid h ++ (.read .entered :: .kill .entered :: l)) :=
      bind_eq_ok.2 ⟨_, heq, rfl⟩
    rw [hres, handledOnce_ok, sentOf]
    split
    case isTrue hnil =>
      refine iff_of_false (not_linear_of_append
        (exists_consumes (linear_pushDataToRemoteSubscribers _ _ _).entered) ?_) fun hne => hne.2 ?_
      · exact ⟨.read .entered, mem_cons_self, rfl⟩
      · exact length_eq_zero_iff.1 hnil
    case isFalse hne =>
      refine iff_of_true (linear_sendCopy
        (linear_read_iff.2 (linear_kill.append_aside ha)) fun x hx => ?_) ⟨hn, fun hnil => hne ?_⟩
      · simp only [mem_cons] at hx
        obtain rfl | rfl | hx := hx
        · rfl
        · rfl
        · exact ha x hx _
      · rw [hnil]
        rfl
  · refine iff_of_false (fun hh => ?_) fun hboth => hn hboth.1
    obtain ⟨st', actions, heq, -⟩ := hh
    obtain ⟨⟨s, l⟩, hp, -⟩ := bind_eq_ok.1 heq
    exact hn (hasPaths_of_processTMNotification hp)

theorem isSome_sourceOf : (st.sourceOf ID).isSome = (st.activePublicationIndex.get
    (if (st.activePublicationIndex.get ID).isNone = true then ID.dropLast else ID)).isSome := by
  rw [sourceOf]
  cases hID : st.activePublicationIndex.get ID with
  | none => simp
  | some ap => simp [hID]

theorem handledOnce_handleUserMulticastRequest {nodeIDs : ListSet NodeID} :
    HandledOnce (st.handleUserMulticastRequest conf ID type nodeIDs) ↔ (st.sourceOf ID).isSome := by
  rw [isSome_sourceOf]
  unfold handleUserMulticastRequest
  dsimp only
  split
  case h_1 hnone =>
    -- the packet is killed twice
    rw [hnone]
    refine iff_of_false (fun hh => ?_) Bool.false_ne_true
    cases (handledOnce_ok.1 hh).entered
  case h_2 hsome =>
    rw [hsome]
    exact iff_of_true (handledOnce_ok.2 (linear_pushDataToRemoteSubscribers _ _ _)) rfl

theorem not_handledOnce_handlePublishDataISub {strat : Strategy} {stale : List UInt8} :
    ¬ HandledOnce (st.handlePublishDataISub conf h ID strat stale) := by
  rw [handlePublishDataISub]
  split
  · exact fun hh => not_linear_append_read _ (handledOnce_ok.1 hh)
  · exact fun hh => not_linear_of_not_consumes (by simp) (handledOnce_ok.1 hh)

theorem handledOnce_handleRequest (conf : ProxyConf) (st : Proxy) (h : HostRef) (type : RequestType)
    (ID pre : WireId) (strat : Strategy) :
    HandledOnce (st.handleRequest conf h type ID pre strat) := by
  rw [handleRequest_eq]
  split
  · exact handledOnce_ok.2 ⟨rfl, by simp [publishReqToRV]⟩
  · exact handledOnce_ok.2 linear_kill

def Overheard (st : Proxy) (h : HostRef) (ID : Id) : Prop :=
  ∃ k, k ≠ h ∧ ∃ g ∈ st.augmentedIDs ID, st.Subscribes k g

theorem otherSubscribers_ne_nil :
    st.otherSubscribers conf (st.augmentedIDs ID) h ID ≠ [] ↔ st.Overheard h ID := by
  rw [otherSubscribers, ne_eq, map_eq_nil_iff, eq_nil_iff_forall_not_mem, not_forall]
  refine exists_congr fun k => ?_
  rw [not_not, Traversal.mem_visit]
  refine Table.mem_erase.trans ?_
  rw [mem_findLocalSubscribers]

theorem notificationIID_ne_pathMgmtIID (conf : ProxyConf) : conf.notificationIID ≠ pathMgmtIID := by
  have hne : managementFragment 253 ≠ managementFragment 249 := by decide
  exact fun heq => hne (cons.inj heq).1

theorem handledOnce_handlePublishData {strat : Strategy} {pay : List UInt8} :
    HandledOnce (st.handlePublishData conf h ID strat fid pay) ↔
      (strat = implicitRendezvous → ID = pathMgmtIID → st.HasPaths ∧ st.Overheard h ID) ∧
      (recordedLocally strat = false → ¬ st.Told h ID) := by
  rw [handlePublishData]
  split
  case isTrue himp =>
    have hrec : recordedLocally strat = true := by simp [recordedLocally, himp]
    simp only [hrec, Bool.true_eq_false, false_implies, and_true]
    simp only [himp, true_implies]
    split
    case isTrue hID =>
      refine iff_of_true (handledOnce_notification _ _ _) fun hpath => ?_
      exact absurd (hID.symm.trans hpath) (notificationIID_ne_pathMgmtIID conf)
    · split
      case isTrue hID =>
        refine iff_of_true (handledOnce_ok.2 (linear_handleUserPublicationTo _ _ _ _ _ _ _))
          fun hpath => ?_
        obtain rfl | rfl := hID
        · exact absurd hpath (nodeTMScope_ne_pathMgmtIID conf).1
        · exact absurd hpath (nodeTMScope_ne_pathMgmtIID conf).2
      · split
        case isTrue hpath =>
          rw [handledOnce_handleUserTMPublication, otherSubscribers_ne_nil]
          exact ⟨fun hh _ => hh, fun hh => hh hpath⟩
        case isFalse hpath =>
          exact iff_of_true (handledOnce_ok.2 (linear_handleUserPublicationTo _ _ _ _ _ _ _))
            fun heq => absurd heq hpath
  case isFalse himp =>
    simp only [himp, false_implies, true_and]
    split
    case isTrue hlink =>
      refine iff_of_true (handledOnce_ok.2 (linear_handleUserPublicationTo _ _ _ _ _ _ _))
        fun hrec => ?_
      simp [recordedLocally, hlink] at hrec
    case isFalse hlink =>
      split
      case isTrue hbro =>
        refine iff_of_true (handledOnce_ok.2 (linear_handleUserPublicationTo _ _ _ _ _ _ _))
          fun hrec => ?_
        simp [recordedLocally, hbro] at hrec
      case isFalse hbro =>
        have hrec : recordedLocally strat = false := by simp [recordedLocally, himp, hlink, hbro]
        rw [handledOnce_ok, linear_handleUserPublication]
        exact ⟨fun hh _ => hh, fun hh => hh hrec⟩

theorem handledOnce_handleNetworkPacket {p : NetworkPacket} :
    HandledOnce (st.handleNetworkPacket conf p) ↔ (p.type = publishData → p.IDs = [pathMgmtIID] →
      st.HasPaths) := by
  rw [handleNetworkPacket]
  split
  case isTrue htype =>
    simp only [htype, true_implies]
    split
    case isTrue hIDs =>
      refine iff_of_true (handledOnce_notification _ _ _) fun hpath => ?_
      exact absurd (cons.inj (hIDs.symm.trans hpath)).1 (notificationIID_ne_pathMgmtIID conf)
    · split
      case isTrue hpath =>
        rw [handledOnce_processTMNotification]
        exact ⟨fun hh _ => hh, fun hh => hh hpath⟩
      case isFalse hpath =>
        exact iff_of_true (handledOnce_ok.2 (linear_handleNetworkPublication _ _ _ _))
          fun heq => absurd heq hpath
  case isFalse htype =>
    refine iff_of_true ?_ fun heq => absurd heq htype
    split
    · refine handledOnce_ok.2 (Aside.linear_append (fun x hx p => ?_)
        (linear_handleNetworkPublication _ _ _ _))
      split at hx
      · rw [mem_singleton.1 hx]
        rfl
      · cases hx
    · exact handledOnce_ok.2 (linear_handleNetworkPublication _ _ _ _)

/-! ### The element -/

def OffPaths (conf : ProxyConf) (st : Proxy) : Input → Prop
  | .network packet =>
    (NetworkPacket.read packet).type = publishData →
      (NetworkPacket.read packet).IDs = [pathMgmtIID] →
      st.HasPaths
  | .management _ _ => True
  | .host type descriptor m => match m with
    | .publishData ID strategy _ _ =>
      (strategy = implicitRendezvous → ID = pathMgmtIID → st.HasPaths ∧
          st.Overheard (st.getLocalHost conf type descriptor).1 ID) ∧
      (recordedLocally strategy = false → ¬ st.Told (st.getLocalHost conf type descriptor).1 ID)
    | .publishDataISub _ _ _ => False
    | .publishDataIMulticast ID _ _ => (st.sourceOf ID).isSome
    | .disconnect => True
    | .request _ _ _ _ => True

theorem activeNodeIndex_getLocalHost (type : HostType) (id : ℕ) :
    (st.getLocalHost conf type id).2.activeNodeIndex = st.activeNodeIndex := by
  rw [getLocalHost]
  split <;> rfl

theorem sourceOf_getLocalHost (type : HostType) (id : ℕ) (ID : Id) :
    (st.getLocalHost conf type id).2.sourceOf ID = st.sourceOf ID := by
  rw [sourceOf, sourceOf, activePublicationIndex, index_getLocalHost]

theorem overheard_getLocalHost (type : HostType) (id : ℕ) (h : HostRef) (ID : Id) :
    (st.getLocalHost conf type id).2.Overheard h ID ↔ st.Overheard h ID := by
  rw [Overheard, Overheard, augmentedIDs, augmentedIDs, activePublicationIndex]
  simp [Subscribes, Registered]

end Proxy

end Blackadder
