/-
**One of the publishers has started.**

While a publication forwards because of a `START_PUBLISH`, one of its publishers should be in that
state. When it disconnects, another one takes over; when it unpublishes, none does.
-/

import Blackadder.ProxyRuns

namespace Blackadder

open Table Except Option List

/-! ### Entries -/

namespace ActiveEntry

def Served (ap : ActiveEntry) : Prop := ∃ h, ap.hosts.get h = some .startPublish

def KeepsStart (ap ap' : ActiveEntry) : Prop :=
  ap'.isScope = ap.isScope ∧
    ∀ h, ap.hosts.get h = some .startPublish → ap'.hosts.get h = some .startPublish

theorem KeepsStart.refl (ap : ActiveEntry) : ap.KeepsStart ap := ⟨rfl, fun _ => id⟩

theorem KeepsStart.trans {ap ap' ap'' : ActiveEntry} (h₁ : ap.KeepsStart ap')
    (h₂ : ap'.KeepsStart ap'') : ap.KeepsStart ap'' :=
  ⟨h₂.1.trans h₁.1, fun h hstart => h₂.2 h (h₁.2 h hstart)⟩

theorem KeepsStart.served {ap ap' : ActiveEntry} (hk : ap.KeepsStart ap') (hs : ap.Served) :
    ap'.Served := by
  obtain ⟨h, hh⟩ := hs
  exact ⟨h, hk.2 h hh⟩

theorem keepsStart_set (ap : ActiveEntry) (h : HostRef) :
    ap.KeepsStart { ap with hosts := ap.hosts.set h .startPublish } := by
  refine ⟨rfl, fun k hk => ?_⟩
  rw [get_set]
  split
  · rfl
  · exact hk

end ActiveEntry

namespace Proxy

variable {conf : ProxyConf} {st st' t : Proxy} {h : HostRef} {f : Id} {ap ap' : ActiveEntry}
  {acts : List Action} {input : Input}

/-! ### States -/

def StartsKept (st st' : Proxy) : Prop :=
  ∀ f ap', st'.activePublicationIndex.get f = some ap' →
    ∃ ap, st.activePublicationIndex.get f = some ap ∧ ap.KeepsStart ap'

/-- A publication that forwards did so before, and its started publishers stay so. -/
def ForwardsKept (st st' : Proxy) : Prop :=
  ∀ f ap', st'.activePublicationIndex.get f = some ap' → ap'.fid.zero = false →
    ∃ ap, st.activePublicationIndex.get f = some ap ∧ ap.fid = ap'.fid ∧ ap.KeepsStart ap'

theorem StartsKept.trans (h₁ : StartsKept st st') (h₂ : StartsKept st' t) : StartsKept st t := by
  intro f ap'' hap''
  obtain ⟨ap', hap', hk₂⟩ := h₂ f ap'' hap''
  obtain ⟨ap, hap, hk₁⟩ := h₁ f ap' hap'
  exact ⟨ap, hap, hk₁.trans hk₂⟩

theorem ForwardsKept.trans (h₁ : ForwardsKept st st') (h₂ : ForwardsKept st' t) :
    ForwardsKept st t := by
  intro f ap'' hap'' hfid
  obtain ⟨ap', hap', hfid', hk₂⟩ := h₂ f ap'' hap'' hfid
  rw [← hfid'] at hfid
  obtain ⟨ap, hap, hfid'', hk₁⟩ := h₁ f ap' hap' hfid
  exact ⟨ap, hap, hfid''.trans hfid', hk₁.trans hk₂⟩

theorem forwardsKept_of_index (hind : st'.activePublicationIndex = st.activePublicationIndex) :
    ForwardsKept st st' := by
  intro f ap' hap' _
  rw [hind] at hap'
  exact ⟨ap', hap', rfl, ActiveEntry.KeepsStart.refl ap'⟩

theorem StartsKept.refl (st : Proxy) : StartsKept st st :=
  fun _ ap hap => ⟨ap, hap, ActiveEntry.KeepsStart.refl ap⟩

section
variable (hap : st.activePublicationIndex.get f = some ap)
include hap

theorem startsKept_setEntry (hk : ap.KeepsStart ap') : StartsKept st (st.setEntry .pub f ap') := by
  intro g ap'' hap''
  rw [get_setEntry] at hap''
  split at hap''
  case isTrue heq =>
    cases hap''
    rw [heq.2]
    exact ⟨ap, hap, hk⟩
  · exact ⟨ap'', hap'', ActiveEntry.KeepsStart.refl ap''⟩

theorem forwardsKept_setEntry (hk : ap'.fid.zero = false → ap.fid = ap'.fid ∧ ap.KeepsStart ap') :
    ForwardsKept st (st.setEntry .pub f ap') := by
  intro g ap'' hap'' hfid
  rw [get_setEntry] at hap''
  split at hap''
  case isTrue heq =>
    cases hap''
    rw [heq.2]
    exact ⟨ap, hap, hk hfid⟩
  · exact ⟨ap'', hap'', rfl, ActiveEntry.KeepsStart.refl ap''⟩

end

variable {g : ActiveEntry → ActiveEntry} {ID : Id} {r : Role} {strat : Strategy}
  {rvFID : BABitvector} {isScope : Bool}

theorem startsKept_modifyEntry (hg : ∀ ap : ActiveEntry, ap.KeepsStart (g ap)) :
    StartsKept st (st.modifyEntry .pub f g) := by
  intro k ap' hap'
  rw [get_modifyEntry] at hap'
  split at hap'
  · obtain ⟨ap, hap, rfl⟩ := map_eq_some_iff.1 hap'
    exact ⟨ap, hap, hg ap⟩
  · exact ⟨ap', hap', ActiveEntry.KeepsStart.refl ap'⟩

theorem forwardsKept_modifyEntry (hg : ∀ ap, ap.fid = (g ap).fid ∧ ap.KeepsStart (g ap)) :
    ForwardsKept st (st.modifyEntry .pub f g) := by
  intro k ap' hap' _
  rw [get_modifyEntry] at hap'
  split at hap'
  · obtain ⟨ap, hap, rfl⟩ := map_eq_some_iff.1 hap'
    exact ⟨ap, hap, hg ap⟩
  · exact ⟨ap', hap', rfl, ActiveEntry.KeepsStart.refl ap'⟩

theorem forwardsKept_mapValues (hg : ∀ ap, (g ap).fid.zero = false → g ap = ap)
    (hind : st'.index = fun r =>
      if r = .pub then st.activePublicationIndex.mapValues fun _ => g else st.index r) :
    ForwardsKept st st' := by
  intro f ap' hap' hfid
  rw [activePublicationIndex, hind] at hap'
  obtain ⟨ap, hap, heq⟩ := map_eq_some_iff.1 hap'
  have hself : ap' = ap := by
    rw [← heq] at hfid
    rw [← heq]
    exact hg ap hfid
  rw [hself]
  exact ⟨ap, hap, rfl, ActiveEntry.KeepsStart.refl ap⟩

theorem forwardsKept_sweep {β : Type} {step : Proxy → β → Handled} {l : List β}
    (body : ∀ b s s' out, step s b = .ok (s', out) → ForwardsKept s s')
    (hp : Except.sweep step l st = .ok (st', acts)) : ForwardsKept st st' :=
  sweep_keeps (I := ForwardsKept st)
    (fun b _ s s' out hs hstep => hs.trans (body b s s' out hstep)) (forwardsKept_of_index rfl) hp

/-! ### Notifications -/

theorem startsKept_assignFID (IDs : List Id) (fid : FID) : StartsKept st (st.assignFID IDs fid) := by
  suffices hgen : ∀ l : List Id, StartsKept st (l.foldl (fun st ID =>
      st.modifyEntry .pub ID fun ap => { ap with allKnownIDs := IDs, fid := .bits fid }) st) from
    hgen IDs
  intro l
  induction l generalizing st with
  | nil => exact StartsKept.refl st
  | cons ID l ih =>
    refine StartsKept.trans ?_ ih
    exact startsKept_modifyEntry fun ap => ⟨rfl, fun _ => id⟩

theorem startsKept_notifyFirstPublisher (hp : notifyFirstPublisher conf st ID = .ok (st', acts)) :
    StartsKept st st' := by
  unfold notifyFirstPublisher at hp
  split at hp
  case h_1 =>
    cases hp
    exact StartsKept.refl st
  case h_2 ap hap =>
    split at hp
    case h_1 =>
      cases hp
      exact StartsKept.refl st
    case h_2 =>
      cases hp
      exact startsKept_setEntry hap (ap.keepsStart_set _)

theorem served_notifyFirstPublisher (hw : st.Wf)
    (hp : notifyFirstPublisher conf st ID = .ok (st', acts))
    (hap' : st'.activePublicationIndex.get ID = some ap') : ap'.Served := by
  unfold notifyFirstPublisher at hp
  split at hp
  case h_1 hnone =>
    cases hp
    rw [hnone] at hap'
    cases hap'
  case h_2 ap hap =>
    split at hp
    case h_1 hfirst =>
      -- every entry has a publisher
      obtain ⟨k, hk⟩ := hw.nonempty .pub ID ap hap
      rw [Traversal.first_eq_none_iff] at hfirst
      exact absurd hk (by rw [← mem_keys_iff, ← ListSet.mem_toList, hfirst]; simp)
    case h_2 h _ =>
      cases hp
      rw [get_setEntry, if_pos ⟨rfl, rfl⟩] at hap'
      cases hap'
      exact ⟨h, by simp⟩

theorem sweep_notifyFirstPublisher (hw : st.Wf) {IDs : List Id}
    (hp : Except.sweep (notifyFirstPublisher conf) IDs st = .ok (st', acts)) :
    StartsKept st st' ∧
      ∀ f ∈ IDs, ∀ ap', st'.activePublicationIndex.get f = some ap' → ap'.Served := by
  induction IDs generalizing st acts with
  | nil =>
    cases hp
    exact ⟨StartsKept.refl _, by simp⟩
  | cons ID IDs ih =>
    obtain ⟨s, out₁, out₂, h₁, h₂, rfl⟩ := sweep_cons_eq_ok.1 hp
    obtain ⟨hkept, hser⟩ := ih ((alerts_notifyFirstPublisher h₁).quiet.wf hw) h₂
    refine ⟨(startsKept_notifyFirstPublisher h₁).trans hkept, fun f hf ap' hap' => ?_⟩
    rcases mem_cons.1 hf with rfl | hf
    · obtain ⟨ap, hap, hk⟩ := hkept f ap' hap'
      exact hk.served (served_notifyFirstPublisher hw h₁ hap)
    · exact hser f hf ap' hap'

theorem forwardsKept_stopPublishers {IDs : List Id}
    (hp : stopPublishers conf IDs st ID = .ok (st', acts)) : ForwardsKept st st' := by
  unfold stopPublishers at hp
  split at hp
  case h_1 =>
    cases hp
    exact forwardsKept_of_index rfl
  case h_2 ap hap =>
    cases hp
    refine forwardsKept_setEntry hap fun hfid => ?_
    have hzer : BABitvector.zeros.zero = true := by decide
    exact absurd (hzer.symm.trans hfid) (by simp)

theorem forwardsKept_updateNode {isubscriber : NodeID × FID}
    (hp : updateNode conf st isubscriber = .ok (st', acts)) : ForwardsKept st st' := by
  unfold updateNode at hp
  split at hp
  case h_1 =>
    cases hp
    exact forwardsKept_of_index rfl
  case h_2 an _ =>
    dsimp only at hp
    split at hp
    · cases hp
      exact forwardsKept_of_index rfl
    · cases hp
      exact forwardsKept_of_index rfl

theorem forwardsKept_processTMNotification {lid : FID}
    (hp : st.processTMNotification conf lid = .ok (st', acts)) : ForwardsKept st st' := by
  obtain ⟨affected, -, hret⟩ := bind_eq_ok.1 hp
  cases hret
  refine forwardsKept_mapValues (g := invalidate lid) (fun ap hfid => ?_) rfl
  unfold invalidate at hfid ⊢
  split
  · rfl
  case isFalse hne =>
    rw [if_neg hne] at hfid
    split
    case h_1 hcont =>
      rw [hcont] at hfid
      cases hfid
    case h_2 => rfl

theorem forwardsKept_resume (hp : resume conf st f = .ok (st', acts)) : ForwardsKept st st' := by
  obtain ⟨rfl, rfl⟩ | ⟨ap, ID, hap, rfl, rfl⟩ := resume_cases hp
  · exact forwardsKept_of_index rfl
  · refine forwardsKept_setEntry hap fun _ => ⟨rfl, rfl, fun k hk => ?_⟩
    rw [replaceState, get_mapValues, hk]
    rfl

theorem forwardsKept_updateStates {state : UInt8}
    (hp : st.updateStates conf state = .ok (st', acts)) : ForwardsKept st st' := by
  unfold updateStates at hp
  split at hp
  · cases hp
    refine forwardsKept_mapValues (g := pause) (fun ap hfid => ?_) rfl
    unfold pause at hfid ⊢
    split
    · rfl
    case isFalse hne =>
      rw [if_neg hne] at hfid
      cases hfid
  · split at hp
    · obtain ⟨res, hswe, hret⟩ := bind_eq_ok.1 hp
      cases hret
      exact forwardsKept_sweep (fun _ _ _ _ hstep => forwardsKept_resume hstep) hswe
    · cases hp
      exact forwardsKept_of_index rfl

/-! ### What a step keeps -/

/-- An item that forwards had an entry before, and still has a started publisher if it had one. -/
def Keeps (st st' : Proxy) : Prop :=
  ∀ f ap', st'.activePublicationIndex.get f = some ap' → ap'.isScope = false →
    ap'.fid.zero = false →
    ∃ ap, st.activePublicationIndex.get f = some ap ∧ ap.isScope = false ∧ (ap.Served → ap'.Served)

theorem StartsKept.keeps (hk : StartsKept st st') : Keeps st st' := by
  intro f ap' hap' hitem _
  obtain ⟨ap, hap, hkeep⟩ := hk f ap' hap'
  exact ⟨ap, hap, hkeep.1.symm.trans hitem, hkeep.served⟩

theorem ForwardsKept.keeps (hk : ForwardsKept st st') : Keeps st st' := by
  intro f ap' hap' hitem hfid
  obtain ⟨ap, hap, -, hkeep⟩ := hk f ap' hap' hfid
  exact ⟨ap, hap, hkeep.1.symm.trans hitem, hkeep.served⟩

theorem keeps_handleRVNotification (hw : st.Wf) {n : Notification}
    (hp : st.handleRVNotification conf n = .ok (st', acts)) :
    Keeps st st' ∧ ∀ IDs fid, n = .startPublish IDs fid → ∀ f ∈ IDs, ∀ ap',
      st'.activePublicationIndex.get f = some ap' → ap'.Served := by
  cases n with
  | startPublish IDs fid =>
    obtain ⟨hkept, hser⟩ := sweep_notifyFirstPublisher ((quiet_assignFID IDs fid).wf hw) hp
    refine ⟨((startsKept_assignFID IDs fid).trans hkept).keeps, fun IDs' fid' heq => ?_⟩
    cases heq
    exact hser
  | updateFID IDs fid =>
    cases hp
    exact ⟨(startsKept_assignFID IDs fid).keeps, by simp⟩
  | stopPublish IDs =>
    exact ⟨(forwardsKept_sweep (fun _ _ _ _ hstep => forwardsKept_stopPublishers hstep) hp).keeps,
      by simp⟩
  | updateFIDISub isubscribers =>
    exact ⟨(forwardsKept_sweep (fun _ _ _ _ hstep => forwardsKept_updateNode hstep) hp).keeps,
      by simp⟩
  | scopePublished IDs | scopeUnpublished IDs | updateRVFID fid | updateTMFID fid | other type =>
    cases hp
    exact ⟨(forwardsKept_of_index rfl).keeps, by simp⟩

theorem Touches.keeps (ht : Touches r h f st st')
    (hentry : r = .pub → ∀ ap', st'.activePublicationIndex.get f = some ap' → ap'.isScope = false →
      ap'.fid.zero = false → ∃ ap, st.activePublicationIndex.get f = some ap ∧ ap.isScope = false ∧
      (ap.Served → ap'.Served)) :
    Keeps st st' := by
  intro g ap' hap' hitem hfid
  by_cases hk : Role.pub = r ∧ g = f
  · obtain ⟨hr, rfl⟩ := hk
    exact hentry hr.symm ap' hap' hitem hfid
  · rw [ht.index .pub g hk] at hap'
    exact ⟨ap', hap', hitem, id⟩

theorem keeps_newEntry (hh : h ∈ st.hosts) : Keeps st (st.newEntry r h f strat rvFID isScope) := by
  refine (touches_newEntry hh).keeps fun hr ap' hap' _ hfid => ?_
  subst hr
  rw [get_newEntry] at hap'
  cases hap'
  cases hfid

theorem keeps_joinEntry {a : ActiveEntry} (hh : h ∈ st.hosts) (hf : (st.index r).get f = some a) :
    Keeps st (st.joinEntry r h f a) := by
  refine (touches_joinEntry hh).keeps fun hr ap' hap' hitem _ => ?_
  subst hr
  rw [get_joinEntry] at hap'
  cases hap'
  refine ⟨a, hf, hitem, fun hs => ?_⟩
  obtain ⟨k, hk⟩ := hs
  refine ⟨k, ?_⟩
  rw [get_findInsert, if_neg, hk]
  intro heq
  exact heq.2 (heq.1 ▸ mem_of_get hk)

def MayLeave (ap : ActiveEntry) (h : HostRef) : Prop :=
  ap.isScope = false → ap.hosts.get h = some .startPublish →
    (∀ k ∈ ap.hosts, k = h) ∨ ∃ k, k ≠ h ∧ ap.hosts.get k = some .startPublish

theorem keeps_leaveEntry {a : ActiveEntry} (hf : (st.index r).get f = some a)
    (hlea : r = .pub → MayLeave a h) : Keeps st (st.leaveEntry r h f f a).2 := by
  refine touches_leaveEntry.keeps fun hr ap' hap' hitem _ => ?_
  subst hr
  rw [get_leaveEntry] at hap'
  split at hap'
  · cases hap'
  case isFalse hsize =>
    cases hap'
    refine ⟨a, hf, hitem, fun hs => ?_⟩
    obtain ⟨k, hk⟩ := hs
    by_cases hkh : k = h
    · subst hkh
      obtain hsole | ⟨k', hne, hk'⟩ := hlea rfl hitem hk
      · -- the last publisher takes the entry with it
        refine absurd (size_eq_zero_iff.2 fun k' hk' => ?_) hsize
        exact (mem_erase.1 hk').1 (hsole k' (mem_erase.1 hk').2)
      · exact ⟨k', by simp [hne, hk']⟩
    · exact ⟨k, by simp [hkh, hk]⟩

theorem keeps_of_gone (hg : Gone conf h st st') : Keeps st st' := by
  intro f ap' hap' hitem _
  obtain ⟨ap, hap, ⟨hrea, hrest⟩ | ⟨-, rfl⟩⟩ := hg.exists_get hap'
  · refine ⟨ap, hap, (restOf_eq_some hrest).2.2.1.symm.trans hitem, fun hs => ?_⟩
    have hscope : ap.isScope = false := (restOf_eq_some hrest).2.2.1.symm.trans hitem
    rw [restOf] at hrest
    split at hrest
    · cases hrest
    case isFalse hsize =>
      split at hrest
      case h_1 hnone =>
        cases hrest
        obtain ⟨k, hk⟩ := hs
        refine ⟨k, ?_⟩
        have hkh : k ≠ h := by
          -- otherwise there was a successor
          intro heq
          subst heq
          rw [successor, if_pos ⟨rfl, hscope, by rw [hk]; simp⟩, Traversal.first_eq_none_iff] at hnone
          exact hsize (length_eq_zero_iff.2 hnone)
        simp [hkh, hk]
      case h_2 k _ =>
        cases hrest
        exact ⟨k, by simp⟩
  · exact ⟨ap', hap, hitem, id⟩

/-! ### Steps -/

def notificationOf (conf : ProxyConf) : Input → Option Notification
  | .network packet =>
    if (NetworkPacket.read packet).type = publishData ∧
        (NetworkPacket.read packet).IDs = [conf.notificationIID] then
      some (readNotification (NetworkPacket.read packet).data)
    else none
  | .host _ _ (.publishData ID strategy _ payload) =>
    if strategy = implicitRendezvous ∧ ID.val = conf.notificationIID then
      some (readNotification payload)
    else none
  | _ => none

def Starts (conf : ProxyConf) (input : Input) (f : Id) : Prop :=
  ∃ IDs fid, notificationOf conf input = some (.startPublish IDs fid) ∧ f ∈ IDs

/-- A started publisher unpublishes an item as the last one only, or when another one has started.
-/
def HandsOver (conf : ProxyConf) (st : Proxy) : Input → Prop
  | .host type descriptor (.request t ID prefixID strategy) =>
    t = .unpublishScope ∨ t = .unpublishInfo →
      ∀ ap, st.activePublicationIndex.get (requestedID ID prefixID) = some ap →
        ap.strategy = strategy → MayLeave ap (st.getLocalHost conf type descriptor).1
  | _ => True

theorem keeps_removeActivePublication
    (hlea : ∀ ap, st.activePublicationIndex.get f = some ap → ap.strategy = strat → MayLeave ap h) :
    Keeps st (st.removeActivePublication h f strat).2 := by
  unfold removeActivePublication
  split
  · split
    case h_1 => exact (forwardsKept_of_index rfl).keeps
    case h_2 ap hap =>
      split
      · next heq => exact keeps_leaveEntry hap fun _ => hlea ap hap heq
      · exact (forwardsKept_of_index rfl).keeps
  · exact (forwardsKept_of_index rfl).keeps

theorem keeps_storeActivePublication (hh : h ∈ st.hosts) :
    Keeps st (st.storeActivePublication h f strat rvFID isScope).2 := by
  unfold storeActivePublication
  split
  · split
    case h_1 => exact keeps_newEntry hh
    case h_2 ap hap =>
      split
      · exact (forwardsKept_of_index rfl).keeps
      · split
        · exact keeps_joinEntry hh hap
        · exact (forwardsKept_of_index rfl).keeps
  · exact (forwardsKept_of_index rfl).keeps

theorem keeps_storeActiveSubscription (hh : h ∈ st.hosts) :
    Keeps st (st.storeActiveSubscription h f strat rvFID isScope).2 := by
  unfold storeActiveSubscription
  split
  case h_1 => exact keeps_newEntry hh
  case h_2 as has =>
    split
    · exact keeps_joinEntry hh has
    · exact (forwardsKept_of_index rfl).keeps

theorem keeps_removeActiveSubscription : Keeps st (st.removeActiveSubscription h f strat).2 := by
  unfold removeActiveSubscription
  split
  case h_1 => exact (forwardsKept_of_index rfl).keeps
  case h_2 as has =>
    split
    · exact keeps_leaveEntry has (by simp)
    · exact (forwardsKept_of_index rfl).keeps

theorem keeps_handleLocalRequest (hh : h ∈ st.hosts) {type : RequestType} {pre : Id}
    (hlea : type = .unpublishScope ∨ type = .unpublishInfo → ∀ ap,
      st.activePublicationIndex.get (requestedID ID pre) = some ap → ap.strategy = strat →
      MayLeave ap h) :
    Keeps st (st.handleLocalRequest type h ID pre strat rvFID).2 := by
  unfold handleLocalRequest
  cases type with
  | publishScope | publishInfo => exact keeps_storeActivePublication hh
  | unpublishScope => exact keeps_removeActivePublication (hlea (.inl rfl))
  | unpublishInfo => exact keeps_removeActivePublication (hlea (.inr rfl))
  | subscribeScope | subscribeInfo => exact keeps_storeActiveSubscription hh
  | unsubscribeScope | unsubscribeInfo => exact keeps_removeActiveSubscription
  | other type =>
    dsimp only
    split
    · exact keeps_storeActiveSubscription hh
    · exact (forwardsKept_of_index rfl).keeps

theorem handleRVNotification_of_push {n : Notification} (hn : notificationOf conf input = some n)
    (hp : st.push conf input = .ok (st', acts)) :
    ∃ out, (st.admitted conf input).handleRVNotification conf n = .ok (st', out) := by
  obtain ⟨⟨s, l⟩, hres, hret⟩ := bind_eq_ok.1 hp
  cases hret
  cases input with
  | network packet =>
    rw [notificationOf] at hn
    split at hn
    case isFalse => cases hn
    case isTrue hcond =>
      cases hn
      unfold dispatch handleNetworkPacket at hres
      dsimp only at hres
      rw [if_pos hcond.1, if_pos hcond.2] at hres
      obtain ⟨res, hnot, hret⟩ := bind_eq_ok.1 hres
      cases hret
      exact ⟨_, hnot⟩
  | management fd m => cases hn
  | host type fd m =>
    cases m with
    | publishData ID strat fid' payload =>
      rw [notificationOf] at hn
      split at hn
      case isFalse => cases hn
      case isTrue hcond =>
        cases hn
        unfold dispatch handleLocalMessage handlePublishData at hres
        dsimp only at hres
        rw [if_pos hcond.1, if_pos hcond.2] at hres
        obtain ⟨res, hnot, hret⟩ := bind_eq_ok.1 hres
        cases hret
        exact ⟨_, hnot⟩
    | _ => cases hn

/-- **A step keeps a publisher that has started**, and a `START_PUBLISH` makes one. -/
theorem push_keeps (hw : st.Wf) (hover : HandsOver conf st input)
    (hp : st.push conf input = .ok (st', acts)) :
    Keeps (st.admitted conf input) st' ∧
      ∀ f, Starts conf input f → ∀ ap', st'.activePublicationIndex.get f = some ap' → ap'.Served := by
  have hw' : (st.admitted conf input).Wf := hw.admitted input
  refine ⟨?_, fun f hs => ?_⟩
  · cases push_change hw hp with
    | same => exact (forwardsKept_of_index rfl).keeps
    | notification hn => exact (keeps_handleRVNotification hw' hn).1
    | path hn => exact (forwardsKept_processTMNotification hn).keeps
    | status _ hsta =>
      refine ForwardsKept.keeps (ForwardsKept.trans ?_ (forwardsKept_updateStates hsta))
      exact forwardsKept_of_index rfl
    | implicit n IDs =>
      refine (forwardsKept_of_index ?_).keeps
      unfold storeActiveNode
      split <;> rfl
    | multicast f ID =>
      refine ForwardsKept.keeps ?_
      exact forwardsKept_modifyEntry fun ap => ⟨rfl, rfl, fun _ => id⟩
    | request rvFID hi =>
      subst hi
      refine keeps_handleLocalRequest (sender_mem hw rfl) fun ht => ?_
      rw [activePublicationIndex, index_admitted]
      exact hover ht
    | subscription _ _ hs _ => exact keeps_handleLocalRequest (sender_mem hw hs) (by simp)
    | gone _ hg => exact keeps_of_gone hg
  · obtain ⟨IDs, fid, hn, hf⟩ := hs
    obtain ⟨out, hnot⟩ := handleRVNotification_of_push hn hp
    exact (keeps_handleRVNotification hw' hnot).2 IDs fid rfl f hf

/-! ### Runs -/

def Forwards (st : Proxy) (f : Id) : Prop :=
  ∃ ap, st.activePublicationIndex.get f = some ap ∧ ap.fid.zero = false

/-- Every input meets `P`; and the identifiers that have had a `START_PUBLISH` since they last did
not forward. -/
inductive StartRun (conf : ProxyConf) (P : Proxy → Input → Prop) : (Id → Prop) → Proxy → Prop
  | initial : StartRun conf P (fun _ => False) (Proxy.initial conf)
  | step {S : Id → Prop} {st st' : Proxy} {input : Input} {actions : List Action} :
    StartRun conf P S st → P st input → st.push conf input = .ok (st', actions) →
    StartRun conf P (fun f => st'.Forwards f ∧ (S f ∨ Starts conf input f)) st'

variable {P : Proxy → Input → Prop} {S : Id → Prop}

theorem exists_startRun_iff : (∃ S, StartRun conf P S st) ↔ ReachableIf conf P st := by
  constructor
  · intro hex
    obtain ⟨S, hrun⟩ := hex
    induction hrun with
    | initial => exact ⟨[], .initial⟩
    | step _ hP hp ih =>
      obtain ⟨past, hrun⟩ := ih
      exact ⟨_, hrun.step hP hp⟩
  · intro hex
    obtain ⟨past, hrun⟩ := hex
    induction hrun with
    | initial => exact ⟨_, .initial⟩
    | step _ hP hp ih =>
      obtain ⟨S, hrun⟩ := ih
      exact ⟨_, hrun.step hP hp⟩

/-- **Every item that forwards because of a `START_PUBLISH` has a started publisher**, in every run
in which they hand over. -/
theorem served_of_handsOver (hrun : StartRun conf (HandsOver conf) S st) :
    ∀ f ap, st.activePublicationIndex.get f = some ap → ap.isScope = false → S f → ap.Served := by
  induction hrun with
  | initial => exact fun f ap _ _ hS => hS.elim
  | @step S st st' input acts hrun hP hp ih =>
    intro f ap' hap' hitem hS
    obtain ⟨⟨ap'', hap'', hfid⟩, hS⟩ := hS
    rw [hap'] at hap''
    cases hap''
    have hw : st.Wf := (exists_startRun_iff.1 ⟨S, hrun⟩).wf
    obtain ⟨hkeeps, hsta⟩ := push_keeps hw hP hp
    obtain hS | hS := hS
    · obtain ⟨ap, hap, hitem', himp⟩ := hkeeps f ap' hap' hitem hfid
      rw [activePublicationIndex, index_admitted] at hap
      exact himp (ih f ap hap hitem' hS)
    · exact hsta f hS ap' hap'

def twoPublishers : List Input :=
  [requestOf 7 .publishInfo [1] [2] nodeLocal, requestOf 8 .publishInfo [1] [2] nodeLocal]

def startFirst : Input :=
  networkOf [exampleProxyConf.notificationIID] publishData
    ([startPublish, 1] ++ idBytesOf [.ofByte 1, .ofByte 2] ++ List.replicate fidLen 1)

theorem startRun_twoPublishers (hP : ∀ st, ∀ input ∈ twoPublishers ++ [startFirst], P st input) :
    ∃ S, StartRun exampleProxyConf P S (runOf exampleProxyConf (twoPublishers ++ [startFirst])) ∧
      S [.ofByte 1, .ofByte 2] := by
  have hreach : ReachableIf exampleProxyConf P (runOf exampleProxyConf twoPublishers) :=
    reachableIf_pushAll twoPublishers ⟨[], .initial⟩ fun input hmem st =>
      hP st input (mem_append_left _ hmem)
  obtain ⟨S, hrun⟩ := exists_startRun_iff.2 hreach
  have hpush : (runOf exampleProxyConf twoPublishers).push exampleProxyConf startFirst =
      .ok (runOf exampleProxyConf (twoPublishers ++ [startFirst]), _) := rfl
  refine ⟨_, hrun.step (hP _ _ (by simp)) hpush, ⟨_, rfl, ?_⟩, .inr ⟨_, _, rfl, ?_⟩⟩
  · decide +kernel
  · decide +kernel

theorem served_of_handsOver_twoPublishers :
    let st := runOf exampleProxyConf (twoPublishers ++ [startFirst])
    let f := [.ofByte 1, .ofByte 2]
    ∃ S, StartRun exampleProxyConf (HandsOver exampleProxyConf) S st ∧ S f ∧
      ∃ ap, st.activePublicationIndex.get f = some ap ∧ ap.Served := by
  have hP : ∀ st, ∀ input ∈ twoPublishers ++ [startFirst], HandsOver exampleProxyConf st input := by
    intro st input hmem
    simp only [twoPublishers, cons_append, nil_append, mem_cons, not_mem_nil, or_false] at hmem
    obtain rfl | rfl | rfl := hmem
    · exact fun ht => by simp at ht
    · exact fun ht => by simp at ht
    · trivial
  obtain ⟨S, hrun, hS⟩ := startRun_twoPublishers hP
  exact ⟨S, hrun, hS, _, rfl, served_of_handsOver hrun _ _ rfl rfl hS⟩

/-- The publisher that has started unpublishes, and the other one is not told to start. -/
theorem not_served_of_unpublished :
    let st := runOf exampleProxyConf
      (twoPublishers ++ [startFirst] ++ [requestOf 8 .unpublishInfo [1] [2] nodeLocal])
    let f := [.ofByte 1, .ofByte 2]
    ∃ S, StartRun exampleProxyConf (fun _ _ => True) S st ∧ S f ∧
      ∃ ap, st.activePublicationIndex.get f = some ap ∧ ap.isScope = false ∧
        ap.hosts.keys.toList = [1] ∧ ap.hosts.get 1 = some .stopPublish ∧ ¬ ap.Served := by
  obtain ⟨S, hrun, hS⟩ := startRun_twoPublishers (P := fun _ _ => True) fun _ _ _ => trivial
  have hpush : (runOf exampleProxyConf (twoPublishers ++ [startFirst])).push exampleProxyConf
      (requestOf 8 .unpublishInfo [1] [2] nodeLocal) = .ok (runOf exampleProxyConf
        (twoPublishers ++ [startFirst] ++ [requestOf 8 .unpublishInfo [1] [2] nodeLocal]), _) := rfl
  refine ⟨_, hrun.step trivial hpush, ⟨⟨_, rfl, ?_⟩, .inl hS⟩, _, rfl, ?_, ?_, ?_, ?_⟩
  · decide +kernel
  · decide +kernel
  · decide +kernel
  · decide +kernel
  · intro hs
    obtain ⟨h, hh⟩ := hs
    have hmem := mem_of_get hh
    have hkeys : h = 1 := mem_singleton.1 hmem
    subst hkeys
    cases hh

end Proxy

end Blackadder
