/-
**Publishers know a name.**

A publisher leaves the state `STOP_PUBLISH` when it is told to start, and then the publication knows
its names. So `updateStates` never reads beyond the end of `allKnownIDs`.
-/

import Blackadder.ProxyRuns

namespace Blackadder

open Table Except Option List

namespace ActiveEntry

def Known (ap : ActiveEntry) : Prop :=
  (∀ h s, ap.hosts.get h = some s → s = .stopPublish) ∨ ap.allKnownIDs ≠ []

theorem Known.mapValues {ap ap' : ActiveEntry} (hk : ap.Known)
    {g : HostRef → PublisherState → PublisherState} (hg : ∀ h, g h .stopPublish = .stopPublish)
    (hhosts : ap'.hosts = ap.hosts.mapValues g) (hnam : ap'.allKnownIDs = ap.allKnownIDs) :
    ap'.Known := by
  obtain hstop | hne := hk
  · refine .inl fun h s hs => ?_
    rw [hhosts] at hs
    obtain ⟨s₀, hs₀, rfl⟩ := map_eq_some_iff.1 hs
    rw [hstop h s₀ hs₀, hg]
  · exact .inr (hnam ▸ hne)

end ActiveEntry

namespace Proxy

variable {conf : ProxyConf} {st st' : Proxy} {h : HostRef} {f : Id} {ap : ActiveEntry}
  {acts : List Action} {input : Input}

/-! ### Publishers that are not stopped -/

/-- A publisher that is not in `STOP_PUBLISH` has been told a name. -/
def NamesKnown (st : Proxy) : Prop :=
  ∀ f ap, st.activePublicationIndex.get f = some ap → ap.Known

theorem namesKnown_setEntry (hk : st.NamesKnown) (hap : ap.Known) :
    (st.setEntry .pub f ap).NamesKnown := by
  intro g ap' hap'
  rw [get_setEntry] at hap'
  split at hap'
  · cases hap'
    exact hap
  · exact hk g ap' hap'

variable {g : ActiveEntry → ActiveEntry} {IDs : List Id}

section
variable (hk : st.NamesKnown) (hg : ∀ ap : ActiveEntry, ap.Known → (g ap).Known)
include hk hg

theorem namesKnown_modifyEntry : (st.modifyEntry .pub f g).NamesKnown := by
  intro k ap' hap'
  rw [get_modifyEntry] at hap'
  split at hap'
  · obtain ⟨ap, hap, rfl⟩ := map_eq_some_iff.1 hap'
    exact hg ap (hk k ap hap)
  · exact hk k ap' hap'

theorem namesKnown_mapValues (hind : st'.index = fun r =>
      if r = .pub then st.activePublicationIndex.mapValues fun _ => g else st.index r) :
    st'.NamesKnown := by
  intro f ap' hap'
  rw [activePublicationIndex, hind] at hap'
  obtain ⟨ap, hap, rfl⟩ := map_eq_some_iff.1 hap'
  exact hg ap (hk f ap hap)

end

def NamesKnownAt (st : Proxy) (IDs : List Id) : Prop :=
  st.NamesKnown ∧ ∀ f ∈ IDs, ∀ ap, st.activePublicationIndex.get f = some ap → ap.allKnownIDs ≠ []

theorem namesKnownAt_assignFID {fid : FID} (hk : st.NamesKnown) :
    (st.assignFID IDs fid).NamesKnownAt IDs := by
  suffices hgen : ∀ l : List Id, l ⊆ IDs → ∀ s : Proxy, s.NamesKnown →
      (l.foldl (fun st ID => st.modifyEntry .pub ID fun ap =>
        { ap with allKnownIDs := IDs, fid := .bits fid }) s).NamesKnown ∧
      ∀ f, (f ∈ l ∨ ∀ ap, s.activePublicationIndex.get f = some ap → ap.allKnownIDs ≠ []) → ∀ ap,
        (l.foldl (fun st ID => st.modifyEntry .pub ID fun ap =>
          { ap with allKnownIDs := IDs, fid := .bits fid }) s).activePublicationIndex.get f =
          some ap → ap.allKnownIDs ≠ [] by
    obtain ⟨h₁, h₂⟩ := hgen IDs (Subset.refl IDs) st hk
    exact ⟨h₁, fun f hf => h₂ f (.inl hf)⟩
  intro l
  induction l with
  | nil =>
    intro _ s hs
    refine ⟨hs, fun f hf => ?_⟩
    obtain hf | hf := hf
    · cases hf
    · exact hf
  | cons ID l ih =>
    intro hsub s hs
    have hne : IDs ≠ [] := ne_nil_of_mem (hsub mem_cons_self)
    obtain ⟨h₁, h₂⟩ := ih (fun f hf => hsub (mem_cons_of_mem ID hf))
      (s.modifyEntry .pub ID fun ap => { ap with allKnownIDs := IDs, fid := .bits fid })
      (namesKnown_modifyEntry hs fun ap _ => .inr hne)
    refine ⟨h₁, fun f hf => h₂ f ?_⟩
    by_cases hID : f = ID
    · refine .inr fun ap hap => ?_
      rw [get_modifyEntry, if_pos ⟨rfl, hID⟩] at hap
      obtain ⟨ap₀, -, rfl⟩ := map_eq_some_iff.1 hap
      exact hne
    · obtain hf | hf := hf
      · exact .inl ((mem_cons.1 hf).resolve_left hID)
      · refine .inr fun ap hap => ?_
        rw [get_modifyEntry, if_neg fun heq => hID heq.2] at hap
        exact hf ap hap

theorem namesKnownAt_notifyFirstPublisher {ID : Id} (hk : st.NamesKnownAt IDs) (hID : ID ∈ IDs)
    (hp : notifyFirstPublisher conf st ID = .ok (st', acts)) : st'.NamesKnownAt IDs := by
  unfold notifyFirstPublisher at hp
  split at hp
  case h_1 =>
    cases hp
    exact hk
  case h_2 ap hap =>
    split at hp
    case h_1 =>
      cases hp
      exact hk
    case h_2 =>
      cases hp
      refine ⟨namesKnown_setEntry hk.1 (.inr (hk.2 ID hID ap hap)), fun f hf ap' hap' => ?_⟩
      rw [get_setEntry] at hap'
      split at hap'
      · cases hap'
        exact hk.2 ID hID ap hap
      · exact hk.2 f hf ap' hap'

theorem namesKnown_stopPublishers {ID : Id} (hk : st.NamesKnown) (hne : IDs ≠ [])
    (hp : stopPublishers conf IDs st ID = .ok (st', acts)) : st'.NamesKnown := by
  unfold stopPublishers at hp
  split at hp
  case h_1 =>
    cases hp
    exact hk
  case h_2 =>
    cases hp
    exact namesKnown_setEntry hk (.inr hne)

theorem namesKnown_updateNode {isubscriber : NodeID × FID} (hk : st.NamesKnown)
    (hp : updateNode conf st isubscriber = .ok (st', acts)) : st'.NamesKnown := by
  unfold updateNode at hp
  split at hp
  case h_1 =>
    cases hp
    exact hk
  case h_2 =>
    dsimp only at hp
    split at hp
    · cases hp
      exact hk
    · cases hp
      exact hk

section
variable (hk : st.NamesKnown)
include hk

theorem namesKnown_handleRVNotification {n : Notification}
    (hp : st.handleRVNotification conf n = .ok (st', acts)) : st'.NamesKnown := by
  cases n with
  | startPublish IDs fid =>
    exact (sweep_keeps (I := fun s : Proxy => s.NamesKnownAt IDs)
      (fun ID hID s s' out hs hstep => namesKnownAt_notifyFirstPublisher hs hID hstep)
      (namesKnownAt_assignFID hk) hp).1
  | updateFID IDs fid =>
    cases hp
    exact (namesKnownAt_assignFID hk).1
  | stopPublish IDs =>
    exact sweep_keeps (I := NamesKnown) (fun ID hID s s' out hs hstep =>
      namesKnown_stopPublishers hs (ne_nil_of_mem hID) hstep) hk hp
  | updateFIDISub isubscribers =>
    exact sweep_keeps (I := NamesKnown) (fun n _ s s' out hs hstep =>
      namesKnown_updateNode hs hstep) hk hp
  | scopePublished IDs | scopeUnpublished IDs | updateRVFID fid | updateTMFID fid | other type =>
    cases hp
    exact hk

theorem namesKnown_processTMNotification {lid : FID}
    (hp : st.processTMNotification conf lid = .ok (st', acts)) : st'.NamesKnown := by
  obtain ⟨affected, -, hret⟩ := bind_eq_ok.1 hp
  cases hret
  refine namesKnown_mapValues hk (g := invalidate lid) (fun ap hap => ?_) rfl
  unfold invalidate
  split
  · exact hap
  · split
    · exact hap.mapValues (fun _ => rfl) rfl rfl
    · exact hap

theorem namesKnown_resume (hp : resume conf st f = .ok (st', acts)) : st'.NamesKnown := by
  obtain ⟨rfl, rfl⟩ | ⟨ap, ID, hap, rfl, rfl⟩ := resume_cases hp
  · exact hk
  · exact namesKnown_setEntry hk ((hk f ap hap).mapValues (fun _ => rfl) rfl rfl)

theorem namesKnown_updateStates {state : UInt8}
    (hp : st.updateStates conf state = .ok (st', acts)) : st'.NamesKnown := by
  unfold updateStates at hp
  split at hp
  · cases hp
    refine namesKnown_mapValues hk (g := pause) (fun ap hap => ?_) rfl
    unfold pause
    split
    · exact hap
    · exact hap.mapValues (fun _ => rfl) rfl rfl
  · split at hp
    · obtain ⟨res, hswe, hret⟩ := bind_eq_ok.1 hp
      cases hret
      exact sweep_keeps (I := NamesKnown)
        (fun f _ s s' out hs hstep => namesKnown_resume hs hstep) hk hswe
    · cases hp
      exact hk

end

theorem resume_total (conf : ProxyConf) (hk : st.NamesKnown) (f : Id) :
    ∃ st' acts, resume conf st f = .ok (st', acts) ∧ st'.NamesKnown := by
  have hok : ∃ st' acts, resume conf st f = .ok (st', acts) := by
    unfold resume
    split
    case h_1 => exact ⟨_, _, rfl⟩
    case h_2 ap hap =>
      split
      · exact ⟨_, _, rfl⟩
      · split
        case h_1 => exact ⟨_, _, rfl⟩
        case h_2 h l hpau hnam =>
          have hmem : h ∈ inState conf ap.hosts .pausePublish := by
            rw [hpau]
            exact mem_cons_self
          obtain hstop | hne := hk f ap hap
          · cases hstop h _ (mem_inState.1 hmem)
          · exact absurd hnam hne
        case h_3 => exact ⟨_, _, rfl⟩
  obtain ⟨st', acts, heq⟩ := hok
  exact ⟨st', acts, heq, namesKnown_resume hk heq⟩

theorem updateStates_total (conf : ProxyConf) (hk : st.NamesKnown) (state : UInt8) :
    ∃ st' acts, st.updateStates conf state = .ok (st', acts) := by
  unfold updateStates
  split
  · exact ⟨_, _, rfl⟩
  · split
    · obtain ⟨s, out, heq⟩ := sweep_total (I := NamesKnown)
        (fun f _ s hs => resume_total conf hs f) hk
      rw [heq]
      exact ⟨_, _, rfl⟩
    · exact ⟨_, _, rfl⟩

theorem namesKnown_of_index (hk : st.NamesKnown)
    (hind : st'.activePublicationIndex = st.activePublicationIndex) : st'.NamesKnown := by
  intro f ap hap
  rw [hind] at hap
  exact hk f ap hap

/-! ### Registrations -/

theorem Touches.namesKnown {r : Role} (ht : Touches r h f st st') (hk : st.NamesKnown)
    (hentry : r = .pub → ∀ ap, st'.activePublicationIndex.get f = some ap → ap.Known) :
    st'.NamesKnown := by
  intro g ap hap
  by_cases heq : Role.pub = r ∧ g = f
  · obtain ⟨hr, rfl⟩ := heq
    exact hentry hr.symm ap hap
  · rw [ht.index .pub g heq] at hap
    exact hk g ap hap

theorem Registration.namesKnown (hr : Registration st h st') (hk : st.NamesKnown)
    (hh : h ∈ st.hosts) : st'.NamesKnown := by
  cases hr with
  | unchanged => exact hk
  | created _ _ _ _ _ =>
    refine (touches_newEntry hh).namesKnown hk fun hr ap hap => ?_
    subst hr
    rw [get_newEntry] at hap
    cases hap
    refine .inl fun k s hs => ?_
    rw [get_findInsert] at hs
    split at hs
    · cases hs
      rfl
    · cases hs
  | joined hf =>
    refine (touches_joinEntry hh).namesKnown hk fun hr ap hap => ?_
    subst hr
    rw [get_joinEntry] at hap
    cases hap
    refine (hk _ _ hf).imp_left fun hstop k s hs => ?_
    rw [get_findInsert] at hs
    split at hs
    · cases hs
      rfl
    · exact hstop k s hs
  | left hf =>
    refine touches_leaveEntry.namesKnown hk fun hr ap hap => ?_
    subst hr
    rw [get_leaveEntry] at hap
    split at hap
    · cases hap
    · cases hap
      refine (hk _ _ hf).imp_left fun hstop k s hs => ?_
      rw [get_erase] at hs
      split at hs
      · cases hs
      · exact hstop k s hs

theorem Gone.namesKnown (hg : Gone conf h st st') (hw : st.Wf) (hk : st.NamesKnown) :
    st'.NamesKnown := by
  intro f ap' hap'
  obtain ⟨ap, hap, ⟨hrea, hrest⟩ | ⟨-, rfl⟩⟩ := hg.exists_get hap'
  · have hnam := (restOf_eq_some hrest).2.2.2
    refine (hk f ap hap).elim (fun hstop => .inl fun k s hs => ?_) fun hne => .inr (hnam ▸ hne)
    -- nobody takes over from a publisher that is stopped
    obtain ⟨a, ha, hmem⟩ := hw.registered .pub h f hrea.1
    rw [hap] at ha
    cases ha
    obtain ⟨s₀, hs₀⟩ := mem_iff.1 hmem
    have hsucc : successor conf .pub h ap = none := by
      rw [successor, if_neg]
      intro hcond
      exact hcond.2.2 (by rw [hs₀, hstop h s₀ hs₀])
    rw [restOf, hsucc] at hrest
    split at hrest
    · cases hrest
    · cases hrest
      rw [get_erase] at hs
      split at hs
      · cases hs
      · exact hstop k s hs
  · exact hk f ap' hap

/-! ### Steps and runs -/

theorem NamesKnown.push (hk : st.NamesKnown) (hw : st.Wf)
    (hp : st.push conf input = .ok (st', acts)) : st'.NamesKnown := by
  have hk' : (st.admitted conf input).NamesKnown := namesKnown_of_index hk (by
    rw [activePublicationIndex, index_admitted])
  cases push_change hw hp with
  | same => exact hk'
  | notification hn => exact namesKnown_handleRVNotification hk' hn
  | path hn => exact namesKnown_processTMNotification hk' hn
  | status _ hsta =>
    refine namesKnown_updateStates ?_ hsta
    exact namesKnown_of_index hk' rfl
  | implicit n IDs =>
    refine namesKnown_of_index hk' ?_
    unfold storeActiveNode
    split <;> rfl
  | multicast f ID => exact namesKnown_modifyEntry hk' fun _ _ => .inr (by simp)
  | @request _ _ _ _ prefixID _ _ hi =>
    subst hi
    exact (handleLocalRequest_registration (Nat.le_of_lt_succ prefixID.2)).namesKnown hk'
      (sender_mem hw rfl)
  | subscription _ _ hs hlen =>
    exact (handleLocalRequest_registration hlen).namesKnown hk' (sender_mem hw hs)
  | gone _ hg => exact hg.namesKnown (hw.admitted input) hk'

theorem Run.namesKnown {P : Proxy → Input → Prop} {past : List Input} (hrun : Run conf P past st) :
    st.NamesKnown := by
  induction hrun with
  | initial =>
    intro f ap hap
    cases hap
  | step hrun _ hp ih => exact ih.push hrun.wf hp

/-- **A publication with a publisher that is not stopped has a name**, which is read when the node
is connected again. -/
theorem allKnownIDs_ne_nil_of_publisher {s : PublisherState} (hreach : Reachable conf st)
    (hap : st.activePublicationIndex.get f = some ap) (hs : ap.hosts.get h = some s)
    (hne : s ≠ .stopPublish) :
    ap.allKnownIDs ≠ [] ∧ ∃ st' actions, st.updateStates conf reconnected = .ok (st', actions) := by
  obtain ⟨past, hrun⟩ := hreach
  refine ⟨?_, updateStates_total conf hrun.namesKnown reconnected⟩
  exact (hrun.namesKnown f ap hap).resolve_left fun hstop => hne (hstop h s hs)

theorem allKnownIDs_ne_nil_of_publisher_started :
    let st := runOf exampleProxyConf [requestOf 1 .publishInfo [1] [2] nodeLocal,
      networkOf [exampleProxyConf.notificationIID] publishData
        ([startPublish, 1] ++ idBytesOf (smallId [1, 2]) ++ List.replicate fidLen 1)]
    ∃ ap, st.activePublicationIndex.get (smallId [1, 2]) = some ap ∧
      ap.hosts.get 1 = some .startPublish ∧ ap.allKnownIDs ≠ [] := by
  intro st
  obtain ⟨ap, hap, hs⟩ := bind_eq_some_iff.1
    (show (st.activePublicationIndex.get (smallId [1, 2])).bind (fun ap => ap.hosts.get 1) =
      some .startPublish by decide +kernel)
  exact ⟨ap, hap, hs, (allKnownIDs_ne_nil_of_publisher (reachable_runOf _ _) hap hs nofun).1⟩

end Proxy

end Blackadder
