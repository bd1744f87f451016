/-
**What was last requested for an item.**

For a `DOMAIN_LOCAL` item that is not below a *-over-ICN root scope, every handler that changes its
publishers or interested subscribers requests paths again after the change, but for
`unsubscribe_info`, which cuts the item off from the father after it.
-/

import Blackadder.RvItems

namespace Blackadder

open ListSet List

variable {gc : GlobalConf} {st s t m : State} {label label' : Obj → Fragment} {i : ℕ}
  {past : List State}

open Except (Runs)

/-! ### Plain items -/

def State.Plain (st : State) (o : Obj) : Prop :=
  ∀ k ∈ st.ids o, rootFragment k ∉ knownRootscopes

instance (st : State) (o : Obj) : Decidable (st.Plain o) :=
  inferInstanceAs (Decidable (∀ k ∈ (st.ids o).toList, rootFragment k ∉ knownRootscopes))

theorem State.Plain.mono {o : Obj} (hp : st.Plain o) (hsub : ∀ k ∈ s.ids o, k ∈ st.ids o) :
    s.Plain o :=
  fun k hk => hp k (hsub k hk)

theorem isKnown_of_plain {k : Id} (hp : st.Plain (.item i)) (hk : k ∈ st.ids (.item i)) :
    isKnown gc (st.getRootScopes i) = false := by
  refine isKnown_eq_of_forall (getRootScopes_ne_nil hk) fun r hr => ?_
  obtain ⟨j, hj, rfl⟩ := mem_map.1 hr
  exact decide_eq_false (hp j hj)

theorem State.Wf.plain_father (hw : st.Wf label) (hp : st.Plain (.item i)) {f : ℕ}
    (hf : f ∈ st.fatherScopes (.item i)) : st.Plain (.scope f) := by
  intro j hj
  have := hp _ (hw.mem_of_father hf hj)
  rwa [rootFragment_append (hw.ne_nil hj)] at this

/-! ### Announced items -/

/-- The last request lists exactly the publishers and interested subscribers, if there is a
publisher. -/
def State.Announced (st : State) (i : ℕ) : Prop :=
  st.strategy (.item i) = domainLocal → (∃ n, n ∈ st.getPublishers (.item i)) →
    ∃ pubs subs, lastRequest i st.out = some (pubs, subs) ∧
      (∀ n, n ∈ pubs ↔ n ∈ st.getPublishers (.item i)) ∧ ∀ n, n ∈ subs ↔ n ∈ st.interested i

theorem State.Announced.of_quiet (ha : st.Announced i) (hw : st.Wf label) (hws : s.Wf label')
    (hq : Quiet i st s) : s.Announced i := by
  intro hdom hex
  obtain ⟨n, hn⟩ := hex
  have hn' := hq.within.publishers hw hws hn
  obtain ⟨k, hk⟩ := hw.mem_getHosts.1 hn'
  rw [hq.strategy k n hk] at hdom
  obtain ⟨pubs, subs, hlast, hpubs, hsubs⟩ := ha hdom ⟨n, hn'⟩
  refine ⟨pubs, subs, hq.requests.trans hlast, fun h => ?_, fun h => ?_⟩
  · exact (hpubs h).trans ⟨hq.covers.publishers hws hw, hq.within.publishers hw hws⟩
  · exact (hsubs h).trans ⟨hq.covers.interested hws hw, hq.within.interested hw hws⟩

theorem announced_rendezvous (hw : st.Wf label) (hp : st.Plain (.item i)) (upd : Bool) :
    (st.emits (rendezvousPackets gc st i (st.interested i) upd)).Announced i := by
  intro hdom hex
  obtain ⟨n, hn⟩ := hex
  obtain ⟨k, hk⟩ := (hw.emits _).mem_getHosts.1 hn
  have hknown : isKnown gc (st.getRootScopes i) = false :=
    isKnown_of_plain hp (hw.pair_ids _ _ _ _ hk)
  have hne : ¬ (st.getPublishers (.item i)).isEmpty = true := fun he => isEmpty_iff.1 he n hn
  have hdom' : st.strategy (.item i) = domainLocal := hdom
  have hps : rendezvousPackets gc st i (st.interested i) upd =
      [.rendezvousRequest i domainLocal (st.getPublishers (.item i)) (st.interested i)
        (st.ids (.item i)) upd] := by
    simp only [rendezvousPackets, if_neg hne, hdom', hknown]
    rfl
  refine ⟨st.getPublishers (.item i), st.interested i, ?_, fun h => Iff.rfl, fun h => Iff.rfl⟩
  rw [hps]
  exact lastRequest_concat (by simp [Packet.request]) st.out

theorem againPackets_of_plain {k : Id} (hp : st.Plain (.item i)) (hk : k ∈ st.ids (.item i))
    (upd : Bool) :
    againPackets gc m (st.getRootScopes i) i upd =
      rendezvousPackets gc m i (m.interested i) upd := by
  rw [againPackets, isKnown_of_plain hp hk]
  rfl

/-! ### Publishers leave -/

section
variable {strat : Strategy} {upd : Bool} {h : NodeID} {k : Id} {f sc : ℕ}

theorem LosesPublisher.announced (hw : st.Wf label) (hp : st.Plain (.item i))
    (hl : LosesPublisher gc label upd h k i f st s) : s.Announced i := by
  obtain ⟨m, hs, rfl⟩ := hl.settles
  rw [againPackets_of_plain hp (hl.key_mem hw)]
  exact announced_rendezvous (hs.wf hw.withdraw) (hp.mono fun _ hk => hs.ids_sub hk) upd

theorem UnpublishTry.announced (hw : st.Wf label) (ha : st.Plain (.item i) ∧ st.Announced i)
    (hu : UnpublishTry gc label strat upd h k st s) : s.Plain (.item i) ∧ s.Announced i := by
  refine ⟨ha.1.mono fun _ hk => hu.ids_sub hk, ?_⟩
  cases hu with
  | skip => exact ha.2
  | @lose i' f _ hs hl =>
    by_cases hne : i' = i
    · subst hne
      exact hl.announced hw ha.1
    · exact ha.2.of_quiet hw (hl.wf hw) (hl.quiet hne)

theorem OneShot.announced {l : List NodeID} (hw : st.Wf label)
    (ha : st.Plain (.item i) ∧ st.Announced i) (hr : OneShot gc label strat upd k l st s) :
    s.Plain (.item i) ∧ s.Announced i :=
  hr.invariant hw (fun t => t.Plain (.item i) ∧ t.Announced i)
    (fun _ _ _ hwt ih hu => hu.announced hwt ih) ha

theorem Cascade.announced (hw : st.Wf label) (ha : st.Plain (.item i) ∧ st.Announced i)
    (hc : Cascade gc label strat upd h sc st s) : s.Plain (.item i) ∧ s.Announced i :=
  hc.invariant hw (fun t => t.Plain (.item i) ∧ t.Announced i)
    (fun _ _ _ hwt _ ih hu => hu.announced hwt ih) ha

end

/-! ### Subscribers of scopes -/

section
variable {strat : Strategy} {upd : Bool} {h : NodeID} {k : Id} {sc i' : ℕ}

theorem Visits.announced {K : Prop} (hw : st.Wf label) (hp : st.Plain (.item i))
    (ha : st.Announced i ∨ i' = i) (hv : Visits gc label strat upd k K i' st s) :
    s.Plain (.item i) ∧ s.Announced i := by
  have hemits : (st.emits (rendezvousPackets gc st i' (st.interested i') upd)).Announced i := by
    by_cases hne : i' = i
    · subst hne
      exact announced_rendezvous hw hp upd
    · exact (ha.resolve_right hne).of_quiet hw (hw.emits _)
        (Quiet.emits (silent_rendezvousPackets hne _ _))
  cases hv with
  | announce => exact ⟨hp, hemits⟩
  | oneShot hr => exact hr.announced (hw.emits _) ⟨hp, hemits⟩

theorem visits_announced {K : Prop} {l : List ℕ} (hw : st.Wf label) (hp : st.Plain (.item i))
    (ha : st.Announced i ∨ i ∈ l) (hr : Runs (Visits gc label strat upd k K) l st s) :
    s.Announced i := by
  have hloop := Runs.invariant
    (fun l t => t.Wf label ∧ t.Plain (.item i) ∧ (t.Announced i ∨ i ∈ l)) hr ?_ ⟨hw, hp, ha⟩
  · exact hloop.2.2.resolve_right (by simp)
  · intro i' l t t' hinv hv
    obtain ⟨hwt, hpt, hat⟩ := hinv
    refine ⟨hv.wf hwt, ?_⟩
    by_cases hrest : i ∈ l
    · exact ⟨hpt.mono fun _ hk => hv.ids_sub hwt hk, .inr hrest⟩
    · have hnow : t.Announced i ∨ i' = i := by
        refine hat.imp id fun hmem => ?_
        exact ((mem_cons.1 hmem).resolve_right hrest).symm
      obtain ⟨hp', ha'⟩ := hv.announced hwt hpt hnow
      exact ⟨hp', .inl ha'⟩

theorem SubscribesScope.announced {a : Fragment} {prefixID : Id} (hw : st.Wf label)
    (hp : st.Plain (.item i)) (ha : st.Announced i)
    (hs : SubscribesScope gc label h strat upd st a prefixID s) (hws : s.Wf label') :
    s.Announced i := by
  cases hs with
  | added hadd => exact ha.of_quiet hw hws (hadd.quiet hw)
  | @again sc _ _ hk hstr hm hr =>
    subst hm
    have hwm := hw.register (r := .sub) (h := h) hk
    refine visits_announced (hwm.emits _) hp ?_ hr
    by_cases hf : sc ∈ st.fatherScopes (.item i)
    · exact .inr ((hw.links (.item i) sc).1 hf)
    · refine .inl ?_
      have hj : Joins label (fun _ _ => False) .sub h st (.scope sc) _ _ := Joins.there hk
      refine (ha.of_quiet hw hwm (hj.quiet hw (by simp) fun _ g hg he => hf ?_)).of_quiet hwm
        (hwm.emits _) (Quiet.emits (silent_subscopePackets _ _))
      obtain rfl : sc = g := by simpa using he
      exact hg

theorem announced_itemsPackets (hw : st.Wf label) (hp : st.Plain (.item i))
    (hi : i ∈ st.informationitems sc) : (st.emits (itemsPackets gc st sc upd)).Announced i := by
  obtain ⟨l₁, l₂, hl⟩ := append_of_mem (mem_toList.2 hi)
  have hi₂ : i ∉ l₂ := by
    have hnd := (st.informationitems sc).nodup
    rw [hl] at hnd
    exact (nodup_cons.1 (nodup_append.1 hnd).2.1).1
  rw [itemsPackets, hl, flatMap_append, flatMap_cons, ← State.emits_emits, ← State.emits_emits]
  refine State.Announced.of_quiet (announced_rendezvous (hw.emits _) hp upd)
    ((hw.emits _).emits _) (((hw.emits _).emits _).emits _) (Quiet.emits ?_)
  refine Silent.flatMap fun i' hi' => silent_rendezvousPackets ?_ _ _
  rintro rfl
  exact hi₂ hi'

theorem announced_unsubscribe (hw : st.Wf label) (hp : st.Plain (.item i)) (ha : st.Announced i)
    (hk : k ∈ st.ids (.scope sc)) (hm : m = st.withdraw .sub (.scope sc) k h) :
    (m.emits (if rootFragment k ∈ knownRootscopes then []
      else itemsPackets gc m sc upd)).Announced i := by
  subst hm
  by_cases hf : sc ∈ st.fatherScopes (.item i)
  · rw [if_neg (hw.plain_father hp hf k hk)]
    exact announced_itemsPackets hw.withdraw hp ((hw.links (.item i) sc).1 hf)
  · have hq : Quiet i st (st.withdraw .sub (.scope sc) k h) := by
      refine Quiet.withdraw (by simp) fun _ g hg he => hf ?_
      obtain rfl : sc = g := by simpa using he
      exact hg
    refine (ha.of_quiet hw hw.withdraw hq).of_quiet hw.withdraw (hw.withdraw.emits _)
      (Quiet.emits ?_)
    split
    · exact .nil
    · refine Silent.flatMap fun i' hi' => silent_rendezvousPackets ?_ _ _
      rintro rfl
      exact hf ((hw.links (.item i') sc).2 hi')

end

/-! ### Hosts of the item -/

section
variable {strat : Strategy} {upd : Bool} {h : NodeID} {k : Id} {f : ℕ}

theorem Joins.plain {adopts : Obj → ℕ → Prop} {r : Role} (hw : st.Wf label) (hwm : m.Wf label')
    (hp : st.Plain (.item i)) (hA : ∀ f, adopts (.item i) f → st.Plain (.scope f))
    (hj : Joins label adopts r h st (.item i) k m) :
    m.Plain (.item i) ∨ ∀ r' k' h', h' ∈ m.pair r' (.item i) k' → k' = k ∧ h' = h := by
  have hpair : ∀ r' k' h', h' ∈ m.pair r' (.item i) k' →
      h' ∈ st.pair r' (.item i) k' ∨ (k' = k ∧ h' = h) :=
    fun _ _ _ hh => ((hj.mem_pair hw).1 hh).imp id fun hnew => hnew.2.2
  have hids : ∀ g k', k' ∈ m.ids (.scope g) → k' ∈ st.ids (.scope g) :=
    fun _ _ hk' => hj.ids_scope hw hk'
  generalize ho : Obj.item i = o at hj
  cases hj with
  | there =>
    subst ho
    exact .inl hp
  | root => exact absurd ho (by simp)
  | @born κ g j a =>
    rw [ho] at hpair
    refine .inr fun r' k' h' hh => (hpair r' k' h' hh).resolve_left fun hh => ?_
    exact (hw.unborn ⟨κ, st.next κ⟩ le_rfl).1 k' (hw.pair_ids _ _ _ _ hh)
  | @adopted _ g j k₀ s hr hado _ _ _ _ _ hg =>
    subst ho
    refine .inl fun k' hk' => ?_
    obtain ⟨g', hg', j', hj', rfl⟩ := (hwm.inner_mem_iff State.Wf.item_not_root).1 hk'
    have hj' := hids g' j' hj'
    rw [rootFragment_append (hw.ne_nil hj')]
    rw [State.register_fatherScopes, hg.fatherScopes_eq] at hg'
    rcases State.mem_link_fatherScopes.1 hg' with hg' | ⟨-, rfl⟩
    · exact hw.plain_father hp hg' j' hj'
    · exact hA g' hado j' hj'

theorem OneShot.keeps_names {l : List NodeID} (hw : st.Wf label)
    (honly : ∀ r' k' h', h' ∈ st.pair r' (.item i) k' → k' = k ∧ h' = h)
    (hr : OneShot gc label strat upd k l st s) :
    (∀ k' ∈ st.ids (.item i), k' ∈ s.ids (.item i)) ∨ ∀ k' p, p ∉ s.pair .pub (.item i) k' := by
  refine (hr.invariant hw (fun t =>
    (∀ r' k' h', h' ∈ t.pair r' (.item i) k' → k' = k ∧ h' = h) ∧
    ((∀ k' ∈ st.ids (.item i), k' ∈ t.ids (.item i)) ∨
      ∀ k' p, p ∉ t.pair .pub (.item i) k')) ?_ ⟨honly, .inl fun _ hk => hk⟩).2
  intro p t t' _ hinv hu
  obtain ⟨honly, ih⟩ := hinv
  cases hu with
  | skip => exact ⟨honly, ih⟩
  | @lose i' f _ _ hl =>
    refine ⟨fun r' k' h' hh => honly r' k' h' (hl.mem_pair.1 hh).1, ?_⟩
    by_cases hne : i' = i
    · subst hne
      obtain ⟨-, rfl⟩ := honly _ _ _ hl.mem
      refine .inr fun k' p hh => ?_
      obtain ⟨hh, hnot⟩ := hl.mem_pair.1 hh
      obtain ⟨rfl, rfl⟩ := honly _ _ _ hh
      exact hnot ⟨rfl, rfl, rfl, rfl⟩
    · have ho : Obj.item i ≠ Obj.item i' := by simpa using Ne.symm hne
      rw [hl.ids_of_ne ho]
      exact ih.imp id fun hno k' p hh => hno k' p (hl.mem_pair.1 hh).1

theorem Matches.announced {adopts : Obj → ℕ → Prop} {r : Role} (hw : st.Wf label)
    (hp : st.Plain (.item i)) (hA : ∀ f, adopts (.item i) f → st.Plain (.scope f))
    (hj : Joins label adopts r h st (.item i) k m) (hwm : m.Wf label')
    (hm : Matches gc label' strat upd k i m s) (hps : s.Plain (.item i)) : s.Announced i := by
  have hknown : m.Plain (.item i) → isKnown gc (m.getRootScopes i) = false :=
    fun hp => isKnown_of_plain hp (hj.key_mem hw)
  cases hm with
  | announce => exact announced_rendezvous hwm hps upd
  | oneShot hk hr =>
    rcases hj.plain hw hwm hp hA with hpm | honly
    · exact absurd ((hknown hpm).symm.trans hk) (by simp)
    rcases hr.keeps_names (hwm.emits _) honly with hkeep | hnone
    · have hpm : m.Plain (.item i) := hps.mono hkeep
      exact absurd ((hknown hpm).symm.trans hk) (by simp)
    · intro _ hex
      obtain ⟨n, hn⟩ := hex
      obtain ⟨k', hk'⟩ := (hr.wf (hwm.emits _)).mem_getHosts.1 hn
      exact absurd hk' (hnone k' n)

theorem Settles.announced {ps : List Packet} (hw : st.Wf label)
    (hs : Settles label st (.item i) (some f) m) (ha : (st.emits ps).Announced i)
    (hcut : ∀ g ∈ st.fatherScopes (.item i), g ≠ f → ¬ st.UsedUnder (.item i) f →
      (∃ n, n ∈ st.getPublishers (.item i)) → ∀ k n, n ∈ st.pair .sub (.scope f) k →
        (∃ k', n ∈ st.pair .sub (.item i) k') ∨
          ∃ g ∈ st.fatherScopes (.item i), g ≠ f ∧ ∃ k', n ∈ st.pair .sub (.scope g) k') :
    (m.emits ps).Announced i := by
  have hwm := hs.wf hw
  have hwit := hs.within (i := i)
  have hstay : ∀ r o k h, h ∈ st.pair r o k → h ∈ m.pair r o k := fun _ _ _ _ => hs.mem_pair.2
  cases hs with
  | keep => exact ha
  | whole hleaf honly hunu =>
    intro _ hex
    obtain ⟨n, hn⟩ := hex
    obtain ⟨k', hk'⟩ := hwm.mem_getHosts.1 hn
    exact absurd ⟨_, _, _, hwit.hosts _ _ _ hk'⟩ hunu
  | @branch _ g hleaf hf hg hne hunu =>
    intro hdom hex
    obtain ⟨n, hn⟩ := hex
    have hn' := hwit.publishers hw hwm hn
    have hfat : ∀ g ∈ st.fatherScopes (.item i), g ≠ f →
        g ∈ (st.deleteBranch (.item i) f [label (.item i)]).fatherScopes (.item i) :=
      fun g hg hgf => State.mem_deleteBranch_fatherScopes.2 ⟨hg, fun hc => hgf hc.2⟩
    obtain ⟨pubs, subs, hlast, hpubs, hsubs⟩ := ha hdom ⟨n, hn'⟩
    refine ⟨pubs, subs, hlast, fun h => (hpubs h).trans ?_, fun h => (hsubs h).trans ?_⟩
    · refine ⟨fun hh => ?_, hwit.publishers hw hwm⟩
      obtain ⟨k, hk⟩ := hw.mem_getHosts.1 hh
      exact hwm.mem_getHosts.2 ⟨k, hstay _ _ _ _ hk⟩
    · refine ⟨fun hh => hwm.mem_interested.2 ?_, hwit.interested hw hwm⟩
      have hother : (∃ k', h ∈ st.pair .sub (.item i) k') ∨ ∃ g ∈ st.fatherScopes (.item i), g ≠ f ∧
            ∃ k', h ∈ st.pair .sub (.scope g) k' := by
        rcases hw.mem_interested.1 hh with hi | ⟨g', hg', k, hk⟩
        · exact .inl hi
        by_cases hgf : g' = f
        · subst hgf
          exact hcut g hg hne hunu ⟨n, hn'⟩ k h hk
        · exact .inr ⟨g', hg', hgf, k, hk⟩
      rcases hother with ⟨k, hk⟩ | ⟨g', hg', hgf, k, hk⟩
      · exact .inl ⟨k, hstay _ _ _ _ hk⟩
      · exact .inr ⟨g', hfat g' hg' hgf, k, hstay _ _ _ _ hk⟩

end

/-- The item `i` is cut off from `f`, but not from `g`, it is published, and `n` is interested
through `f` only. -/
structure Request.CutsOff (r : Request) (st : State) (i f g : ℕ) (n : NodeID) : Prop where
  type : r.type = .unsubscribeInfo
  item : st.pubIndex (r.prefixID ++ r.ID) = some i
  father : st.scopeIndex r.prefixID = some f
  other : g ∈ st.fatherScopes (.item i) ∧ g ≠ f
  last : ∀ ρ k h, h ∈ st.pair ρ (.item i) k → k.dropLast ∈ st.ids (.scope f) →
    ρ = .sub ∧ k = r.prefixID ++ r.ID ∧ h = r.nodeID
  published : ∃ p, p ∈ st.getPublishers (.item i)
  subscriber : n ∈ st.getSubscribers (.scope f)
  item_only : ∀ k, n ∈ st.pair .sub (.item i) k → k = r.prefixID ++ r.ID
  father_only : ∀ g ∈ st.fatherScopes (.item i), n ∈ st.getSubscribers (.scope g) → g = f

theorem LosesSubscriber.announced {upd : Bool} {r : Request} {a : Fragment} {f : ℕ}
    (hw : st.Wf label) (hp : st.Plain (.item i)) (ht : r.type = .unsubscribeInfo) (hID : r.ID = [a])
    (hcut : ∀ f g n, ¬ r.CutsOff st i f g n)
    (hl : LosesSubscriber gc label upd r.nodeID (r.prefixID ++ [a]) i f st s) : s.Announced i := by
  have hkey := hw.pair_ids _ _ _ _ hl.mem
  have hname := hl.name
  rw [dropLast_concat] at hname
  rw [← hID] at hl hkey
  obtain ⟨m, hs, rfl⟩ := hl.settles
  rw [againPackets_of_plain hp hkey]
  refine hs.announced hw.withdraw (announced_rendezvous hw.withdraw hp upd) ?_
  intro g hg hne hunu hex k n hn
  obtain ⟨p, hpub⟩ := hex
  by_contra hnone
  refine hcut f g n ⟨ht, hw.index_eq_some.2 hkey, hw.index_eq_some.2 hname, ⟨hg, hne⟩, ?_,
    ⟨p, Within.withdraw.publishers hw hw.withdraw hpub⟩,
    hw.mem_getHosts.2 ⟨k, (State.mem_withdraw_pair.1 hn).1⟩, ?_, ?_⟩
  · intro ρ k' h' hh hdrop
    by_contra hnot
    refine hunu ⟨ρ, k', h', State.mem_withdraw_pair.2 ⟨hh, fun hc => hnot ?_⟩, hdrop⟩
    exact ⟨hc.1, hc.2.2⟩
  · intro k' hk'
    by_contra hk
    refine hnone (.inl ⟨k', State.mem_withdraw_pair.2 ⟨hk', fun hc => hk hc.2.2.1⟩⟩)
  · intro g' hg' hsub
    by_contra hgf
    obtain ⟨k', hk'⟩ := hw.mem_getHosts.1 hsub
    exact hnone (.inr ⟨g', hg', hgf, k', State.mem_withdraw_pair.2 ⟨hk', by simp⟩⟩)

/-! ### Requests and runs -/

/-- The run does not link `i` below a *-over-ICN root scope, or cut it off from a father whose
subscribers stay listed. -/
def Request.Spares (r : Request) (st : State) (i : ℕ) : Prop :=
  (∀ f, r.Links st (.item i) f → st.Plain (.scope f)) ∧ ∀ f g n, ¬ r.CutsOff st i f g n

theorem Effect.announced {r : Request} (hw : st.Wf label) (hp : st.Plain (.item i))
    (ha : st.Announced i) (hr : r.Spares st i) (he : Effect gc label r st s) (hws : s.Wf label')
    (hps : s.Plain (.item i)) : s.Announced i := by
  cases he with
  | publishScope ht he => exact ha.of_quiet hw hws (he.quiet hw)
  | publishInfo ht he =>
    rcases he.cases hw i with hq | ⟨f, m, label', -, -, hj, hwm, hm⟩
    · exact ha.of_quiet hw hws hq
    · exact hm.announced hw hp (fun f hl => hr.1 f ⟨_, .inr ⟨ht, rfl⟩, hl⟩) hj hwm hps
  | unpublishScope ht hID hsc hstr hc hmem hrec =>
    have hwt := hc.wf hw
    have hq := (Quiet.withdraw (i := i) (by simp) (by simp)).trans (hrec.quiet hwt.withdraw)
    exact (hc.announced hw ⟨hp, ha⟩).2.of_quiet hwt hws hq
  | unpublishInfo ht hID hstr hl =>
    exact (UnpublishTry.announced hw ⟨hp, ha⟩ (UnpublishTry.lose hstr hl)).2
  | subscribeScope ht hID he => exact he.announced hw hp ha hws
  | subscribeInfo ht hID he =>
    rcases he.cases hw i with hq | ⟨f, m, label', -, -, hj, hwm, hm⟩
    · exact ha.of_quiet hw hws hq
    · exact hm.announced hw hp (fun f hl => absurd hl.long (by simp)) hj hwm hps
  | @unsubscribeScope a sc w _ ht hID hsc hmem hwd hrec =>
    have hk := hw.index_eq_some.1 hsc
    have hww : w.Wf label := by
      rw [hwd]
      exact hw.withdraw
    exact (announced_unsubscribe hw hp ha hk hwd).of_quiet (hww.emits _) hws
      (hrec.quiet (hww.emits _))
  | @unsubscribeInfo a i' f _ ht hID hl =>
    by_cases hne : i' = i
    · subst hne
      exact hl.announced hw hp ht hID hr.2
    · exact ha.of_quiet hw hws (hl.quiet hne)

theorem Handles.announced {r : Request} {res : RvReturnCode × State} (hw : st.Wf label)
    (hp : st.Plain (.item i)) (ha : st.Announced i) (hr : r.Spares st i)
    (hh : Handles gc label r st res) (hws : res.2.Wf label') (hps : res.2.Plain (.item i)) :
    res.2.Announced i := by
  have hwg := hw.getRemoteHost r.nodeID
  have hag := ha.of_quiet hw hwg (Quiet.host r.nodeID)
  have hrg : r.Spares (st.getRemoteHost r.nodeID) i := by
    refine ⟨?_, ?_⟩
    · intro f hex
      obtain ⟨κ, ht, hl⟩ := hex
      exact hr.1 f ⟨κ, ht, hl.kind, hl.long, hl.mem, hl.father, hl.free, hl.strategy_eq⟩
    · intro f g n hcut
      obtain ⟨h₁, h₂, h₃, h₄, h₅, h₆, h₇, h₈, h₉⟩ := hcut
      exact hr.2 f g n ⟨h₁, h₂, h₃, h₄, h₅, h₆, h₇, h₈, h₉⟩
  cases hh with
  | refused => exact hag
  | cascaded ht hID hsc hno hc => exact (hc.announced hwg ⟨hp, hag⟩).2
  | granted he => exact he.announced hwg hp hag hrg hws hps

theorem RunIf.announced (h : RunIf gc (fun r st => r.Spares st i) past st)
    (hp : ∀ t ∈ st :: past, t.Plain (.item i)) : st.Announced i := by
  induction h with
  | initial =>
    intro _ hex
    obtain ⟨n, hn⟩ := hex
    exact absurd hn (not_mem_empty n)
  | @step past st st' r fuel code hr hs hP hpush ih =>
    obtain ⟨label, hw⟩ := hr.wf
    obtain ⟨label', hw'⟩ := (RunIf.step hr hs hP hpush).wf
    have hp' : ∀ t ∈ st :: past, t.Plain (.item i) := fun t ht => hp t (mem_cons_of_mem st' ht)
    have hh := (push_meets hw hs fuel).of_eq_ok hpush
    exact hh.announced hw (hp' st mem_cons_self) (ih hp') hP hw' (hp st' mem_cons_self)

/-- **The last request is exact**: in every run that spares the item `i`, it lists exactly the
publishers and the interested subscribers while there is a publisher; without one there never was a
publisher. -/
theorem last_request_exact (h : RunIf gc (fun r st => r.Spares st i) past st)
    (hp : ∀ t ∈ st :: past, t.Plain (.item i))
    (hdom : st.strategy (.item i) = domainLocal) :
    ((∃ n, n ∈ st.getPublishers (.item i)) → ∃ pubs subs, lastRequest i st.out = some (pubs, subs) ∧
        (∀ n, n ∈ pubs ↔ n ∈ st.getPublishers (.item i)) ∧
        ∀ n, n ∈ subs ↔ n ∈ st.interested i) ∧
    (lastRequest i st.out = none → ∀ t ∈ st :: past, ∀ n, n ∉ t.getPublishers (.item i)) := by
  refine ⟨h.announced hp hdom, fun hnone t ht n hn => ?_⟩
  -- an earlier state with a publisher has a request, and requests are not taken back
  obtain ⟨hlat, past', hsub, hrun⟩ := h.of_mem ht
  obtain ⟨label, hw⟩ := hrun.wf
  obtain ⟨k, hk⟩ := hw.mem_getHosts.1 hn
  have hdom' : t.strategy (.item i) = domainLocal := by
    rw [← hlat.strategy (.item i) (hw.lt_next (hw.pair_ids _ _ _ _ hk))]
    exact hdom
  have hp' : ∀ u ∈ t :: past', u.Plain (.item i) := by
    intro u hu
    rcases mem_cons.1 hu with rfl | hu
    · exact hp u ht
    · exact hp u (mem_cons_of_mem st (hsub hu))
  obtain ⟨pubs, subs, hlast, -⟩ := hrun.announced hp' hdom' ⟨n, hn⟩
  rw [lastRequest_of_isPrefix hlat.out hnone] at hlast
  cases hlast

def watchedItem : List Request :=
  [.small 1 .publishScope [] [10] domainLocal, .small 1 .publishInfo [10] [20] domainLocal,
    .small 3 .subscribeScope [] [10] domainLocal]

theorem last_request_exact_watchedItem :
    ∃ pubs subs, lastRequest 0 (exampleRun watchedItem).out = some (pubs, subs) ∧
      (∀ n, n ∈ pubs ↔ n ∈ (exampleRun watchedItem).getPublishers (.item 0)) ∧
      ∀ n, n ∈ subs ↔ n ∈ (exampleRun watchedItem).interested 0 := by
  have hshort : ∀ r ∈ watchedItem, r.ID.length ≤ 1 := by decide
  have htype : ∀ r ∈ watchedItem, r.type ≠ .unsubscribeInfo := by decide
  have hrun : RunIf exampleConf (fun r st => r.Spares st 0) (examplePast watchedItem)
      (exampleRun watchedItem) := by
    refine runIf_pushAll watchedItem RunIf.initial (by decide) fun r hr st => ⟨?_, ?_⟩
    · exact fun f hl => absurd hl (Request.not_links_of_short (hshort r hr) _ f)
    · exact fun f g n hc => htype r hr hc.type
  exact (last_request_exact hrun (by decide +kernel) (by decide +kernel)).1
    ⟨.ofByte 1, by decide +kernel⟩

/-- An item loses its last host under the second father, which has a subscriber. -/
def staleBranch : List Request :=
  [.small 1 .publishScope [] [10] domainLocal, .small 1 .publishScope [] [11] domainLocal,
    .small 1 .publishInfo [10] [20] domainLocal, .small 2 .publishInfo [11] [10, 20] domainLocal,
    .small 3 .subscribeInfo [11] [20] domainLocal, .small 4 .subscribeScope [] [11] domainLocal,
    .small 2 .unpublishInfo [11] [20] domainLocal, .small 3 .unsubscribeInfo [11] [20] domainLocal]

/-- The last request lists the subscriber of the second father. -/
theorem stale_request_staleBranch :
    RunIf exampleConf (fun _ _ => True) (examplePast staleBranch) (exampleRun staleBranch) ∧
    (∀ t ∈ exampleRun staleBranch :: examplePast staleBranch, t.Plain (.item 0)) ∧
    (exampleRun staleBranch).strategy (.item 0) = domainLocal ∧
    .ofByte 1 ∈ (exampleRun staleBranch).getPublishers (.item 0) ∧
    .ofByte 4 ∉ (exampleRun staleBranch).interested 0 ∧
    ∃ pubs subs, lastRequest 0 (exampleRun staleBranch).out = some (pubs, subs) ∧
      .ofByte 4 ∈ subs := by
  refine ⟨runIf_pushAll staleBranch RunIf.initial (by decide) fun _ _ _ => trivial,
    by decide +kernel, by decide +kernel, by decide +kernel, by decide +kernel,
    (∅ : ListSet NodeID).insert (.ofByte 1), (∅ : ListSet NodeID).insert (.ofByte 4),
    by decide +kernel, by decide⟩

end Blackadder
