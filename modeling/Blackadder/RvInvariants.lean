/-
**Invariants of the information graph.**

In every state that runs reach, the indexes and identifiers agree, hosts and objects agree, the
strategies of fathers and children agree as long as no request links different ones, and nothing is
kept without a reason, scopes excepted that once had something below them.
-/

import Blackadder.RvRuns

namespace Blackadder

open ListSet

variable {gc : GlobalConf} {st s t m : State} {label : Obj → Fragment} {past : List State}

open Relation (ReflTransGen)

/-! ### Indexes, links and names -/

/-- **The graph is consistent** in every reachable state: the indexes are the inverse of the
identifiers, links are mutual, and objects have their fathers' identifiers extended by one fragment.
-/
theorem graph_consistent (h : Reachable gc st) :
    (∀ k sc, st.scopeIndex k = some sc ↔ k ∈ st.ids (.scope sc)) ∧
    (∀ k i, st.pubIndex k = some i ↔ k ∈ st.ids (.item i)) ∧
    (∀ k, st.scopeIndex k = none ∨ st.pubIndex k = none) ∧
    (∀ f sc, sc ∈ st.childrenScopes f ↔ f ∈ st.fatherScopes (.scope sc)) ∧
    (∀ f i, i ∈ st.informationitems f ↔ f ∈ st.fatherScopes (.item i)) ∧
    (∀ k sc, st.scopeIndex k = some sc → st.isRoot sc = true →
      ∃ a, ∀ k', k' ∈ st.ids (.scope sc) ↔ k' = [a]) ∧
    (∀ o k, k ∈ st.ids o → ¬ (o.kind = .scope ∧ st.isRoot o.ptr = true) → ∃ a, ∀ k', k' ∈ st.ids o ↔
        ∃ f ∈ st.fatherScopes o, ∃ fid ∈ st.ids (.scope f), k' = fid ++ [a]) ∧
    (∀ prefixID a i, st.pubIndex (prefixID ++ [a]) = some i →
      ∃ f, st.scopeIndex prefixID = some f ∧ f ∈ st.fatherScopes (.item i)) ∧
    (∀ prefixID a sc, st.scopeIndex (prefixID ++ [a]) = some sc →
      (st.scopeIndex prefixID = none ↔ st.isRoot sc = true)) ∧
    (∀ r fuel e, r.Shaped → push gc fuel r st = .error e → e = .stackOverflow) := by
  obtain ⟨label, hw⟩ := h.wf
  refine ⟨fun _ _ => hw.index_eq_some, fun _ _ => hw.index_eq_some, ?_,
    fun f sc => (hw.links (.scope sc) f).symm, fun f i => (hw.links (.item i) f).symm,
    ?_, ?_, ?_, ?_, ?_⟩
  · intro k
    cases hs : st.scopeIndex k with
    | none => exact .inl rfl
    | some sc =>
      refine .inr (hw.index_eq_none.2 fun i hi => ?_)
      exact absurd (hw.eq_of_mem (hw.index_eq_some.1 hs) hi) (by simp)
  · intro k sc hk hroot
    have hmem := hw.index_eq_some.1 hk
    have hk' := hw.named.root_ids (.scope sc) ⟨rfl, hroot⟩ k hmem
    refine ⟨label (.scope sc), fun k' => ⟨hw.named.root_ids _ ⟨rfl, hroot⟩ k', ?_⟩⟩
    rintro rfl
    rwa [hk'] at hmem
  · exact fun o k _ hnr => ⟨label o, fun k' => hw.inner_mem_iff hnr⟩
  · intro prefixID a i hi
    obtain ⟨f, hp, hf, -⟩ := hw.father_of_item (hw.index_eq_some.1 hi)
    exact ⟨f, hp, hf⟩
  · intro prefixID a sc hsc
    have hk := hw.index_eq_some.1 hsc
    refine ⟨fun hn => (hw.root_of_mem hn hk).2.2, fun hroot => ?_⟩
    cases hp : st.scopeIndex prefixID with
    | none => rfl
    | some f => exact absurd ⟨rfl, hroot⟩ (hw.father_of_index hp hk).2
  · exact fun r fuel e hs he => (push_meets hw hs fuel).of_eq_error he

def aliasedItem : List Request :=
  [.small 1 .publishScope [] [10] domainLocal, .small 1 .publishScope [] [11] domainLocal,
    .small 1 .publishInfo [10] [20] domainLocal, .small 2 .publishInfo [11] [10, 20] domainLocal]

theorem graph_consistent_aliasedItem :
    (exampleRun aliasedItem).pubIndex ([11, 20].map .ofByte) = some 0 ∧
    (∀ f i, i ∈ (exampleRun aliasedItem).informationitems f ↔
      f ∈ (exampleRun aliasedItem).fatherScopes (.item i)) :=
  ⟨by decide +kernel, (graph_consistent (reachable_exampleRun aliasedItem (by decide))).2.2.2.2.1⟩

/-! ### Hosts -/

def State.HostsAgree (st : State) : Prop :=
  ∀ r κ h k, k ∈ st.own r κ h ↔ ∃ p, h ∈ st.pair r ⟨κ, p⟩ k

variable {adopts : Obj → ℕ → Prop} {r : Role} {h : NodeID} {o : Obj} {k : Id}

theorem Joins.hostsAgree (hw : st.Wf label) (hj : Joins label adopts r h st o k m)
    (ha : st.HostsAgree) : m.HostsAgree := by
  intro r' κ' h' k'
  rw [hj.mem_own hw, ha]
  constructor
  · intro hcase
    rcases hcase with ⟨p, hp⟩ | ⟨rfl, rfl, rfl, rfl⟩
    · exact ⟨p, (hj.mem_pair hw).2 (.inl hp)⟩
    · exact ⟨o.ptr, (hj.mem_pair hw).2 (.inr ⟨rfl, rfl, rfl, rfl⟩)⟩
  · intro hex
    obtain ⟨p, hp⟩ := hex
    rcases (hj.mem_pair hw).1 hp with hp | ⟨rfl, rfl, rfl, rfl⟩
    · exact .inl ⟨p, hp⟩
    · exact .inr ⟨rfl, rfl, rfl, rfl⟩

theorem Settles.hostsAgree {f : Option ℕ} (hw : st.Wf label) (hmem : h ∈ st.pair r o k)
    (hs : Settles label (st.withdraw r o k h) o f m) (ha : st.HostsAgree) : m.HostsAgree := by
  intro r' κ' h' k'
  simp only [hs.own_eq, State.mem_withdraw_own, ha r' κ' h' k', hs.mem_pair,
    State.mem_withdraw_pair]
  constructor
  · intro hboth
    obtain ⟨⟨p, hp⟩, hne⟩ := hboth
    refine ⟨p, hp, ?_⟩
    intro hboth
    obtain ⟨rfl, rfl, rfl, rfl⟩ := hboth
    exact hne ⟨rfl, rfl, rfl, rfl⟩
  · intro hex
    obtain ⟨p, hp, hne⟩ := hex
    refine ⟨⟨p, hp⟩, ?_⟩
    intro hboth
    obtain ⟨rfl, rfl, rfl, rfl⟩ := hboth
    -- no other object has the identifier
    exact hne ⟨rfl, hw.eq_of_mem (hw.pair_ids _ _ _ _ hp) (hw.pair_ids _ _ _ _ hmem), rfl, rfl⟩

theorem ReachableIf.hostsAgree {P : Request → State → Prop} (h : ReachableIf gc P st) :
    st.HostsAgree := by
  refine h.invariant (A := fun _ _ _ => True) _ (fun _ _ _ _ _ _ => trivial) ?_ ?_
  · exact fun r κ h k => iff_of_false (not_mem_empty k)
      (by rintro ⟨_, hp⟩; exact not_mem_empty h hp)
  · rintro s s' - ha hm
    cases hm with
    | emits | host => exact ha
    | joins hw hj => exact hj.hostsAgree hw ha
    | departs _ hw hmem _ hs => exact hs.hostsAgree hw hmem ha

/-- **Hosts and objects agree** in every reachable state: a host is registered exactly when its own
set says so, and the sets name indexed identifiers only. -/
theorem hosts_consistent (h : Reachable gc st) :
    (∀ r o k n, k ∈ st.ids o → (n ∈ st.pair r o k ↔ k ∈ st.own r o.kind n)) ∧
    (∀ r κ k n, k ∈ st.own r κ n → ∃ p, st.index κ k = some p ∧ n ∈ st.pair r ⟨κ, p⟩ k) := by
  obtain ⟨label, hw⟩ := h.wf
  have ha := h.hostsAgree
  constructor
  · intro r o k n hk
    rw [ha]
    refine ⟨fun hn => ⟨o.ptr, hn⟩, ?_⟩
    intro hex
    obtain ⟨p, hp⟩ := hex
    have := hw.eq_of_mem (hw.pair_ids _ _ _ _ hp) hk
    rwa [this] at hp
  · intro r κ k n hk
    obtain ⟨p, hp⟩ := (ha r κ n k).1 hk
    exact ⟨p, hw.index_eq_some.2 (hw.pair_ids _ _ _ _ hp), hp⟩

theorem hosts_consistent_aliasedItem : .ofByte 2 ∈ (exampleRun aliasedItem).pair .pub (.item 0)
      ([11, 20].map .ofByte) ∧
    [11, 20].map .ofByte ∈ (exampleRun aliasedItem).own .pub .item (.ofByte 2) :=
  have hmem : .ofByte 2 ∈ (exampleRun aliasedItem).pair .pub (.item 0)
      ([11, 20].map .ofByte) := by decide +kernel
  ⟨hmem, ((hosts_consistent (reachable_exampleRun aliasedItem (by decide))).1 .pub (.item 0)
    _ _ (by decide +kernel)).1 hmem⟩

/-! ### Strategies -/

def State.StrategiesAgree (st : State) : Prop :=
  ∀ o f, f ∈ st.fatherScopes o → st.strategy o = st.strategy (.scope f)

theorem Joins.strategiesAgree (hw : st.Wf label) (hj : Joins label adopts r h st o k m)
    (hA : ∀ o f, adopts o f → st.strategy o = st.strategy (.scope f)) (ha : st.StrategiesAgree) :
    m.StrategiesAgree := by
  intro o' f hf
  rcases hj.father_cases hw hf with hf | ⟨rfl, hname, hstr⟩
  · obtain ⟨k', hk'⟩ := hw.live_of_father hf
    obtain ⟨j, hj'⟩ := hw.father_live hf
    rw [hj.strategy_of_live hw hk', hj.strategy_of_live hw hj']
    exact ha o' f hf
  · rw [hj.strategy_of_live hw hname]
    rcases hstr with hstr | ⟨hado, k₀, hk₀⟩
    · exact hstr
    · rw [hj.strategy_of_live hw hk₀]
      exact hA _ _ hado

/-- **Strategies agree** in every run in which no request links objects of different strategies. -/
theorem strategies_agree (h : ReachableIf gc
      (fun r st => ∀ o f, r.Links st o f → st.strategy o = st.strategy (.scope f)) st) :
    ∀ o f, f ∈ st.fatherScopes o → st.strategy o = st.strategy (.scope f) := by
  refine h.invariant (A := fun s o f => s.strategy o = s.strategy (.scope f))
    State.StrategiesAgree ?_ ?_ ?_
  · intro r st hP o f hex
    obtain ⟨κ, ht, hl⟩ := hex
    exact hP o f ⟨κ, ht, hl.kind, hl.long, hl.mem, hl.father, hl.free, hl.strategy_eq⟩
  · exact fun o f hf => absurd hf (not_mem_empty f)
  · rintro s s' - ha hm
    cases hm with
    | emits | host => exact ha
    | joins hw hj => exact hj.strategiesAgree hw (fun _ _ hA => hA) ha
    | departs _ hw hmem _ hs =>
      intro o f hf
      rw [hs.strategy_eq]
      exact ha o f (hs.fatherScopes_sub hf)

def nestedScopes : List Request :=
  [.small 1 .publishScope [] [10] domainLocal, .small 1 .publishScope [10] [20] domainLocal]

theorem strategies_agree_nestedScopes : 0 ∈ (exampleRun nestedScopes).fatherScopes (.scope 1) ∧
    (exampleRun nestedScopes).strategy (.scope 1) =
      (exampleRun nestedScopes).strategy (.scope 0) := by
  have hf : 0 ∈ (exampleRun nestedScopes).fatherScopes (.scope 1) := by decide +kernel
  have hshort : ∀ r ∈ nestedScopes, r.ID.length ≤ 1 := by decide
  refine ⟨hf, strategies_agree (reachableIf_pushAll nestedScopes ⟨[], RunIf.initial⟩ (by decide) ?_)
    _ _ hf⟩
  exact fun r hr st o f hl => absurd hl (Request.not_links_of_short (hshort r hr) o f)

def mixedStrategies : List Request :=
  [.small 1 .publishScope [] [10] domainLocal, .small 1 .publishScope [] [11] nodeLocal,
    .small 1 .publishScope [10] [20] domainLocal, .small 1 .publishScope [11] [10, 20] nodeLocal]

theorem strategies_differ_mixedStrategies : Reachable exampleConf (exampleRun mixedStrategies) ∧
    1 ∈ (exampleRun mixedStrategies).fatherScopes (.scope 2) ∧
    (exampleRun mixedStrategies).strategy (.scope 2) ≠
      (exampleRun mixedStrategies).strategy (.scope 1) :=
  ⟨reachable_exampleRun mixedStrategies (by decide), by decide +kernel, by decide +kernel⟩

/-! ### Nothing is kept without a reason -/

def State.Kept (st : State) (o : Obj) : Prop :=
  (o ∈ st.graph.root → st.Used o) ∧ ∀ f ∈ st.fatherScopes o, st.UsedUnder o f

def State.HasChild (st : State) (o : Obj) : Prop :=
  o.kind = .scope ∧ ∃ κ c, c ∈ st.children κ o.ptr

theorem State.Kept.used (hw : st.Wf label) (hk : k ∈ st.ids o) (hkept : st.Kept o) : st.Used o := by
  by_cases ho : o ∈ st.graph.root
  · exact hkept.1 ho
  · obtain ⟨f, hf, -⟩ := (hw.inner_mem_iff ho).1 hk
    exact (hkept.2 f hf).used

theorem State.UsedUnder.mono {f : ℕ} (hu : st.UsedUnder o f)
    (hpair : ∀ r k h, h ∈ st.pair r o k → k.dropLast ∈ st.ids (.scope f) → h ∈ s.pair r o k)
    (hids : ∀ k ∈ st.ids (.scope f), k ∈ s.ids (.scope f)) : s.UsedUnder o f := by
  obtain ⟨r, k, h, hh, hk⟩ := hu
  exact ⟨r, k, h, hpair r k h hh hk, hids _ hk⟩

section
variable {adopts : Obj → ℕ → Prop} {r : Role} {h : NodeID} {o o' : Obj} {k : Id}

theorem Joins.kept (hw : st.Wf label) (hj : Joins label adopts r h st o k m)
    (hold : st.Kept o' ∨ (o' = o ∧ ∀ k₀, k₀ ∉ st.ids o)) : m.Kept o' := by
  have hreg : h ∈ m.pair r o k := (hj.mem_pair hw).2 (.inr ⟨rfl, rfl, rfl, rfl⟩)
  constructor
  · intro hroot
    rcases hold with hkept | ⟨rfl, -⟩
    · rcases hj.root_cases hw hroot with hr | rfl
      · obtain ⟨r', k', h', hh⟩ := hkept.1 hr
        exact ⟨r', k', h', (hj.mem_pair hw).2 (.inl hh)⟩
      · exact ⟨r, k, h, hreg⟩
    · exact ⟨r, k, h, hreg⟩
  · intro f hf
    rcases hj.father_cases hw hf with hf | ⟨rfl, hname, -⟩
    · rcases hold with hkept | ⟨rfl, hdead⟩
      · refine (hkept.2 f hf).mono ?_ fun k' hk' => hj.ids_mono hw hk'
        exact fun r' k' h' hh _ => (hj.mem_pair hw).2 (.inl hh)
      · -- an object without identifiers has no father
        obtain ⟨k₀, hk₀⟩ := hw.live_of_father hf
        exact absurd hk₀ (hdead k₀)
    · exact ⟨r, k, h, hreg, hj.ids_mono hw hname⟩

end

section
variable {r : Role} {h : NodeID} {o o' : Obj} {k : Id} {f : Option ℕ}

section
variable (hw : st.Wf label) (hs : Settles label (st.withdraw r o k h) o f m)
include hw hs

theorem Settles.ids_father
    {g : ℕ} (hg : g ∈ st.fatherScopes o') : m.ids (.scope g) = st.ids (.scope g) := by
  have hchild := (hw.links o' g).1 hg
  cases hs with
  | keep => rfl
  | whole hleaf | branch hleaf =>
    refine if_neg ?_
    rintro rfl
    exact hleaf rfl _ _ hchild

theorem Settles.kept_of_ne (hne : o' ≠ o) (hkept : st.Kept o') : m.Kept o' := by
  have hpair : ∀ r' k' h', h' ∈ st.pair r' o' k' → h' ∈ m.pair r' o' k' := by
    intro r' k' h' hh
    exact hs.mem_pair.2 (State.mem_withdraw_pair.2 ⟨hh, fun hc => hne hc.2.1⟩)
  constructor
  · intro hroot
    rw [State.mem_graph_root, hs.isRoot_eq] at hroot
    obtain ⟨r', k', h', hh⟩ := hkept.1 hroot
    exact ⟨r', k', h', hpair r' k' h' hh⟩
  · intro g hg
    rw [hs.fatherScopes_of_ne hne] at hg
    refine (hkept.2 g hg).mono (fun r' k' h' hh _ => hpair r' k' h' hh) ?_
    rw [hs.ids_father hw hg]
    exact fun _ hk' => hk'

end

theorem Settles.kept_self (hw : st.Wf label) (hname : Placed st o k f)
    (hs : Settles label (st.withdraw r o k h) o f m) (hno : ¬ st.HasChild o)
    (hlive : ∃ k', k' ∈ m.ids o) (hkept : st.Kept o) : m.Kept o := by
  -- a registration under another father is not the one that is withdrawn
  have hother : ∀ g ∈ st.fatherScopes o, f ≠ some g → (st.withdraw r o k h).UsedUnder o g := by
    intro g hg hfg
    refine (hkept.2 g hg).mono ?_ fun _ hk' => hk'
    intro r' k' h' hh hk'
    refine State.mem_withdraw_pair.2 ⟨hh, ?_⟩
    intro hboth
    obtain ⟨-, -, rfl, -⟩ := hboth
    cases f with
    | none => exact hw.named.root_fathers o hname _ (State.scope_mem_graph_fathers.2 hg)
    | some f =>
      have := hw.eq_of_mem hname hk'
      exact hfg (by simpa using this)
  have hother' : ∀ g ∈ m.fatherScopes o, f ≠ some g → m.UsedUnder o g := by
    intro g hg hfg
    have hg' := hs.fatherScopes_sub hg
    refine (hother g hg' hfg).mono (fun _ _ _ hh _ => hs.mem_pair.2 hh) ?_
    rw [hs.ids_father hw hg']
    exact fun _ hk' => hk'
  obtain ⟨k', hk'⟩ := hlive
  cases hs with
  | keep hneed =>
    have hneed := hneed.resolve_left hno
    cases f with
    | none => exact ⟨fun _ => hneed, fun g hg => hother' g hg (by simp)⟩
    | some f =>
      refine ⟨fun _ => hneed.used, fun g hg => ?_⟩
      by_cases hfg : g = f
      · exact hfg ▸ hneed
      · exact hother' g hg (by simpa using Ne.symm hfg)
  | whole => exact absurd rfl (State.mem_delete_ids.1 hk').2
  | @branch f g hleaf hf =>
    refine ⟨fun hroot => ?_, fun g hg => hother' g hg ?_⟩
    · exact absurd (State.scope_mem_graph_fathers.2 hf) (hw.named.root_fathers o hroot _)
    · rintro ⟨⟩
      exact (State.mem_deleteBranch_fatherScopes.1 hg).2 ⟨rfl, rfl⟩

end

def State.InUse (st : State) (exempt : Obj → Prop) : Prop :=
  ∀ o k, k ∈ st.ids o → exempt o ∨ st.Kept o

section
variable {A : State → Obj → ℕ → Prop} {exempt : Obj → Prop}

theorem Joins.inUse (hw : st.Wf label) (hj : Joins label adopts r h st o k m)
    (hu : st.InUse exempt) : m.InUse exempt := by
  intro o' k' hk'
  by_cases hlive : ∃ k₀, k₀ ∈ st.ids o'
  · obtain ⟨k₀, hk₀⟩ := hlive
    exact (hu o' k₀ hk₀).imp id fun hkept => hj.kept hw (.inl hkept)
  · obtain rfl := (hj.live hw hk').resolve_left hlive
    exact .inr (hj.kept hw (.inr ⟨rfl, fun k₀ hk₀ => hlive ⟨k₀, hk₀⟩⟩))

theorem Settles.inUse {f : Option ℕ} (hw : st.Wf label) (hname : Placed st o k f)
    (hs : Settles label (st.withdraw r o k h) o f m) (hchild : st.HasChild o → exempt o)
    (hu : st.InUse exempt) : m.InUse exempt := by
  intro o' k' hk'
  rcases hu o' k' (hs.ids_sub hk') with he | hkept
  · exact .inl he
  · by_cases ho : o' = o
    · subst ho
      by_cases hc : st.HasChild o'
      · exact .inl (hchild hc)
      · exact .inr (hs.kept_self hw hname hc ⟨k', hk'⟩ hkept)
    · exact .inr (hs.kept_of_ne hw ho hkept)

theorem ItemMoves.inUse (hm : ItemMoves A st t) (hu : st.InUse exempt) : t.InUse exempt := by
  induction hm with
  | refl => exact hu
  | tail _ hm ih =>
    cases hm with
    | emits | host => exact ih
    | joins hw hj => exact hj.inUse hw ih
    | departs hD hw hmem hname hs =>
      refine hs.inUse hw hname (fun hc => ?_) ih
      exact absurd (hc.1.symm.trans hD) (by simp)

end

/-- A scope that has had a child may lose its last host first, and nobody looks at it when the child
goes. -/
theorem RunIf.inUse {P : Request → State → Prop} (h : RunIf gc P past st) :
    st.InUse fun o => ∃ t ∈ st :: past, t.HasChild o := by
  induction h with
  | initial => exact fun o k hk => absurd hk (not_mem_empty k)
  | @step past st st' r fuel code hr hs _ hpush ih =>
    obtain ⟨label, hw⟩ := hr.wf
    have hh := (push_meets hw hs fuel).of_eq_ok hpush
    obtain ⟨t, hm, hc⟩ := hh.phases (A := fun _ _ _ => True) hw fun _ _ _ => trivial
    have hu : st'.InUse fun o => ∃ t ∈ st :: past, t.HasChild o := by
      cases hc with
      | nothing => exact hm.inUse ih
      | departs ps hwt hmem hname hset hsub =>
        have := hset.inUse hwt hname ?_ (hm.inUse ih)
        · exact this
        · intro hboth
          obtain ⟨-, κ, c, hch⟩ := hboth
          exact ⟨st, List.mem_cons_self, rfl, κ, c, hsub κ c hch⟩
    intro o k hk
    refine (hu o k hk).imp ?_ id
    intro hex
    obtain ⟨t, ht, hchild⟩ := hex
    exact ⟨t, List.mem_cons_of_mem st' ht, hchild⟩

/-- **No zombies but former parents**: an indexed scope has a host or a child, or had a child; and
an item has a host under each of its fathers. -/
theorem no_zombies (h : RunIf gc (fun _ _ => True) past st) :
    (∀ k sc, st.scopeIndex k = some sc →
      (∃ r k' n, n ∈ st.pair r (.scope sc) k') ∨ (∃ c, c ∈ st.childrenScopes sc) ∨
      (∃ i, i ∈ st.informationitems sc) ∨
      ∃ t ∈ past, (∃ c, c ∈ t.childrenScopes sc) ∨ ∃ i, i ∈ t.informationitems sc) ∧
    (∀ i f, f ∈ st.fatherScopes (.item i) →
      ∃ r k n, n ∈ st.pair r (.item i) k ∧ k.dropLast ∈ st.ids (.scope f)) := by
  obtain ⟨label, hw⟩ := h.wf
  have hu := h.inUse
  constructor
  · intro k sc hk
    have hmem := hw.index_eq_some.1 hk
    rcases hu _ k hmem with ⟨t, ht, -, κ, c, hch⟩ | hkept
    · rcases List.mem_cons.1 ht with rfl | ht
      · cases κ with
        | scope => exact .inr (.inl ⟨c, hch⟩)
        | item => exact .inr (.inr (.inl ⟨c, hch⟩))
      · refine .inr (.inr (.inr ⟨t, ht, ?_⟩))
        cases κ with
        | scope => exact .inl ⟨c, hch⟩
        | item => exact .inr ⟨c, hch⟩
    · exact .inl (hkept.used hw hmem)
  · intro i f hf
    obtain ⟨k, hk⟩ := hw.live_of_father hf
    rcases hu _ k hk with ⟨t, -, hc, -⟩ | hkept
    · exact absurd hc (by simp)
    · exact hkept.2 f hf

theorem no_zombies_aliasedItem : 1 ∈ (exampleRun aliasedItem).fatherScopes (.item 0) ∧
    ∃ r k n, n ∈ (exampleRun aliasedItem).pair r (.item 0) k ∧
      k.dropLast ∈ (exampleRun aliasedItem).ids (.scope 1) := by
  have hf : 1 ∈ (exampleRun aliasedItem).fatherScopes (.item 0) := by decide +kernel
  obtain ⟨past, hrun⟩ := reachable_exampleRun aliasedItem (by decide)
  exact ⟨hf, (no_zombies hrun).2 0 1 hf⟩

def formerParent : List Request :=
  [.small 1 .publishScope [] [10] domainLocal, .small 1 .publishScope [10] [20] domainLocal,
    .small 1 .unpublishScope [] [10] domainLocal, .small 1 .unpublishScope [10] [20] domainLocal]

theorem zombie_formerParent : Reachable exampleConf (exampleRun formerParent) ∧
    (exampleRun formerParent).scopeIndex [.ofByte 10] = some 0 ∧
    (exampleRun formerParent).getPublishers (.scope 0) = ∅ ∧
    (exampleRun formerParent).getSubscribers (.scope 0) = ∅ ∧
    (exampleRun formerParent).childrenScopes 0 = ∅ ∧
    (exampleRun formerParent).informationitems 0 = ∅ :=
  ⟨reachable_exampleRun formerParent (by decide), by decide +kernel, by decide +kernel,
    by decide +kernel, by decide +kernel, by decide +kernel⟩

end Blackadder
