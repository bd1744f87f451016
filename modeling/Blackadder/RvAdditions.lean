/-
**Additions: what the publish and subscribe handlers do.**

A publication or subscription that is accepted is a join, followed by packets and, for *-over-ICN
items, by the removal of publishers. The handlers differ in the identifier for this and in the root
scopes that they look at. The only fault is an exhausted stack, in the recursion that renames a
scope.
-/

import Blackadder.RvRemovals

namespace Blackadder

open ListSet List Except

variable {gc : GlobalConf} {st s t m : State} {label : Obj → Fragment}

/-! ### Removing publishers after a match -/

abbrev OneShot (gc : GlobalConf) (label : Obj → Fragment) (strategy : Strategy)
    (updateOnly : Bool) (k : Id) : List NodeID → State → State → Prop :=
  Runs fun p => UnpublishTry gc label strategy updateOnly p k

section
variable {strat : Strategy} {upd : Bool} {k : Id} {l : List NodeID} {st' : State}

section
variable (hw : st.Wf label) (hr : OneShot gc label strat upd k l st st')
include hw hr

theorem OneShot.invariant (I : State → Prop)
    (step : ∀ p s s', s.Wf label → I s → UnpublishTry gc label strat upd p k s s' → I s')
    (hI : I st) : I st' := by
  refine (Runs.invariant (fun _ s => s.Wf label ∧ I s) hr ?_ ⟨hw, hI⟩).2
  intro p _ s s' hinv hu
  obtain ⟨hws, hIs⟩ := hinv
  exact ⟨hu.wf hws, step p s s' hws hIs hu⟩

theorem OneShot.wf : st'.Wf label :=
  hr.invariant hw (fun s => s.Wf label) (fun _ _ _ hws _ hu => hu.wf hws) hw

theorem OneShot.ids_of_ne {i : ℕ}
    (hk : k ∈ st.ids (.item i)) {o : Obj} (hne : o ≠ Obj.item i) : st'.ids o = st.ids o := by
  refine (hr.invariant hw
    (fun s => (∀ o' k', k' ∈ s.ids o' → k' ∈ st.ids o') ∧ s.ids o = st.ids o) ?_
    ⟨fun _ _ h => h, rfl⟩).2
  intro p s s' hws hinv hu
  obtain ⟨hsub, hids⟩ := hinv
  refine ⟨fun o' k' h => hsub o' k' (hu.ids_sub h), ?_⟩
  rw [hu.ids_of_ne hws (i := i) ?_ hne, hids]
  intro i' hi'
  simpa using hw.eq_of_mem (hsub _ _ hi') hk

end

end

theorem oneShot_meets (hw : st.Wf label) (i : ℕ) (a : Fragment) (pre : Id)
    (strat : Strategy) (upd : Bool) :
    (oneShot gc st i [a] pre strat upd).Meets (fun _ => False) fun st' =>
      OneShot gc label strat upd (pre ++ [a]) (st.getPublishers (.item i)).toList st st' := by
  refine (foldlM_runs (R := fun p => UnpublishTry gc label strat upd p (pre ++ [a]))
    (fun _ s => s.Wf label) ?_ _ st hw).mono (fun _ he => he) fun _ h => h.1
  intro p _ s hws
  refine (unpublishInfo_try hws p a pre strat upd).mono (fun _ he => he) ?_
  exact fun s' hu => ⟨hu, hu.wf hws⟩

theorem oneShotUnder_meets (hw : st.Wf label) (i : ℕ) (pre : Id) (strat : Strategy) (upd : Bool) :
    (oneShotUnder gc st i pre strat upd).Meets (fun _ => False) fun st' =>
      OneShot gc label strat upd (pre ++ [label (.item i)])
        (st.getPublishers (.item i)).toList st st' := by
  refine (foldlM_runs (R := fun p =>
      UnpublishTry gc label strat upd p (pre ++ [label (.item i)]))
    (fun l s => s.Wf label ∧ l.Nodup ∧ ∀ p ∈ l, ∃ k, p ∈ s.pair .pub (.item i) k)
    ?_ _ st ⟨hw, (st.getPublishers _).nodup, fun p hp => hw.mem_getHosts.1 hp⟩).mono
    (fun _ he => he) fun _ h => h.1
  intro p l s hinv
  obtain ⟨hws, hnd, hl⟩ := hinv
  obtain ⟨k, hp⟩ := hl p mem_cons_self
  rw [hws.suffixID_eq (hws.pair_ids _ _ _ _ hp)]
  refine (unpublishInfo_try hws p _ pre strat upd).mono (fun _ he => he) ?_
  intro s' hu
  obtain ⟨hpl, hnd⟩ := nodup_cons.1 hnd
  refine ⟨hu, hu.wf hws, hnd, ?_⟩
  intro q hq
  obtain ⟨k', hk'⟩ := hl q (mem_cons_of_mem p hq)
  refine ⟨k', ?_⟩
  cases hu with
  | skip => exact hk'
  | lose _ hlose =>
    refine hlose.mem_pair.2 ⟨hk', ?_⟩
    intro hboth
    obtain ⟨-, -, -, rfl⟩ := hboth
    exact hpl hq

/-- After a join of the item `i` under `k`: it is announced, and a *-over-ICN item that somebody is
interested in loses its publishers under `k`. -/
inductive Matches (gc : GlobalConf) (label : Obj → Fragment) (strategy : Strategy)
    (updateOnly : Bool) (k : Id) (i : ℕ) (st : State) : State → Prop
  | announce (hno : isKnown gc (st.getRootScopes i) = true → ∀ h, h ∉ st.interested i) :
    Matches gc label strategy updateOnly k i st
      (st.emits (rendezvousPackets gc st i (st.interested i) updateOnly))
  | oneShot {st' : State} (hknown : isKnown gc (st.getRootScopes i) = true)
    (hr : OneShot gc label strategy updateOnly k (st.getPublishers (.item i)).toList
      (st.emits (rendezvousPackets gc st i (st.interested i) updateOnly)) st') :
    Matches gc label strategy updateOnly k i st st'

theorem Matches.invariant {strat : Strategy} {upd : Bool} {k : Id} {i : ℕ} (hw : st.Wf label)
    (hm : Matches gc label strat upd k i st s) (I : State → Prop)
    (emits : ∀ t ps, I t → I (t.emits ps))
    (step : ∀ p k t t', t.Wf label → I t → UnpublishTry gc label strat upd p k t t' → I t')
    (hI : I st) : I s := by
  cases hm with
  | announce => exact emits _ _ hI
  | oneShot _ hr =>
    exact hr.invariant (hw.emits _) I (fun p t t' => step p k t t') (emits _ _ hI)

theorem matchPublication_meets (hw : st.Wf label) {i : ℕ} (hlive : ∃ k, k ∈ st.ids (.item i))
    (a : Fragment) (pre : Id) (strat : Strategy) (upd : Bool) :
    (matchPublication gc st i (st.interested i) [a] pre strat upd).Meets
      (fun _ => False) (Matches gc label strat upd (pre ++ [a]) i st) := by
  obtain ⟨k, hk⟩ := hlive
  simp only [matchPublication, knownScope_eq (getRootScopes_ne_nil hk), rendezvous_eq hw, ok_bind]
  split
  · rename_i hc
    refine (oneShot_meets (hw.emits _) i a pre strat upd).mono (fun _ he => he) ?_
    exact fun st' hr => Matches.oneShot hc.1 hr
  · rename_i hc
    refine Matches.announce fun hknown => isEmpty_iff.1 ?_
    by_contra he
    exact hc ⟨hknown, he⟩

/-! ### The items of a scope that is subscribed to -/

/-- The visit to the item `i` after a subscription under `k`: it is announced, and its publishers
under `k` are removed, unless `K` does not hold. -/
inductive Visits (gc : GlobalConf) (label : Obj → Fragment) (strategy : Strategy)
    (updateOnly : Bool) (k : Id) (K : Prop) (i : ℕ) (st : State) : State → Prop
  | announce (hK : ¬ K) :
    Visits gc label strategy updateOnly k K i st
      (st.emits (rendezvousPackets gc st i (st.interested i) updateOnly))
  | oneShot {st' : State}
    (hr : OneShot gc label strategy updateOnly (k ++ [label (.item i)])
      (st.getPublishers (.item i)).toList
      (st.emits (rendezvousPackets gc st i (st.interested i) updateOnly)) st') :
    Visits gc label strategy updateOnly k K i st st'

section
variable {strat : Strategy} {upd : Bool} {k : Id} {K : Prop} {i : ℕ} {st' : State}

section
variable (hw : st.Wf label) (hv : Visits gc label strat upd k K i st st')
include hw hv

theorem Visits.wf : st'.Wf label := by
  cases hv with
  | announce => exact hw.emits _
  | oneShot hr => exact hr.wf (hw.emits _)

theorem Visits.invariant (I : State → Prop) (emits : ∀ t ps, I t → I (t.emits ps))
    (step : ∀ p k t t', t.Wf label → I t → UnpublishTry gc label strat upd p k t t' → I t')
    (hI : I st) : I st' := by
  cases hv with
  | announce => exact emits _ _ hI
  | oneShot hr =>
    exact hr.invariant (hw.emits _) I (fun p t t' => step p _ t t') (emits _ _ hI)

end

theorem visits_invariant {l : List ℕ} (hw : st.Wf label)
    (hr : Runs (Visits gc label strat upd k K) l st st') (I : State → Prop)
    (emits : ∀ t ps, I t → I (t.emits ps))
    (step : ∀ p k t t', t.Wf label → I t → UnpublishTry gc label strat upd p k t t' → I t')
    (hI : I st) : I st' := by
  refine (Runs.invariant (fun _ t => t.Wf label ∧ I t) hr ?_ ⟨hw, hI⟩).2
  intro i l t t' hinv hv
  obtain ⟨hwt, hIt⟩ := hinv
  exact ⟨hv.wf hwt, hv.invariant hwt I emits step hIt⟩

theorem Visits.ids_of_ne (hw : st.Wf label) (hv : Visits gc label strat upd k K i st st')
    (hk : k ++ [label (.item i)] ∈ st.ids (.item i)) {o : Obj} (hne : o ≠ Obj.item i) :
    st'.ids o = st.ids o := by
  cases hv with
  | announce => rfl
  | oneShot hr => exact hr.ids_of_ne (hw.emits _) hk hne

end

/-- `k` is a known root scope, or all names of the items are below known ones. -/
def State.AllKnown (st : State) (sc : ℕ) (k : Id) : Prop :=
  k ∈ knownRootscopes ∨
    ∀ i ∈ st.informationitems sc, ∀ k' ∈ st.ids (.item i), rootFragment k' ∈ knownRootscopes

def Unvisited (label : Obj → Fragment) (st : State) (sc : ℕ) (l : List ℕ) (s : State) : Prop :=
  s.Wf label ∧ l.Nodup ∧ ∀ i ∈ l, i ∈ st.informationitems sc ∧ s.ids (.item i) = st.ids (.item i)

theorem unvisited_start (hw : st.Wf label) (sc : ℕ) :
    Unvisited label st sc (st.informationitems sc).toList st :=
  ⟨hw, (st.informationitems sc).nodup, fun _ hi => ⟨hi, rfl⟩⟩

section
variable {sc : ℕ} {k : Id} {i : ℕ} {l : List ℕ} {K : Prop} {strat : Strategy} {upd : Bool}

theorem Unvisited.head_mem (hu : Unvisited label st sc (i :: l) s) (hw : st.Wf label)
    (hk : k ∈ st.ids (.scope sc)) : k ++ [label (.item i)] ∈ s.ids (.item i) := by
  obtain ⟨hi, hids⟩ := hu.2.2 i mem_cons_self
  rw [hids]
  exact hw.mem_of_father ((hw.links (.item i) sc).2 hi) hk

theorem Unvisited.visit {s' : State} (hu : Unvisited label st sc (i :: l) s) (hw : st.Wf label)
    (hk : k ∈ st.ids (.scope sc)) (hv : Visits gc label strat upd k K i s s') :
    Unvisited label st sc l s' := by
  obtain ⟨hil, hnd⟩ := nodup_cons.1 hu.2.1
  refine ⟨hv.wf hu.1, hnd, ?_⟩
  intro i' hi'
  obtain ⟨hmem, hids⟩ := hu.2.2 i' (mem_cons_of_mem i hi')
  have hne : Obj.item i' ≠ Obj.item i := by
    intro he
    obtain rfl : i' = i := by simpa using he
    exact hil hi'
  exact ⟨hmem, by rw [hv.ids_of_ne hu.1 (hu.head_mem hw hk) hne, hids]⟩

end

variable {sc f fuel : ℕ} {a : Fragment} {k : Id} {r : Role} {h : NodeID} {strat : Strategy}
  {E : Fault → Prop}

theorem visitRoot_meets (hw : st.Wf label) (hk : [a] ∈ st.ids (.scope sc)) (strat : Strategy)
    (upd : Bool) : ((st.informationitems sc).toList.foldlM (fun st pub => do
        let st ← rendezvous gc st pub (st.interested pub) upd
        if [a] ∈ knownRootscopes then oneShotUnder gc st pub [a] strat upd
        else return st) st).Meets (fun _ => False) fun st' =>
      Runs (Visits gc label strat upd [a] (st.AllKnown sc [a]))
        (st.informationitems sc).toList st st' := by
  refine (foldlM_runs (R := Visits gc label strat upd [a] (st.AllKnown sc [a]))
    (Unvisited label st sc) ?_ _ st (unvisited_start hw sc)).mono (fun _ he => he) fun _ h => h.1
  intro i l s hu
  rw [rendezvous_eq hu.1]
  split
  · refine (oneShotUnder_meets (hu.1.emits _) i [a] strat upd).mono (fun _ he => he) ?_
    intro s' hr
    have hv : Visits gc label strat upd [a] (st.AllKnown sc [a]) i s s' := Visits.oneShot hr
    exact ⟨hv, hu.visit hw hk hv⟩
  · rename_i hno
    have hK : ¬ st.AllKnown sc [a] := by
      intro hcase
      rcases hcase with hK | hK
      · exact hno hK
      · obtain ⟨hi, hids⟩ := hu.2.2 i mem_cons_self
        have := hu.head_mem hw hk
        rw [hids] at this
        exact hno (hK i hi _ this)
    have hv : Visits gc label strat upd [a] (st.AllKnown sc [a]) i s (s.emits _) :=
      Visits.announce hK
    exact ⟨hv, hu.visit hw hk hv⟩

/-- The loop of `subscribe_inner_scope`. The root scopes pile up; when all names are known, so are
they. -/
theorem visitInner_meets (hw : st.Wf label) (hk : k ∈ st.ids (.scope sc)) (hinner : 1 < k.length)
    (strat : Strategy) (upd : Bool) : ((st.informationitems sc).toList.foldlM
      (fun (acc : List Id × State) pub => do
        let (roots, st) := acc
        let subscribers := st.interested pub
        let roots := roots ++ st.getRootScopes pub
        let known ← knownScope gc roots
        let st ← rendezvous gc st pub subscribers upd
        if known then
          return (roots, ← oneShotUnder gc st pub k strat upd)
        else return (roots, st)) ([], st)).Meets (fun _ => False) fun acc =>
      Runs (Visits gc label strat upd k (st.AllKnown sc k))
        (st.informationitems sc).toList st acc.2 := by
  refine (foldlM_runs (R := fun i (acc acc' : List Id × State) =>
      Visits gc label strat upd k (st.AllKnown sc k) i acc.2 acc'.2)
    (fun l acc => Unvisited label st sc l acc.2 ∧
      (st.AllKnown sc k → ∀ r ∈ acc.1, r ∈ knownRootscopes)) ?_ _ ([], st)
    ⟨unvisited_start hw sc, fun _ => by simp⟩).mono (fun _ he => he) ?_
  · rintro i l ⟨roots, s⟩ ⟨hu, hroots⟩
    have hi := hu.head_mem hw hk
    obtain ⟨hmem, hids⟩ := hu.2.2 i mem_cons_self
    have hne : roots ++ s.getRootScopes i ≠ [] := by
      intro he
      exact getRootScopes_ne_nil hi (append_eq_nil_iff.1 he).2
    have hall : st.AllKnown sc k → ∀ r ∈ roots ++ s.getRootScopes i, r ∈ knownRootscopes := by
      intro hK r hr
      rcases mem_append.1 hr with hr | hr
      · exact hroots hK r hr
      · obtain ⟨j, hj, rfl⟩ := mem_map.1 hr
        rw [hids] at hj
        exact hK.resolve_left (not_mem_knownRootscopes hinner) i hmem j hj
    simp only [knownScope_eq hne, rendezvous_eq hu.1, ok_bind]
    split
    · refine (oneShotUnder_meets (hu.1.emits _) i k strat upd).bind ?_
      intro s' hr
      have hv : Visits gc label strat upd k (st.AllKnown sc k) i s s' := Visits.oneShot hr
      exact ⟨hv, hu.visit hw hk hv, hall⟩
    · rename_i hno
      have hK : ¬ st.AllKnown sc k := fun hK => hno
        (isKnown_eq_of_forall hne fun r hr => decide_eq_true (hall hK r hr))
      have hv : Visits gc label strat upd k (st.AllKnown sc k) i s (s.emits _) := Visits.announce hK
      exact ⟨hv, hu.visit hw hk hv, hall⟩
  · intro acc hinv
    obtain ⟨hr, -⟩ := hinv
    exact hr.map Prod.snd fun _ _ _ h => h

/-! ### Adding scopes -/

/-- The request names `o` by an identifier that it has, and asks for the further father `f`. -/
structure Relinks (st : State) (κ : Kind) (ID prefixID : Id) (strategy : Strategy) (o : Obj)
    (f : ℕ) : Prop where
  kind : o.kind = κ
  long : 1 < ID.length
  mem : ID ∈ st.ids o
  father : prefixID ∈ st.ids (.scope f)
  free : ∀ y, prefixID ++ lastFragment ID ∉ st.ids y
  strategy_eq : st.strategy (.scope f) = strategy

theorem State.Wf.long_mem (hw : st.Wf label) {o : Obj} (hk : k ∈ st.ids o) (hlong : 1 < k.length) :
    lastFragment k = [label o] ∧ o ∉ st.graph.root := by
  obtain ⟨j, rfl⟩ := hw.exists_append hk
  have hj : j ≠ [] := by
    rintro rfl
    simp at hlong
  obtain ⟨f, -, -, -, -, hor⟩ := hw.father_of_mem hj hk
  exact ⟨lastFragment_append _ _, hor⟩

/-- The scope is new, or new under a father, whose subscribers are notified. -/
inductive AddsScope (gc : GlobalConf) (label : Obj → Fragment) (r : Role) (h : NodeID)
    (strategy : Strategy) (st : State) : Id → Id → ℕ → State → Prop
  | root {a : Fragment} (hfree : st.scopeIndex [a] = none) :
    AddsScope gc label r h strategy st [a] [] (st.next .scope)
      ((st.withRoot strategy a).register r (.scope (st.next .scope)) [a] h)
  | born {a : Fragment} {prefixID : Id} {f : ℕ} (hj : prefixID ∈ st.ids (.scope f))
    (hfree : ∀ o, prefixID ++ [a] ∉ st.ids o) (hstr : st.strategy (.scope f) = strategy)
    {m : State}
    (hm : m = (st.birth .scope (st.strategy (.scope f)) f a).register r
      (.scope (st.next .scope)) (prefixID ++ [a]) h) :
    AddsScope gc label r h strategy st [a] prefixID (st.next .scope)
      (m.emits (notifyPackets gc .scopePublished (m.ids (.scope (st.next .scope)))
        (m.strategy (.scope (st.next .scope))) (m.getSubscribers (.scope f))))
  | adopted {ID prefixID : Id} {sc f : ℕ} {s m : State} (hr : r = .pub)
    (hlink : Relinks st .scope ID prefixID strategy (.scope sc) f)
    (hnb : ¬ NameGraph.Below st.graph.fathers (.scope sc) (.scope f))
    (hg : State.Grows label (st.link (.scope sc) f) s) (hw : s.Wf label)
    (hm : m = s.register r (.scope sc) (prefixID ++ lastFragment ID) h) :
    AddsScope gc label r h strategy st ID prefixID sc
      (m.emits (notifyPackets gc .scopePublished ((m.ids (.scope sc)).erase ID)
        (m.strategy (.scope sc)) (m.getSubscribers (.scope f))))

theorem AddsScope.joins {ID pre : Id} {st' : State} (hw : st.Wf label)
    (ha : AddsScope gc label r h strat st ID pre sc st') :
    ∃ m ids str subs, Joins label (Relinks st .scope ID pre strat) r h st (.scope sc)
        (pre ++ lastFragment ID) m ∧
      (st' = m ∨ st' = m.emits (notifyPackets gc .scopePublished ids str subs)) := by
  cases ha with
  | root hfree => exact ⟨_, ∅, 0, ∅, Joins.root strat hfree, .inl rfl⟩
  | born hj hfree hstr hm =>
    subst hm
    exact ⟨_, _, _, _, Joins.born hj hfree, .inr rfl⟩
  | adopted hr hlink hnb hg hws hm =>
    subst hm
    obtain ⟨hlast, hor⟩ := hw.long_mem hlink.mem hlink.long
    have hfree := hlink.free
    rw [hlast] at hfree ⊢
    exact ⟨_, _, _, _, Joins.adopted hr hlink hlink.mem hor hlink.father hfree hnb hg hws, .inr rfl⟩

/-- The publisher joins a scope: one that has the identifier already, or an added one. -/
inductive PublishesScope (gc : GlobalConf) (label : Obj → Fragment) (h : NodeID)
    (strategy : Strategy) (st : State) (ID prefixID : Id) : State → Prop
  | again {sc : ℕ} (hk : prefixID ++ lastFragment ID ∈ st.ids (.scope sc)) :
    PublishesScope gc label h strategy st ID prefixID
      (st.register .pub (.scope sc) (prefixID ++ lastFragment ID) h)
  | added {sc : ℕ} {st' : State} (ha : AddsScope gc label .pub h strategy st ID prefixID sc st') :
    PublishesScope gc label h strategy st ID prefixID st'

section
variable (hw : st.Wf label)
include hw

theorem State.Wf.not_mem_birth_pair {κ : Kind} :
    h ∉ (st.birth κ strat f a).pair r ⟨κ, st.next κ⟩ k := by
  rw [(hw.birth_grows κ strat f a).pair_eq]
  intro hh
  exact (hw.unborn ⟨κ, st.next κ⟩ le_rfl).1 k (hw.pair_ids r _ k h hh)

theorem bornScope_meets (r : Role) (h : NodeID) {pre : Id} (hj : pre ∈ st.ids (.scope f))
    (hfree : ∀ o, pre ++ [a] ∉ st.ids o) (hE : fuel = 0 → E .stackOverflow) : (do
      let s ← ((st.alloc .scope (st.strategy (.scope f)) false).link
        (.scope (st.next .scope)) f).recursivelyUpdateIDs fuel (st.next .scope) [a]
      addHost s r (.scope (st.next .scope)) (pre ++ [a]) h fun m =>
        .ok (notifySubscribers gc m .scopePublished (m.ids (.scope (st.next .scope)))
          (m.strategy (.scope (st.next .scope))) (m.getSubscribers (.scope f))) :
      Result).Meets E (Answers st (AddsScope gc label r h
        (st.strategy (.scope f)) st [a] pre (st.next .scope))) := by
  cases fuel with
  | zero => exact hE rfl
  | succ n =>
    rw [hw.recursivelyUpdateIDs_newborn n _ f a ⟨pre, hj⟩, ok_bind]
    refine addHost_fresh ((hw.mem_birth_ids hj).2 (.inr ⟨rfl, _, hj, rfl⟩)) hw.not_mem_birth_pair ?_
    rw [notifySubscribers_eq]
    exact AddsScope.born hj hfree rfl rfl

theorem rootScope_meets (r : Role) (h : NodeID) (strat : Strategy)
    (hfree : st.scopeIndex [a] = none) :
    (addHost ((st.alloc .scope strat true).setIndex (.scope (st.next .scope)) [a]) r
      (.scope (st.next .scope)) [a] h .ok).Meets E
        (Answers st (AddsScope gc label r h strat st [a] [] (st.next .scope))) := by
  have hnew : [a] ∉ ((st.alloc .scope strat true).setIndex (.scope (st.next .scope))
      [a]).ids (.scope (st.next .scope)) :=
    (hw.unborn (.scope (st.next .scope)) le_rfl).1 [a]
  rw [addHost_new hnew]
  exact .granted (AddsScope.root hfree)

theorem publishInnerScope_meets (h : NodeID) (a : Fragment) (pre : Id)
    (strat : Strategy) (hE : fuel = 0 → E .stackOverflow) :
    (publishInnerScope gc fuel st h [a] pre strat).Meets E
      (Answers st (PublishesScope gc label h strat st [a] pre)) := by
  unfold publishInnerScope
  dsimp only
  split
  · exact .refused (by simp)
  rename_i hitem
  cases hp : st.scopeIndex pre with
  | none => exact .refused (by simp)
  | some f =>
    have hj := hw.index_eq_some.1 hp
    cases hi : st.scopeIndex (pre ++ [a]) with
    | none =>
      have hfree := hw.free_of_index hi (by simpa using hitem)
      dsimp only
      split
      · rename_i hstr
        subst hstr
        rw [lastFragment_append]
        exact (bornScope_meets hw .pub h hj hfree hE).mono (fun _ he => he)
          fun _ hres => hres.mono fun _ => PublishesScope.added
      · exact .refused (by simp)
    | some sc =>
      have hk := hw.index_eq_some.1 hi
      dsimp only
      split
      · exact addHost_meets hk (PublishesScope.again hk)
      · exact .refused (by simp)

theorem addHost_linked {o : Obj} {j : Id} (hg : State.Grows label (st.link o f) s)
    (hws : s.Wf label) (hj : j ∈ st.ids (.scope f)) (hfree : ∀ y, j ++ [label o] ∉ st.ids y)
    {Q : State → Prop} {andThen : State → Except Fault State}
    (hQ : (andThen (s.register r o (j ++ [label o]) h)).Meets E Q) :
    (addHost s r o (j ++ [label o]) h andThen).Meets E (Answers st Q) := by
  refine addHost_fresh (hg.mem_of_link hws hj) ?_ hQ
  rw [hg.pair_eq]
  intro hh
  exact hfree _ (hw.pair_ids _ _ _ _ hh)

theorem republishInnerScope_meets (h : NodeID) (ID pre : Id)
    (strat : Strategy) (hlong : 1 < ID.length)
    (hE : (∃ sc f, Relinks st .scope ID pre strat (.scope sc) f) → E .stackOverflow) :
    (republishInnerScope gc fuel st h ID pre strat).Meets E
      (Answers st (PublishesScope gc label h strat st ID pre)) := by
  unfold republishInnerScope
  dsimp only
  split
  · exact .refused (by simp)
  rename_i hitem
  cases hp : st.scopeIndex pre with
  | none => exact .refused (by simp)
  | some f =>
    have hj := hw.index_eq_some.1 hp
    cases hsc : st.scopeIndex ID with
    | none => exact .refused (by simp)
    | some sc =>
      have hID := hw.index_eq_some.1 hsc
      obtain ⟨hlast, hor⟩ := hw.long_mem hID hlong
      cases hi : st.scopeIndex (pre ++ lastFragment ID) with
      | none =>
        have hfree := hw.free_of_index hi (by simpa using hitem)
        dsimp only
        split
        · rename_i hstr
          have hlink : Relinks st .scope ID pre strat (.scope sc) f :=
            ⟨rfl, hlong, hID, hj, hfree, hstr⟩
          -- the old prefix and the last fragment are the identifier itself
          have hera : ID.take (ID.length - 1) ++ lastFragment ID = ID := take_append_drop _ ID
          rw [hera]
          rw [hlast] at hfree ⊢
          have hrec := hw.recursivelyUpdateIDs_link fuel hID hor hj hfree
          refine (hrec.mono (fun e he => ?_) fun _ h => h).bind ?_
          · rw [he]
            exact hE ⟨sc, f, hlink⟩
          intro s hs
          obtain ⟨hnb, hg, hws⟩ := hs
          refine addHost_linked hw hg hws hj hfree ?_
          rw [notifySubscribers_eq]
          exact PublishesScope.added (AddsScope.adopted rfl hlink hnb hg hws (by rw [hlast]))
        · exact .refused (by simp)
      | some equivalent =>
        have hk := hw.index_eq_some.1 hi
        dsimp only
        split
        · exact addHost_meets hk (PublishesScope.again hk)
        · exact .refused (by simp)

/-- **`publish_scope`** only faults for want of stack, and succeeds exactly when the publisher
joins. -/
theorem publishScope_meets (fuel : ℕ) (h : NodeID) (ID pre : Id) (strat : Strategy)
    (hE : (fuel = 0 ∨ ∃ sc f, Relinks st .scope ID pre strat (.scope sc) f) → E .stackOverflow) :
    (publishScope gc fuel st h ID pre strat).Meets E
      (Answers st (PublishesScope gc label h strat st ID pre)) := by
  unfold publishScope
  split
  · rename_i hlen
    obtain ⟨a, rfl⟩ := length_eq_one_iff.1 hlen.2
    obtain rfl := length_eq_zero_iff.1 hlen.1
    cases hi : st.scopeIndex [a] with
    | none =>
      simp only [publishRootScope, hi]
      exact (rootScope_meets hw .pub h strat hi).mono (fun _ he => he)
        fun _ hres => hres.mono fun _ => PublishesScope.added
    | some sc =>
      have hk := hw.index_eq_some.1 hi
      simp only [publishRootScope, hi]
      split
      · exact addHost_meets hk (PublishesScope.again hk)
      · exact .refused (by simp)
  split
  · rename_i hlen
    obtain ⟨a, rfl⟩ := length_eq_one_iff.1 hlen.2
    exact publishInnerScope_meets hw h a pre strat fun hz => hE (.inl hz)
  split
  · rename_i hlen
    exact republishInnerScope_meets hw h ID pre strat hlen.2 fun hl => hE (.inr hl)
  · exact .refused (by simp)

end

/-! ### Adding information -/

def JoinsInfo (gc : GlobalConf) (label : Obj → Fragment) (r : Role) (h : NodeID)
    (strategy : Strategy) (updateOnly : Bool) (st : State) (ID prefixID : Id) (st' : State) : Prop :=
  ∃ i f m label', prefixID ∈ st.ids (.scope f) ∧ st.strategy (.scope f) = strategy ∧
    Joins label (Relinks st .item ID prefixID strategy) r h st (.item i)
      (prefixID ++ lastFragment ID) m ∧
    m.Wf label' ∧ Matches gc label' strategy updateOnly (prefixID ++ lastFragment ID) i m st'

theorem State.Wf.birth_fatherScopes (hw : st.Wf label) {κ : Kind} :
    (st.birth κ strat f a).fatherScopes ⟨κ, st.next κ⟩ = (∅ : ListSet ℕ).insert f := by
  rw [(hw.birth_grows κ strat f a).fatherScopes_eq, State.link_fatherScopes, if_pos rfl,
    State.alloc_fatherScopes, eq_empty_of_forall_not_mem fun g => hw.not_mem_newborn g]

theorem State.Wf.birth_interested (hw : st.Wf label)
    (hm : m = (st.birth .item strat f a).register r (.item (st.next .item)) k h) :
    (m.getSubscribers (.item (st.next .item))).union (m.getSubscribers (.scope f)) =
      m.interested (st.next .item) := by
  have hf : m.fatherScopes (.item (st.next .item)) = (∅ : ListSet ℕ).insert f := by
    rw [hm]
    exact hw.birth_fatherScopes
  rw [State.interested, hf]
  rfl

section
variable {h : NodeID} {strat : Strategy} {upd : Bool} {pre : Id} {f : ℕ}

variable {andThen : State → Except Fault State}

theorem joinsInfo_there (hw : st.Wf label) {i : ℕ} {ID : Id} (hlast : lastFragment ID = [a])
    (hj : pre ∈ st.ids (.scope f)) (hstr : st.strategy (.scope f) = strat)
    (hk : pre ++ [a] ∈ st.ids (.item i))
    (hthen : ∀ m : State, m.Wf label → (∃ k, k ∈ m.ids (.item i)) →
      (andThen m).Meets (fun _ => False) (Matches gc label strat upd (pre ++ [a]) i m)) :
    (addHost st r (.item i) (pre ++ [a]) h andThen).Meets (fun _ => False)
      (Answers st (JoinsInfo gc label r h strat upd st ID pre)) := by
  refine addHost_meets hk ((hthen _ (hw.register hk) ⟨_, hk⟩).mono (fun _ he => he) ?_)
  intro st' hm
  rw [← hlast] at hm hk
  exact ⟨i, f, _, label, hj, hstr, Joins.there hk, hw.register hk, hm⟩

theorem joinsInfo_born (hw : st.Wf label) (hj : pre ∈ st.ids (.scope f))
    (hstr : st.strategy (.scope f) = strat) (hfree : ∀ o, pre ++ [a] ∉ st.ids o)
    (hthen : ∀ m label', m = (st.birth .item (st.strategy (.scope f)) f a).register r
        (.item (st.next .item)) (pre ++ [a]) h →
      m.Wf label' → (∃ k, k ∈ m.ids (.item (st.next .item))) → (andThen m).Meets (fun _ => False)
        (Matches gc label' strat upd (pre ++ [a]) (st.next .item) m)) :
    (addHost (st.birth .item (st.strategy (.scope f)) f a) r (.item (st.next .item))
      (pre ++ [a]) h andThen).Meets (fun _ => False)
      (Answers st (JoinsInfo gc label r h strat upd st [a] pre)) := by
  have hk : pre ++ [a] ∈ (st.birth .item (st.strategy (.scope f)) f a).ids
      (.item (st.next .item)) :=
    (hw.mem_birth_ids hj).2 (.inr ⟨rfl, _, hj, rfl⟩)
  have hwb := (hw.birth (κ := .item) (st.strategy (.scope f)) hj hfree).register
    (r := r) (h := h) hk
  refine addHost_fresh hk hw.not_mem_birth_pair ?_
  refine (hthen _ _ rfl hwb ⟨_, hk⟩).mono (fun _ he => he) ?_
  intro st' hm
  exact ⟨_, f, _, _, hj, hstr, Joins.born hj hfree, hwb, hm⟩

end

section
variable (hw : st.Wf label)
include hw

theorem advertiseInfo_meets (h : NodeID) (a : Fragment) (pre : Id) (strat : Strategy) (upd : Bool) :
    (advertiseInfo gc st h [a] pre strat upd).Meets (fun _ => False)
      (Answers st (JoinsInfo gc label .pub h strat upd st [a] pre)) := by
  cases hp : st.scopeIndex pre with
  | none =>
    simp only [advertiseInfo, hp]
    exact .refused (by simp)
  | some f =>
    have hj := hw.index_eq_some.1 hp
    cases hi : st.pubIndex (pre ++ [a]) with
    | none =>
      simp only [advertiseInfo, hp, hi, State.newItem, lastFragment_append]
      split
      · exact .refused (by simp)
      rename_i hsc
      have hfree := hw.free_of_index (by simpa using hsc) hi
      split
      · rename_i hstr
        refine joinsInfo_born hw hj hstr hfree ?_
        intro m label' hm hwm hlive
        rw [hw.birth_interested hm]
        exact matchPublication_meets hwm hlive a pre strat upd
      · exact .refused (by simp)
    | some i =>
      have hk := hw.index_eq_some.1 hi
      simp only [advertiseInfo, hp, hi]
      split
      · rename_i hstr
        refine joinsInfo_there (a := a) hw rfl hj hstr hk ?_
        intro m hwm hlive
        exact matchPublication_meets hwm hlive a pre strat upd
      · exact .refused (by simp)

theorem readvertiseInfo_meets (h : NodeID) (ID pre : Id)
    (strat : Strategy) (upd : Bool) (hlong : 1 < ID.length) :
    (readvertiseInfo gc st h ID pre strat upd).Meets (fun _ => False)
      (Answers st (JoinsInfo gc label .pub h strat upd st ID pre)) := by
  unfold readvertiseInfo
  dsimp only
  split
  · exact .refused (by simp)
  rename_i hsc
  cases hp : st.scopeIndex pre with
  | none => exact .refused (by simp)
  | some f =>
    have hj := hw.index_eq_some.1 hp
    cases hID : st.pubIndex ID with
    | none => exact .refused (by simp)
    | some i =>
      have hmem := hw.index_eq_some.1 hID
      obtain ⟨hlast, hor⟩ := hw.long_mem hmem hlong
      cases hi : st.pubIndex (pre ++ lastFragment ID) with
      | none =>
        have hfree := hw.free_of_index (by simpa using hsc) hi
        dsimp only
        split
        · rename_i hstr
          have hlink : Relinks st .item ID pre strat (.item i) f :=
            ⟨rfl, hlong, hmem, hj, hfree, hstr⟩
          rw [hlast] at hfree ⊢
          -- an item has nothing below it, so the new father is not below it
          have hnb : ¬ NameGraph.Below st.graph.fathers (.item i) (.scope f) :=
            State.not_below_item (by simp)
          have hg := State.updateIDs_grows (hw.link_nameable (.item i) f) (.item i)
          have hws := hw.adopt hmem hor hj hfree hnb hg (State.updateIDs_item_closes i)
          have hk := hg.mem_of_link hws hj
          have hwm := hws.register (r := .pub) (h := h) hk
          refine addHost_linked hw hg hws hj hfree ((matchPublication_meets hwm ⟨_, hk⟩ _
            pre strat upd).mono (fun _ he => he) ?_)
          intro st' hm
          have hjoin := Joins.adopted (h := h) rfl hlink hmem hor hj hfree hnb hg hws
          rw [← hlast] at hjoin hm
          exact ⟨i, f, _, label, hj, hstr, hjoin, hlast ▸ hwm, hm⟩
        · exact .refused (by simp)
      | some equivalent =>
        have hk := hw.index_eq_some.1 hi
        rw [hlast] at hk ⊢
        dsimp only
        split
        · rename_i hstr
          refine joinsInfo_there hw hlast hj hstr hk ?_
          intro m hwm hlive
          exact matchPublication_meets hwm hlive _ pre strat upd
        · exact .refused (by simp)

/-- **`publish_info`** does not fault, and succeeds exactly when the publisher joins. -/
theorem publishInfo_meets (h : NodeID) (ID pre : Id) (strat : Strategy) (upd : Bool) :
    (publishInfo gc st h ID pre strat upd).Meets (fun _ => False)
      (Answers st (JoinsInfo gc label .pub h strat upd st ID pre)) := by
  unfold publishInfo
  split
  · rename_i hlen
    obtain ⟨a, rfl⟩ := length_eq_one_iff.1 hlen.2
    exact advertiseInfo_meets hw h a pre strat upd
  split
  · rename_i hlen
    exact readvertiseInfo_meets hw h ID pre strat upd hlen.2
  · exact .refused (by simp)

theorem matches_of_no_publisher {i : ℕ} {upd : Bool} (hno : ∀ k h, h ∉ st.pair .pub (.item i) k) :
    Matches gc label strat upd k i st st := by
  have hps : st.emits (rendezvousPackets gc st i (st.interested i) upd) = st := by
    rw [rendezvousPackets_of_no_publisher hw hno, State.emits_nil]
  have hpub : st.getPublishers (.item i) = ∅ := by
    refine eq_empty_of_forall_not_mem fun h hh => ?_
    obtain ⟨k, hk⟩ := hw.mem_getHosts.1 hh
    exact hno k h hk
  cases hknown : isKnown gc (st.getRootScopes i) with
  | true =>
    refine Matches.oneShot hknown ?_
    rw [hps, hpub]
    exact Runs.nil st
  | false =>
    have hm : Matches gc label strat upd k i st (st.emits _) := Matches.announce (by simp [hknown])
    rwa [hps] at hm

/-- **`subscribe_info`** does not fault, and succeeds exactly when the subscriber joins. -/
theorem subscribeInfo_meets (h : NodeID) (a : Fragment) (pre : Id) (strat : Strategy) (upd : Bool) :
    (subscribeInfo gc st h [a] pre strat upd).Meets (fun _ => False)
      (Answers st (JoinsInfo gc label .sub h strat upd st [a] pre)) := by
  by_cases hlen : 0 < pre.length ∧ [a].length = 1
  swap
  · simp only [subscribeInfo, if_neg hlen]
    exact .refused (by simp)
  cases hp : st.scopeIndex pre with
  | none =>
    simp only [subscribeInfo, if_pos hlen, hp]
    exact .refused (by simp)
  | some f =>
    have hj := hw.index_eq_some.1 hp
    cases hi : st.pubIndex (pre ++ [a]) with
    | none =>
      simp only [subscribeInfo, if_pos hlen, hp, hi, lastFragment_append]
      split
      · exact .refused (by simp)
      rename_i hsc
      have hfree := hw.free_of_index (by simpa using hsc) hi
      split
      · rename_i hstr
        refine joinsInfo_born hw hj hstr hfree ?_
        intro m label' hm hwm _
        refine matches_of_no_publisher hwm ?_
        intro k p hp
        rw [hm] at hp
        rcases State.mem_register_pair.1 hp with hp | ⟨hr, -⟩
        · exact hw.not_mem_birth_pair hp
        · cases hr
      · exact .refused (by simp)
    | some i =>
      have hk := hw.index_eq_some.1 hi
      simp only [subscribeInfo, if_pos hlen, hp, hi]
      split
      · rename_i hstr
        refine joinsInfo_there (a := a) hw rfl hj hstr hk ?_
        intro m hwm hex
        obtain ⟨k, hkm⟩ := hex
        simp only [knownScope_eq (getRootScopes_ne_nil hkm), rendezvous_eq hwm, ok_bind]
        split
        · rename_i hknown
          exact (oneShot_meets (hwm.emits _) i a pre strat upd).mono
            (fun _ he => he) fun _ hr => Matches.oneShot hknown hr
        · rename_i hknown
          exact .announce fun hc => absurd hc hknown
      · exact .refused (by simp)

end

/-! ### Subscribing to scopes -/

def subscopePackets (gc : GlobalConf) (st : State) (sc : ℕ) (h : NodeID) : List Packet :=
  (st.childrenScopes sc).toList.flatMap fun c =>
    notifyPackets gc .scopePublished (st.ids (.scope c)) (st.strategy (.scope c))
      ((∅ : ListSet NodeID).insert h)

theorem notifySubscopes_eq (sc : ℕ) (h : NodeID) :
    notifySubscopes gc st sc h = st.emits (subscopePackets gc st sc h) := by
  simp only [notifySubscopes, notifySubscribers_eq]
  exact foldl_emits _ (fun _ _ _ => rfl) _

/-- The subscriber joins a scope that is there, whose items are visited, or an added one. -/
inductive SubscribesScope (gc : GlobalConf) (label : Obj → Fragment) (h : NodeID)
    (strategy : Strategy) (updateOnly : Bool) (st : State) (a : Fragment) (prefixID : Id) :
    State → Prop
  | again {sc : ℕ} {m st' : State} (hk : prefixID ++ [a] ∈ st.ids (.scope sc))
    (hstr : st.strategy (.scope sc) = strategy)
    (hm : m = st.register .sub (.scope sc) (prefixID ++ [a]) h)
    (hr : Runs (Visits gc label strategy updateOnly (prefixID ++ [a])
      (m.AllKnown sc (prefixID ++ [a]))) (m.informationitems sc).toList
      (m.emits (subscopePackets gc m sc h)) st') :
    SubscribesScope gc label h strategy updateOnly st a prefixID st'
  | added {sc : ℕ} {st' : State}
    (ha : AddsScope gc label .sub h strategy st [a] prefixID sc st') :
    SubscribesScope gc label h strategy updateOnly st a prefixID st'

theorem subscribeRootScope_meets (hw : st.Wf label) (h : NodeID) (a : Fragment)
    (strat : Strategy) (upd : Bool) :
    (subscribeRootScope gc st h [a] strat upd).Meets (fun e => e = .stackOverflow)
      (Answers st (SubscribesScope gc label h strat upd st a [])) := by
  cases hi : st.scopeIndex [a] with
  | none =>
    simp only [subscribeRootScope, hi]
    exact (rootScope_meets hw .sub h strat hi).mono (fun _ he => he)
      fun _ hres => hres.mono fun _ => SubscribesScope.added
  | some sc =>
    have hk := hw.index_eq_some.1 hi
    simp only [subscribeRootScope, hi, notifySubscopes_eq]
    split
    · rename_i hstr
      refine addHost_meets hk ((visitRoot_meets ((hw.register hk).emits _) hk strat
        upd).mono (fun _ he => he.elim) ?_)
      exact fun st' hr => SubscribesScope.again hk hstr rfl hr
    · exact .refused (by simp)

theorem subscribeInnerScope_meets (hw : st.Wf label) (fuel : ℕ) (h : NodeID) (a : Fragment)
    (pre : Id) (strat : Strategy) (upd : Bool) :
    (subscribeInnerScope gc fuel st h [a] pre strat upd).Meets (fun e => e = .stackOverflow)
      (Answers st (SubscribesScope gc label h strat upd st a pre)) := by
  unfold subscribeInnerScope
  dsimp only
  split
  · exact .refused (by simp)
  rename_i hitem
  cases hp : st.scopeIndex pre with
  | none => exact .refused (by simp)
  | some f =>
    have hj := hw.index_eq_some.1 hp
    cases hi : st.scopeIndex (pre ++ [a]) with
    | none =>
      have hfree := hw.free_of_index hi (by simpa using hitem)
      dsimp only
      split
      · rename_i hstr
        subst hstr
        rw [lastFragment_append]
        exact (bornScope_meets hw .sub h hj hfree
          (E := fun e => e = .stackOverflow) fun _ => rfl).mono (fun _ he => he)
          fun _ hres => hres.mono fun _ => SubscribesScope.added
      · exact .refused (by simp)
    | some sc =>
      have hk := hw.index_eq_some.1 hi
      dsimp only
      split
      · rename_i hstr
        have hinner : 1 < (pre ++ [a]).length := by
          have := length_pos_iff.2 (hw.ne_nil hj)
          simp only [length_append, length_singleton]
          omega
        simp only [notifySubscopes_eq]
        refine addHost_meets hk (((visitInner_meets ((hw.register hk).emits _) hk hinner strat
          upd).mono (fun _ he => he.elim) fun _ hr => hr).bind ?_)
        exact fun acc hr => SubscribesScope.again hk hstr rfl hr
      · exact .refused (by simp)

/-- **`subscribe_scope`** only faults for want of stack, and succeeds exactly when the subscriber
joins. -/
theorem subscribeScope_meets (hw : st.Wf label) (fuel : ℕ) (h : NodeID) (a : Fragment)
    (pre : Id) (strat : Strategy) (upd : Bool) :
    (subscribeScope gc fuel st h [a] pre strat upd).Meets (fun e => e = .stackOverflow)
      (Answers st (SubscribesScope gc label h strat upd st a pre)) := by
  unfold subscribeScope
  split
  · rename_i hlen
    obtain rfl := length_eq_zero_iff.1 hlen.1
    exact subscribeRootScope_meets hw h a strat upd
  split
  · exact subscribeInnerScope_meets hw fuel h a pre strat upd
  · exact .refused (by simp)

end Blackadder
