/-
**Runs of the rendezvous element.**

A request is refused or granted, but for the unpublication of a scope that the requester does not
publish, which still unpublishes the items. What it does, it does in *moves*: a host joins, a host
departs, packets are pushed. An invariant is a property that every move keeps.
-/

import Blackadder.RvAdditions

namespace Blackadder

open List

variable {gc : GlobalConf} {st s t m w : State} {label : Obj → Fragment}

open Except (Runs)
open Relation (ReflTransGen)

/-! ### What a request does -/

/-- The effect of a request that is granted, on the state in which its host has an entry. -/
inductive Effect (gc : GlobalConf) (label : Obj → Fragment) (r : Request) (st : State) :
    State → Prop
  | publishScope {st' : State} (ht : r.type = .publishScope)
    (he : PublishesScope gc label r.nodeID r.strategy st r.ID r.prefixID st') :
    Effect gc label r st st'
  | publishInfo {st' : State} (ht : r.type = .publishInfo)
    (he : JoinsInfo gc label .pub r.nodeID r.strategy false st r.ID r.prefixID st') :
    Effect gc label r st st'
  | unpublishScope {a : Fragment} {sc : ℕ} {s st' : State} (ht : r.type = .unpublishScope)
    (hID : r.ID = [a]) (hsc : st.scopeIndex (r.prefixID ++ [a]) = some sc)
    (hstr : st.strategy (.scope sc) = r.strategy)
    (hc : Cascade gc label r.strategy false r.nodeID sc st s)
    (hmem : r.nodeID ∈ s.pair .pub (.scope sc) (r.prefixID ++ [a]))
    (hr : ReclaimsScope gc label (r.prefixID ++ [a]) sc
      (s.withdraw .pub (.scope sc) (r.prefixID ++ [a]) r.nodeID)
      (st.scopeIndex r.prefixID) st') :
    Effect gc label r st st'
  | unpublishInfo {a : Fragment} {i f : ℕ} {st' : State} (ht : r.type = .unpublishInfo)
    (hID : r.ID = [a]) (hstr : st.strategy (.scope f) = r.strategy)
    (hl : LosesPublisher gc label false r.nodeID (r.prefixID ++ [a]) i f st st') :
    Effect gc label r st st'
  | subscribeScope {a : Fragment} {st' : State} (ht : r.type = .subscribeScope) (hID : r.ID = [a])
    (he : SubscribesScope gc label r.nodeID r.strategy false st a r.prefixID st') :
    Effect gc label r st st'
  | subscribeInfo {a : Fragment} {st' : State} (ht : r.type = .subscribeInfo) (hID : r.ID = [a])
    (he : JoinsInfo gc label .sub r.nodeID r.strategy false st [a] r.prefixID st') :
    Effect gc label r st st'
  | unsubscribeScope {a : Fragment} {sc : ℕ} {w st' : State} (ht : r.type = .unsubscribeScope)
    (hID : r.ID = [a]) (hsc : st.scopeIndex (r.prefixID ++ [a]) = some sc)
    (hmem : r.nodeID ∈ st.pair .sub (.scope sc) (r.prefixID ++ [a]))
    (hw : w = st.withdraw .sub (.scope sc) (r.prefixID ++ [a]) r.nodeID)
    (hr : ReclaimsScope gc label (r.prefixID ++ [a]) sc
      (w.emits (if rootFragment (r.prefixID ++ [a]) ∈ knownRootscopes then []
        else itemsPackets gc w sc true)) (st.scopeIndex r.prefixID) st') :
    Effect gc label r st st'
  | unsubscribeInfo {a : Fragment} {i f : ℕ} {st' : State} (ht : r.type = .unsubscribeInfo)
    (hID : r.ID = [a])
    (hl : LosesSubscriber gc label true r.nodeID (r.prefixID ++ [a]) i f st st') :
    Effect gc label r st st'

inductive Handles (gc : GlobalConf) (label : Obj → Fragment) (r : Request) (st : State) :
    RvReturnCode × State → Prop
  | refused {code : RvReturnCode} (hc : code ≠ .success) :
    Handles gc label r st (code, st.getRemoteHost r.nodeID)
  | cascaded {a : Fragment} {sc : ℕ} {st' : State} (ht : r.type = .unpublishScope)
    (hID : r.ID = [a]) (hsc : st.scopeIndex (r.prefixID ++ [a]) = some sc)
    (hno : r.nodeID ∉ st'.pair .pub (.scope sc) (r.prefixID ++ [a]))
    (hc : Cascade gc label r.strategy false r.nodeID sc (st.getRemoteHost r.nodeID) st') :
    Handles gc label r st (.doesNotExist, st')
  | granted {st' : State} (he : Effect gc label r (st.getRemoteHost r.nodeID) st') :
    Handles gc label r st (.success, st')

variable {r : Request} {A : State → Obj → ℕ → Prop}

theorem Answers.handles {Q : State → Prop} {res : RvReturnCode × State}
    (ha : Answers (st.getRemoteHost r.nodeID) Q res)
    (hQ : ∀ st', Q st' → Effect gc label r (st.getRemoteHost r.nodeID) st') :
    Handles gc label r st res := by
  cases ha with
  | refused hc => exact .refused hc
  | granted h => exact .granted (hQ _ h)

theorem Request.Shaped.exists_fragment (hs : r.Shaped) (ht : r.type.oneFragment = true) :
    ∃ a, r.ID = [a] :=
  length_eq_one_iff.1 (hs ht)

/-- **What a request does**: it completes as `Handles` says, or the stack is exhausted. -/
theorem push_meets (hw : st.Wf label) (hs : r.Shaped) (fuel : ℕ) :
    (push gc fuel r st).Meets (fun e => e = .stackOverflow) (Handles gc label r st) := by
  have hwg := hw.getRemoteHost r.nodeID
  have hone := hs.exists_fragment
  simp only [push]
  cases ht : r.type with
  | publishScope =>
    exact (publishScope_meets hwg fuel _ _ _ _ (E := fun e => e = .stackOverflow)
      fun _ => rfl).mono (fun _ he => he)
      fun res ha => ha.handles fun st' he => Effect.publishScope ht he
  | publishInfo =>
    exact (publishInfo_meets hwg _ _ _ _ _).mono (fun _ he => he.elim)
      fun res ha => ha.handles fun st' he => Effect.publishInfo ht he
  | unpublishScope =>
    obtain ⟨a, hID⟩ := hone (by rw [ht]; rfl)
    rw [hID]
    refine (unpublishScope_meets hwg _ a _ _ _).mono (fun _ he => he.elim) ?_
    rintro ⟨code, st'⟩ (⟨hc, rfl, -⟩ | ⟨sc, s, hsc, hstr, hcasc, hres⟩)
    · exact .refused hc
    · rcases hres with ⟨rfl, rfl, hno⟩ | ⟨rfl, hmem, hr⟩
      · exact .cascaded ht hID hsc hno hcasc
      · exact .granted (.unpublishScope ht hID hsc hstr hcasc hmem hr)
  | unpublishInfo =>
    obtain ⟨a, hID⟩ := hone (by rw [ht]; rfl)
    rw [hID]
    refine (unpublishInfo_meets hwg _ a _ _ _).mono (fun _ he => he.elim) ?_
    rintro ⟨code, st'⟩ (⟨hc, rfl, -⟩ | ⟨rfl, i, f, hstr, hl⟩)
    · exact .refused hc
    · exact .granted (.unpublishInfo ht hID hstr hl)
  | subscribeScope =>
    obtain ⟨a, hID⟩ := hone (by rw [ht]; rfl)
    rw [hID]
    exact (subscribeScope_meets hwg fuel _ a _ _ _).mono (fun _ he => he)
      fun res ha => ha.handles fun st' he => Effect.subscribeScope ht hID he
  | subscribeInfo =>
    obtain ⟨a, hID⟩ := hone (by rw [ht]; rfl)
    rw [hID]
    exact (subscribeInfo_meets hwg _ a _ _ _).mono (fun _ he => he.elim)
      fun res ha => ha.handles fun st' he => Effect.subscribeInfo ht hID he
  | unsubscribeScope =>
    obtain ⟨a, hID⟩ := hone (by rw [ht]; rfl)
    rw [hID]
    refine (unsubscribeScope_meets hwg _ a _ _ _).mono (fun _ he => he.elim) ?_
    rintro ⟨code, st'⟩ (⟨hc, rfl, -⟩ | ⟨rfl, sc, w, hsc, hmem, hwd, hr⟩)
    · exact .refused hc
    · exact .granted (.unsubscribeScope ht hID hsc hmem hwd hr)
  | unsubscribeInfo =>
    obtain ⟨a, hID⟩ := hone (by rw [ht]; rfl)
    rw [hID]
    refine (unsubscribeInfo_meets hwg _ a _ _ _).mono (fun _ he => he.elim) ?_
    rintro ⟨code, st'⟩ (⟨hc, rfl, -⟩ | ⟨rfl, i, f, hl⟩)
    · exact .refused hc
    · exact .granted (.unsubscribeInfo ht hID hl)
  | other b => exact .refused (by simp)

/-! ### Moves -/

def Request.Links (r : Request) (st : State) (o : Obj) (f : ℕ) : Prop :=
  ∃ κ, (r.type = .publishScope ∧ κ = .scope ∨ r.type = .publishInfo ∧ κ = .item) ∧
    Relinks st κ r.ID r.prefixID r.strategy o f

theorem Request.not_links_of_short (hr : r.ID.length ≤ 1) (o : Obj) (f : ℕ) : ¬ r.Links st o f := by
  intro hex
  obtain ⟨κ, -, hl⟩ := hex
  exact absurd hl.long (by omega)

/-- The object `o` has the identifier `k` through the father `f`, or as a root. -/
def Placed (st : State) (o : Obj) (k : Id) : Option ℕ → Prop
  | none => o ∈ st.graph.root
  | some f => k.dropLast ∈ st.ids (.scope f)

/-- `A` restricts which objects get further fathers, `D` which ones a host departs from. -/
inductive Move (A : State → Obj → ℕ → Prop) (D : Kind → Prop) (st : State) : State → Prop
  | emits (ps : List Packet) : Move A D st (st.emits ps)
  | host (h : NodeID) : Move A D st (st.getRemoteHost h)
  | joins {label : Obj → Fragment} {r : Role} {h : NodeID} {o : Obj} {k : Id} {m : State}
    (hw : st.Wf label) (hj : Joins label (A st) r h st o k m) : Move A D st m
  | departs {label : Obj → Fragment} {r : Role} {h : NodeID} {o : Obj} {k : Id} {f : Option ℕ}
    {m : State} (hD : D o.kind) (hw : st.Wf label) (hmem : h ∈ st.pair r o k)
    (hname : Placed st o k f) (hs : Settles label (st.withdraw r o k h) o f m) : Move A D st m

/-- The end of a request that began in `st`: at most one host departs from a scope. -/
inductive Closing (st t : State) : State → Prop
  | nothing : Closing st t t
  | departs {label : Obj → Fragment} {r : Role} {h : NodeID} {sc : ℕ} {k : Id} {f : Option ℕ}
    {m : State} (ps : List Packet) (hw : t.Wf label) (hmem : h ∈ t.pair r (.scope sc) k)
    (hname : Placed t (.scope sc) k f)
    (hs : Settles label (t.withdraw r (.scope sc) k h) (.scope sc) f m)
    (hsub : ∀ κ c, c ∈ t.children κ sc → c ∈ st.children κ sc) : Closing st t (m.emits ps)

theorem Move.wf {D : Kind → Prop} (hm : Move A D st s) (hw : ∃ label, st.Wf label) :
    ∃ label, s.Wf label := by
  cases hm with
  | emits ps =>
    obtain ⟨label, hw⟩ := hw
    exact ⟨label, hw.emits ps⟩
  | host h =>
    obtain ⟨label, hw⟩ := hw
    exact ⟨label, hw.getRemoteHost h⟩
  | joins hw hj => exact hj.wf hw
  | departs hD hw hmem hname hs => exact ⟨_, hs.wf hw.withdraw⟩

/-- The output has grown, pointers have been handed out, and strategies are the same. -/
structure Later (st s : State) : Prop where
  out : st.out <+: s.out
  next : ∀ κ, st.next κ ≤ s.next κ
  strategy : ∀ o : Obj, o.ptr < st.next o.kind → s.strategy o = st.strategy o

theorem Later.refl : Later st st := ⟨prefix_rfl, fun _ => le_rfl, fun _ _ => rfl⟩

theorem Later.trans (h₁ : Later st s) (h₂ : Later s t) : Later st t where
  out := h₁.out.trans h₂.out
  next := fun κ => (h₁.next κ).trans (h₂.next κ)
  strategy := fun o ho => by
    rw [h₂.strategy o (ho.trans_le (h₁.next _)), h₁.strategy o ho]

theorem Move.later {D : Kind → Prop} (hm : Move A D st s) : Later st s := by
  cases hm with
  | emits ps => exact ⟨prefix_append _ _, fun _ => le_rfl, fun _ _ => rfl⟩
  | host h => exact ⟨prefix_rfl, fun _ => le_rfl, fun _ _ => rfl⟩
  | joins hw hj =>
    have hout := hj.out_eq hw
    exact ⟨hout ▸ prefix_rfl, hj.next_mono hw, fun _ ho => hj.strategy_of_lt hw ho⟩
  | departs hD hw hmem hname hs =>
    have hout := hs.out_eq
    exact ⟨hout ▸ prefix_rfl, fun κ => (congrFun hs.next_eq κ).ge,
      fun o _ => congrFun hs.strategy_eq o⟩

theorem Joins.mono {A B : Obj → ℕ → Prop} {r : Role} {h : NodeID} {o : Obj} {k : Id}
    (hj : Joins label A r h st o k m) (hAB : ∀ o f, A o f → B o f) :
    Joins label B r h st o k m := by
  cases hj with
  | there hk => exact .there hk
  | root strat hfree => exact .root strat hfree
  | born hj hfree => exact .born hj hfree
  | adopted hr hado hk₀ hor hj hfree hnb hg hws =>
    exact .adopted hr (hAB _ _ hado) hk₀ hor hj hfree hnb hg hws

abbrev ItemMoves (A : State → Obj → ℕ → Prop) : State → State → Prop :=
  ReflTransGen (Move A fun κ => κ = .item)

theorem ItemMoves.later (hm : ItemMoves A st s) : Later st s := by
  induction hm with
  | refl => exact Later.refl
  | tail _ hm ih => exact ih.trans hm.later

section
variable {A : State → Obj → ℕ → Prop} {strat : Strategy} {upd : Bool} {h : NodeID}
  {k : Id} {i f sc : ℕ}

section
variable (hw : st.Wf label)
include hw

theorem LosesPublisher.moves (hl : LosesPublisher gc label upd h k i f st s) :
    ItemMoves A st s := by
  obtain ⟨m, hs, rfl⟩ := hl.settles
  have hpla : Placed st (.item i) k (some f) := hl.name
  exact .head (.departs rfl hw hl.mem hpla hs) (.single (.emits _))

theorem LosesSubscriber.moves (hl : LosesSubscriber gc label upd h k i f st s) :
    ItemMoves A st s := by
  obtain ⟨m, hs, rfl⟩ := hl.settles
  have hpla : Placed st (.item i) k (some f) := hl.name
  exact .head (.departs rfl hw hl.mem hpla hs) (.single (.emits _))

theorem UnpublishTry.moves (hu : UnpublishTry gc label strat upd h k st s) : ItemMoves A st s := by
  cases hu with
  | skip => exact .refl
  | lose _ hl => exact hl.moves hw

theorem Cascade.moves (hc : Cascade gc label strat upd h sc st s) : ItemMoves A st s :=
  hc.invariant hw _ (fun _ _ _ hwt _ ih hu => ih.trans (hu.moves hwt)) .refl

theorem Matches.moves (hm : Matches gc label strat upd k i st s) : ItemMoves A st s :=
  hm.invariant hw _ (fun _ ps ih => ih.tail (.emits ps))
    (fun _ _ _ _ hwt ih hu => ih.trans (hu.moves hwt)) .refl

end

theorem visits_moves {K : Prop} {l : List ℕ} (hw : st.Wf label)
    (hr : Runs (Visits gc label strat upd k K) l st s) : ItemMoves A st s :=
  visits_invariant hw hr _ (fun _ ps ih => ih.tail (.emits ps))
    (fun _ _ _ _ hwt ih hu => ih.trans (hu.moves hwt)) .refl

variable {r : Role}

theorem JoinsInfo.moves {ID pre : Id} (hw : st.Wf label)
    (hA : ∀ o f, Relinks st .item ID pre strat o f → A st o f)
    (hj : JoinsInfo gc label r h strat upd st ID pre s) : ItemMoves A st s := by
  obtain ⟨i, f, m, label', -, -, hj, hwm, hm⟩ := hj
  exact .head (.joins hw (hj.mono hA)) (hm.moves hwm)

theorem AddsScope.moves {ID pre : Id} (hw : st.Wf label)
    (hA : ∀ o f, Relinks st .scope ID pre strat o f → A st o f)
    (ha : AddsScope gc label r h strat st ID pre sc s) : ItemMoves A st s := by
  obtain ⟨m, ids, str, subs, hj, rfl | rfl⟩ := ha.joins hw
  · exact .single (.joins hw (hj.mono hA))
  · exact .head (.joins hw (hj.mono hA)) (.single (.emits _))

theorem Cascade.children_sub (hw : st.Wf label) (hc : Cascade gc label strat upd h sc st s)
    {κ : Kind} {c p : ℕ} (hp : c ∈ s.children κ p) : c ∈ st.children κ p := by
  have hI := hc.invariant hw (fun t => t.Wf label ∧
    ∀ o g, g ∈ t.fatherScopes o → g ∈ st.fatherScopes o) ?_ ⟨hw, fun _ _ hg => hg⟩
  · exact (hw.links ⟨κ, c⟩ p).1 (hI.2 _ _ ((hI.1.links ⟨κ, c⟩ p).2 hp))
  · intro k t t' _ _ hinv hu
    obtain ⟨hwt, ih⟩ := hinv
    refine ⟨hu.wf hwt, fun o g hg => ih o g ?_⟩
    cases hu with
    | skip => exact hg
    | lose _ hl => exact hl.fatherScopes_sub hg

theorem ReclaimsScope.closing {f : Option ℕ} {ps : List Packet} (hw : t.Wf label)
    (hmem : h ∈ t.pair r (.scope sc) k) (hname : Placed t (.scope sc) k f)
    (hsub : ∀ κ c, c ∈ t.children κ sc → c ∈ st.children κ sc)
    (hr : ReclaimsScope gc label k sc ((t.withdraw r (.scope sc) k h).emits ps) f s) :
    Closing st (t.emits ps) s := by
  obtain ⟨m, qs, hs, rfl, -⟩ := hr.settles (hw.withdraw.emits ps)
  exact .departs qs (hw.emits ps) hmem hname hs hsub

end

theorem State.Wf.placed (hw : st.Wf label) {pre : Id} {a : Fragment} {sc : ℕ}
    (hk : st.scopeIndex (pre ++ [a]) = some sc) :
    Placed st (.scope sc) (pre ++ [a]) (st.scopeIndex pre) := by
  cases hf : st.scopeIndex pre with
  | none => exact (hw.root_of_mem hf (hw.index_eq_some.1 hk)).2
  | some f =>
    rw [Placed, dropLast_concat]
    exact hw.index_eq_some.1 hf

variable {A : State → Obj → ℕ → Prop} {r : Request} {res : RvReturnCode × State}

theorem Effect.phases (hw : st.Wf label) (hA : ∀ o f, r.Links st o f → A st o f)
    (he : Effect gc label r st s) : ∃ t, ItemMoves A st t ∧ Closing st t s := by
  cases he with
  | publishScope ht he =>
    refine ⟨s, ?_, Closing.nothing⟩
    cases he with
    | again hk => exact .single (.joins hw (Joins.there hk))
    | added ha => exact ha.moves hw fun o f hl => hA o f ⟨_, .inl ⟨ht, rfl⟩, hl⟩
  | publishInfo ht he =>
    refine ⟨s, ?_, Closing.nothing⟩
    exact he.moves hw fun o f hl => hA o f ⟨_, .inr ⟨ht, rfl⟩, hl⟩
  | @unpublishScope a sc t st' ht hID hsc hstr hc hmem hr =>
    have hwt := hc.wf hw
    have hnil : (t.withdraw .pub (.scope sc) (r.prefixID ++ [a]) r.nodeID).emits [] = _ :=
      State.emits_nil
    rw [← hnil] at hr
    have hclo := hr.closing hwt hmem ?_ fun κ c hch => hc.children_sub hw hch
    · rw [State.emits_nil] at hclo
      exact ⟨t, hc.moves hw, hclo⟩
    · -- the cascade leaves scopes alone
      have hpla := hw.placed hsc
      cases hf : st.scopeIndex r.prefixID with
      | none =>
        rw [hf, Placed] at hpla
        rw [Placed, State.mem_graph_root, (hc.scope_eq hw sc).2.2]
        exact hpla
      | some f =>
        rw [hf] at hpla
        rw [Placed, (hc.scope_eq hw f).1]
        exact hpla
  | unpublishInfo ht hID hstr hl | unsubscribeInfo ht hID hl =>
    exact ⟨s, hl.moves hw, Closing.nothing⟩
  | subscribeScope ht hID he =>
    refine ⟨s, ?_, Closing.nothing⟩
    cases he with
    | again hk hstr hm hr =>
      subst hm
      have hvis := visits_moves (A := A) ((hw.register hk).emits _) hr
      exact .head (.joins hw (Joins.there hk)) (.head (.emits _) hvis)
    | added ha =>
      refine ha.moves hw fun o f hl => ?_
      exact absurd hl.long (by simp)
  | subscribeInfo ht hID he =>
    refine ⟨s, he.moves hw fun o f hl => ?_, Closing.nothing⟩
    exact absurd hl.long (by simp)
  | unsubscribeScope ht hID hsc hmem hwd hr =>
    subst hwd
    exact ⟨_, .single (.emits _), hr.closing hw hmem (hw.placed hsc) fun κ c hch => hch⟩

section
variable (hw : st.Wf label)
  (hA : ∀ o f, r.Links (st.getRemoteHost r.nodeID) o f → A (st.getRemoteHost r.nodeID) o f)
  (hh : Handles gc label r st res)
include hw hA hh

/-- **A request is a sequence of moves**; at the end at most one host departs from a scope. -/
theorem Handles.phases : ∃ t, ItemMoves A st t ∧ Closing st t res.2 := by
  cases hh with
  | refused hc => exact ⟨_, .single (.host _), Closing.nothing⟩
  | cascaded ht hID hsc hno hc =>
    exact ⟨_, .head (.host _) (hc.moves (hw.getRemoteHost _)), Closing.nothing⟩
  | granted he =>
    obtain ⟨t, hm, hc⟩ := he.phases (hw.getRemoteHost _) hA
    refine ⟨t, .head (.host _) hm, ?_⟩
    cases hc with
    | nothing => exact .nothing
    | departs ps hwt hmem hname hs hsub => exact .departs ps hwt hmem hname hs hsub

theorem Handles.invariant (I : State → Prop)
    (step : ∀ s s', (∃ label, s.Wf label) → I s → Move A (fun _ => True) s s' → I s') (hI : I st) :
    (∃ label, res.2.Wf label) ∧ I res.2 := by
  obtain ⟨t, hm, hc⟩ := hh.phases hw hA
  have hmove : ∀ s s', Move A (fun _ => True) s s' → (∃ label, s.Wf label) ∧ I s →
      (∃ label, s'.Wf label) ∧ I s' :=
    fun s s' hm ih => ⟨hm.wf ih.1, step s s' ih.1 ih.2 hm⟩
  have ht : (∃ label, t.Wf label) ∧ I t := by
    clear hc
    induction hm with
    | refl => exact ⟨⟨label, hw⟩, hI⟩
    | tail _ hm ih =>
      refine hmove _ _ ?_ ih
      cases hm with
      | emits ps => exact .emits ps
      | host h => exact .host h
      | joins hw hj => exact .joins hw hj
      | departs hD hw hmem hname hs => exact .departs trivial hw hmem hname hs
  obtain ⟨code, st'⟩ := res
  cases hc with
  | nothing => exact ht
  | departs ps hwt hmem hname hs hsub =>
    exact hmove _ _ (.emits ps) (hmove _ _ (.departs trivial hwt hmem hname hs) ht)

end

/-! ### Invariants of runs -/

section
variable {P : Request → State → Prop} {past : List State}

theorem push_wf {fuel : ℕ} {code : RvReturnCode} (hw : st.Wf label) (hs : r.Shaped)
    (hpush : push gc fuel r st = .ok (code, s)) : ∃ label, s.Wf label := by
  have hh := (push_meets hw hs fuel).of_eq_ok hpush
  exact (hh.invariant (A := fun _ _ _ => True) hw (fun _ _ _ => trivial) (fun _ => True)
    (fun _ _ _ _ _ => trivial) trivial).1

theorem RunIf.wf (h : RunIf gc P past st) : ∃ label, st.Wf label := by
  induction h with
  | initial => exact ⟨fun _ => .ofByte 0, State.wf_initial gc _⟩
  | step _ hs _ hpush ih =>
    obtain ⟨label, hw⟩ := ih
    exact push_wf hw hs hpush

theorem ReachableIf.wf (h : ReachableIf gc P st) : ∃ label, st.Wf label := by
  obtain ⟨past, h⟩ := h
  exact h.wf

/-- **Invariants of runs** hold at the start and are kept by every move. -/
theorem ReachableIf.invariant (I : State → Prop)
    (hA : ∀ r st, P r st → ∀ o f, r.Links (st.getRemoteHost r.nodeID) o f →
      A (st.getRemoteHost r.nodeID) o f)
    (start : I (State.initial gc))
    (step : ∀ s s', (∃ label, s.Wf label) → I s → Move A (fun _ => True) s s' → I s')
    (h : ReachableIf gc P st) : I st := by
  obtain ⟨past, h⟩ := h
  induction h with
  | initial => exact start
  | @step past st st' r fuel code hr hs hP hpush ih =>
    obtain ⟨label, hw⟩ := hr.wf
    have hh := (push_meets hw hs fuel).of_eq_ok hpush
    exact (hh.invariant hw (hA r st hP) I step ih).2

end

/-! ### The states of a run -/

section
variable {P : Request → State → Prop} {past : List State}

theorem RunIf.later_step {fuel : ℕ} {code : RvReturnCode} (h : RunIf gc P past st) (hs : r.Shaped)
    (hpush : push gc fuel r st = .ok (code, s)) : Later st s := by
  obtain ⟨label, hw⟩ := h.wf
  have hh := (push_meets hw hs fuel).of_eq_ok hpush
  exact (hh.invariant (A := fun _ _ _ => True) hw (fun _ _ _ => trivial) (Later st)
    (fun _ _ _ ih hm => ih.trans hm.later) Later.refl).2

theorem RunIf.of_mem (h : RunIf gc P past st) (ht : t ∈ st :: past) :
    Later t st ∧ ∃ past', past' ⊆ past ∧ RunIf gc P past' t := by
  induction h with
  | initial =>
    obtain rfl := mem_singleton.1 ht
    exact ⟨Later.refl, [], Subset.refl _, RunIf.initial⟩
  | @step past st st' r fuel code hr hs hP hpush ih =>
    rcases mem_cons.1 ht with rfl | ht
    · exact ⟨Later.refl, _, Subset.refl _, RunIf.step hr hs hP hpush⟩
    · obtain ⟨hl, past', hsub, hrun⟩ := ih ht
      exact ⟨hl.trans (hr.later_step hs hpush), past', subset_cons_of_subset _ hsub, hrun⟩

end

/-! ### Executing runs -/

def pushAll (gc : GlobalConf) (fuel : ℕ) (rs : List Request) (st : State) : State :=
  rs.foldl (fun st r => match push gc fuel r st with
    | .ok (_, st') => st'
    | .error _ => st) st

def pastOf (gc : GlobalConf) (fuel : ℕ) : List Request → List State → State → List State
  | [], past, _ => past
  | r :: rs, past, st => match push gc fuel r st with
    | .ok (_, st') => pastOf gc fuel rs (st :: past) st'
    | .error _ => pastOf gc fuel rs past st

variable {P : Request → State → Prop}

theorem runIf_pushAll {fuel : ℕ} {past : List State} (rs : List Request) (hst : RunIf gc P past st)
    (hs : ∀ r ∈ rs, r.Shaped) (hP : ∀ r ∈ rs, ∀ st, P r st) :
    RunIf gc P (pastOf gc fuel rs past st) (pushAll gc fuel rs st) := by
  induction rs generalizing st past with
  | nil => exact hst
  | cons r rs ih =>
    have hs' : ∀ r' ∈ rs, r'.Shaped := fun r' hr' => hs r' (mem_cons_of_mem r hr')
    have hP' : ∀ r' ∈ rs, ∀ st, P r' st := fun r' hr' => hP r' (mem_cons_of_mem r hr')
    simp only [pushAll, foldl_cons, pastOf]
    cases hpush : push gc fuel r st with
    | ok res =>
      exact ih (RunIf.step hst (hs r mem_cons_self) (hP r mem_cons_self st) hpush) hs' hP'
    | error e => exact ih hst hs' hP'

theorem reachableIf_pushAll {fuel : ℕ} (rs : List Request) (hst : ReachableIf gc P st)
    (hs : ∀ r ∈ rs, r.Shaped) (hP : ∀ r ∈ rs, ∀ st, P r st) :
    ReachableIf gc P (pushAll gc fuel rs st) := by
  obtain ⟨past, hrun⟩ := hst
  exact ⟨_, runIf_pushAll rs hrun hs hP⟩

def exampleConf : GlobalConf :=
  GlobalConf.inListOrder (.ofByte 0) ⟨List.replicate fidLen 0, rfl⟩ ⟨List.replicate fidLen 0, rfl⟩

def Request.small (n : UInt8) (type : RequestType) (prefixID ID : List UInt8)
    (strategy : Strategy) : Request :=
  ⟨.ofByte n, type, ID.map .ofByte, prefixID.map .ofByte, strategy⟩

def exampleRun (rs : List Request) : State := pushAll exampleConf 8 rs (State.initial exampleConf)

def examplePast (rs : List Request) : List State :=
  pastOf exampleConf 8 rs [] (State.initial exampleConf)

theorem reachable_exampleRun (rs : List Request) (hs : ∀ r ∈ rs, r.Shaped) :
    Reachable exampleConf (exampleRun rs) :=
  reachableIf_pushAll rs ⟨[], RunIf.initial⟩ hs fun _ _ _ => trivial

end Blackadder
