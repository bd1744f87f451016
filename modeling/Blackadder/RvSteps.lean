/-
**What a request can do.**

A publication or subscription is a *join*: a host is added to an object that may be new, get a
further father, or be there. A withdrawal is a *departure*: a host is removed, and the object is
kept, loses its branch under one father, or is deleted. Packets are appended to the output.
-/

import Blackadder.RvNaming

namespace Blackadder

open ListSet List

variable {gc : GlobalConf} {st s m : State} {label : Obj → Fragment}

/-! ### Registrations and packets -/

namespace State

def register (st : State) (r : Role) (o : Obj) (k : Id) (h : NodeID) : State :=
  (st.insertHost r o k h).insertOwn r o.kind h k

@[simps] def emits (st : State) (ps : List Packet) : State := { st with out := st.out ++ ps }

variable {r r' : Role} {o o' : Obj} {k k' : Id} {h h' : NodeID}

@[simp] theorem register_strategy : (st.register r o k h).strategy = st.strategy := rfl

@[simp] theorem register_isRoot : (st.register r o k h).isRoot = st.isRoot := rfl

@[simp] theorem register_fatherScopes : (st.register r o k h).fatherScopes = st.fatherScopes := rfl

@[simp] theorem register_next : (st.register r o k h).next = st.next := rfl

theorem mem_register_pair : h' ∈ (st.register r o k h).pair r' o' k' ↔
    h' ∈ st.pair r' o' k' ∨ (r' = r ∧ o' = o ∧ k' = k ∧ h' = h) :=
  mem_insertHost_pair

theorem mem_register_own {κ' : Kind} : k' ∈ (st.register r o k h).own r' κ' h' ↔
    k' ∈ st.own r' κ' h' ∨ (r' = r ∧ κ' = o.kind ∧ h' = h ∧ k' = k) :=
  mem_insertOwn_own

theorem register_of_mem (hh : h ∈ st.pair r o k) :
    st.register r o k h = st.insertOwn r o.kind h k := by
  have hpair : (st.insertHost r o k h).pair = st.pair := by
    funext r' o' k'
    rw [insertHost_pair]
    split
    · rename_i hc
      obtain ⟨rfl, rfl, rfl⟩ := hc
      rw [insert_eq_self hh]
    · rfl
  have hst : st.insertHost r o k h = st := by
    have : st.insertHost r o k h = { st with pair := (st.insertHost r o k h).pair } := rfl
    rw [this, hpair]
  rw [register, hst]

@[simp] theorem emits_nil : st.emits [] = st := by simp [emits]

theorem emits_emits (ps qs : List Packet) : (st.emits ps).emits qs = st.emits (ps ++ qs) := by
  simp [emits]

section
variable (hw : st.Wf label)
include hw

theorem Wf.register (hk : k ∈ st.ids o) : (st.register r o k h).Wf label := by
  refine hw.frame rfl rfl rfl rfl rfl rfl ?_
  intro r' o' k' h' hh
  rcases mem_register_pair.1 hh with hh | ⟨-, rfl, rfl, -⟩
  · exact hw.pair_ids r' o' k' h' hh
  · exact hk

theorem Wf.withdraw : (st.withdraw r o k h).Wf label := by
  refine hw.frame rfl rfl rfl rfl rfl rfl ?_
  intro r' o' k' h' hh
  exact hw.pair_ids r' o' k' h' (mem_withdraw_pair.1 hh).1

theorem Wf.emits (ps : List Packet) : (st.emits ps).Wf label :=
  hw.frame rfl rfl rfl rfl rfl rfl hw.pair_ids

theorem Wf.getRemoteHost (h : NodeID) : (st.getRemoteHost h).Wf label :=
  hw.frame rfl rfl rfl rfl rfl rfl hw.pair_ids

end

end State

variable {andThen : State → Except Fault State}

theorem addHost_eq {r : Role} {o : Obj} {k : Id} {h : NodeID} (hk : k ∈ st.ids o) :
    addHost st r o k h andThen = if h ∈ st.pair r o k ∧ ¬ (r = .sub ∧ o.kind = .scope) then
        .ok (.existsAlready, st)
      else (fun st' => (.success, st')) <$> andThen (st.register r o k h) := by
  by_cases hh : h ∈ st.pair r o k
  · by_cases hsc : r = .sub ∧ o.kind = .scope
    · rw [if_neg (fun hc => hc.2 hsc), State.register_of_mem hh]
      simp only [addHost, State.updateHosts, if_pos hk, if_pos hh, decide_eq_true hsc]
      cases andThen (st.insertOwn r o.kind h k) <;> rfl
    · rw [if_pos ⟨hh, hsc⟩]
      simp [addHost, State.updateHosts, if_pos hk, if_pos hh, decide_eq_false hsc]
  · rw [if_neg (fun hc => hh hc.1)]
    simp only [addHost, State.updateHosts, if_pos hk, if_neg hh]
    unfold State.register
    cases andThen ((st.insertHost r o k h).insertOwn r o.kind h k) <;> rfl

theorem addHost_new {r : Role} {o : Obj} {k : Id} {h : NodeID} (hk : k ∉ st.ids o) :
    addHost st r o k h andThen =
      (fun st' => (.success, st')) <$> andThen ((st.newPair o k).register r o k h) := by
  simp only [addHost, State.updateHosts, if_neg hk]
  unfold State.register
  cases andThen (((st.newPair o k).insertHost r o k h).insertOwn r o.kind h k) <;> rfl

/-- A refused request leaves the state as it is, and a granted one leads to `Q`. -/
inductive Answers (st : State) (Q : State → Prop) : RvReturnCode × State → Prop
  | refused {code : RvReturnCode} (hc : code ≠ .success) : Answers st Q (code, st)
  | granted {st' : State} (hQ : Q st') : Answers st Q (.success, st')

theorem Answers.mono {P Q : State → Prop} {res : RvReturnCode × State} (h : Answers st P res)
    (hPQ : ∀ st', P st' → Q st') : Answers st Q res := by
  cases h with
  | refused hc => exact .refused hc
  | granted hP => exact .granted (hPQ _ hP)

section
variable {r : Role} {o : Obj} {k : Id} {h : NodeID} {andThen : State → Except Fault State}
  {E : Fault → Prop} {Q : State → Prop}

theorem addHost_meets (hk : k ∈ st.ids o) (hQ : (andThen (st.register r o k h)).Meets E Q) :
    (addHost st r o k h andThen).Meets E (Answers st Q) := by
  rw [addHost_eq hk]
  split
  · exact .refused (by simp)
  · cases hx : andThen (st.register r o k h) with
    | error e => exact hQ.of_eq_error hx
    | ok st' => exact .granted (hQ.of_eq_ok hx)

theorem addHost_fresh (hk : k ∈ st.ids o) (hh : h ∉ st.pair r o k)
    (hQ : (andThen (st.register r o k h)).Meets E Q) :
    (addHost st r o k h andThen).Meets E (Answers s Q) := by
  rw [addHost_eq hk, if_neg fun hc => hh hc.1]
  cases hx : andThen (st.register r o k h) with
  | error e => exact hQ.of_eq_error hx
  | ok st' => exact .granted (hQ.of_eq_ok hx)

end

/-! ### The packets -/

def isKnown (gc : GlobalConf) (roots : List Id) : Bool :=
  match gc.begin roots with
  | none => false
  | some r => decide (r ∈ knownRootscopes)

variable {roots : List Id}

theorem knownScope_eq (h : roots ≠ []) : knownScope gc roots = .ok (isKnown gc roots) := by
  unfold knownScope isKnown
  cases hb : gc.begin roots with
  | none => exact absurd hb (gc.begin_ne_none roots h)
  | some r => rfl

theorem isKnown_eq_of_forall {b : Bool} (hne : roots ≠ [])
    (h : ∀ r ∈ roots, decide (r ∈ knownRootscopes) = b) : isKnown gc roots = b := by
  unfold isKnown
  cases hb : gc.begin roots with
  | none => exact absurd hb (gc.begin_ne_none roots hne)
  | some r => exact h r (gc.begin_mem roots r hb)

def rendezvousPackets (gc : GlobalConf) (st : State) (pub : ℕ) (subscribers : ListSet NodeID)
    (updateOnly : Bool) : List Packet :=
  let publishers := st.getPublishers (.item pub)
  let ids := st.ids (.item pub)
  let strategy := st.strategy (.item pub)
  if publishers.isEmpty then []
  else if strategy = nodeLocal then
    [.localPublisher pub ids (!subscribers.isEmpty) updateOnly]
  else if strategy = domainLocal then
    if isKnown gc (st.getRootScopes pub) then
      publishers.toList.map fun p => .unicastRequest pub strategy p subscribers ids updateOnly
    else [.rendezvousRequest pub strategy publishers subscribers ids updateOnly]
  else []

def notifyPackets (gc : GlobalConf) (type : ScopeEvent) (ids : ListSet Id) (strategy : Strategy)
    (subscribers : ListSet NodeID) : List Packet :=
  if strategy = nodeLocal then
    if gc.nodeID ∈ subscribers then [.localSubscriber type ids] else []
  else if subscribers.isEmpty then []
  else [.scopeRequest type ids subscribers strategy]

theorem foldl_emit {α : Type} (p : α → Packet) (l : List α) :
    l.foldl (fun st a => st.emit (p a)) st = st.emits (l.map p) := by
  induction l generalizing st with
  | nil => simp
  | cons a l ih =>
    rw [foldl_cons, ih]
    simp [State.emit, State.emits]

theorem foldl_emits {α : Type} (p : State → α → List Packet)
    (hp : ∀ s ps a, p (State.emits s ps) a = p s a) (l : List α) :
    l.foldl (fun s a => s.emits (p s a)) st = st.emits (l.flatMap (p st)) := by
  induction l generalizing st with
  | nil => simp
  | cons a l ih =>
    rw [foldl_cons, ih, State.emits_emits]
    exact congrArg (fun q => st.emits (p st a ++ l.flatMap q)) (funext fun b => hp st _ b)

theorem getRootScopes_ne_nil {i : ℕ} {k : Id} (hk : k ∈ st.ids (.item i)) :
    st.getRootScopes i ≠ [] := by
  rw [State.getRootScopes, Ne, map_eq_nil_iff]
  exact toList_ne_nil hk

theorem rendezvous_eq (hw : st.Wf label) (pub : ℕ) (subs : ListSet NodeID) (upd : Bool) :
    rendezvous gc st pub subs upd = .ok (st.emits (rendezvousPackets gc st pub subs upd)) := by
  by_cases hp : (st.getPublishers (.item pub)).isEmpty = true
  · simp [rendezvous, rendezvousPackets, hp]
  -- an item with a publisher has an identifier
  obtain ⟨h, hh⟩ := ListSet.isEmpty_eq_false_iff.1 (Bool.eq_false_iff.2 hp)
  obtain ⟨k, hk⟩ := hw.mem_getHosts.1 hh
  have hroots := getRootScopes_ne_nil (hw.pair_ids _ _ _ _ hk)
  by_cases hn : st.strategy (.item pub) = nodeLocal
  · simp only [rendezvous, rendezvousPackets, if_neg hp, if_pos hn]
    rfl
  by_cases hd : st.strategy (.item pub) = domainLocal
  · simp only [rendezvous, rendezvousPackets, if_neg hp, if_neg hn, if_pos hd, knownScope_eq hroots]
    cases isKnown gc (st.getRootScopes pub) with
    | false => rfl
    | true => exact congrArg Except.ok (foldl_emit _ _)
  · simp only [rendezvous, rendezvousPackets, if_neg hp, if_neg hn, if_neg hd, State.emits_nil]

theorem notifySubscribers_eq (type : ScopeEvent) (ids : ListSet Id) (strat : Strategy)
    (subs : ListSet NodeID) :
    notifySubscribers gc st type ids strat subs =
      st.emits (notifyPackets gc type ids strat subs) := by
  unfold notifySubscribers notifyPackets
  split
  · split
    · rfl
    · exact State.emits_nil.symm
  · split
    · exact State.emits_nil.symm
    · rfl

def againPackets (gc : GlobalConf) (st : State) (roots : List Id) (pub : ℕ)
    (updateOnly : Bool) : List Packet :=
  if isKnown gc roots then [] else rendezvousPackets gc st pub (st.interested pub) updateOnly

theorem rendezvousAgain_eq (hw : st.Wf label) (hr : roots ≠ []) (pub : ℕ) (upd : Bool) :
    rendezvousAgain gc st roots pub upd = .ok (st.emits (againPackets gc st roots pub upd)) := by
  simp only [rendezvousAgain, againPackets, knownScope_eq hr]
  cases isKnown gc roots with
  | false => exact rendezvous_eq hw pub _ _
  | true => exact congrArg Except.ok State.emits_nil.symm

theorem rendezvousPackets_of_no_publisher (hw : st.Wf label) {pub : ℕ}
    (h : ∀ k h, h ∉ st.pair .pub (.item pub) k) (subs : ListSet NodeID)
    (upd : Bool) : rendezvousPackets gc st pub subs upd = [] := by
  refine if_pos (isEmpty_iff.2 fun p hp => ?_)
  obtain ⟨k, hk⟩ := hw.mem_getHosts.1 hp
  exact h k p hk

/-! ### Joins -/

def State.withRoot (st : State) (strategy : Strategy) (a : Fragment) : State :=
  ((st.alloc .scope strategy true).setIndex (.scope (st.next .scope)) [a]).newPair
    (.scope (st.next .scope)) [a]

/-- The host `h` is added to `o` under `k` in the role `r`. The object is there, a new root, new
under a father, or gets a further one if `adopts` allows it. -/
inductive Joins (label : Obj → Fragment) (adopts : Obj → ℕ → Prop) (r : Role) (h : NodeID)
    (st : State) : Obj → Id → State → Prop
  | there {o : Obj} {k : Id} (hk : k ∈ st.ids o) :
    Joins label adopts r h st o k (st.register r o k h)
  | root {a : Fragment} (strategy : Strategy) (hfree : st.scopeIndex [a] = none) :
    Joins label adopts r h st (.scope (st.next .scope)) [a]
      ((st.withRoot strategy a).register r (.scope (st.next .scope)) [a] h)
  | born {κ : Kind} {f : ℕ} {j : Id} {a : Fragment} (hj : j ∈ st.ids (.scope f))
    (hfree : ∀ o, j ++ [a] ∉ st.ids o) :
    Joins label adopts r h st ⟨κ, st.next κ⟩ (j ++ [a])
      ((st.birth κ (st.strategy (.scope f)) f a).register r ⟨κ, st.next κ⟩ (j ++ [a]) h)
  | adopted {o : Obj} {f : ℕ} {j k₀ : Id} {s : State} (hr : r = .pub) (hadopt : adopts o f)
    (hk₀ : k₀ ∈ st.ids o) (hor : o ∉ st.graph.root) (hj : j ∈ st.ids (.scope f))
    (hfree : ∀ y, j ++ [label o] ∉ st.ids y)
    (hnb : ¬ NameGraph.Below st.graph.fathers o (.scope f))
    (hg : State.Grows label (st.link o f) s) (hw : s.Wf label) :
    Joins label adopts r h st o (j ++ [label o]) (s.register r o (j ++ [label o]) h)

namespace Joins

variable {adopts : Obj → ℕ → Prop} {r : Role} {h : NodeID} {o o' : Obj} {k k' : Id} {g : ℕ}

section
variable (hw : st.Wf label) (hj : Joins label adopts r h st o k m)
include hw hj

theorem key_mem : k ∈ m.ids o := by
  cases hj with
  | there hk => exact hk
  | root strat hfree => exact State.mem_newPair_ids.2 (.inr ⟨rfl, rfl⟩)
  | born hj hfree => exact (hw.mem_birth_ids hj).2 (.inr ⟨rfl, _, hj, rfl⟩)
  | adopted _ _ _ _ hj _ _ hg hws => exact hg.mem_of_link hws hj

theorem wf : ∃ label', m.Wf label' := by
  have hk := hj.key_mem hw
  cases hj with
  | there => exact ⟨label, hw.register hk⟩
  | root strat hfree => exact ⟨_, (hw.newRoot hfree strat).register hk⟩
  | born hj hfree => exact ⟨_, (hw.birth _ hj hfree).register hk⟩
  | adopted _ _ _ _ _ _ _ _ hws => exact ⟨label, hws.register hk⟩

theorem mem_pair {r' : Role} {h' : NodeID} :
    h' ∈ m.pair r' o' k' ↔ h' ∈ st.pair r' o' k' ∨ (r' = r ∧ o' = o ∧ k' = k ∧ h' = h) := by
  cases hj with
  | there hk => exact State.mem_register_pair
  | root strat hfree =>
    refine State.mem_register_pair.trans (or_congr_left ?_)
    rw [State.withRoot, State.newPair_pair]
    split
    · rename_i hc
      obtain ⟨rfl, rfl⟩ := hc
      refine iff_of_false (not_mem_empty _) fun hh => ?_
      exact (hw.unborn (.scope (st.next .scope)) le_rfl).1 _ (hw.pair_ids _ _ _ _ hh)
    · exact Iff.rfl
  | born hj hfree =>
    refine State.mem_register_pair.trans (or_congr_left ?_)
    rw [(hw.birth_grows _ _ _ _).pair_eq]
    exact Iff.rfl
  | adopted _ _ _ _ _ _ _ hg =>
    refine State.mem_register_pair.trans (or_congr_left ?_)
    rw [hg.pair_eq]
    exact Iff.rfl

theorem mem_own {r' : Role} {κ' : Kind} {h' : NodeID} :
    k' ∈ m.own r' κ' h' ↔ k' ∈ st.own r' κ' h' ∨ (r' = r ∧ κ' = o.kind ∧ h' = h ∧ k' = k) := by
  cases hj with
  | there hk | root strat hfree => exact State.mem_register_own
  | born hj hfree =>
    refine State.mem_register_own.trans (or_congr_left ?_)
    rw [(hw.birth_grows _ _ _ _).own_eq]
    exact Iff.rfl
  | adopted _ _ _ _ _ _ _ hg =>
    refine State.mem_register_own.trans (or_congr_left ?_)
    rw [hg.own_eq]
    exact Iff.rfl

theorem ids_mono (hk : k' ∈ st.ids o') : k' ∈ m.ids o' := by
  cases hj with
  | there => exact hk
  | root => exact State.mem_newPair_ids.2 (.inl hk)
  | born hj => exact (hw.mem_birth_ids hj).2 (.inl hk)
  | adopted _ _ _ _ _ _ _ hg => exact hg.mono _ _ hk

theorem live (hk : k' ∈ m.ids o') : (∃ k₀, k₀ ∈ st.ids o') ∨ o' = o := by
  cases hj with
  | there => exact .inl ⟨k', hk⟩
  | root => exact (State.mem_newPair_ids.1 hk).imp (fun hk => ⟨k', hk⟩) And.left
  | born hj => exact ((hw.mem_birth_ids hj).1 hk).imp (fun hk => ⟨k', hk⟩) And.left
  | adopted _ _ hk₀ _ _ _ _ hg =>
    rcases hg.sound _ _ hk with hk | ⟨f, hf, -⟩
    · exact .inl ⟨k', hk⟩
    · exact .inl (hw.link_live hk₀ _ _ hf)

theorem fatherScopes_mono (hg : g ∈ st.fatherScopes o') : g ∈ m.fatherScopes o' := by
  cases hj with
  | there | root => exact hg
  | born hj =>
    rw [State.register_fatherScopes, (hw.birth_grows _ _ _ _).fatherScopes_eq]
    exact State.mem_newborn_fatherScopes.2 (.inl hg)
  | adopted _ _ _ _ _ _ _ hgr =>
    rw [State.register_fatherScopes, hgr.fatherScopes_eq]
    exact State.mem_link_fatherScopes.2 (.inl hg)

theorem strategy_of_lt (ho : o'.ptr < st.next o'.kind) : m.strategy o' = st.strategy o' := by
  have hold : ∀ κ, o' ≠ ⟨κ, st.next κ⟩ := by
    rintro κ rfl
    exact lt_irrefl _ ho
  cases hj with
  | there => rfl
  | root => exact if_neg (hold .scope)
  | born hj =>
    rw [State.register_strategy, (hw.birth_grows _ _ _ _).strategy_eq]
    exact if_neg (hold _)
  | adopted _ _ _ _ _ _ _ hg => rw [State.register_strategy, hg.strategy_eq, State.link_strategy]

theorem strategy_of_live (hk : k' ∈ st.ids o') : m.strategy o' = st.strategy o' :=
  hj.strategy_of_lt hw (hw.lt_next hk)

theorem next_mono (κ : Kind) : st.next κ ≤ m.next κ := by
  have halloc : ∀ κ', st.next κ ≤ if κ = κ' then st.next κ' + 1 else st.next κ := by
    intro κ'
    split
    · rename_i hκ
      rw [hκ]
      exact Nat.le_succ _
    · exact le_rfl
  cases hj with
  | there => exact le_rfl
  | root => exact halloc .scope
  | born hj =>
    rw [State.register_next, (hw.birth_grows _ _ _ _).next_eq]
    exact halloc _
  | adopted _ _ _ _ _ _ _ hg =>
    rw [State.register_next, hg.next_eq]
    exact le_rfl

theorem father_cases (hg : g ∈ m.fatherScopes o') :
    g ∈ st.fatherScopes o' ∨ (o' = o ∧ k.dropLast ∈ st.ids (.scope g) ∧
      (m.strategy o = st.strategy (.scope g) ∨ (adopts o g ∧ ∃ k₀, k₀ ∈ st.ids o))) := by
  cases hj with
  | there | root => exact .inl hg
  | @born κ f j a hj hfree =>
    rw [State.register_fatherScopes, (hw.birth_grows _ _ _ _).fatherScopes_eq] at hg
    refine (State.mem_newborn_fatherScopes.1 hg).imp id ?_
    intro hboth
    obtain ⟨rfl, rfl⟩ := hboth
    refine ⟨rfl, by rwa [dropLast_concat], .inl ?_⟩
    rw [State.register_strategy, (hw.birth_grows _ _ _ _).strategy_eq]
    exact if_pos rfl
  | adopted _ hado hk₀ _ hj _ _ hgr =>
    rw [State.register_fatherScopes, hgr.fatherScopes_eq] at hg
    refine (State.mem_link_fatherScopes.1 hg).imp id ?_
    intro hboth
    obtain ⟨rfl, rfl⟩ := hboth
    exact ⟨rfl, by rwa [dropLast_concat], .inr ⟨hado, _, hk₀⟩⟩

theorem out_eq : m.out = st.out := by
  cases hj with
  | there | root => rfl
  | born => exact (hw.birth_grows _ _ _ _).out_eq
  | adopted _ _ _ _ _ _ _ hg => exact hg.out_eq

theorem root_cases (ho : o' ∈ m.graph.root) : o' ∈ st.graph.root ∨ o' = o := by
  rw [State.mem_graph_root] at ho ⊢
  cases hj with
  | there => exact .inl ho
  | root strat hfree =>
    obtain ⟨hkind, hroot⟩ := ho
    obtain ⟨κ, p⟩ := o'
    obtain rfl : κ = .scope := hkind
    by_cases hp : p = st.next .scope
    · exact .inr (by rw [hp])
    · refine .inl ⟨rfl, ?_⟩
      exact (if_neg (fun hc => hp hc.2)).symm.trans hroot
  | @born κ f j a hj hfree =>
    obtain ⟨hkind, hroot⟩ := ho
    refine .inl ⟨hkind, ?_⟩
    rw [State.register_isRoot, (hw.birth_grows _ _ _ _).isRoot_eq, State.link_isRoot,
      State.alloc_isRoot] at hroot
    split at hroot
    · cases hroot
    · exact hroot
  | adopted _ _ _ _ _ _ _ hg =>
    rw [State.register_isRoot, hg.isRoot_eq] at ho
    exact .inl ho

end

end Joins

/-! ### Departures -/

/-- Something is below the object, or somebody publishes or subscribes to it there. -/
def State.Needed (st : State) (o : Obj) (f : Option ℕ) : Prop :=
  (o.kind = .scope ∧ ∃ κ c, c ∈ st.children κ o.ptr) ∨ match f with
    | some g => st.UsedUnder o g
    | none => st.Used o

/-- What becomes of `o` after a host has left it under the father `f`; a root has none. -/
inductive Settles (label : Obj → Fragment) (st : State) (o : Obj) : Option ℕ → State → Prop
  | keep {f : Option ℕ} (hneed : st.Needed o f) : Settles label st o f st
  | whole {f : Option ℕ} (hleaf : o.kind = .scope → ∀ κ c, c ∉ st.children κ o.ptr)
    (honly : ∀ g ∈ st.fatherScopes o, f = some g) (hunused : ¬ st.Used o) :
    Settles label st o f (st.delete o f)
  | branch {f g : ℕ} (hleaf : o.kind = .scope → ∀ κ c, c ∉ st.children κ o.ptr)
    (hf : f ∈ st.fatherScopes o) (hg : g ∈ st.fatherScopes o) (hne : g ≠ f)
    (hunused : ¬ st.UsedUnder o f) :
    Settles label st o (some f) (st.deleteBranch o f [label o])

theorem Settles.wf {o : Obj} {f : Option ℕ} (hw : st.Wf label) (hs : Settles label st o f m) :
    m.Wf label := by
  cases hs with
  | keep => exact hw
  | whole hleaf honly => exact hw.delete hleaf honly
  | branch hleaf hf => exact hw.deleteBranch hleaf hf

namespace Settles

variable {o o' : Obj} {f : Option ℕ} {k : Id} (hs : Settles label st o f m)
include hs

theorem mem_pair {r : Role} {h : NodeID} : h ∈ m.pair r o' k ↔ h ∈ st.pair r o' k := by
  cases hs with
  | keep => exact Iff.rfl
  | whole hleaf honly hunu =>
    rw [State.mem_delete_pair]
    refine ⟨And.left, fun hh => ⟨hh, ?_⟩⟩
    rintro rfl
    exact hunu ⟨r, k, h, hh⟩
  | branch hleaf hf hg hne hunu =>
    rw [State.mem_deleteBranch_pair]
    refine ⟨And.left, fun hh => ⟨hh, ?_⟩⟩
    intro hboth
    obtain ⟨rfl, hk⟩ := hboth
    obtain ⟨j, hj, rfl⟩ := State.mem_namesUnder.1 hk
    exact hunu ⟨r, _, h, hh, by rwa [dropLast_concat]⟩

theorem ids_sub (hk : k ∈ m.ids o') : k ∈ st.ids o' := by
  cases hs with
  | keep => exact hk
  | whole => exact (State.mem_delete_ids.1 hk).1
  | branch => exact (State.mem_deleteBranch_ids.1 hk).1

theorem fatherScopes_sub {g : ℕ} (hg : g ∈ m.fatherScopes o') : g ∈ st.fatherScopes o' := by
  cases hs with
  | keep => exact hg
  | whole => exact (State.mem_delete_fatherScopes.1 hg).1
  | branch => exact (State.mem_deleteBranch_fatherScopes.1 hg).1

theorem ids_of_ne (hne : o' ≠ o) : m.ids o' = st.ids o' := by
  cases hs with
  | keep => rfl
  | whole | branch => exact if_neg hne

theorem fatherScopes_of_ne (hne : o' ≠ o) : m.fatherScopes o' = st.fatherScopes o' := by
  cases hs with
  | keep => rfl
  | whole | branch => exact if_neg hne

theorem strategy_eq : m.strategy = st.strategy := by
  cases hs <;> rfl

theorem own_eq : m.own = st.own := by
  cases hs <;> rfl

theorem out_eq : m.out = st.out := by
  cases hs <;> rfl

theorem next_eq : m.next = st.next := by
  cases hs <;> rfl

theorem isRoot_eq : m.isRoot = st.isRoot := by
  cases hs <;> rfl

end Settles

end Blackadder
