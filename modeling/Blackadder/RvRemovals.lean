/-
**Removals: what the unpublish and unsubscribe handlers do.**

The host is withdrawn, the object settles, and packets are pushed. The descriptions say which
packets and in which state, since the order of deletion and announcement differs. None of these
handlers can fault in a well-formed state.
-/

import Blackadder.RvSteps

namespace Blackadder

open ListSet List

variable {gc : GlobalConf} {st s t m w : State} {label : Obj → Fragment}

open Except (Runs ok_bind)

/-! ### Settling -/

theorem State.Wf.not_used_of_only {o : Obj} {f : ℕ} (hw : st.Wf label)
    (hf : f ∈ st.fatherScopes o) (hsize : (st.fatherScopes o).size = 1)
    (hunu : ¬ st.UsedUnder o f) : (∀ g ∈ st.fatherScopes o, g = f) ∧ ¬ st.Used o := by
  have honly : ∀ g ∈ st.fatherScopes o, g = f := fun g hg =>
    eq_of_size_eq_one hsize hg hf
  refine ⟨honly, ?_⟩
  intro hex
  obtain ⟨r, k, h, hh⟩ := hex
  refine hunu ⟨r, k, h, hh, ?_⟩
  have hor : o ∉ st.graph.root := fun hr =>
    hw.named.root_fathers o hr _ (State.scope_mem_graph_fathers.2 hf)
  obtain ⟨g, hg, j, hj, rfl⟩ := (hw.inner_mem_iff hor).1 (hw.pair_ids r o k h hh)
  rw [dropLast_concat, ← honly g hg]
  exact hj

theorem dropBranch_eq {o : Obj} {f : ℕ} (hw : st.Wf label) (hf : f ∈ st.fatherScopes o) :
    dropBranch st o f = .ok (st.deleteBranch o f [label o]) := by
  obtain ⟨k, hk⟩ := hw.live_of_father hf
  simp only [dropBranch, hw.suffixID_eq hk]
  rfl

theorem settles_item {i f : ℕ} (hw : st.Wf label) (hf : f ∈ st.fatherScopes (.item i)) :
    ∃ b, st.checkForOtherPubSub (.item i) (some f) = .ok b ∧
      (b = true → Settles label st (.item i) (some f) st) ∧
      (b = false → (st.fatherScopes (.item i)).size = 1 →
        Settles label st (.item i) (some f) (st.delete (.item i) (some f))) ∧
      (b = false → (st.fatherScopes (.item i)).size ≠ 1 → Settles label st (.item i) (some f)
          (st.deleteBranch (.item i) f [label (.item i)])) := by
  obtain ⟨b, hb, hiff⟩ := hw.checkForOtherPubSub_eq hf
  have hunder : b = false → ¬ st.UsedUnder (.item i) f := by
    rintro rfl hu
    exact Bool.false_ne_true (hiff.2 hu)
  have hleaf : (Obj.item i).kind = .scope → ∀ κ c, c ∉ st.children κ (Obj.item i).ptr :=
    fun hc => by cases hc
  refine ⟨b, hb, fun h => Settles.keep (.inr (hiff.1 h)), ?_, ?_⟩
  · intro hb hsize
    obtain ⟨honly, hunu⟩ := hw.not_used_of_only hf hsize (hunder hb)
    exact .whole hleaf (fun g hg => by rw [honly g hg]) hunu
  · intro hb hsize
    obtain ⟨g, hg, hne⟩ := exists_ne_of_size_ne_one hsize hf
    exact .branch hleaf hf hg hne (hunder hb)

section
variable (ps : List Packet) (o : Obj)
include ps o

theorem anyPubSub_emits (sfx : Id) (l : List Id) :
    (st.emits ps).anyPubSub o sfx l = st.anyPubSub o sfx l := by
  induction l with
  | nil => rfl
  | cons j l ih =>
    simp only [State.anyPubSub, ih]
    rfl

theorem checkForOtherPubSub_emits (f : Option ℕ) :
    (st.emits ps).checkForOtherPubSub o f = st.checkForOtherPubSub o f := by
  cases f with
  | none => rfl
  | some f =>
    simp only [State.checkForOtherPubSub, anyPubSub_emits]
    rfl

theorem dropBranch_emits (f : ℕ) :
    dropBranch (st.emits ps) o f = (fun s => s.emits ps) <$> dropBranch st o f := by
  change (st.suffixID o >>= _) = _ <$> (st.suffixID o >>= _)
  cases st.suffixID o <;> rfl

end

/-! ### Items that lose a host -/

/-- The item `i` loses the publisher `h` under `k`, through the father `f`, and is announced in the
state after that. -/
structure LosesPublisher (gc : GlobalConf) (label : Obj → Fragment) (updateOnly : Bool)
    (h : NodeID) (k : Id) (i f : ℕ) (st st' : State) : Prop where
  mem : h ∈ st.pair .pub (.item i) k
  name : k.dropLast ∈ st.ids (.scope f)
  settles : ∃ m, Settles label (st.withdraw .pub (.item i) k h) (.item i) (some f) m ∧
    st' = m.emits (againPackets gc m (st.getRootScopes i) i updateOnly)

inductive UnpublishTry (gc : GlobalConf) (label : Obj → Fragment) (strategy : Strategy)
    (updateOnly : Bool) (h : NodeID) (k : Id) (st : State) : State → Prop
  | skip (hno : ∀ i f, st.pubIndex k = some i → st.scopeIndex k.dropLast = some f →
    st.strategy (.scope f) = strategy → h ∉ st.pair .pub (.item i) k) :
    UnpublishTry gc label strategy updateOnly h k st st
  | lose {i f : ℕ} {st' : State} (hs : st.strategy (.scope f) = strategy)
    (hl : LosesPublisher gc label updateOnly h k i f st st') :
    UnpublishTry gc label strategy updateOnly h k st st'

/-- The item is announced again before it is deleted, or has no publisher left. -/
theorem Settles.againPackets_whole {i f : ℕ} (hw : st.Wf label)
    (hs : Settles label st (.item i) (some f) (st.delete (.item i) (some f))) (roots : List Id)
    (upd : Bool) : againPackets gc (st.delete (.item i) (some f)) roots i upd = [] := by
  unfold againPackets
  split
  · rfl
  · refine rendezvousPackets_of_no_publisher (hs.wf hw) ?_ _ _
    intro k h hh
    exact (State.mem_delete_pair.1 hh).2 rfl

/-- The item `i` loses the subscriber `h` under `k`, through the father `f`, and is announced before
it settles. -/
structure LosesSubscriber (gc : GlobalConf) (label : Obj → Fragment) (updateOnly : Bool)
    (h : NodeID) (k : Id) (i f : ℕ) (st st' : State) : Prop where
  mem : h ∈ st.pair .sub (.item i) k
  name : k.dropLast ∈ st.ids (.scope f)
  settles : ∃ m, Settles label (st.withdraw .sub (.item i) k h) (.item i) (some f) m ∧
    st' = m.emits (againPackets gc (st.withdraw .sub (.item i) k h) (st.getRootScopes i) i
      updateOnly)

section
variable (hw : st.Wf label) (h : NodeID) (a : Fragment) (pre : Id) (strat : Strategy)
  (upd : Bool)
include hw

/-- **`unpublish_info`** does not fault, and succeeds exactly when the item loses the publisher. -/
theorem unpublishInfo_meets :
    (unpublishInfo gc st h [a] pre strat upd).Meets (fun _ => False) fun res =>
      (res.1 ≠ .success ∧ res.2 = st ∧ ∀ i f, st.pubIndex (pre ++ [a]) = some i →
        st.scopeIndex pre = some f → st.strategy (.scope f) = strat →
        h ∉ st.pair .pub (.item i) (pre ++ [a])) ∨
      (res.1 = .success ∧ ∃ i f, st.strategy (.scope f) = strat ∧
        LosesPublisher gc label upd h (pre ++ [a]) i f st res.2) := by
  cases hi : st.pubIndex (pre ++ [a]) with
  | none =>
    simp only [unpublishInfo, hi]
    exact .inl ⟨by simp, rfl, by simp⟩
  | some i =>
    have hk := hw.index_eq_some.1 hi
    obtain ⟨f, hpf, hf, hjf⟩ := hw.father_of_item hk
    by_cases hstr : st.strategy (.scope f) = strat
    · by_cases hh : h ∈ st.pair .pub (.item i) (pre ++ [a])
      · simp only [unpublishInfo, hi, hpf, if_pos hstr, State.Wf.getPair_eq hk, ok_bind, if_pos hh]
        have hroots := getRootScopes_ne_nil hk
        have hname : (pre ++ [a]).dropLast ∈ st.ids (.scope f) := by
          rw [dropLast_concat]
          exact hjf
        have hww : (st.withdraw .pub (.item i) (pre ++ [a]) h).Wf label := hw.withdraw
        obtain ⟨b, hb, hkeep, hwho, hbra⟩ := settles_item hww hf
        rw [hb, ok_bind]
        cases b with
        | true =>
          have hs := hkeep rfl
          simp only [pure_bind, rendezvousAgain_eq hww hroots]
          split <;> exact .inr ⟨rfl, i, f, hstr, hh, hname, _, hs, rfl⟩
        | false =>
          by_cases hsize : ((st.withdraw .pub (.item i) (pre ++ [a]) h).fatherScopes
              (.item i)).size = 1
          · have hs := hwho rfl hsize
            rw [if_pos hsize]
            refine .inr ⟨rfl, i, f, hstr, hh, hname, _, hs, ?_⟩
            rw [hs.againPackets_whole hww, State.emits_nil]
          · have hs := hbra rfl hsize
            rw [if_neg hsize, dropBranch_eq hww hf, ok_bind, rendezvousAgain_eq (hs.wf hww) hroots]
            exact .inr ⟨rfl, i, f, hstr, hh, hname, _, hs, rfl⟩
      · simp only [unpublishInfo, hi, hpf, if_pos hstr, State.Wf.getPair_eq hk, ok_bind, if_neg hh]
        refine .inl ⟨by simp, rfl, ?_⟩
        intro i' f' hi' _ _
        cases hi'
        exact hh
    · simp only [unpublishInfo, hi, hpf, if_neg hstr]
      refine .inl ⟨by simp, rfl, ?_⟩
      intro i' f' _ hf' hs
      cases hf'
      exact absurd hs hstr

theorem unpublishInfo_try : (do
      let (_, st) ← unpublishInfo gc st h [a] pre strat upd
      return st : Except Fault State).Meets (fun _ => False) fun st' =>
        UnpublishTry gc label strat upd h (pre ++ [a]) st st' := by
  refine (unpublishInfo_meets hw h a pre strat upd).bind ?_
  rintro ⟨code, st'⟩ (⟨-, rfl, hno⟩ | ⟨-, i, f, hs, hl⟩)
  · refine UnpublishTry.skip ?_
    rw [dropLast_concat]
    exact hno
  · exact UnpublishTry.lose hs hl

/-- **`unsubscribe_info`** does not fault, and succeeds exactly when the item loses the subscriber.
-/
theorem unsubscribeInfo_meets :
    (unsubscribeInfo gc st h [a] pre strat upd).Meets (fun _ => False) fun res =>
      (res.1 ≠ .success ∧ res.2 = st ∧ ∀ i f, st.pubIndex (pre ++ [a]) = some i →
        st.scopeIndex pre = some f → st.strategy (.scope f) = strat →
        h ∉ st.pair .sub (.item i) (pre ++ [a])) ∨
      (res.1 = .success ∧ ∃ i f, LosesSubscriber gc label upd h (pre ++ [a]) i f st res.2) := by
  cases hi : st.pubIndex (pre ++ [a]) with
  | none =>
    simp only [unsubscribeInfo, hi]
    exact .inl ⟨by simp, rfl, by simp⟩
  | some i =>
    have hk := hw.index_eq_some.1 hi
    obtain ⟨f, hpf, hf, hjf⟩ := hw.father_of_item hk
    by_cases hstr : st.strategy (.scope f) = strat
    · by_cases hh : h ∈ st.pair .sub (.item i) (pre ++ [a])
      · simp only [unsubscribeInfo, hi, hpf, if_pos hstr, State.Wf.getPair_eq hk, ok_bind,
          if_pos hh]
        have hroots : (st.withdraw .sub (.item i) (pre ++ [a]) h).getRootScopes i ≠ []
          := getRootScopes_ne_nil (k := pre ++ [a]) hk
        have hname : (pre ++ [a]).dropLast ∈ st.ids (.scope f) := by
          rw [dropLast_concat]
          exact hjf
        have hww : (st.withdraw .sub (.item i) (pre ++ [a]) h).Wf label := hw.withdraw
        obtain ⟨b, hb, hkeep, hwho, hbra⟩ := settles_item hww hf
        rw [rendezvousAgain_eq hww hroots, ok_bind, checkForOtherPubSub_emits, hb]
        cases b with
        | true => exact .inr ⟨rfl, i, f, hh, hname, _, hkeep rfl, rfl⟩
        | false =>
          split
          · rename_i hsize
            exact .inr ⟨rfl, i, f, hh, hname, _, hwho rfl hsize, rfl⟩
          · rename_i hsize
            rw [dropBranch_emits, dropBranch_eq hww hf]
            exact .inr ⟨rfl, i, f, hh, hname, _, hbra rfl hsize, rfl⟩
      · simp only [unsubscribeInfo, hi, hpf, if_pos hstr, State.Wf.getPair_eq hk, ok_bind,
          if_neg hh]
        refine .inl ⟨by simp, rfl, ?_⟩
        intro i' f' hi' _ _
        cases hi'
        exact hh
    · simp only [unsubscribeInfo, hi, hpf, if_neg hstr]
      refine .inl ⟨by simp, rfl, ?_⟩
      intro i' f' _ hf' hs
      cases hf'
      exact absurd hs hstr

end

/-! ### What a lost publisher leaves unchanged -/

namespace LosesPublisher

variable {upd : Bool} {h : NodeID} {k : Id} {i f : ℕ} {st' : State}

theorem wf (hw : st.Wf label) (hl : LosesPublisher gc label upd h k i f st st') : st'.Wf label := by
  obtain ⟨m, hs, rfl⟩ := hl.settles
  exact (hs.wf hw.withdraw).emits _

section
variable (hl : LosesPublisher gc label upd h k i f st st')
include hl

theorem mem_pair {r' : Role} {o' : Obj} {k' : Id} {h' : NodeID} : h' ∈ st'.pair r' o' k' ↔
      h' ∈ st.pair r' o' k' ∧ ¬ (r' = .pub ∧ o' = .item i ∧ k' = k ∧ h' = h) := by
  obtain ⟨m, hs, rfl⟩ := hl.settles
  exact hs.mem_pair.trans State.mem_withdraw_pair

theorem ids_sub {o' : Obj} {k' : Id} (hk : k' ∈ st'.ids o') : k' ∈ st.ids o' := by
  obtain ⟨m, hs, rfl⟩ := hl.settles
  exact hs.ids_sub hk

theorem ids_of_ne {o' : Obj} (hne : o' ≠ Obj.item i) : st'.ids o' = st.ids o' := by
  obtain ⟨m, hs, rfl⟩ := hl.settles
  exact hs.ids_of_ne hne

theorem fatherScopes_sub {o' : Obj}
    {g : ℕ} (hg : g ∈ st'.fatherScopes o') : g ∈ st.fatherScopes o' := by
  obtain ⟨m, hs, rfl⟩ := hl.settles
  exact hs.fatherScopes_sub hg

theorem fatherScopes_of_ne {o' : Obj}
    (hne : o' ≠ Obj.item i) : st'.fatherScopes o' = st.fatherScopes o' := by
  obtain ⟨m, hs, rfl⟩ := hl.settles
  exact hs.fatherScopes_of_ne hne

theorem strategy_eq : st'.strategy = st.strategy := by
  obtain ⟨m, hs, rfl⟩ := hl.settles
  exact hs.strategy_eq

theorem isRoot_eq : st'.isRoot = st.isRoot := by
  obtain ⟨m, hs, rfl⟩ := hl.settles
  exact hs.isRoot_eq

end

theorem key_mem (hw : st.Wf label) (hl : LosesPublisher gc label upd h k i f st st') :
    k ∈ st.ids (.item i) :=
  hw.pair_ids _ _ _ _ hl.mem

end LosesPublisher

namespace UnpublishTry

variable {strat : Strategy} {upd : Bool} {h : NodeID} {k : Id} {st' : State}

theorem wf (hw : st.Wf label) (hu : UnpublishTry gc label strat upd h k st st') : st'.Wf label := by
  cases hu with
  | skip => exact hw
  | lose _ hl => exact hl.wf hw

theorem ids_sub (hu : UnpublishTry gc label strat upd h k st st') {o' : Obj} {k' : Id}
    (hk : k' ∈ st'.ids o') : k' ∈ st.ids o' := by
  cases hu with
  | skip => exact hk
  | lose _ hl => exact hl.ids_sub hk

theorem ids_of_ne (hw : st.Wf label) (hu : UnpublishTry gc label strat upd h k st st')
    {i : ℕ} (hi : ∀ i', k ∈ st.ids (.item i') → i' = i) {o' : Obj} (hne : o' ≠ Obj.item i) :
    st'.ids o' = st.ids o' := by
  cases hu with
  | skip => rfl
  | lose _ hl =>
    refine hl.ids_of_ne ?_
    rw [hi _ (hl.key_mem hw)]
    exact hne

section
variable (hu : UnpublishTry gc label strat upd h k st st')
include hu

theorem ids_scope (p : ℕ) : st'.ids (.scope p) = st.ids (.scope p) := by
  cases hu with
  | skip => rfl
  | lose _ hl => exact hl.ids_of_ne (by simp)

theorem fatherScopes_scope (p : ℕ) : st'.fatherScopes (.scope p) = st.fatherScopes (.scope p) := by
  cases hu with
  | skip => rfl
  | lose _ hl => exact hl.fatherScopes_of_ne (by simp)

theorem strategy_eq : st'.strategy = st.strategy := by
  cases hu with
  | skip => rfl
  | lose _ hl => exact hl.strategy_eq

theorem isRoot_eq : st'.isRoot = st.isRoot := by
  cases hu with
  | skip => rfl
  | lose _ hl => exact hl.isRoot_eq

end

end UnpublishTry

/-! ### The cascade -/

abbrev UnpublishesUnder (gc : GlobalConf) (label : Obj → Fragment) (strategy : Strategy)
    (updateOnly : Bool) (h : NodeID) (i : ℕ) : List Id → State → State → Prop :=
  Runs fun j => UnpublishTry gc label strategy updateOnly h (j ++ [label (.item i)])

abbrev Cascade (gc : GlobalConf) (label : Obj → Fragment) (strategy : Strategy)
    (updateOnly : Bool) (h : NodeID) (sc : ℕ) (st : State) : State → Prop :=
  Runs (fun i s => UnpublishesUnder gc label strategy updateOnly h i (s.ids (.scope sc)).toList s)
    (st.informationitems sc).toList st

theorem unpublishesUnder_meets (hw : st.Wf label) (h : NodeID) (strat : Strategy) (upd : Bool)
    (i : ℕ) (js : List Id) (hjs : ∀ j ∈ js, j ++ [label (.item i)] ∈ st.ids (.item i)) :
    (js.foldlM (fun st j => do
      let (_, st) ← unpublishInfo gc st h [label (.item i)] j strat upd
      return st) st).Meets (fun _ => False) fun st' =>
        UnpublishesUnder gc label strat upd h i js st st' ∧ st'.Wf label ∧
          ∀ o ≠ Obj.item i, st'.ids o = st.ids o := by
  refine (Except.foldlM_runs
    (R := fun j => UnpublishTry gc label strat upd h (j ++ [label (.item i)]))
    (fun js t => t.Wf label ∧
    (∀ j ∈ js, j ++ [label (.item i)] ∈ st.ids (.item i)) ∧
    (∀ o k, k ∈ t.ids o → k ∈ st.ids o) ∧ ∀ o ≠ Obj.item i, t.ids o = st.ids o) ?_ js st
    ⟨hw, hjs, fun _ _ hk => hk, fun _ _ => rfl⟩).mono (fun _ he => he) ?_
  · intro j js t hinv
    obtain ⟨hwt, hjs, hsub, hne⟩ := hinv
    refine (unpublishInfo_try hwt h _ j strat upd).mono (fun _ he => he) ?_
    intro t' hu
    refine ⟨hu, hu.wf hwt, fun j' hj' => hjs j' (mem_cons_of_mem j hj'),
      fun o k hk => hsub o k (hu.ids_sub hk), ?_⟩
    intro o ho
    rw [hu.ids_of_ne hwt ?_ ho, hne o ho]
    -- the identifier was one of item `i` when the loop started
    intro i' hi'
    have := hw.eq_of_mem (hsub _ _ hi') (hjs j mem_cons_self)
    simpa using this
  · intro t hinv
    obtain ⟨hr, hwt, -, -, hne⟩ := hinv
    exact ⟨hr, hwt, hne⟩

/-- **The cascade** does not fault: the items that are still to be visited are untouched. -/
theorem unpublishItems_meets (hw : st.Wf label) (h : NodeID) (sc : ℕ) (strat : Strategy)
    (upd : Bool) :
    (unpublishItems gc st h sc strat upd).Meets (fun _ => False) fun st' =>
      Cascade gc label strat upd h sc st st' ∧ st'.Wf label := by
  refine (Except.foldlM_runs (R := fun i s =>
      UnpublishesUnder gc label strat upd h i (s.ids (.scope sc)).toList s)
    (fun l s => s.Wf label ∧ l.Nodup ∧
    (∀ i ∈ l, sc ∈ st.fatherScopes (.item i) ∧ s.ids (.item i) = st.ids (.item i)) ∧
    s.ids (.scope sc) = st.ids (.scope sc)) ?_ _ st ⟨hw, ?_, ?_, rfl⟩).mono
    (fun _ he => he) fun t ht => ⟨ht.1, ht.2.1⟩
  · intro i l s hinv
    obtain ⟨hws, hnd, hl, hsc⟩ := hinv
    obtain ⟨hf, hids⟩ := hl i mem_cons_self
    have hnam : ∀ j ∈ s.ids (.scope sc), j ++ [label (.item i)] ∈ s.ids (.item i) := by
      intro j hj
      rw [hids]
      rw [hsc] at hj
      exact hw.mem_of_father hf hj
    obtain ⟨j, hj⟩ := hw.father_live hf
    rw [hws.suffixID_eq (hnam j (hsc ▸ hj))]
    refine (unpublishesUnder_meets hws h strat upd i _ hnam).mono (fun _ he => he) ?_
    intro t hinv
    obtain ⟨hr, hwt, hne⟩ := hinv
    obtain ⟨hil, hnd⟩ := nodup_cons.1 hnd
    refine ⟨hr, hwt, hnd, ?_, ?_⟩
    · intro i' hi'
      obtain ⟨hf', hids'⟩ := hl i' (mem_cons_of_mem i hi')
      have hii : Obj.item i' ≠ Obj.item i := by
        intro he
        obtain rfl : i' = i := by simpa using he
        exact hil hi'
      exact ⟨hf', by rw [hne _ hii, hids']⟩
    · rw [hne _ (by simp), hsc]
  · exact (st.informationitems sc).nodup
  · intro i hi
    exact ⟨(hw.links (.item i) sc).2 hi, rfl⟩

/-! ### Scopes -/

/-- After a host has left the scope: it is kept, deleted, or cut off, and the father's subscribers
are notified. -/
inductive ReclaimsScope (gc : GlobalConf) (label : Obj → Fragment) (k : Id) (sc : ℕ)
    (st : State) : Option ℕ → State → Prop
  | keep {f : Option ℕ} (hneed : st.Needed (.scope sc) f) : ReclaimsScope gc label k sc st f st
  | root (hleaf : ∀ κ c, c ∉ st.children κ sc) (hroot : Obj.scope sc ∈ st.graph.root)
    (hunused : ¬ st.Used (.scope sc)) :
    ReclaimsScope gc label k sc st none (st.delete (.scope sc) none)
  | whole {f : ℕ} (hleaf : ∀ κ c, c ∉ st.children κ sc) (hf : f ∈ st.fatherScopes (.scope sc))
    (honly : ∀ g ∈ st.fatherScopes (.scope sc), g = f) (hunused : ¬ st.Used (.scope sc)) :
    ReclaimsScope gc label k sc st (some f)
      ((st.delete (.scope sc) (some f)).emits (notifyPackets gc .scopeUnpublished
        (st.ids (.scope sc)) (st.strategy (.scope sc)) (st.getSubscribers (.scope f))))
  | branch {f g : ℕ} (hleaf : ∀ κ c, c ∉ st.children κ sc)
    (hf : f ∈ st.fatherScopes (.scope sc)) (hg : g ∈ st.fatherScopes (.scope sc))
    (hne : g ≠ f) (hunused : ¬ st.UsedUnder (.scope sc) f) :
    ReclaimsScope gc label k sc st (some f)
      ((st.deleteBranch (.scope sc) f [label (.scope sc)]).emits (notifyPackets gc .scopeUnpublished
          ((st.ids (.scope sc)).filter fun k' => decide (k' = k))
          (st.strategy (.scope sc)) (st.getSubscribers (.scope f))))

theorem ReclaimsScope.settles {k : Id} {sc : ℕ} {f : Option ℕ} {st' : State} (hw : st.Wf label)
    (hr : ReclaimsScope gc label k sc st f st') :
    ∃ m ps, Settles label st (.scope sc) f m ∧ st' = m.emits ps ∧
      (ps = [] ∨ ∃ ids str subs, ps = notifyPackets gc .scopeUnpublished ids str subs) := by
  cases hr with
  | keep hneed => exact ⟨st, [], Settles.keep hneed, State.emits_nil.symm, .inl rfl⟩
  | root hleaf hroot hunu =>
    refine ⟨_, [], Settles.whole (fun _ => hleaf) ?_ hunu, State.emits_nil.symm, .inl rfl⟩
    intro g hg
    exact absurd (State.scope_mem_graph_fathers.2 hg) (hw.named.root_fathers _ hroot _)
  | whole hleaf hf honly hunu =>
    refine ⟨_, _, Settles.whole (fun _ => hleaf) ?_ hunu, rfl, .inr ⟨_, _, _, rfl⟩⟩
    exact fun g hg => by rw [honly g hg]
  | branch hleaf hf hg hne hunu =>
    exact ⟨_, _, Settles.branch (fun _ => hleaf) hf hg hne hunu, rfl, .inr ⟨_, _, _, rfl⟩⟩

theorem reclaimScope_meets (hw : st.Wf label) (k : Id) (sc : ℕ) (father : Option ℕ)
    (hsome : ∀ f, father = some f → f ∈ st.fatherScopes (.scope sc))
    (hnone : father = none → Obj.scope sc ∈ st.graph.root) :
    (reclaimScope gc st sc father k).Meets (fun _ => False)
      (ReclaimsScope gc label k sc st father) := by
  by_cases hleaf : (st.childrenScopes sc).isEmpty = true ∧ (st.informationitems sc).isEmpty = true
  · have hleaf' : ∀ κ c, c ∉ st.children κ sc := by
      intro κ
      cases κ with
      | scope => exact isEmpty_iff.1 hleaf.1
      | item => exact isEmpty_iff.1 hleaf.2
    cases father with
    | none =>
      obtain ⟨b, hb, hiff⟩ := hw.checkForOtherPubSub_root (o := .scope sc)
      simp only [reclaimScope, if_pos hleaf, hb]
      cases b with
      | true => exact .keep (.inr (hiff.1 rfl))
      | false =>
        exact .root hleaf' (hnone rfl) fun hu => Bool.false_ne_true (hiff.2 hu)
    | some f =>
      have hf := hsome f rfl
      obtain ⟨b, hb, hiff⟩ := hw.checkForOtherPubSub_eq hf
      simp only [reclaimScope, if_pos hleaf, hb]
      cases b with
      | true => exact .keep (.inr (hiff.1 rfl))
      | false =>
        have hunder : ¬ st.UsedUnder (.scope sc) f := fun hu =>
          Bool.false_ne_true (hiff.2 hu)
        simp only [notifySubscribers_eq, dropBranch_emits, dropBranch_eq hw hf]
        split
        · rename_i hsize
          obtain ⟨honly, hunu⟩ := hw.not_used_of_only hf hsize hunder
          exact .whole hleaf' hf honly hunu
        · rename_i hsize
          obtain ⟨g, hg, hne⟩ := exists_ne_of_size_ne_one hsize hf
          exact .branch hleaf' hf hg hne hunder
  · simp only [reclaimScope, if_neg hleaf]
    refine ReclaimsScope.keep (.inl ⟨rfl, ?_⟩)
    by_contra hno
    push Not at hno
    exact hleaf ⟨isEmpty_iff.2 (hno .scope), isEmpty_iff.2 (hno .item)⟩

section
variable {strat : Strategy} {upd : Bool} {h : NodeID} {sc : ℕ} {st' : State}

section
variable (hw : st.Wf label) (hc : Cascade gc label strat upd h sc st st')
include hw hc

theorem Cascade.invariant (I : State → Prop)
    (step : ∀ k s s', s.Wf label → k.dropLast ∈ st.ids (.scope sc) → I s →
      UnpublishTry gc label strat upd h k s s' → I s') (hI : I st) : I st' := by
  have houter := Runs.invariant (fun _ s => s.Wf label ∧
    s.ids (.scope sc) = st.ids (.scope sc) ∧ I s) hc ?_ ⟨hw, rfl, hI⟩
  · exact houter.2.2
  intro i _ s s' hinv hr
  obtain ⟨hws, hids, hIs⟩ := hinv
  have hinner := Runs.invariant (fun js t => (∀ j ∈ js, j ∈ st.ids (.scope sc)) ∧ t.Wf label ∧
    t.ids (.scope sc) = st.ids (.scope sc) ∧ I t) hr ?_ ⟨fun j hj => hids ▸ hj, hws, hids, hIs⟩
  · exact hinner.2
  intro j js t t' hinv hu
  obtain ⟨hjs, hwt, hidt, hIt⟩ := hinv
  refine ⟨fun j' hj' => hjs j' (mem_cons_of_mem j hj'), hu.wf hwt,
    (hu.ids_scope sc).trans hidt, step _ t t' hwt ?_ hIt hu⟩
  rw [dropLast_concat]
  exact hjs j mem_cons_self

theorem Cascade.wf : st'.Wf label :=
  hc.invariant hw (fun s => s.Wf label) (fun _ _ _ hws _ _ hu => hu.wf hws) hw

theorem Cascade.scope_eq (p : ℕ) : st'.ids (.scope p) = st.ids (.scope p) ∧
      st'.fatherScopes (.scope p) = st.fatherScopes (.scope p) ∧ st'.isRoot = st.isRoot := by
  refine hc.invariant hw (fun s => s.ids (.scope p) = st.ids (.scope p) ∧
    s.fatherScopes (.scope p) = st.fatherScopes (.scope p) ∧ s.isRoot = st.isRoot) ?_
    ⟨rfl, rfl, rfl⟩
  intro k s s' _ _ hinv hu
  obtain ⟨h₁, h₂, h₃⟩ := hinv
  exact ⟨(hu.ids_scope p).trans h₁, (hu.fatherScopes_scope p).trans h₂, hu.isRoot_eq.trans h₃⟩

end

end

theorem State.Wf.lookup_father (hw : st.Wf label) {sc : ℕ} {pre : Id} {a : Fragment}
    (hk : pre ++ [a] ∈ st.ids (.scope sc)) :
    (∀ f, st.scopeIndex pre = some f → f ∈ st.fatherScopes (.scope sc)) ∧
      (st.scopeIndex pre = none → Obj.scope sc ∈ st.graph.root) :=
  ⟨fun _ hf => (hw.father_of_index hf hk).1, fun hn => (hw.root_of_mem hn hk).2⟩

/-- **`unpublish_scope`**: the cascade, and then the departure of the publisher. -/
theorem unpublishScope_meets (hw : st.Wf label) (h : NodeID) (a : Fragment) (pre : Id)
    (strat : Strategy) (upd : Bool) :
    (unpublishScope gc st h [a] pre strat upd).Meets (fun _ => False) fun res =>
      (res.1 ≠ .success ∧ res.2 = st ∧ ∀ sc, st.scopeIndex (pre ++ [a]) = some sc →
        st.strategy (.scope sc) ≠ strat) ∨
      ∃ sc s, st.scopeIndex (pre ++ [a]) = some sc ∧ st.strategy (.scope sc) = strat ∧
        Cascade gc label strat upd h sc st s ∧
        ((res.1 = .doesNotExist ∧ res.2 = s ∧ h ∉ s.pair .pub (.scope sc) (pre ++ [a])) ∨
          (res.1 = .success ∧ h ∈ s.pair .pub (.scope sc) (pre ++ [a]) ∧
            ReclaimsScope gc label (pre ++ [a]) sc
              (s.withdraw .pub (.scope sc) (pre ++ [a]) h) (st.scopeIndex pre)
              res.2)) := by
  cases hi : st.scopeIndex (pre ++ [a]) with
  | none =>
    simp only [unpublishScope, hi]
    exact .inl ⟨by simp, rfl, by simp⟩
  | some sc =>
    have hk := hw.index_eq_some.1 hi
    obtain ⟨hsome, hnone⟩ := hw.lookup_father hk
    by_cases hstr : st.strategy (.scope sc) = strat
    · simp only [unpublishScope, hi, if_pos hstr]
      refine (unpublishItems_meets hw h sc strat upd).bind ?_
      intro s hinv
      obtain ⟨hc, hws⟩ := hinv
      obtain ⟨hids, hfath, hroot⟩ := hc.scope_eq hw sc
      rw [State.Wf.getPair_eq (hids ▸ hk), ok_bind]
      by_cases hh : h ∈ s.pair .pub (.scope sc) (pre ++ [a])
      · rw [if_pos hh]
        refine (reclaimScope_meets hws.withdraw (pre ++ [a]) sc (st.scopeIndex pre) ?_ ?_).bind ?_
        · rw [State.withdraw_fatherScopes, hfath]
          exact hsome
        · intro hn
          have := hnone hn
          rw [State.mem_graph_root] at this ⊢
          rw [State.withdraw_isRoot, hroot]
          exact this
        · intro st' hr
          exact .inr ⟨sc, s, rfl, hstr, hc, .inr ⟨rfl, hh, hr⟩⟩
      · rw [if_neg hh]
        exact .inr ⟨sc, s, rfl, hstr, hc, .inl ⟨rfl, rfl, hh⟩⟩
    · simp only [unpublishScope, hi, if_neg hstr]
      refine .inl ⟨by simp, rfl, fun sc' hsc' => ?_⟩
      cases hsc'
      exact hstr

/-! ### Unsubscribing from a scope -/

def itemsPackets (gc : GlobalConf) (st : State) (sc : ℕ) (updateOnly : Bool) : List Packet :=
  (st.informationitems sc).toList.flatMap fun i =>
    rendezvousPackets gc st i (st.interested i) updateOnly

theorem rendezvousItems_eq (hw : st.Wf label) (sc : ℕ) (upd : Bool) : rendezvousItems gc st sc upd =
      .ok (st.emits (itemsPackets gc st sc upd)) := by
  -- packets do not change what later packets are computed from
  have hloop : ∀ (l : List ℕ) (ps : List Packet),
      l.foldlM (fun st i => rendezvous gc st i (st.interested i) upd) (st.emits ps) =
        .ok (st.emits (ps ++ l.flatMap fun i =>
          rendezvousPackets gc st i (st.interested i) upd)) := by
    intro l
    induction l with
    | nil =>
      intro ps
      rw [flatMap_nil, append_nil]
      rfl
    | cons i l ih =>
      intro ps
      rw [foldlM_cons, rendezvous_eq (hw.emits ps), ok_bind, State.emits_emits, ih, append_assoc]
      rfl
  have := hloop (st.informationitems sc).toList []
  rw [State.emits_nil] at this
  exact this

/-- **`unsubscribe_scope`**: the subscriber goes, items are announced unless the root scope is
known, and the scope settles. -/
theorem unsubscribeScope_meets (hw : st.Wf label) (h : NodeID) (a : Fragment) (pre : Id)
    (strat : Strategy) (upd : Bool) :
    (unsubscribeScope gc st h [a] pre strat upd).Meets (fun _ => False) fun res =>
      (res.1 ≠ .success ∧ res.2 = st ∧ ∀ sc, st.scopeIndex (pre ++ [a]) = some sc →
        st.strategy (.scope sc) = strat →
        h ∉ st.pair .sub (.scope sc) (pre ++ [a])) ∨
      (res.1 = .success ∧ ∃ sc w, st.scopeIndex (pre ++ [a]) = some sc ∧
        h ∈ st.pair .sub (.scope sc) (pre ++ [a]) ∧
        w = st.withdraw .sub (.scope sc) (pre ++ [a]) h ∧
        ReclaimsScope gc label (pre ++ [a]) sc
          (w.emits (if rootFragment (pre ++ [a]) ∈ knownRootscopes then []
            else itemsPackets gc w sc upd)) (st.scopeIndex pre) res.2) := by
  cases hi : st.scopeIndex (pre ++ [a]) with
  | none =>
    simp only [unsubscribeScope, hi]
    exact .inl ⟨by simp, rfl, by simp⟩
  | some sc =>
    have hk := hw.index_eq_some.1 hi
    obtain ⟨hsome, hnone⟩ := hw.lookup_father hk
    -- both branches of the source look at the first fragment of the identifier
    have hroot : (if (st.scopeIndex pre).isSome = true then rootFragment pre
        else pre ++ [a]) = rootFragment (pre ++ [a]) := by
      cases hp : st.scopeIndex pre with
      | none =>
        obtain ⟨rfl, -⟩ := hw.root_of_mem hp hk
        rfl
      | some f => exact (rootFragment_append (hw.ne_nil (hw.index_eq_some.1 hp)) [a]).symm
    by_cases hstr : st.strategy (.scope sc) = strat
    · by_cases hh : h ∈ st.pair .sub (.scope sc) (pre ++ [a])
      · simp only [unsubscribeScope, hi, if_pos hstr, State.Wf.getPair_eq hk, ok_bind,
          if_pos hh, hroot, rendezvousItems_eq hw.withdraw]
        by_cases hknown : rootFragment (pre ++ [a]) ∈ knownRootscopes
        · simp only [if_pos hknown]
          refine (reclaimScope_meets hw.withdraw _ sc _ hsome hnone).bind fun st' hr => ?_
          refine .inr ⟨rfl, sc, _, rfl, hh, rfl, ?_⟩
          rw [State.emits_nil]
          exact hr
        · simp only [if_neg hknown]
          refine (reclaimScope_meets (hw.withdraw.emits _) _ sc _ hsome hnone).bind fun st' hr => ?_
          exact .inr ⟨rfl, sc, _, rfl, hh, rfl, hr⟩
      · simp only [unsubscribeScope, hi, if_pos hstr, State.Wf.getPair_eq hk, ok_bind, if_neg hh]
        refine .inl ⟨by simp, rfl, fun sc' hsc' _ => ?_⟩
        cases hsc'
        exact hh
    · simp only [unsubscribeScope, hi, if_neg hstr]
      refine .inl ⟨by simp, rfl, fun sc' hsc' hs => ?_⟩
      cases hsc'
      exact absurd hs hstr

end Blackadder
