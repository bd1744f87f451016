/-
**Registrations over whole runs.**

A host is in the table of an entry exactly when the identifier is in the set of the host, in every
run in which no host leaves that is registered with a scope without a name. When a host leaves, the
rendezvous element is told once about every entry that goes, items before scopes, long scopes before
short ones.
-/

import Blackadder.ProxyRuns

namespace Blackadder

open Table List

def Action.rvRequest : Action → Option RvRequest
  | .request _ _ q => some q
  | _ => none

def requests (actions : List Action) : List RvRequest := actions.filterMap Action.rvRequest

/-- The lengths are right, and prefix and identifier are the identifier in two parts. -/
def RvRequest.Names (q : RvRequest) (f : Id) : Prop :=
  q.idLength.toNat = q.ID.length ∧ q.prefixIDLength.toNat = q.prefixID.length ∧
    q.prefixID ++ q.ID = f

instance (q : RvRequest) (f : Id) : Decidable (q.Names f) := inferInstanceAs (Decidable (_ ∧ _))

def ActiveEntry.SoleHost (a : ActiveEntry) (h : HostRef) : Prop := ∀ h', h' ∈ a.hosts ↔ h' = h

namespace Proxy

variable {conf : ProxyConf} {st st' : Proxy} {r : Role} {h h' : HostRef} {f : Id} {a : ActiveEntry}
  {actions : List Action} {input : Input}

/-! ### Both sides agree -/

def Nameless (st : Proxy) (r : Role) (h : HostRef) : Prop := st.Registered r h [] ∧ st.IsScope r []

def LeavesNamed (conf : ProxyConf) (st : Proxy) (input : Input) : Prop :=
  ∀ h, st.disconnecting conf input = some h → ∀ r, ¬ st.Nameless r h

theorem Mirrored.push (hm : st.Mirrored) (hw : st.Wf) (hnamed : LeavesNamed conf st input)
    (hp : st.push conf input = .ok (st', actions)) : st'.Mirrored := by
  have hm' : (st.admitted conf input).Mirrored := (mirrored_admitted input).2 hm
  obtain hq | ⟨h, hs, hr⟩ | ⟨h, hd, hg⟩ := push_cases hw hp
  · exact hq.mirrored hm'
  · exact hr.mirrored hm' (sender_mem hw hs)
  · refine hg.mirrored hm' fun r hreg hscope => hnamed h hd r ?_
    exact ⟨(registered_admitted input).1 hreg, (isScope_admitted input).1 hscope⟩

theorem ReachableIf.mirrored (hreach : ReachableIf conf (LeavesNamed conf) st) : st.Mirrored := by
  obtain ⟨past, hrun⟩ := hreach
  induction hrun with
  | initial => exact mirrored_initial conf
  | step hrun hP hp ih => exact ih.push hrun.wf hP hp

/-- **Both sides of a registration agree**, if no host leaves that is registered with a scope
without a name; then no entry is without a host, and `disconnect` finds all entries. -/
theorem registered_iff_mem_own (hreach : ReachableIf conf (LeavesNamed conf) st) :
    (∀ r h f, st.Registered r h f ↔ f ∈ st.own r h) ∧
      (∀ r f a, (st.index r).get f = some a → a.hosts.size ≠ 0) ∧
      ∀ h ∈ st.hosts, ∃ res, st.disconnect conf h = .ok res := by
  have hw := hreach.wf
  refine ⟨fun r h f => ⟨hreach.mirrored r h f, hw.registered r h f⟩, fun r f a ha hsize => ?_,
    fun h hh => ?_⟩
  · obtain ⟨h, hh⟩ := hw.nonempty r f a ha
    exact size_eq_zero_iff.1 hsize h hh
  · obtain ⟨w, st', heq, -⟩ := disconnect_eq conf hw hh
    exact ⟨_, heq⟩

theorem registered_iff_mem_own_published :
    let st := runOf exampleProxyConf [requestOf 7 .publishScope [] [1] domainLocal]
    ReachableIf exampleProxyConf (LeavesNamed exampleProxyConf) st ∧
      st.Registered .pub 1 [.ofByte 1] ∧ [.ofByte 1] ∈ st.own .pub 1 := by
  have hreach : ReachableIf exampleProxyConf (LeavesNamed exampleProxyConf)
      (runOf exampleProxyConf [requestOf 7 .publishScope [] [1] domainLocal]) :=
    reachableIf_pushAll _ ⟨[], .initial⟩ fun input hmem st h hd => by
      rw [mem_singleton.1 hmem] at hd
      cases hd
  have hreg : (runOf exampleProxyConf [requestOf 7 .publishScope [] [1] domainLocal]).Registered
      Role.pub 1 [.ofByte 1] := by decide
  exact ⟨hreach, hreg, ((registered_iff_mem_own hreach).1 _ _ _).1 hreg⟩

/-- The publisher of a scope with an empty name leaves, and its address stays. -/
theorem registered_of_nameless :
    let st := runOf exampleProxyConf [requestOf 7 .publishScope [] [] domainLocal, leaveOf 7]
    Reachable exampleProxyConf st ∧ st.Registered .pub 1 [] ∧ [] ∉ st.own .pub 1 :=
  ⟨reachable_runOf _ _, by decide, by decide⟩

/-! ### What the rendezvous element is told -/

structure Announces (st : Proxy) (h : HostRef) (actions : List Action) : Prop where
  once : ∀ r f a, (st.index r).get f = some a → a.SoleHost h → announced r a.strategy = true →
    (requests actions).countP
      (fun q => decide (q.type = withdrawalType r a.isScope ∧ q.Names f)) = 1
  only : ∀ q ∈ requests actions, ∃ r f a, (st.index r).get f = some a ∧ a.SoleHost h ∧
    announced r a.strategy = true ∧ q.type = withdrawalType r a.isScope ∧ q.Names f
  order : (requests actions).Pairwise fun q q' => ∀ r, q.type = withdrawalType r true →
    q'.type ≠ withdrawalType r false ∧ (q'.type = withdrawalType r true →
      (q'.prefixID ++ q'.ID).length ≤ (q.prefixID ++ q.ID).length)

theorem withdrawalType_inj {r r' : Role} {b b' : Bool}
    (heq : withdrawalType r b = withdrawalType r' b') : r = r' ∧ b = b' := by
  cases r <;> cases r' <;> cases b <;> cases b' <;> first | exact ⟨rfl, rfl⟩ | cases heq

def withdrawalOf (r : Role) (h : HostRef) (a : ActiveEntry) : Option RvRequest :=
  if (a.hosts.erase h).size = 0 ∧ announced r a.strategy = true then
    some ⟨withdrawalType r a.isScope, 1, lastFragment a.fullID, UInt8.ofNat (a.fullID.length + 255),
      a.fullID.dropLast, a.strategy⟩
  else none

def withdrawalAt (st : Proxy) (h : HostRef) (x : Role × Id) : Option RvRequest :=
  ((st.index x.1).get x.2).bind (withdrawalOf x.1 h)

theorem requests_tellOf : requests (tellOf conf r h a) = (withdrawalOf r h a).toList := by
  rw [tellOf, withdrawalOf]
  by_cases hsize : (a.hosts.erase h).size = 0
  · cases hann : announced r a.strategy with
    | true => simp [hsize, requests, createAndSendPacketToRV, Action.rvRequest]
    | false => simp [hsize, requests]
  · simp only [hsize, if_false]
    split <;> rfl

theorem requests_tellAll (dl : List Id) : requests (tellAll conf st h r dl) =
    (dl.map fun f => (r, f)).filterMap (withdrawalAt st h) := by
  rw [tellAll, requests, filterMap_flatMap, filterMap_eq_flatMap_toList, flatMap_map]
  refine flatMap_congr fun f _ => ?_
  rw [withdrawalAt, tellAt]
  cases (st.index r).get f with
  | none => rfl
  | some a => exact requests_tellOf

def Withdrawal.order (w : Withdrawal st h) : List (Role × Id) :=
  (w.items .pub).map (fun f => (Role.pub, f)) ++ (w.items .sub).map (fun f => (Role.sub, f)) ++
    (w.scopes .pub).map (fun f => (Role.pub, f)) ++ (w.scopes .sub).map fun f => (Role.sub, f)

theorem Withdrawal.requests_actions (w : Withdrawal st h) :
    requests (w.actions conf) = w.order.filterMap (withdrawalAt st h) := by
  have happ : ∀ l l' : List Action, requests (l ++ l') = requests l ++ requests l' :=
    fun l l' => filterMap_append
  simp [Withdrawal.actions, Withdrawal.order, happ, requests_tellAll]

theorem Withdrawal.mem_order (w : Withdrawal st h) : (r, f) ∈ w.order ↔ st.Reached r h f := by
  rw [w.reached_iff]
  cases r <;> simp [Withdrawal.order]

def Before (st : Proxy) (x y : Role × Id) : Prop :=
  x ≠ y ∧ (x.1 = y.1 → st.scopeAt x.1 x.2 = true →
    st.scopeAt y.1 y.2 = true ∧ y.2.length ≤ x.2.length)

theorem Withdrawal.pairwise_order (w : Withdrawal st h) : w.order.Pairwise st.Before := by
  have hitems : ∀ r, ((w.items r).map fun f => (r, f)).Pairwise st.Before := by
    intro r
    refine pairwise_map.2 ((w.nodup_items r).imp_of_mem fun {f g} hf _ hne => ?_)
    refine ⟨fun heq => hne (Prod.mk.inj heq).2, fun _ hscope => ?_⟩
    rw [((w.mem_items r f).1 hf).2] at hscope
    cases hscope
  have hsco : ∀ r, ((w.scopes r).map fun f => (r, f)).Pairwise st.Before := by
    intro r
    have hboth := Pairwise.and (w.nodup_scopes r) (w.sorted r)
    refine pairwise_map.2 (hboth.imp_of_mem fun {f g} _ hg hfg => ?_)
    exact ⟨fun heq => hfg.1 (Prod.mk.inj heq).2, fun _ _ => ⟨((w.mem_scopes r g).1 hg).2.1, hfg.2⟩⟩
  -- an item comes before everything, whatever its role
  have hitem : ∀ r f r' g, f ∈ w.items r → r ≠ r' ∨ g ∈ w.scopes r' → st.Before (r, f) (r', g) := by
    intro r f r' g hf hor
    have hfal := ((w.mem_items r f).1 hf).2
    refine ⟨fun heq => ?_, fun _ hscope => ?_⟩
    · cases heq
      obtain hne | hg := hor
      · exact hne rfl
      · rw [((w.mem_scopes r f).1 hg).2.1] at hfal
        cases hfal
    · rw [hfal] at hscope
      cases hscope
  simp only [Withdrawal.order, pairwise_append, mem_append, mem_map]
  refine ⟨⟨⟨hitems _, hitems _, ?_⟩, hsco _, ?_⟩, hsco _, ?_⟩
  · intro x hx y hy
    obtain ⟨f, hf, rfl⟩ := hx
    obtain ⟨g, _, rfl⟩ := hy
    exact hitem _ _ _ _ hf (.inl (by simp))
  · intro x hx y hy
    obtain ⟨g, hg, rfl⟩ := hy
    obtain ⟨f, hf, rfl⟩ | ⟨f, hf, rfl⟩ := hx
    · exact hitem _ _ _ _ hf (.inr hg)
    · exact hitem _ _ _ _ hf (.inr hg)
  · intro x hx y hy
    obtain ⟨g, hg, rfl⟩ := hy
    obtain (⟨f, hf, rfl⟩ | ⟨f, hf, rfl⟩) | ⟨f, _, rfl⟩ := hx
    · exact hitem _ _ _ _ hf (.inr hg)
    · exact hitem _ _ _ _ hf (.inr hg)
    · exact ⟨by simp, fun heq => by cases heq⟩

theorem Wf.size_erase_eq_zero (hw : st.Wf) (ha : (st.index r).get f = some a) :
    (a.hosts.erase h).size = 0 ↔ a.SoleHost h := by
  rw [size_eq_zero_iff]
  constructor
  · intro hempty
    have hother : ∀ h', h' ∈ a.hosts → h' = h := by
      intro h' hh'
      by_contra hne
      exact hempty h' (mem_erase.2 ⟨hne, hh'⟩)
    obtain ⟨h', hh'⟩ := hw.nonempty r f a ha
    exact fun k => ⟨hother k, fun hk => by rw [hk, ← hother h' hh']; exact hh'⟩
  · intro hsole k hk
    obtain ⟨hne, hk⟩ := mem_erase.1 hk
    exact hne ((hsole k).1 hk)

theorem withdrawalAt_eq (hw : st.Wf) {x : Role × Id} {q : RvRequest}
    (hq : st.withdrawalAt h x = some q) : ∃ a, (st.index x.1).get x.2 = some a ∧ a.SoleHost h ∧
      announced x.1 a.strategy = true ∧ q = ⟨withdrawalType x.1 a.isScope, 1, lastFragment x.2,
        UInt8.ofNat (x.2.length + 255), x.2.dropLast, a.strategy⟩ := by
  obtain ⟨a, ha, hof⟩ := Option.bind_eq_some_iff.1 hq
  rw [withdrawalOf] at hof
  split at hof
  case isFalse => cases hof
  case isTrue hcond =>
    cases hof
    rw [hw.fullID x.1 x.2 a ha]
    exact ⟨a, ha, (hw.size_erase_eq_zero ha).1 hcond.1, hcond.2, rfl⟩

theorem withdrawal_prefixIDLength {k : Id} {b : Fragment} (hshort : (k ++ [b]).length ≤ 256) :
    (UInt8.ofNat ((k ++ [b]).length + 255)).toNat = k.length := by
  rw [UInt8.toNat_ofNat']
  simp only [length_append, length_singleton] at hshort ⊢
  omega

theorem withdrawalAt_eq_some (hw : st.Wf) {x : Role × Id} {q : RvRequest}
    (hq : st.withdrawalAt h x = some q) : ∃ a, (st.index x.1).get x.2 = some a ∧ a.SoleHost h ∧
      announced x.1 a.strategy = true ∧ q.type = withdrawalType x.1 a.isScope ∧
      q.prefixID ++ q.ID = x.2 ∧ ∀ g, q.Names g ↔ x.2 ≠ [] ∧ g = x.2 := by
  obtain ⟨a, ha, hsole, hann, rfl⟩ := withdrawalAt_eq hw hq
  have hshort := hw.short x.1 x.2 a ha
  refine ⟨a, ha, hsole, hann, rfl, ?_, fun g => ?_⟩
  · rcases eq_nil_or_concat x.2 with hnil | ⟨k, b, hk⟩
    · rw [hnil]
      rfl
    · rw [concat_eq_append] at hk
      rw [hk, dropLast_concat, lastFragment_append]
  · rcases eq_nil_or_concat x.2 with hnil | ⟨k, b, hk⟩
    · simp [hnil, RvRequest.Names]
    · rw [concat_eq_append] at hk
      rw [hk] at hshort
      rw [hk, lastFragment_append, dropLast_concat]
      exact ⟨fun hn => ⟨by simp, hn.2.2.symm⟩,
        fun hn => ⟨rfl, withdrawal_prefixIDLength hshort, hn.2.symm⟩⟩

theorem withdrawalAt_of_soleHost (hw : st.Wf) (ha : (st.index r).get f = some a)
    (hsole : a.SoleHost h) (hann : announced r a.strategy = true) :
    ∃ q, st.withdrawalAt h (r, f) = some q := by
  rw [withdrawalAt, ha, Option.bind_some, withdrawalOf,
    if_pos ⟨(hw.size_erase_eq_zero ha).2 hsole, hann⟩]
  exact ⟨_, rfl⟩

/-- **Each entry that goes with a host is withdrawn once**, in order, exactly if the host is not the
last of an entry without a name that was passed on. -/
theorem disconnect_announces_iff (hreach : Reachable conf st) (hh : h ∈ st.hosts) :
    ∃ st' actions, st.disconnect conf h = .ok (st', actions) ∧
      (st.Announces h actions ↔ ∀ r a, (st.index r).get [] = some a → a.SoleHost h →
        announced r a.strategy = false) := by
  have hw := hreach.wf
  obtain ⟨w, st', heq, -⟩ := disconnect_eq conf hw hh
  refine ⟨st', w.actions conf, heq, fun hann r a ha hsole => ?_, fun hnamed => ?_⟩
  · -- a request that names the empty identifier is not sent
    by_contra hne
    have hcount := hann.once r [] a ha hsole (by simpa using hne)
    have hpos : 0 < (requests (w.actions conf)).countP
        (fun q => decide (q.type = withdrawalType r a.isScope ∧ q.Names [])) := by omega
    obtain ⟨q, hq, hdec⟩ := countP_pos_iff.1 hpos
    rw [w.requests_actions, mem_filterMap] at hq
    obtain ⟨x, -, hx⟩ := hq
    obtain ⟨a', -, -, -, -, -, hnam⟩ := withdrawalAt_eq_some hw hx
    obtain ⟨hne', heq'⟩ := (hnam []).1 (of_decide_eq_true hdec).2
    exact hne' heq'.symm
  · constructor
    case once =>
      intro r f a ha hsole hann
      have hne : f ≠ [] := by
        intro hnil
        subst hnil
        rw [hnamed r a ha hsole] at hann
        cases hann
      have hmem : (r, f) ∈ w.order := by
        rw [w.mem_order]
        refine ⟨?_, fun hnil => absurd hnil hne⟩
        obtain hown | ⟨hnil, -⟩ := hw.own r h f ⟨a, ha, (hsole h).2 rfl⟩
        · exact hown
        · exact absurd hnil hne
      have hnodup : w.order.Nodup := w.pairwise_order.imp fun hb => hb.1
      rw [w.requests_actions, countP_filterMap, ← count_eq_one_of_mem hnodup hmem]
      refine countP_congr fun x _ => ?_
      rw [beq_iff_eq]
      constructor
      · intro hx
        cases hq : st.withdrawalAt h x with
        | none => simp [hq] at hx
        | some q =>
          obtain ⟨a', -, -, -, htype, -, hnam⟩ := withdrawalAt_eq_some hw hq
          rw [hq, Option.map_some, Option.getD_some, decide_eq_true_eq, htype] at hx
          rw [((hnam f).1 hx.2).2, ← (withdrawalType_inj hx.1).1]
      · intro hx
        subst hx
        obtain ⟨q, hq⟩ := withdrawalAt_of_soleHost hw ha hsole hann
        obtain ⟨a', ha', -, -, htype, -, hnam⟩ := withdrawalAt_eq_some hw hq
        rw [ha] at ha'
        cases ha'
        rw [hq, Option.map_some, Option.getD_some, decide_eq_true_eq]
        exact ⟨htype, (hnam f).2 ⟨hne, rfl⟩⟩
    case only =>
      intro q hq
      rw [w.requests_actions, mem_filterMap] at hq
      obtain ⟨x, -, hx⟩ := hq
      obtain ⟨a, ha, hsole, hann, htype, -, hnam⟩ := withdrawalAt_eq_some hw hx
      refine ⟨x.1, x.2, a, ha, hsole, hann, htype, (hnam x.2).2 ⟨fun hnil => ?_, rfl⟩⟩
      rw [hnil] at ha
      rw [hnamed x.1 a ha hsole] at hann
      cases hann
    case order =>
      rw [w.requests_actions, pairwise_filterMap]
      refine w.pairwise_order.imp fun {x y} hb q hq q' hq' r htype => ?_
      obtain ⟨a, ha, -, -, hqty, hqid, -⟩ := withdrawalAt_eq_some hw hq
      obtain ⟨a', ha', -, -, hqty', hqid', -⟩ := withdrawalAt_eq_some hw hq'
      obtain ⟨hr, hscope⟩ := withdrawalType_inj (hqty.symm.trans htype)
      have hx : st.scopeAt x.1 x.2 = true := (scopeAt_of_get ha).trans hscope
      rw [hqid, hqid']
      refine ⟨fun htype' => ?_, fun htype' => ?_⟩
      · obtain ⟨hr', hsco'⟩ := withdrawalType_inj (hqty'.symm.trans htype')
        have hy := (hb.2 (hr.trans hr'.symm) hx).1
        rw [scopeAt_of_get ha', hsco'] at hy
        cases hy
      · obtain ⟨hr', -⟩ := withdrawalType_inj (hqty'.symm.trans htype')
        exact (hb.2 (hr.trans hr'.symm) hx).2

theorem disconnect_announces_iff_published :
    let st := runOf exampleProxyConf [requestOf 7 .publishScope [] [1] domainLocal]
    Reachable exampleProxyConf st ∧ 1 ∈ st.hosts ∧ ∃ st' actions,
      st.disconnect exampleProxyConf 1 = .ok (st', actions) ∧ st.Announces 1 actions := by
  have hreach : Reachable exampleProxyConf
      (runOf exampleProxyConf [requestOf 7 .publishScope [] [1] domainLocal]) := reachable_runOf _ _
  have hmem : 1 ∈ (runOf exampleProxyConf [requestOf 7 .publishScope [] [1] domainLocal]).hosts := by
    decide
  refine ⟨hreach, hmem, ?_⟩
  obtain ⟨st', actions, heq, hiff⟩ := disconnect_announces_iff hreach hmem
  refine ⟨st', actions, heq, hiff.2 fun r a ha => ?_⟩
  have hnone : ∀ r, ((runOf exampleProxyConf
      [requestOf 7 .publishScope [] [1] domainLocal]).index r).get [] = none := by
    intro r
    cases r <;> rfl
  rw [hnone r] at ha
  cases ha

/-- The publisher of a scope with an empty name leaves, and no request is sent. -/
theorem not_announces_of_nameless :
    let st := runOf exampleProxyConf [requestOf 7 .publishScope [] [] domainLocal]
    Reachable exampleProxyConf st ∧ ∃ a st' actions, (st.index .pub).get [] = some a ∧
      (∀ h', h' ∈ a.hosts ↔ h' = 1) ∧ st.disconnect exampleProxyConf 1 = .ok (st', actions) ∧
      actions = [] ∧ ¬ st.Announces 1 actions := by
  refine ⟨reachable_runOf _ _, _, _, _, rfl, fun h' => ?_, rfl, rfl, fun hann => ?_⟩
  · exact mem_singleton
  · have hcount := hann.once .pub [] _ rfl (fun h' => mem_singleton) rfl
    cases hcount

end Proxy

end Blackadder
