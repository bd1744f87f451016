/-
**A host disconnects.**

`disconnect` runs four loops over the sets of a host. No iteration changes what a later one reads,
so that each loop is a list of identifiers in the first state. A scope whose identifier is empty is
not reached.
-/

import Blackadder.ProxyEntries

namespace Blackadder.Proxy

open Except Option List

variable {conf : ProxyConf} {st st' : Proxy} {r r' : Role} {h h' : HostRef} {f f' : Id}
  {a a' : ActiveEntry}

/-! ### One entry -/

def withdrawalType : Role → Bool → RequestType
  | .pub, true => .unpublishScope
  | .pub, false => .unpublishInfo
  | .sub, true => .unsubscribeScope
  | .sub, false => .unsubscribeInfo

def announced (r : Role) (strategy : Strategy) : Bool :=
  match r with
  | .pub => true
  | .sub => !recordedLocally strategy

section
variable (conf : ProxyConf) (r : Role) (h : HostRef) (a : ActiveEntry)

def successor : Option HostRef :=
  if r = .pub ∧ a.isScope = false ∧ a.hosts.get h ≠ some .stopPublish then
    conf.hostOrder.first (a.hosts.erase h).keys.toList
  else none

def restOf : Option ActiveEntry :=
  if (a.hosts.erase h).size = 0 then none
  else match successor conf r h a with
    | none => some { a with hosts := a.hosts.erase h }
    | some h' => some { a with hosts := (a.hosts.erase h).set h' .startPublish }

def tellOf : List Action :=
  if (a.hosts.erase h).size = 0 then
    if announced r a.strategy then
      [createAndSendPacketToRV conf (withdrawalType r a.isScope) a.fullID a.rvFID a.strategy]
    else []
  else match successor conf r h a with
    | none => []
    | some h' => [.notify (.publisher .startPublish) h' a.fullID]

end

def putEntry (st : Proxy) (r : Role) (f : Id) : Option ActiveEntry → Proxy
  | none => st.eraseEntry r f
  | some a => st.setEntry r f a

def dropEntry (conf : ProxyConf) (r : Role) (h : HostRef) (st : Proxy) (f : Id) : Proxy :=
  (st.eraseOwn r h f).putEntry r f (((st.index r).get f).bind (restOf conf r h))

def tellAt (conf : ProxyConf) (r : Role) (h : HostRef) (st : Proxy) (f : Id) : List Action :=
  (((st.index r).get f).map (tellOf conf r h)).getD []

variable {o : Option ActiveEntry}

theorem get_putEntry : ((st.putEntry r f o).index r').get f' =
    if r' = r ∧ f' = f then o else (st.index r').get f' := by
  cases o with
  | none => exact get_eraseEntry
  | some a => exact get_setEntry

theorem get_dropEntry : ((dropEntry conf r h st f).index r').get f' =
    if r' = r ∧ f' = f then ((st.index r').get f').bind (restOf conf r h)
    else (st.index r').get f' := by
  rw [dropEntry, get_putEntry]
  split
  · next heq => rw [heq.1, heq.2]
  · rfl

theorem own_putEntry : (st.putEntry r f o).own = st.own := by
  cases o <;> rfl

theorem mem_own_dropEntry : f' ∈ (dropEntry conf r h st f).own r' h' ↔
    ¬ (r' = r ∧ h' = h ∧ f' = f) ∧ f' ∈ st.own r' h' := by
  rw [dropEntry, own_putEntry, mem_own_eraseOwn]

theorem setEntry_setEntry : (st.setEntry r f a).setEntry r f a' = st.setEntry r f a' := by
  simp only [setEntry, if_true, Table.set_set]
  congr 1
  funext r'
  split <;> rfl

/-- The loop body takes the host out of the entry of a scope or item. -/
def Leaves (conf : ProxyConf) (r : Role) (isScope : Bool)
    (leave : HostRef → Proxy → Id → ActiveEntry → Proxy × List Action) : Prop :=
  ∀ h st f a, (st.index r).get f = some a → a.fullID = f → a.isScope = isScope →
    leave h st f a = (dropEntry conf r h st f, tellAt conf r h st f)

theorem leaves_leaveAndTell (isScope : Bool) {tell : Strategy → Bool}
    (htell : ∀ strategy, tell strategy = announced r strategy) (hr : r = .sub ∨ isScope = true) :
    Leaves conf r isScope (leaveAndTell conf r (withdrawalType r isScope) tell) := by
  intro h st f a hf ha hscope
  have hnone : successor conf r h a = none := by
    rw [successor, if_neg]
    intro hcond
    obtain rfl | hr := hr
    · exact absurd hcond.1 (by simp)
    · rw [hscope, hr] at hcond
      exact absurd hcond.2.1 (by simp)
  by_cases hsize : (a.hosts.erase h).size = 0
  · simp [leaveAndTell, leaveEntry, dropEntry, tellAt, hf, restOf, tellOf, putEntry, hsize, ha, htell,
      hscope]
  · simp [leaveAndTell, leaveEntry, dropEntry, tellAt, hf, restOf, tellOf, putEntry, hsize, hnone]

theorem leaves_leaveItemPublication : Leaves conf .pub false (leaveItemPublication conf) := by
  intro h st f a hf ha hscope
  by_cases hsize : (a.hosts.erase h).size = 0
  · simp [leaveItemPublication, leaveEntry, dropEntry, tellAt, hf, restOf, tellOf, putEntry, hsize, ha,
      hscope, announced, withdrawalType]
  · by_cases hstop : a.hosts.get h = some .stopPublish
    · simp [leaveItemPublication, leaveEntry, dropEntry, tellAt, hf, restOf, tellOf, putEntry, hsize,
        successor, hstop]
    · cases hfirst : conf.hostOrder.first (a.hosts.erase h).keys.toList with
      | none =>
        simp [leaveItemPublication, leaveEntry, dropEntry, tellAt, hf, restOf, tellOf, putEntry,
          hsize, successor, hfirst]
      | some h' =>
        simp [leaveItemPublication, leaveEntry, dropEntry, tellAt, hf, restOf, tellOf, putEntry,
          hsize, successor, hstop, hfirst, hscope, setEntry_setEntry]

/-! ### Several entries -/

/-- What the loops leave behind, when they have taken `h` out of the entries of `D`. -/
structure Dropped (conf : ProxyConf) (h : HostRef) (D : Role → Id → Prop) (st st' : Proxy) :
    Prop where
  left : ∀ r f, D r f → (st'.index r).get f = ((st.index r).get f).bind (restOf conf r h)
  kept : ∀ r f, ¬ D r f → (st'.index r).get f = (st.index r).get f
  own : ∀ r h' f, f ∈ st'.own r h' ↔ ¬ (h' = h ∧ D r f) ∧ f ∈ st.own r h'
  same : SameHosts st st'
  nodes : st'.activeNodeIndex = st.activeNodeIndex

theorem dropped_nothing (conf : ProxyConf) (h : HostRef) (st : Proxy) :
    Dropped conf h (fun _ _ => False) st st where
  left := fun r f hf => hf.elim
  kept := fun r f _ => rfl
  own := fun r h' f => by simp
  same := SameHosts.refl
  nodes := rfl

theorem dropped_dropEntry (conf : ProxyConf) (r : Role) (h : HostRef) (st : Proxy) (f : Id) :
    Dropped conf h (fun r' f' => r' = r ∧ f' = f) st (dropEntry conf r h st f) where
  left := fun r' f' heq => by rw [get_dropEntry, if_pos heq, heq.1]
  kept := fun r' f' hne => by rw [get_dropEntry, if_neg hne]
  own := fun r' h' f' => by
    rw [mem_own_dropEntry]
    tauto
  same := by
    have hs : SameHosts st (st.eraseOwn r h f) := sameHosts_modifyOwn st r h _
    rw [dropEntry, putEntry.eq_def]
    split
    · exact ⟨hs.index, hs.id⟩
    · exact ⟨hs.index, hs.id⟩
  nodes := by
    rw [dropEntry, putEntry.eq_def]
    split <;> rfl

namespace Dropped

variable {D D' : Role → Id → Prop} {s t : Proxy}

theorem congr (hd : Dropped conf h D st s) (hD : ∀ r f, D r f ↔ D' r f) : Dropped conf h D' st s := by
  rwa [show D' = D from funext fun r => funext fun f => (propext (hD r f)).symm]

theorem trans (h₁ : Dropped conf h D st s) (h₂ : Dropped conf h D' s t)
    (hdisj : ∀ r f, D r f → ¬ D' r f) : Dropped conf h (fun r f => D r f ∨ D' r f) st t where
  left := fun r f hf => by
    obtain hf | hf := hf
    · rw [h₂.kept r f (hdisj r f hf), h₁.left r f hf]
    · rw [h₂.left r f hf, h₁.kept r f fun hf' => hdisj r f hf' hf]
  kept := fun r f hf => by
    rw [h₂.kept r f fun hf' => hf (Or.inr hf'), h₁.kept r f fun hf' => hf (Or.inl hf')]
  own := fun r h' f => by
    rw [h₂.own, h₁.own]
    tauto
  same := ⟨h₂.same.index.trans h₁.same.index, fun h' => (h₂.same.id h').trans (h₁.same.id h')⟩
  nodes := h₂.nodes.trans h₁.nodes

theorem tellAt_eq (hd : Dropped conf h D st s) (hf : ¬ D r f) :
    tellAt conf r h' s f = tellAt conf r h' st f := by
  rw [tellAt, tellAt, hd.kept r f hf]

end Dropped

theorem dropped_foldl (conf : ProxyConf) (r : Role) (h : HostRef) {dl : List Id} (hdl : dl.Nodup)
    (st : Proxy) :
    Dropped conf h (fun r' f => r' = r ∧ f ∈ dl) st (dl.foldl (dropEntry conf r h) st) := by
  induction dl generalizing st with
  | nil => exact (dropped_nothing conf h st).congr (by simp)
  | cons f dl ih =>
    obtain ⟨hf, hdl⟩ := nodup_cons.1 hdl
    refine ((dropped_dropEntry conf r h st f).trans (ih hdl _) fun r' f' heq hmem => ?_).congr
      fun r' f' => ?_
    · exact hf (heq.2 ▸ hmem.2)
    · rw [mem_cons, and_or_left]

/-! ### The loops -/

def scopeAt (st : Proxy) (r : Role) (f : Id) : Bool :=
  ((st.index r).get f).any ActiveEntry.isScope

theorem scopeAt_of_get (hf : (st.index r).get f = some a) : st.scopeAt r f = a.isScope := by
  rw [scopeAt, hf, any_some]

theorem isScope_iff_scopeAt : st.IsScope r f ↔ st.scopeAt r f = true := by
  rw [IsScope, scopeAt, Option.any_eq_true]

def Stored (st : Proxy) (r : Role) (f : Id) : Prop :=
  ∃ a, (st.index r).get f = some a ∧ a.fullID = f

theorem Wf.stored (hw : st.Wf) (hf : f ∈ st.own r h) : st.Stored r f := by
  obtain ⟨a, ha, -⟩ := hw.registered r h f hf
  exact ⟨a, ha, hw.fullID r f a ha⟩

namespace Dropped

variable {D : Role → Id → Prop} {s : Proxy}

section
variable (hd : Dropped conf h D st s)
include hd

theorem stored (hf : ¬ D r f) (hs : st.Stored r f) : s.Stored r f := by
  obtain ⟨a, ha, hfull⟩ := hs
  exact ⟨a, (hd.kept r f hf).trans ha, hfull⟩

theorem scopeAt_eq (hf : ¬ D r f) : s.scopeAt r f = st.scopeAt r f := by
  rw [scopeAt, scopeAt, hd.kept r f hf]

theorem stored_of_mem_own (hs : ∀ f ∈ st.own r h, st.Stored r f) :
    ∀ f ∈ s.own r h, s.Stored r f := by
  intro f hf
  rw [hd.own] at hf
  exact hd.stored (fun hD => hf.1 ⟨rfl, hD⟩) (hs f hf.2)

end

end Dropped

theorem dropEntry_frame (conf : ProxyConf) (h : HostRef) (hf : st.Stored r f) (hne : f ≠ f') :
    (dropEntry conf r h st f').Stored r f ∧
      (dropEntry conf r h st f').scopeAt r f = st.scopeAt r f ∧
      tellAt conf r h (dropEntry conf r h st f') f = tellAt conf r h st f := by
  have hd := dropped_dropEntry conf r h st f'
  have hne' : ¬ (r = r ∧ f = f') := fun heq => hne heq.2
  exact ⟨hd.stored hne' hf, hd.scopeAt_eq hne', hd.tellAt_eq hne'⟩

variable {leave : HostRef → Proxy → Id → ActiveEntry → Proxy × List Action} {D : Role → Id → Prop}
  {s : Proxy}

theorem sweep_own_eq {step : Proxy → Id → Handled} {q : Bool → Id → Prop}
    [∀ b f, Decidable (q b f)] (hs : ∀ f ∈ st.own r h, st.Stored r f)
    (hstep : ∀ s f a, (s.index r).get f = some a → a.fullID = f → step s f =
      .ok (if q a.isScope f then (dropEntry conf r h s f, tellAt conf r h s f) else (s, []))) :
    ∃ dl : List Id, dl.Nodup ∧ (∀ f, f ∈ dl ↔ f ∈ st.own r h ∧ q (st.scopeAt r f) f) ∧
      Except.sweep step (conf.idOrder.visit (st.own r h).toList) st =
        .ok (dl.foldl (dropEntry conf r h) st, dl.flatMap (tellAt conf r h st)) := by
  have hnodup : (conf.idOrder.visit (st.own r h).toList).Nodup :=
    conf.idOrder.nodup_visit (st.own r h).nodup
  refine ⟨_, hnodup.filter _, fun f => ?_, sweep_filter (G := fun s f => s.Stored r f)
    (q := fun s f => decide (q (s.scopeAt r f) f)) (fun s f hf => ?_) (fun s f f' _ hf' hne => ?_)
    hnodup (fun f hf => hs f (by simpa using hf))⟩
  · simp
  · obtain ⟨a, ha, hfull⟩ := hf
    rw [hstep s f a ha hfull]
    simp [scopeAt_of_get ha]
  · have hframe := dropEntry_frame conf h hf' hne
    exact ⟨hframe.1, by rw [hframe.2.1], hframe.2.2⟩

theorem deleteItems_eq (hlea : Leaves conf r false leave) (hs : ∀ f ∈ st.own r h, st.Stored r f) :
    ∃ dl : List Id, dl.Nodup ∧ (∀ f, f ∈ dl ↔ f ∈ st.own r h ∧ st.scopeAt r f = false) ∧
      deleteItems conf r leave st h =
        .ok (dl.foldl (dropEntry conf r h) st, dl.flatMap (tellAt conf r h st)) := by
  refine sweep_own_eq (q := fun isScope _ => isScope = false) hs fun s f a ha hfull => ?_
  rw [ha]
  cases hscope : a.isScope with
  | true => simp [hscope]
  | false => simp [hscope, hlea h s f a ha hfull hscope]

theorem maxLevel_eq (st : Proxy) (r : Role) (l : List Id) (hs : ∀ f ∈ l, st.Stored r f) :
    ∃ n, st.maxLevel r l = .ok n ∧ ∀ f ∈ l, st.scopeAt r f = true → f.length ≤ n := by
  suffices hgen : ∀ m, ∃ n, m ≤ n ∧ foldlM (m := Except ProxyFault)
      (fun level f => match (st.index r).get f with
        | none => .error .nullPointer
        | some a => .ok (if a.isScope ∧ level < f.length then f.length else level)) m l = .ok n ∧
      ∀ f ∈ l, st.scopeAt r f = true → f.length ≤ n by
    obtain ⟨n, -, hn⟩ := hgen 0
    exact ⟨n, hn⟩
  induction l with
  | nil => exact fun m => ⟨m, le_rfl, rfl, by simp⟩
  | cons f l ih =>
    intro m
    obtain ⟨a, ha, -⟩ := hs f mem_cons_self
    obtain ⟨n, hmn, hfold, hn⟩ := ih (fun g hg => hs g (mem_cons_of_mem f hg))
      (if a.isScope ∧ m < f.length then f.length else m)
    refine ⟨n, ?_, ?_, fun g hg hscope => ?_⟩
    · split at hmn <;> omega
    · rw [foldlM_cons, ha]
      exact hfold
    · rcases mem_cons.1 hg with rfl | hg
      · rw [scopeAt_of_get ha] at hscope
        split at hmn
        · exact hmn
        case isFalse hlt =>
          have hle : g.length ≤ m := not_lt.1 fun hlt' => hlt ⟨hscope, hlt'⟩
          exact hle.trans hmn
      · exact hn g hg hscope

section
variable (hlea : Leaves conf r true leave)
include hlea

theorem deleteLevel_eq (hs : ∀ f ∈ st.own r h, st.Stored r f) (i : ℕ) : ∃ dl : List Id, dl.Nodup ∧
      (∀ f, f ∈ dl ↔ f ∈ st.own r h ∧ st.scopeAt r f = true ∧ f.length = i) ∧
      deleteLevel conf r leave h st i =
        .ok (dl.foldl (dropEntry conf r h) st, dl.flatMap (tellAt conf r h st)) := by
  refine sweep_own_eq (q := fun isScope f => isScope = true ∧ f.length = i) hs ?_
  intro s f a ha hfull
  rw [ha]
  by_cases hi : f.length = i
  · cases hscope : a.isScope with
    | false => simp [hscope]
    | true => simp [hscope, hi, hlea h s f a ha hfull hscope]
  · simp [hi]

theorem sweep_deleteLevel_eq {levels : List ℕ}
    (hlev : levels.Pairwise (· > ·)) (hs : ∀ f ∈ st.own r h, st.Stored r f) :
    ∃ dl : List Id, dl.Nodup ∧ dl.Pairwise (fun f g => g.length ≤ f.length) ∧
      (∀ f, f ∈ dl ↔ f ∈ st.own r h ∧ st.scopeAt r f = true ∧ f.length ∈ levels) ∧
      Except.sweep (deleteLevel conf r leave h) levels st =
        .ok (dl.foldl (dropEntry conf r h) st, dl.flatMap (tellAt conf r h st)) := by
  induction levels generalizing st with
  | nil => exact ⟨[], by simp, by simp, by simp, rfl⟩
  | cons i levels ih =>
    obtain ⟨hi, hlev⟩ := pairwise_cons.1 hlev
    obtain ⟨dl₁, hnod₁, hmem₁, heq₁⟩ := deleteLevel_eq hlea hs i
    have hd := dropped_foldl conf r h hnod₁ st
    have hown : ∀ f, f ∈ (dl₁.foldl (dropEntry conf r h) st).own r h ↔
        f ∉ dl₁ ∧ f ∈ st.own r h := fun f => by
      rw [hd.own]
      simp
    have hscope : ∀ f, f ∉ dl₁ → (dl₁.foldl (dropEntry conf r h) st).scopeAt r f = st.scopeAt r f :=
      fun f hf => hd.scopeAt_eq fun heq => hf heq.2
    obtain ⟨dl₂, hnod₂, hsor₂, hmem₂, heq₂⟩ := ih hlev (hd.stored_of_mem_own hs)
    have hdisj : ∀ f ∈ dl₂, f ∉ dl₁ := fun f hf => ((hown f).1 ((hmem₂ f).1 hf).1).1
    refine ⟨dl₁ ++ dl₂, ?_, ?_, fun f => ?_, ?_⟩
    · exact nodup_append'.2 ⟨hnod₁, hnod₂, fun f hf₁ hf₂ => hdisj f hf₂ hf₁⟩
    · refine pairwise_append.2 ⟨?_, hsor₂, fun f hf g hg => ?_⟩
      · refine pairwise_iff_forall_sublist.2 fun {f g} hsub => ?_
        have hf := ((hmem₁ f).1 (hsub.subset (by simp))).2.2
        have hg := ((hmem₁ g).1 (hsub.subset (by simp))).2.2
        rw [hf, hg]
      · rw [((hmem₁ f).1 hf).2.2]
        exact (hi _ ((hmem₂ g).1 hg).2.2).le
    · rw [mem_append, hmem₂, hown, mem_cons]
      by_cases hf : f ∈ dl₁
      · have hf' := (hmem₁ f).1 hf
        simp [hf, hf']
      · have hno : ¬ (f ∈ st.own r h ∧ st.scopeAt r f = true ∧ f.length = i) :=
          fun hf' => hf ((hmem₁ f).2 hf')
        rw [hscope f hf]
        tauto
    · rw [foldl_append]
      refine sweep_cons_eq_ok.2 ⟨_, _, _, heq₁, heq₂, ?_⟩
      rw [flatMap_append]
      congr 1
      exact flatMap_congr fun f hf => (hd.tellAt_eq fun heq => hdisj f hf heq.2).symm

theorem deleteScopes_eq (hs : ∀ f ∈ st.own r h, st.Stored r f) :
    ∃ dl : List Id, dl.Nodup ∧ dl.Pairwise (fun f g => g.length ≤ f.length) ∧
      (∀ f, f ∈ dl ↔ f ∈ st.own r h ∧ st.scopeAt r f = true ∧ f ≠ []) ∧
      deleteScopes conf r leave st h =
        .ok (dl.foldl (dropEntry conf r h) st, dl.flatMap (tellAt conf r h st)) := by
  obtain ⟨n, hmax, hn⟩ := maxLevel_eq st r (conf.idOrder.visit (st.own r h).toList) fun f hf =>
    hs f (by simpa using hf)
  have hlev : (range' 1 n).reverse.Pairwise (· > ·) := by
    rw [pairwise_reverse]
    exact pairwise_lt_range'
  obtain ⟨dl, hnodup, hsor, hmem, heq⟩ := sweep_deleteLevel_eq hlea hlev hs
  refine ⟨dl, hnodup, hsor, fun f => ?_, ?_⟩
  · rw [hmem, mem_reverse, mem_range'_1]
    refine and_congr_right fun hf => and_congr_right fun hscope => ?_
    have hle : f.length ≤ n := hn f (by simpa using hf) hscope
    rw [← length_pos_iff]
    omega
  · rw [deleteScopes, hmax]
    exact heq

end

/-! ### All loops -/

/-- The identifiers that the loops of `disconnect` go through, in order. -/
structure Withdrawal (st : Proxy) (h : HostRef) where
  items : Role → List Id
  scopes : Role → List Id
  nodup_items : ∀ r, (items r).Nodup
  nodup_scopes : ∀ r, (scopes r).Nodup
  mem_items : ∀ r f, f ∈ items r ↔ f ∈ st.own r h ∧ st.scopeAt r f = false
  mem_scopes : ∀ r f, f ∈ scopes r ↔ f ∈ st.own r h ∧ st.scopeAt r f = true ∧ f ≠ []
  sorted : ∀ r, (scopes r).Pairwise fun f g => g.length ≤ f.length

def tellAll (conf : ProxyConf) (st : Proxy) (h : HostRef) (r : Role) (dl : List Id) : List Action :=
  dl.flatMap (tellAt conf r h st)

def Withdrawal.actions (w : Withdrawal st h) (conf : ProxyConf) : List Action :=
  tellAll conf st h .pub (w.items .pub) ++ tellAll conf st h .sub (w.items .sub) ++
    tellAll conf st h .pub (w.scopes .pub) ++ tellAll conf st h .sub (w.scopes .sub)

theorem Dropped.deleteItems (hd : Dropped conf h D st s) (hlea : Leaves conf r false leave)
    (hs : ∀ f ∈ st.own r h, st.Stored r f) (hD : ∀ f, ¬ D r f) :
    ∃ (dl : List Id) (t : Proxy), dl.Nodup ∧
      (∀ f, f ∈ dl ↔ f ∈ st.own r h ∧ st.scopeAt r f = false) ∧
      deleteItems conf r leave s h = .ok (t, tellAll conf st h r dl) ∧
      Dropped conf h (fun r' f => D r' f ∨ r' = r ∧ f ∈ dl) st t := by
  obtain ⟨dl, hnodup, hmem, heq⟩ := deleteItems_eq hlea (hd.stored_of_mem_own hs)
  refine ⟨dl, _, hnodup, fun f => ?_, ?_, hd.trans (dropped_foldl conf r h hnodup s) ?_⟩
  · rw [hmem, hd.own, hd.scopeAt_eq (hD f)]
    exact and_congr_left fun _ => and_iff_right fun hf => hD f hf.2
  · rw [heq]
    congr 2
    exact flatMap_congr fun f _ => hd.tellAt_eq (hD f)
  · intro r' f hf hf'
    rw [hf'.1] at hf
    exact hD f hf

theorem Dropped.deleteScopes (hd : Dropped conf h D st s) (hlea : Leaves conf r true leave)
    (hs : ∀ f ∈ st.own r h, st.Stored r f)
    (hD : ∀ f, D r f → st.scopeAt r f = false ∧ f ∈ st.own r h) :
    ∃ (dl : List Id) (t : Proxy), dl.Nodup ∧ dl.Pairwise (fun f g => g.length ≤ f.length) ∧
      (∀ f, f ∈ dl ↔ f ∈ st.own r h ∧ st.scopeAt r f = true ∧ f ≠ []) ∧
      deleteScopes conf r leave s h = .ok (t, tellAll conf st h r dl) ∧
      Dropped conf h (fun r' f => D r' f ∨ r' = r ∧ f ∈ dl) st t := by
  obtain ⟨dl, hnodup, hsor, hmem, heq⟩ := deleteScopes_eq hlea (hd.stored_of_mem_own hs)
  have hdisj : ∀ f ∈ dl, ¬ D r f := by
    intro f hf hDf
    rw [hmem, hd.own] at hf
    exact hf.1.1 ⟨rfl, hDf⟩
  refine ⟨dl, _, hnodup, hsor, fun f => ?_, ?_, hd.trans (dropped_foldl conf r h hnodup s) ?_⟩
  · rw [hmem, hd.own]
    by_cases hf : D r f
    · simp [hf, (hD f hf).1]
    · rw [hd.scopeAt_eq hf]
      simp [hf]
  · rw [heq]
    congr 2
    exact flatMap_congr fun f hf => hd.tellAt_eq (hdisj f hf)
  · intro r' f hf hf'
    rw [hf'.1] at hf
    exact hdisj f hf'.2 hf

def Reached (st : Proxy) (r : Role) (h : HostRef) (f : Id) : Prop :=
  f ∈ st.own r h ∧ (f = [] → st.scopeAt r f = false)

theorem Withdrawal.reached_iff (w : Withdrawal st h) :
    st.Reached r h f ↔ f ∈ w.items r ∨ f ∈ w.scopes r := by
  rw [w.mem_items, w.mem_scopes, Reached]
  cases st.scopeAt r f <;> simp

theorem Withdrawal.mem_actions (w : Withdrawal st h) {x : Action} :
    x ∈ w.actions conf ↔ ∃ r f, st.Reached r h f ∧ x ∈ tellAt conf r h st f := by
  simp only [Withdrawal.actions, tellAll, mem_append, mem_flatMap]
  constructor
  · intro hx
    obtain ((⟨f, hf, hx⟩ | ⟨f, hf, hx⟩) | ⟨f, hf, hx⟩) | ⟨f, hf, hx⟩ := hx
    · exact ⟨Role.pub, f, w.reached_iff.2 (.inl hf), hx⟩
    · exact ⟨Role.sub, f, w.reached_iff.2 (.inl hf), hx⟩
    · exact ⟨Role.pub, f, w.reached_iff.2 (.inr hf), hx⟩
    · exact ⟨Role.sub, f, w.reached_iff.2 (.inr hf), hx⟩
  · intro hx
    obtain ⟨r, f, hf, hx⟩ := hx
    obtain hf | hf := w.reached_iff.1 hf
    · cases r with
      | pub => exact .inl (.inl (.inl ⟨f, hf, hx⟩))
      | sub => exact .inl (.inl (.inr ⟨f, hf, hx⟩))
    · cases r with
      | pub => exact .inl (.inr ⟨f, hf, hx⟩)
      | sub => exact .inr ⟨f, hf, hx⟩

structure Gone (conf : ProxyConf) (h : HostRef) (st st' : Proxy) : Prop where
  left : ∀ r f, st.Reached r h f → (st'.index r).get f = ((st.index r).get f).bind (restOf conf r h)
  kept : ∀ r f, ¬ st.Reached r h f → (st'.index r).get f = (st.index r).get f
  own : ∀ r h' f, f ∈ st'.own r h' ↔ h' ≠ h ∧ f ∈ st.own r h'
  id : ∀ h', (st'.hosts.get h').map LocalHost.id =
    if h' = h then none else (st.hosts.get h').map LocalHost.id
  index : ∀ host, st.hosts.get h = some host →
    st'.localPubSubIndex = st.localPubSubIndex.erase host.id
  nodes : st'.activeNodeIndex = st.activeNodeIndex

theorem gone_deleteHost (hd : Dropped conf h (fun r f => st.Reached r h f) st s) (hh : h ∈ st.hosts) :
    Gone conf h st (s.deleteHost h) := by
  obtain ⟨host, hhost⟩ := Table.mem_iff.1 (hd.same.mem_iff.2 hh)
  have hdel : s.deleteHost h = { s with
      localPubSubIndex := s.localPubSubIndex.erase host.id
      hosts := s.hosts.erase h } := by
    rw [deleteHost, hhost]
  rw [hdel]
  constructor
  case left => exact hd.left
  case kept => exact hd.kept
  case own =>
    intro r h' f
    by_cases heq : h' = h
    · simp [own, heq]
    · have hown : f ∈ s.own r h' ↔ f ∈ st.own r h' := by
        rw [hd.own]
        simp [heq]
      simpa [own, heq] using hown
  case id =>
    intro h'
    by_cases heq : h' = h
    · simp [heq]
    · simpa [heq] using hd.same.id h'
  case index =>
    intro host' hhost'
    have hid := hd.same.id h
    rw [hhost, hhost', map_some, map_some, some.injEq] at hid
    rw [← hid, ← hd.same.index]
  case nodes => exact hd.nodes

/-- **`disconnect` never faults.** It leaves the entries of the host, pushes what this asks for,
and forgets the host. -/
theorem disconnect_eq (conf : ProxyConf) (hw : st.Wf) (hh : h ∈ st.hosts) :
    ∃ (w : Withdrawal st h) (st' : Proxy), st.disconnect conf h = .ok (st', w.actions conf) ∧
      Gone conf h st st' := by
  have hs : ∀ r, ∀ f ∈ st.own r h, st.Stored r f := fun r f hf => hw.stored hf
  obtain ⟨dl₁, s₁, hnod₁, hmem₁, heq₁, hd₁⟩ := (dropped_nothing conf h st).deleteItems
    leaves_leaveItemPublication (hs .pub) (fun _ => not_false)
  obtain ⟨dl₂, s₂, hnod₂, hmem₂, heq₂, hd₂⟩ := hd₁.deleteItems
    (leaves_leaveAndTell false (fun _ => rfl) (.inl rfl)) (hs .sub) (by simp)
  obtain ⟨dl₃, s₃, hnod₃, hsor₃, hmem₃, heq₃, hd₃⟩ := hd₂.deleteScopes
    (leaves_leaveAndTell true (fun _ => rfl) (.inr rfl)) (hs .pub)
    (by simpa using fun f hf => ((hmem₁ f).1 hf).symm)
  obtain ⟨dl₄, s₄, hnod₄, hsor₄, hmem₄, heq₄, hd₄⟩ := hd₃.deleteScopes
    (leaves_leaveAndTell true (fun _ => rfl) (.inr rfl)) (hs .sub)
    (by simpa using fun f hf => ((hmem₂ f).1 hf).symm)
  have hrea : ∀ r f, st.Reached r h f ↔
      f ∈ st.own r h ∧ st.scopeAt r f = false ∨ f ∈ st.own r h ∧ st.scopeAt r f = true ∧ f ≠ [] := by
    intro r f
    rw [Reached]
    cases st.scopeAt r f <;> simp
  refine ⟨{
      items := fun r => match r with | .pub => dl₁ | .sub => dl₂
      scopes := fun r => match r with | .pub => dl₃ | .sub => dl₄
      nodup_items := fun r => by cases r with | pub => exact hnod₁ | sub => exact hnod₂
      nodup_scopes := fun r => by cases r with | pub => exact hnod₃ | sub => exact hnod₄
      mem_items := fun r => by cases r with | pub => exact hmem₁ | sub => exact hmem₂
      mem_scopes := fun r => by cases r with | pub => exact hmem₃ | sub => exact hmem₄
      sorted := fun r => by cases r with | pub => exact hsor₃ | sub => exact hsor₄ },
    s₄.deleteHost h, ?_, gone_deleteHost (hd₄.congr fun r f => ?_) hh⟩
  · rw [disconnect, deleteAllActiveInformationItemPublications, heq₁]
    refine bind_eq_ok.2 ⟨_, rfl, bind_eq_ok.2 ⟨_, heq₂, ?_⟩⟩
    exact bind_eq_ok.2 ⟨_, heq₃, bind_eq_ok.2 ⟨_, heq₄, rfl⟩⟩
  · rw [hrea]
    cases r with
    | pub => simp [hmem₁, hmem₃]
    | sub => simp [hmem₂, hmem₄]

/-! ### The invariant afterwards -/

theorem exists_restOf_iff : (∃ a', restOf conf r h a = some a' ∧ h' ∈ a'.hosts) ↔
    h' ≠ h ∧ h' ∈ a.hosts := by
  rw [restOf]
  split
  case isTrue hsize =>
    have hnone := Table.size_eq_zero_iff.1 hsize h'
    simpa using hnone
  · split
    case h_1 => simp
    case h_2 k hk =>
      -- the successor is one of the hosts that are left
      have hmem : k ≠ h ∧ k ∈ a.hosts := by
        rw [successor] at hk
        split at hk
        · exact Table.mem_erase.1 (conf.hostOrder.first_mem hk)
        · cases hk
      simp only [some.injEq, exists_eq_left', Table.mem_set, Table.mem_erase]
      constructor
      · intro hor
        obtain rfl | hor := hor
        · exact hmem
        · exact hor
      · exact .inr

theorem restOf_eq_none : restOf conf r h a = none ↔ (a.hosts.erase h).size = 0 := by
  rw [restOf]
  split
  · next hsize => exact iff_of_true rfl hsize
  case isFalse hsize =>
    refine iff_of_false ?_ hsize
    split <;> simp

theorem restOf_eq_some (ha : restOf conf r h a = some a') :
    a'.fullID = a.fullID ∧ a'.strategy = a.strategy ∧ a'.isScope = a.isScope ∧
      a'.allKnownIDs = a.allKnownIDs := by
  rw [restOf] at ha
  split at ha
  · cases ha
  · split at ha
    · cases ha
      exact ⟨rfl, rfl, rfl, rfl⟩
    · cases ha
      exact ⟨rfl, rfl, rfl, rfl⟩

theorem restOf_nonempty (ha : restOf conf r h a = some a') : ∃ h', h' ∈ a'.hosts := by
  have hsize : (a.hosts.erase h).size ≠ 0 := by
    intro hsize
    cases ha.symm.trans (restOf_eq_none.2 hsize)
  rw [Ne, Table.size_eq_zero_iff, not_forall] at hsize
  obtain ⟨h', hh'⟩ := hsize
  obtain ⟨a'', ha'', hmem⟩ := exists_restOf_iff.2 (Table.mem_erase.1 (not_not.1 hh'))
  rw [ha] at ha''
  cases ha''
  exact ⟨h', hmem⟩

namespace Gone

variable (hg : Gone conf h st st')
include hg

theorem exists_get (ha : (st'.index r).get f = some a') : ∃ a, (st.index r).get f = some a ∧
    (st.Reached r h f ∧ restOf conf r h a = some a' ∨ ¬ st.Reached r h f ∧ a' = a) := by
  by_cases hf : st.Reached r h f
  · rw [hg.left r f hf, bind_eq_some_iff] at ha
    obtain ⟨a, ha, hrest⟩ := ha
    exact ⟨a, ha, .inl ⟨hf, hrest⟩⟩
  · rw [hg.kept r f hf] at ha
    exact ⟨a', ha, .inr ⟨hf, rfl⟩⟩

theorem exists_get_same (ha : (st'.index r).get f = some a') : ∃ a, (st.index r).get f = some a ∧
    a'.fullID = a.fullID ∧ a'.isScope = a.isScope := by
  obtain ⟨a, hget, ⟨-, hrest⟩ | ⟨-, rfl⟩⟩ := hg.exists_get ha
  · obtain ⟨hfull, -, hscope, -⟩ := restOf_eq_some hrest
    exact ⟨a, hget, hfull, hscope⟩
  · exact ⟨a', hget, rfl, rfl⟩

theorem registered_iff :
    st'.Registered r h' f ↔ ¬ (h' = h ∧ st.Reached r h f) ∧ st.Registered r h' f := by
  by_cases hf : st.Reached r h f
  · rw [Registered, hg.left r f hf, Registered]
    cases ha : (st.index r).get f with
    | none => simp
    | some a => simpa [hf] using exists_restOf_iff
  · simp [Registered, hg.kept r f hf, hf]

theorem wf (hw : st.Wf) (hh : h ∈ st.hosts) : st'.Wf where
  registered := fun r h' f hf => by
    rw [hg.own] at hf
    rw [hg.registered_iff]
    exact ⟨fun heq => hf.1 heq.1, hw.registered r h' f hf.2⟩
  own := fun r h' f hreg => by
    obtain ⟨hne, hbef⟩ := hg.registered_iff.1 hreg
    obtain ⟨a', ha', -⟩ := hreg
    obtain ⟨a, ha, -, hsame⟩ := hg.exists_get_same ha'
    rw [hg.own]
    obtain hown | ⟨hnil, a₀, ha₀, hscope⟩ := hw.own r h' f hbef
    · by_cases heq : h' = h
      · -- only a scope without a name is not reached
        subst heq
        have hno : ¬ (f = [] → st.scopeAt r f = false) := fun himp => hne ⟨rfl, hown, himp⟩
        rw [Classical.not_imp, Bool.not_eq_false, scopeAt_of_get ha] at hno
        exact .inr ⟨hno.1, a', ha', hsame.trans hno.2⟩
      · exact .inl ⟨heq, hown⟩
    · rw [ha] at ha₀
      cases ha₀
      exact .inr ⟨hnil, a', ha', hsame.trans hscope⟩
  nonempty := fun r f a' ha' => by
    obtain ⟨a, ha, ⟨-, hrest⟩ | ⟨-, rfl⟩⟩ := hg.exists_get ha'
    · exact restOf_nonempty hrest
    · exact hw.nonempty r f a' ha
  fullID := fun r f a' ha' => by
    obtain ⟨a, ha, hsame, -⟩ := hg.exists_get_same ha'
    exact hsame.trans (hw.fullID r f a ha)
  short := fun r f a' ha' => by
    obtain ⟨a, ha, -⟩ := hg.exists_get_same ha'
    exact hw.short r f a ha
  hosts := fun d h' => by
    obtain ⟨host, hhost⟩ := Table.mem_iff.1 hh
    rw [hg.index host hhost, Table.get_erase]
    have hid := hg.id h'
    have hiff : (∃ x, st'.hosts.get h' = some x ∧ x.id = d) ↔
        (st'.hosts.get h').map LocalHost.id = some d := map_eq_some_iff.symm
    rw [hiff, hid]
    by_cases heq : h' = h
    · subst heq
      rw [if_pos rfl]
      by_cases hd : d = host.id
      · simp [hd]
      · rw [if_neg hd, hw.hosts]
        simp [hhost, Ne.symm hd]
    · rw [if_neg heq, map_eq_some_iff, ← hw.hosts]
      split
      case isTrue hd =>
        -- the descriptor is the one of the host that left
        rw [hd, (hw.hosts host.id h).2 ⟨host, hhost, rfl⟩]
        simp [Ne.symm heq]
      · rfl

theorem mirrored (hm : st.Mirrored) (hnil : ∀ r, st.Registered r h [] → ¬ st.IsScope r []) :
    st'.Mirrored := by
  intro r h' f hreg
  obtain ⟨hne, hreg⟩ := hg.registered_iff.1 hreg
  rw [hg.own]
  refine ⟨fun heq => ?_, hm r h' f hreg⟩
  subst heq
  refine hne ⟨rfl, hm r h' f hreg, fun hf => ?_⟩
  subst hf
  have hscope := hnil r hreg
  rwa [isScope_iff_scopeAt, Bool.not_eq_true] at hscope

end Gone

end Blackadder.Proxy
