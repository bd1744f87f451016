/-
**Registrations are kept on both sides.**

`Proxy.Wf`: the entry of an identifier and the set of a host agree, no entry is left without a host,
and `local_pub_sub_Index` has the hosts that exist. Scopes with an empty identifier are excepted,
which `disconnect` does not reach. A write changes the tables in one place, `Proxy.Touches`;
notifications and status changes do not, `Proxy.Quiet`.
-/

import Blackadder.ProxyHandlers

namespace Blackadder

open Table Option

def ActiveEntry.registration (a : ActiveEntry) :
    Id × Strategy × Bool × BABitvector × ListSet HostRef :=
  (a.fullID, a.strategy, a.isScope, a.rvFID, a.hosts.keys)

namespace Proxy

variable {conf : ProxyConf} {st st' : Proxy} {r r' : Role} {h h' : HostRef} {f f' : Id}
  {a a' : ActiveEntry}

/-! ### Single writes -/

theorem own_of_not_mem (hh : h ∉ st.hosts) : st.own r h = ∅ := by
  rw [own, get_eq_none_iff.2 hh]
  rfl

theorem mem_hosts_of_mem_own (hf : f ∈ st.own r h) : h ∈ st.hosts := by
  by_contra hh
  rw [own_of_not_mem hh] at hf
  exact ListSet.not_mem_empty f hf

@[simp] theorem own_setEntry : (st.setEntry r f a).own r' h = st.own r' h := rfl

@[simp] theorem index_insertOwn : (st.insertOwn r h f).index = st.index := rfl

@[simp] theorem index_eraseOwn : (st.eraseOwn r h f).index = st.index := rfl

theorem get_setEntry : ((st.setEntry r f a).index r').get f' =
    if r' = r ∧ f' = f then some a else (st.index r').get f' := by
  by_cases hr : r' = r
  · subst hr
    simp [setEntry]
  · simp [setEntry, hr]

theorem get_eraseEntry : ((st.eraseEntry r f).index r').get f' =
    if r' = r ∧ f' = f then none else (st.index r').get f' := by
  by_cases hr : r' = r
  · subst hr
    simp [eraseEntry]
  · simp [eraseEntry, hr]

theorem get_modifyEntry {g : ActiveEntry → ActiveEntry} : ((st.modifyEntry r f g).index r').get f' =
      if r' = r ∧ f' = f then ((st.index r').get f').map g else (st.index r').get f' := by
  by_cases hr : r' = r
  · subst hr
    simp [modifyEntry, get_modify]
  · simp [modifyEntry, hr]

theorem own_modifyOwn (hh : h ∈ st.hosts) (g : ListSet Id → ListSet Id) :
    (st.modifyOwn r h g).own r' h' = if r' = r ∧ h' = h then g (st.own r h) else st.own r' h' := by
  obtain ⟨host, hhost⟩ := mem_iff.1 hh
  by_cases hne : h' = h
  · subst hne
    simp [own, modifyOwn, get_modify, hhost]
  · simp [own, modifyOwn, get_modify, hne]

theorem mem_own_insertOwn (hh : h ∈ st.hosts) :
    f' ∈ (st.insertOwn r h f).own r' h' ↔ (r' = r ∧ h' = h ∧ f' = f) ∨ f' ∈ st.own r' h' := by
  rw [insertOwn, own_modifyOwn hh]
  split
  · next heq => simp [heq.1, heq.2]
  case isFalse hne =>
    constructor
    · exact .inr
    · intro hor
      obtain ⟨hr, hh', -⟩ | hf := hor
      · exact absurd ⟨hr, hh'⟩ hne
      · exact hf

theorem mem_own_eraseOwn :
    f' ∈ (st.eraseOwn r h f).own r' h' ↔ ¬ (r' = r ∧ h' = h ∧ f' = f) ∧ f' ∈ st.own r' h' := by
  by_cases hh : h ∈ st.hosts
  · rw [eraseOwn, own_modifyOwn hh]
    split
    · next heq => simp [heq.1, heq.2]
    case isFalse hne =>
      constructor
      · exact fun hf => ⟨fun heq => hne ⟨heq.1, heq.2.1⟩, hf⟩
      · exact fun hf => hf.2
  · -- a host that does not exist has no set
    have hnone : st.hosts.get h = none := get_eq_none_iff.2 hh
    have hown : (st.eraseOwn r h f).own r' h' = st.own r' h' := by
      by_cases hne : h' = h
      · subst hne
        simp [own, eraseOwn, modifyOwn, get_modify, hnone]
      · simp [own, eraseOwn, modifyOwn, get_modify, hne]
    rw [hown]
    constructor
    · intro hf
      refine ⟨?_, hf⟩
      intro heq
      obtain ⟨-, rfl, -⟩ := heq
      exact hh (mem_hosts_of_mem_own hf)
    · exact fun hf => hf.2

instance (st : Proxy) (r : Role) (h : HostRef) (f : Id) : Decidable (st.Registered r h f) :=
  decidable_of_iff (((st.index r).get f).any fun a => decide (h ∈ a.hosts)) (by
    rw [any_eq_true]
    simp [Registered])

/-! ### The invariant -/

def IsScope (st : Proxy) (r : Role) (f : Id) : Prop :=
  ∃ a, (st.index r).get f = some a ∧ a.isScope = true

structure SameHosts (st st' : Proxy) : Prop where
  index : st'.localPubSubIndex = st.localPubSubIndex
  id : ∀ h, (st'.hosts.get h).map LocalHost.id = (st.hosts.get h).map LocalHost.id

theorem SameHosts.refl : SameHosts st st := ⟨rfl, fun _ => rfl⟩

theorem SameHosts.mem_iff (hs : SameHosts st st') : h ∈ st'.hosts ↔ h ∈ st.hosts := by
  rw [← mem_keys_iff, ← mem_keys_iff, mem_keys, mem_keys,
    ← isSome_map (f := LocalHost.id), hs.id, isSome_map]

structure Wf (st : Proxy) : Prop where
  registered : ∀ r h f, f ∈ st.own r h → st.Registered r h f
  own : ∀ r h f, st.Registered r h f → f ∈ st.own r h ∨ f = [] ∧ st.IsScope r f
  nonempty : ∀ r f a, (st.index r).get f = some a → ∃ h, h ∈ a.hosts
  fullID : ∀ r f a, (st.index r).get f = some a → a.fullID = f
  short : ∀ r f a, (st.index r).get f = some a → f.length ≤ 256
  hosts : ∀ d h, st.localPubSubIndex.get d = some h ↔
    ∃ host, st.hosts.get h = some host ∧ host.id = d

def Mirrored (st : Proxy) : Prop := ∀ r h f, st.Registered r h f → f ∈ st.own r h

theorem wf_initial (conf : ProxyConf) : (Proxy.initial conf).Wf where
  registered := fun r h f hf => by
    rw [own_of_not_mem (not_mem_empty h)] at hf
    exact absurd hf (ListSet.not_mem_empty f)
  own := fun r h f hreg => by
    obtain ⟨a, ha, -⟩ := hreg
    exact absurd ha (by simp [initial])
  nonempty := fun r f a ha => absurd ha (by simp [initial])
  fullID := fun r f a ha => absurd ha (by simp [initial])
  short := fun r f a ha => absurd ha (by simp [initial])
  hosts := fun d h => by simp [initial]

theorem mirrored_initial (conf : ProxyConf) : (Proxy.initial conf).Mirrored := by
  intro r h f hreg
  obtain ⟨a, ha, -⟩ := hreg
  exact absurd ha (by simp [initial])

/-- `st'` differs from `st` in the entry of `f`, and in whether `f` is in the set of `h`. -/
structure Touches (r : Role) (h : HostRef) (f : Id) (st st' : Proxy) : Prop where
  index : ∀ r' f', ¬ (r' = r ∧ f' = f) → (st'.index r').get f' = (st.index r').get f'
  own : ∀ r' h' f', ¬ (r' = r ∧ h' = h ∧ f' = f) → (f' ∈ st'.own r' h' ↔ f' ∈ st.own r' h')
  same : SameHosts st st'

section
variable (ht : Touches r h f st st') (hne : ¬ (r' = r ∧ f' = f))
include ht hne

theorem Touches.registered_iff : st'.Registered r' h' f' ↔ st.Registered r' h' f' := by
  rw [Registered, Registered, ht.index r' f' hne]

theorem Touches.isScope_iff : st'.IsScope r' f' ↔ st.IsScope r' f' := by
  rw [IsScope, IsScope, ht.index r' f' hne]

end

theorem Wf.touches (hw : st.Wf) (ht : Touches r h f st st')
    (registered : ∀ h', f ∈ st'.own r h' → st'.Registered r h' f)
    (own : ∀ h', st'.Registered r h' f → f ∈ st'.own r h' ∨ f = [] ∧ st'.IsScope r f)
    (entry : ∀ a, (st'.index r).get f = some a →
      (∃ h, h ∈ a.hosts) ∧ a.fullID = f ∧ f.length ≤ 256) : st'.Wf where
  registered := fun r' h' f' hf => by
    by_cases hk : r' = r ∧ f' = f
    · obtain ⟨rfl, rfl⟩ := hk
      exact registered h' hf
    · rw [ht.registered_iff hk]
      exact hw.registered r' h' f' ((ht.own r' h' f' fun heq => hk ⟨heq.1, heq.2.2⟩).1 hf)
  own := fun r' h' f' hreg => by
    by_cases hk : r' = r ∧ f' = f
    · obtain ⟨rfl, rfl⟩ := hk
      exact own h' hreg
    · rw [ht.own r' h' f' fun heq => hk ⟨heq.1, heq.2.2⟩, ht.isScope_iff hk]
      exact hw.own r' h' f' ((ht.registered_iff hk).1 hreg)
  nonempty := fun r' f' a' ha' => by
    by_cases hk : r' = r ∧ f' = f
    · obtain ⟨rfl, rfl⟩ := hk
      exact (entry a' ha').1
    · exact hw.nonempty r' f' a' (ht.index r' f' hk ▸ ha')
  fullID := fun r' f' a' ha' => by
    by_cases hk : r' = r ∧ f' = f
    · obtain ⟨rfl, rfl⟩ := hk
      exact (entry a' ha').2.1
    · exact hw.fullID r' f' a' (ht.index r' f' hk ▸ ha')
  short := fun r' f' a' ha' => by
    by_cases hk : r' = r ∧ f' = f
    · obtain ⟨rfl, rfl⟩ := hk
      exact (entry a' ha').2.2
    · exact hw.short r' f' a' (ht.index r' f' hk ▸ ha')
  hosts := fun d h' => by
    rw [ht.same.index, hw.hosts]
    have hid := ht.same.id h'
    constructor
    · intro hex
      obtain ⟨host, hhost, rfl⟩ := hex
      rw [hhost, map_some, map_eq_some_iff] at hid
      exact hid
    · intro hex
      obtain ⟨host, hhost, rfl⟩ := hex
      rw [hhost, map_some] at hid
      exact map_eq_some_iff.1 hid.symm

/-! ### Hosts come and leave -/

theorem sameHosts_modifyOwn (st : Proxy) (r : Role) (h : HostRef) (g : ListSet Id → ListSet Id) :
    SameHosts st (st.modifyOwn r h g) where
  index := rfl
  id := fun h' => by
    rw [modifyOwn, get_modify]
    split
    · rw [map_map]
      rfl
    · rfl

variable {strat : Strategy} {rvFID : BABitvector} {isScope : Bool}

theorem get_newEntry : ((st.newEntry r h f strat rvFID isScope).index r).get f =
      some ⟨f, strat, isScope, (∅ : Table HostRef PublisherState).findInsert h .stopPublish, [],
        .empty, rvFID⟩ := by
  rw [newEntry, index_insertOwn, get_setEntry, if_pos ⟨rfl, rfl⟩]

theorem get_joinEntry : ((st.joinEntry r h f a).index r).get f =
    some { a with hosts := a.hosts.findInsert h .stopPublish } := by
  rw [joinEntry, index_insertOwn, get_setEntry, if_pos ⟨rfl, rfl⟩]

theorem get_leaveEntry : ((st.leaveEntry r h f f a).2.index r).get f =
    if (a.hosts.erase h).size = 0 then none else some { a with hosts := a.hosts.erase h } := by
  rw [leaveEntry]
  split
  · rw [get_eraseEntry, if_pos ⟨rfl, rfl⟩]
  · rw [get_setEntry, if_pos ⟨rfl, rfl⟩]

theorem own_leaveEntry : (st.leaveEntry r h f f a).2.own = (st.eraseOwn r h f).own := by
  rw [leaveEntry]
  split <;> rfl

section
variable (hh : h ∈ st.hosts)
include hh

theorem touches_insertOwn : Touches r h f st ((st.setEntry r f a).insertOwn r h f) where
  index := fun r' f' hne => by rw [index_insertOwn, get_setEntry, if_neg hne]
  own := fun r' h' f' hne => by
    rw [mem_own_insertOwn (show h ∈ (st.setEntry r f a).hosts from hh), own_setEntry]
    exact or_iff_right hne
  same := ⟨rfl, (sameHosts_modifyOwn (st.setEntry r f a) r h _).id⟩

theorem touches_newEntry : Touches r h f st (st.newEntry r h f strat rvFID isScope) :=
  touches_insertOwn hh

theorem touches_joinEntry : Touches r h f st (st.joinEntry r h f a) := touches_insertOwn hh

end

theorem touches_leaveEntry : Touches r h f st (st.leaveEntry r h f f a).2 where
  index := fun r' f' hne => by
    rw [leaveEntry]
    split
    · rw [get_eraseEntry, if_neg hne, index_eraseOwn]
    · rw [get_setEntry, if_neg hne, index_eraseOwn]
  own := fun r' h' f' hne => by
    rw [own_leaveEntry, mem_own_eraseOwn]
    exact and_iff_right hne
  same := by
    have hs : SameHosts st (st.eraseOwn r h f) := sameHosts_modifyOwn st r h _
    rw [leaveEntry]
    split
    · exact ⟨hs.index, hs.id⟩
    · exact ⟨hs.index, hs.id⟩

theorem mem_own_newEntry (hh : h ∈ st.hosts) :
    f' ∈ (st.newEntry r h f strat rvFID isScope).own r' h' ↔
      (r' = r ∧ h' = h ∧ f' = f) ∨ f' ∈ st.own r' h' := by
  rw [newEntry, mem_own_insertOwn (show h ∈ (st.setEntry r f _).hosts from hh), own_setEntry]

theorem mem_own_joinEntry (hh : h ∈ st.hosts) : f' ∈ (st.joinEntry r h f a).own r' h' ↔
    (r' = r ∧ h' = h ∧ f' = f) ∨ f' ∈ st.own r' h' := by
  rw [joinEntry, mem_own_insertOwn (show h ∈ (st.setEntry r f _).hosts from hh), own_setEntry]

theorem mem_own_leaveEntry : f' ∈ (st.leaveEntry r h f f a).2.own r' h' ↔
    ¬ (r' = r ∧ h' = h ∧ f' = f) ∧ f' ∈ st.own r' h' := by
  rw [own_leaveEntry, mem_own_eraseOwn]

theorem registered_newEntry (hh : h ∈ st.hosts) (hf : (st.index r).get f = none) :
    (st.newEntry r h f strat rvFID isScope).Registered r' h' f' ↔
      (r' = r ∧ h' = h ∧ f' = f) ∨ st.Registered r' h' f' := by
  by_cases hk : r' = r ∧ f' = f
  · obtain ⟨rfl, rfl⟩ := hk
    simp [Registered, get_newEntry, hf]
  · rw [(touches_newEntry hh).registered_iff hk]
    exact (or_iff_right fun heq => hk ⟨heq.1, heq.2.2⟩).symm

theorem registered_joinEntry (hh : h ∈ st.hosts) (hf : (st.index r).get f = some a) :
    (st.joinEntry r h f a).Registered r' h' f' ↔
      (r' = r ∧ h' = h ∧ f' = f) ∨ st.Registered r' h' f' := by
  by_cases hk : r' = r ∧ f' = f
  · obtain ⟨rfl, rfl⟩ := hk
    simp [Registered, get_joinEntry, hf]
  · rw [(touches_joinEntry hh).registered_iff hk]
    exact (or_iff_right fun heq => hk ⟨heq.1, heq.2.2⟩).symm

theorem registered_leaveEntry (hf : (st.index r).get f = some a) :
    (st.leaveEntry r h f f a).2.Registered r' h' f' ↔
      ¬ (r' = r ∧ h' = h ∧ f' = f) ∧ st.Registered r' h' f' := by
  by_cases hk : r' = r ∧ f' = f
  · obtain ⟨rfl, rfl⟩ := hk
    rw [Registered, get_leaveEntry, Registered, hf]
    split
    case isTrue hsize =>
      have hnone := size_eq_zero_iff.1 hsize h'
      simpa using hnone
    · simp
  · rw [touches_leaveEntry.registered_iff hk]
    exact (and_iff_right fun heq => hk ⟨heq.1, heq.2.2⟩).symm

theorem Wf.newEntry (hw : st.Wf) (hh : h ∈ st.hosts) (hf : (st.index r).get f = none)
    (hlen : f.length ≤ 256) : (st.newEntry r h f strat rvFID isScope).Wf := by
  have hno : ∀ h', ¬ st.Registered r h' f := by
    intro h' hreg
    obtain ⟨a, ha, -⟩ := hreg
    rw [hf] at ha
    cases ha
  refine hw.touches (touches_newEntry hh) (fun h' hmem => ?_) (fun h' hreg => ?_) (fun a ha => ?_)
  · rw [mem_own_newEntry hh] at hmem
    rw [registered_newEntry hh hf]
    exact hmem.imp_right (hw.registered r h' f)
  · rw [registered_newEntry hh hf, or_iff_left (hno h')] at hreg
    exact .inl ((mem_own_newEntry hh).2 (.inl hreg))
  · rw [get_newEntry] at ha
    cases ha
    exact ⟨⟨h, by simp⟩, rfl, hlen⟩

theorem Wf.joinEntry (hw : st.Wf) (hh : h ∈ st.hosts) (hf : (st.index r).get f = some a) :
    (st.joinEntry r h f a).Wf := by
  refine hw.touches (touches_joinEntry hh) (fun h' hmem => ?_) (fun h' hreg => ?_) (fun a' ha' => ?_)
  · rw [mem_own_joinEntry hh] at hmem
    rw [registered_joinEntry hh hf]
    exact hmem.imp_right (hw.registered r h' f)
  · rw [mem_own_joinEntry hh]
    obtain heq | hreg := (registered_joinEntry hh hf).1 hreg
    · exact .inl (.inl heq)
    · obtain hown | ⟨hnil, a', ha', hscope⟩ := hw.own r h' f hreg
      · exact .inl (.inr hown)
      · rw [hf] at ha'
        cases ha'
        exact .inr ⟨hnil, _, get_joinEntry, hscope⟩
  · rw [get_joinEntry] at ha'
    cases ha'
    exact ⟨⟨h, by simp⟩, hw.fullID r f a hf, hw.short r f a hf⟩

theorem Wf.leaveEntry (hw : st.Wf) (hf : (st.index r).get f = some a) :
    (st.leaveEntry r h f f a).2.Wf := by
  refine hw.touches touches_leaveEntry (fun h' hmem => ?_) (fun h' hreg => ?_) (fun a' ha' => ?_)
  · rw [mem_own_leaveEntry] at hmem
    exact (registered_leaveEntry hf).2 (hmem.imp_right (hw.registered r h' f))
  · rw [mem_own_leaveEntry]
    obtain ⟨hne, hbef⟩ := (registered_leaveEntry hf).1 hreg
    obtain hown | ⟨hnil, a', ha', hscope⟩ := hw.own r h' f hbef
    · exact .inl ⟨hne, hown⟩
    · -- an entry that is left is for what it was for
      rw [hf] at ha'
      cases ha'
      obtain ⟨a'', ha'', -⟩ := hreg
      refine .inr ⟨hnil, a'', ha'', ?_⟩
      rw [get_leaveEntry] at ha''
      split at ha''
      · cases ha''
      · cases ha''
        exact hscope
  · rw [get_leaveEntry] at ha'
    split at ha'
    · cases ha'
    case isFalse hsize =>
      cases ha'
      refine ⟨?_, hw.fullID r f a hf, hw.short r f a hf⟩
      by_contra hnone
      exact hsize (size_eq_zero_iff.2 fun k hk => hnone ⟨k, hk⟩)

theorem getLocalHost_mem (hw : st.Wf) (type : HostType) (id : ℕ) :
    (st.getLocalHost conf type id).1 ∈ (st.getLocalHost conf type id).2.hosts := by
  rw [getLocalHost]
  split
  case h_1 h hid =>
    obtain ⟨host, hhost, -⟩ := (hw.hosts id h).1 hid
    exact mem_of_get hhost
  case h_2 => exact mem_set.2 (.inl rfl)

@[simp] theorem index_getLocalHost (type : HostType) (id : ℕ) :
    (st.getLocalHost conf type id).2.index = st.index := by
  rw [getLocalHost]
  split <;> rfl

@[simp] theorem own_getLocalHost (type : HostType) (id : ℕ) (r : Role) (h : HostRef) :
    (st.getLocalHost conf type id).2.own r h = st.own r h := by
  rw [getLocalHost]
  split
  case h_1 => rfl
  case h_2 =>
    by_cases hh : h = conf.malloc st.hosts.keys
    · have hfresh : h ∉ st.hosts := hh ▸ conf.malloc_fresh st.hosts.keys
      rw [own_of_not_mem hfresh, own, get_set, if_pos hh]
      rfl
    · rw [own, own, get_set, if_neg hh]

theorem Wf.getLocalHost (hw : st.Wf) (type : HostType) (id : ℕ) :
    (st.getLocalHost conf type id).2.Wf := by
  have hreg : ∀ r h f, (st.getLocalHost conf type id).2.Registered r h f ↔ st.Registered r h f :=
    fun r h f => by rw [Registered, Registered, index_getLocalHost]
  constructor
  case registered =>
    intro r h f hf
    rw [own_getLocalHost] at hf
    exact (hreg r h f).2 (hw.registered r h f hf)
  case own =>
    intro r h f hf
    rw [own_getLocalHost, IsScope, index_getLocalHost]
    exact hw.own r h f ((hreg r h f).1 hf)
  case nonempty => simpa using hw.nonempty
  case fullID => simpa using hw.fullID
  case short => simpa using hw.short
  case hosts =>
    intro d h
    rw [Proxy.getLocalHost]
    split
    case h_1 => exact hw.hosts d h
    case h_2 hnone =>
      rw [get_set, get_set]
      have hfresh : st.hosts.get (conf.malloc st.hosts.keys) = none :=
        get_eq_none_iff.2 (conf.malloc_fresh st.hosts.keys)
      by_cases hd : d = id
      · subst hd
        rw [if_pos rfl]
        constructor
        · intro heq
          cases heq
          exact ⟨_, if_pos rfl, rfl⟩
        · intro hex
          obtain ⟨host, hhost, hid⟩ := hex
          split at hhost
          · next heq => rw [heq]
          · -- an older host with this descriptor would be in the index
            rw [(hw.hosts d h).2 ⟨host, hhost, hid⟩] at hnone
            cases hnone
      · rw [if_neg hd, hw.hosts]
        by_cases hh : h = conf.malloc st.hosts.keys
        · subst hh
          simp [hfresh, Ne.symm hd]
        · simp [hh]

/-! ### Changes that leave the registrations as they are -/

theorem mem_hosts_of_registration (heq : a.registration = a'.registration) (hh : h ∈ a.hosts) :
    h ∈ a'.hosts := by
  have hkeys : a.hosts.keys = a'.hosts.keys := congrArg (fun x => x.2.2.2.2) heq
  rw [← mem_keys_iff, ← hkeys]
  exact hh

def PublishesToNode (st : Proxy) (h : HostRef) : Prop :=
  ∃ n an, st.activeNodeIndex.get n = some an ∧ h ∈ an.publishers

/-- The same hosts are registered with the same identifiers. A host that publishes to a node did so
before, or subscribes to something. -/
structure Quiet (st st' : Proxy) : Prop where
  hosts : st'.hosts = st.hosts
  localPubSubIndex : st'.localPubSubIndex = st.localPubSubIndex
  entry : ∀ r f, ((st'.index r).get f).map ActiveEntry.registration =
    ((st.index r).get f).map ActiveEntry.registration
  nodes : ∀ h, st'.PublishesToNode h → st.PublishesToNode h ∨ ∃ f, st.Registered .sub h f

namespace Quiet

theorem refl (st : Proxy) : Quiet st st := ⟨rfl, rfl, fun _ _ => rfl, fun _ => Or.inl⟩

theorem of_eq (hhosts : st'.hosts = st.hosts) (hloc : st'.localPubSubIndex = st.localPubSubIndex)
    (hind : st'.index = st.index) (hnodes : st'.activeNodeIndex = st.activeNodeIndex) :
    Quiet st st' where
  hosts := hhosts
  localPubSubIndex := hloc
  entry := fun r f => by rw [hind]
  nodes := fun h hn => by
    rw [PublishesToNode, hnodes] at hn
    exact .inl hn

variable (hq : Quiet st st')
include hq

theorem own : st'.own = st.own := by
  funext r h
  rw [Proxy.own, Proxy.own, hq.hosts]

theorem exists_get (ha : (st'.index r).get f = some a) :
    ∃ a', (st.index r).get f = some a' ∧ a'.registration = a.registration := by
  have he := hq.entry r f
  rw [ha] at he
  exact map_eq_some_iff.1 he.symm

theorem exists_get' (ha : (st.index r).get f = some a) :
    ∃ a', (st'.index r).get f = some a' ∧ a'.registration = a.registration := by
  have he := hq.entry r f
  rw [ha] at he
  exact map_eq_some_iff.1 he

theorem registered_iff : st'.Registered r h f ↔ st.Registered r h f := by
  constructor
  · intro hreg
    obtain ⟨a, ha, hmem⟩ := hreg
    obtain ⟨a', ha', heq⟩ := hq.exists_get ha
    exact ⟨a', ha', mem_hosts_of_registration heq.symm hmem⟩
  · intro hreg
    obtain ⟨a, ha, hmem⟩ := hreg
    obtain ⟨a', ha', heq⟩ := hq.exists_get' ha
    exact ⟨a', ha', mem_hosts_of_registration heq.symm hmem⟩

theorem isScope_iff : st'.IsScope r f ↔ st.IsScope r f := by
  constructor
  · intro hs
    obtain ⟨a, ha, hscope⟩ := hs
    obtain ⟨a', ha', heq⟩ := hq.exists_get ha
    exact ⟨a', ha', (congrArg (fun x => x.2.2.1) heq).trans hscope⟩
  · intro hs
    obtain ⟨a, ha, hscope⟩ := hs
    obtain ⟨a', ha', heq⟩ := hq.exists_get' ha
    exact ⟨a', ha', (congrArg (fun x => x.2.2.1) heq).trans hscope⟩

theorem trans {t : Proxy} (hq' : Quiet st' t) : Quiet st t where
  hosts := hq'.hosts.trans hq.hosts
  localPubSubIndex := hq'.localPubSubIndex.trans hq.localPubSubIndex
  entry := fun r f => (hq'.entry r f).trans (hq.entry r f)
  nodes := fun h hn => by
    obtain hn | ⟨f, hf⟩ := hq'.nodes h hn
    · exact hq.nodes h hn
    · exact .inr ⟨f, hq.registered_iff.1 hf⟩

theorem wf (hw : st.Wf) : st'.Wf where
  registered := fun r h f hf => by
    rw [hq.registered_iff]
    exact hw.registered r h f (hq.own ▸ hf)
  own := fun r h f hreg => by
    rw [hq.own, hq.isScope_iff]
    exact hw.own r h f (hq.registered_iff.1 hreg)
  nonempty := fun r f a ha => by
    obtain ⟨a', ha', heq⟩ := hq.exists_get ha
    obtain ⟨h, hh⟩ := hw.nonempty r f a' ha'
    exact ⟨h, mem_hosts_of_registration heq hh⟩
  fullID := fun r f a ha => by
    obtain ⟨a', ha', heq⟩ := hq.exists_get ha
    exact (congrArg Prod.fst heq).symm.trans (hw.fullID r f a' ha')
  short := fun r f a ha => by
    obtain ⟨a', ha', -⟩ := hq.exists_get ha
    exact hw.short r f a' ha'
  hosts := fun d h => by
    rw [hq.localPubSubIndex, hq.hosts]
    exact hw.hosts d h

theorem mirrored (hm : st.Mirrored) : st'.Mirrored := by
  intro r h f hreg
  rw [hq.own]
  exact hm r h f (hq.registered_iff.1 hreg)

end Quiet

theorem quiet_setEntry (hf : (st.index r).get f = some a) (ha : a'.registration = a.registration) :
    Quiet st (st.setEntry r f a') where
  hosts := rfl
  localPubSubIndex := rfl
  entry := fun r' f' => by
    rw [get_setEntry]
    split
    case isTrue heq =>
      rw [heq.1, heq.2, hf, map_some, map_some, ha]
    · rfl
  nodes := fun _ => Or.inl

theorem quiet_modifyEntry {g : ActiveEntry → ActiveEntry}
    (hg : ∀ a, (g a).registration = a.registration) : Quiet st (st.modifyEntry r f g) where
  hosts := rfl
  localPubSubIndex := rfl
  entry := fun r' f' => by
    rw [get_modifyEntry]
    split
    · rw [map_map]
      exact congrArg (fun g => Option.map g _) (funext hg)
    · rfl
  nodes := fun _ => Or.inl

theorem registration_set {s : PublisherState} (hh : h ∈ a.hosts) :
    { a with hosts := a.hosts.set h s }.registration = a.registration := by
  have hkeys : (a.hosts.set h s).keys = a.hosts.keys := ListSet.insert_eq_self hh
  simp [ActiveEntry.registration, hkeys]

end Proxy

end Blackadder
