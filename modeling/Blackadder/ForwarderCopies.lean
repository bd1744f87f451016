/-
**Every link gets the packet once.**

The forwarder copies a packet for every link but the last, and for all of them when the packet goes
to the local proxy as well. A counter is enough to get this right: the packet and every copy are
given away once.
-/

import Blackadder.ForwarderPaths

namespace Blackadder

open List
open Forwarder (emit)

variable {fw : Forwarder} {fe : ForwardingEntry} {p frame : List UInt8} {id : UInt32}
  {actions : List ForwarderAction} {q : PacketRef} {n : ℕ}

/-! ### The use of a packet -/

namespace ForwarderAction

def Consumes (q : PacketRef) : ForwarderAction → Prop
  | clone _ => False
  | send q' _ _ => q' = q
  | deliver q' _ => q' = q
  | kill q' => q' = q

def Uses (q : PacketRef) : ForwarderAction → Prop
  | clone _ => q = .entered
  | x => x.Consumes q

def UsedOnce (q : PacketRef) (actions : List ForwarderAction) : Prop :=
  ∃ before x after, actions = before ++ x :: after ∧ x.Consumes q ∧
    (∀ y ∈ before, ¬ y.Consumes q) ∧ ∀ y ∈ after, ¬ y.Uses q

theorem UsedOnce.append_left {l : List ForwarderAction} (h : UsedOnce q actions)
    (hl : ∀ y ∈ l, ¬ y.Consumes q) : UsedOnce q (l ++ actions) := by
  obtain ⟨before, x, after, rfl, hx, hbef, hafter⟩ := h
  refine ⟨l ++ before, x, after, (append_assoc _ _ _).symm, hx, fun y hy => ?_, hafter⟩
  exact (mem_append.1 hy).elim (hl y) (hbef y)

theorem UsedOnce.append_right {l : List ForwarderAction} (h : UsedOnce q actions)
    (hl : ∀ y ∈ l, ¬ y.Uses q) : UsedOnce q (actions ++ l) := by
  obtain ⟨before, x, after, rfl, hx, hbef, hafter⟩ := h
  refine ⟨before, x, after ++ l, by simp, hx, hbef, fun y hy => ?_⟩
  exact (mem_append.1 hy).elim (hafter y) (hl y)

theorem usedOnce_singleton {x : ForwarderAction} (hx : x.Consumes q) : UsedOnce q [x] :=
  ⟨[], x, [], rfl, hx, by simp, by simp⟩

end ForwarderAction

open ForwarderAction

/-! ### The loop over the links -/

inductive Copies : ℕ → List ForwarderAction → Prop
  | nil {n : ℕ} : Copies n []
  | cons {n : ℕ} {fe : ForwardingEntry} {frame : List UInt8} {actions : List ForwarderAction}
    (rest : Copies (n + 1) actions) :
    Copies n (.clone n :: .send (.copy n) fe frame :: actions)

namespace Copies

section
variable (h : Copies n actions)
include h

theorem consumes {x : ForwarderAction} (hx : x ∈ actions)
    (hc : x.Consumes q) : ∃ m, n ≤ m ∧ q = .copy m := by
  induction h with
  | nil => cases hx
  | @cons n fe frame actions _ ih =>
    rcases mem_cons.1 hx with rfl | hx
    · exact hc.elim
    rcases mem_cons.1 hx with rfl | hx
    · exact ⟨n, le_rfl, hc.symm⟩
    · obtain ⟨m, hm, rfl⟩ := ih hx
      exact ⟨m, by omega, rfl⟩

theorem not_uses {x : ForwarderAction} (hx : x ∈ actions) {m : ℕ}
    (hm : m < n) : ¬ x.Uses (.copy m) := by
  intro hu
  cases x with
  | clone k => cases hu
  | _ =>
    obtain ⟨k, hk, hkm⟩ := h.consumes hx hu
    cases hkm
    omega

theorem usedOnce {m : ℕ} (hm : .clone m ∈ actions) : UsedOnce (.copy m) actions := by
  induction h with
  | nil => cases hm
  | @cons n fe frame actions rest ih =>
    by_cases hmn : m = n
    · subst hmn
      refine ⟨[.clone m], .send (.copy m) fe frame, actions, rfl, rfl, ?_, fun y hy => ?_⟩
      · intro y hy
        rw [mem_singleton.1 hy]
        exact id
      · exact rest.not_uses hy (by omega)
    · have hmem : .clone m ∈ actions := by simpa [hmn] using hm
      have hbef : ∀ y ∈ [clone n, .send (.copy n) fe frame],
          ¬ y.Consumes (.copy m) := by
        intro y hy hc
        rcases mem_cons.1 hy with rfl | hy
        · exact hc
        · rw [mem_singleton.1 hy] at hc
          cases hc
          exact hmn rfl
      exact (ih hmem).append_left hbef

end

end Copies

def CopiesThenPacket (actions : List ForwarderAction) : Prop :=
  ∃ before x, actions = before ++ [x] ∧ Copies 1 before ∧ x.Consumes .entered

theorem CopiesThenPacket.entered (h : CopiesThenPacket actions) : UsedOnce .entered actions := by
  obtain ⟨before, x, rfl, hcop, hx⟩ := h
  refine (usedOnce_singleton hx).append_left fun y hy hc => ?_
  obtain ⟨m, -, hm⟩ := hcop.consumes hy hc
  cases hm

theorem CopiesThenPacket.copies (h : CopiesThenPacket actions) (hn : .clone n ∈ actions) :
    UsedOnce (.copy n) actions := by
  obtain ⟨before, x, rfl, hcop, hx⟩ := h
  have hclone : .clone n ∈ before := by
    rcases mem_append.1 hn with hn | hn
    · exact hn
    · rw [mem_singleton.1 hn |>.symm] at hx
      exact hx.elim
  refine (hcop.usedOnce hclone).append_right fun y hy hu => ?_
  rw [mem_singleton.1 hy] at hu
  cases x with
  | clone m => exact hx
  | _ =>
    cases hx
    cases hu

section
variable {outLinks : List ForwardingEntry} {pushLocally : Bool}
  {mk : UInt32 → ForwardingEntry → Option (List UInt8) × UInt32}
  (hmk : ∀ fe ∈ outLinks, ∀ id, ((mk id fe).1).isSome = true) (size counter : ℕ) (id : UInt32)

include hmk

theorem map_sends_emit :
    (Forwarder.sends (emit size pushLocally mk counter id outLinks).1).map Prod.fst = outLinks := by
  induction outLinks generalizing counter id with
  | nil => rfl
  | cons fe outLinks ih =>
    obtain ⟨frame, hframe⟩ := Option.isSome_iff_exists.1 (hmk fe mem_cons_self id)
    rw [emit, hframe, Forwarder.sends_append, map_append,
      ih (fun x hx => hmk x (mem_cons_of_mem fe hx)) _ _]
    split <;> rfl

theorem emit_copies (hsize : counter + outLinks.length ≤ size ∨ pushLocally = true) :
    Copies counter (emit size pushLocally mk counter id outLinks).1 := by
  induction outLinks generalizing counter id with
  | nil => exact .nil
  | cons fe outLinks ih =>
    rw [length_cons] at hsize
    have hcopy : ¬ (counter = size ∧ pushLocally = false) := by
      rintro ⟨hc, hl⟩
      rw [hl] at hsize
      rcases hsize with hsize | hsize
      · omega
      · cases hsize
    obtain ⟨frame, hframe⟩ := Option.isSome_iff_exists.1 (hmk fe mem_cons_self id)
    rw [emit, if_neg hcopy, if_neg hcopy, hframe]
    refine .cons (ih (fun x hx => hmk x (mem_cons_of_mem fe hx)) _ _ ?_)
    exact hsize.imp_left fun h => by omega

theorem emit_last (hne : outLinks ≠ []) (hsize : counter + outLinks.length = size + 1) :
    ∃ before fe frame, Copies counter before ∧ (emit size false mk counter id outLinks).1 =
        before ++ [.send .entered fe frame] := by
  induction outLinks generalizing counter id with
  | nil => exact absurd rfl hne
  | cons fe outLinks ih =>
    obtain ⟨frame, hframe⟩ := Option.isSome_iff_exists.1 (hmk fe mem_cons_self id)
    rw [length_cons] at hsize
    by_cases hlast : outLinks = []
    · subst hlast
      have hc : counter = size ∧ false = false := ⟨by simpa using hsize, rfl⟩
      refine ⟨[], fe, frame, .nil, ?_⟩
      rw [emit, if_pos hc, if_pos hc, hframe]
      rfl
    · have hpos := length_pos_of_ne_nil hlast
      have hc : ¬ (counter = size ∧ false = false) := by omega
      obtain ⟨before, fe', frame', hcop, hemit⟩ := ih
        (fun x hx => hmk x (mem_cons_of_mem fe hx)) (counter + 1) (mk id fe).2 hlast (by omega)
      refine ⟨.clone counter :: .send (.copy counter) fe frame :: before, fe', frame',
        .cons hcop, ?_⟩
      rw [emit, if_neg hc, if_neg hc, hframe, hemit]
      rfl

theorem emit_copiesThenPacket (hne : outLinks ≠ []) :
    CopiesThenPacket (emit outLinks.length false mk 1 id outLinks).1 := by
  obtain ⟨before, fe, frame, hcop, hemit⟩ :=
    emit_last hmk outLinks.length 1 id hne (Nat.add_comm _ _)
  exact ⟨before, .send .entered fe frame, hemit, hcop, rfl⟩

theorem emit_then_local (data : List UInt8) :
    CopiesThenPacket ((emit outLinks.length pushLocally mk 1 id outLinks).1 ++
      (if pushLocally then [.deliver .entered data] else []) ++
      (if outLinks.length = 0 ∧ pushLocally = false then [.kill .entered] else [])) := by
  cases pushLocally with
  | true =>
    have hcop : Copies 1 (emit outLinks.length true mk 1 id outLinks).1 :=
      emit_copies hmk _ _ _ (.inr rfl)
    exact ⟨_, .deliver .entered data, by simp, hcop, rfl⟩
  | false =>
    by_cases hnil : outLinks = []
    · subst hnil
      exact ⟨[], .kill .entered, rfl, .nil, rfl⟩
    · have hlen : outLinks.length ≠ 0 := fun h => hnil (length_eq_zero_iff.1 h)
      simpa [hlen] using emit_copiesThenPacket hmk id hnil

end

/-! ### What has to be done with a packet -/

namespace Forwarder

section
variable (fw : Forwarder) (inPort : ℕ) (p : List UInt8)

/-- The packet has a forwarding identifier, behind a header when it comes from the network. -/
def WellFormed : Prop :=
  if inPort = 0 then fidLen ≤ p.length else fw.headerLen p + fidLen ≤ p.length

instance (fw : Forwarder) (inPort : ℕ) (p : List UInt8) : Decidable (fw.WellFormed inPort p) :=
  inferInstanceAs (Decidable (if inPort = 0 then fidLen ≤ p.length
    else fw.headerLen p + fidLen ≤ p.length))

def fidIn : FID :=
  if inPort = 0 then vectorAt fidLen p 0 else fw.fidOf p

def payloadIn : List UInt8 :=
  if inPort = 0 then p.drop fidLen else fw.payloadOf p

/-- The entry is in the forwarding identifier; a packet of the network has an unset bit and would
not go back. -/
def Selects (fe : ForwardingEntry) : Prop :=
  Bits.Contains (fw.fidIn inPort p) fe.LID ∧
    (inPort ≠ 0 → Bits.isZero (Bits.neg (fw.fidOf p)) = false ∧ fw.loops p fe = false)

end

instance (fw : Forwarder) (inPort : ℕ) (p : List UInt8) (fe : ForwardingEntry) :
    Decidable (fw.Selects inPort p fe) :=
  inferInstanceAs (Decidable (_ ∧ _))

structure ForwardedOnce (fw : Forwarder) (inPort : ℕ) (p : List UInt8)
    (actions : List ForwarderAction) : Prop where
  entries : (sends actions).map Prod.fst =
    fw.fwTable.filter fun fe => decide (fw.Selects inPort p fe)
  frames : ∀ x ∈ sends actions, fw.fidOf x.2 = fw.fidIn inPort p ∧
    fw.payloadOf x.2 = fw.payloadIn inPort p
  broadcast : inPort ≠ 0 → (∀ i, i < 8 * fidLen → Bits.bit (fw.fidOf p) i = true) →
    sends actions = []
  /-- The payload goes to the local proxy, if the packet of the network is for this node. -/
  proxy : deliveries actions =
    if inPort ≠ 0 ∧ Bits.Contains (fw.fidOf p) fw.iLID then [fw.payloadOf p] else []
  entered : UsedOnce .entered actions
  copies : ∀ n, .clone n ∈ actions → UsedOnce (.copy n) actions

/-! ### Packets of the local proxy -/

/-- The entries use one of the two protocol types, in MAC mode. -/
def KnownTypes (fw : Forwarder) : Prop :=
  fw.useMac = true → ∀ fe ∈ fw.fwTable, fe.protoType = protoBA ∨ fe.protoType = protoSDN

theorem encapsulate_isSome (hfw : fw.KnownTypes) (hfe : fe ∈ fw.fwTable) (plen : UInt16)
    (id : UInt32) : ((fw.encapsulate plen p id fe).1).isSome = true := by
  rw [encapsulate]
  split
  case isTrue hmac =>
    rcases hfw hmac fe hfe with hp | hp
    · rw [if_pos hp]
      rfl
    · rw [if_neg (by rw [hp]; decide), if_pos hp]
      rfl
  · rfl

theorem pushLocal_forwardedOnce (hfw : fw.KnownTypes) (hp : fidLen ≤ p.length) :
    fw.ForwardedOnce 0 p (fw.pushLocal id p).1 := by
  have hsplit : p = (vectorAt fidLen p 0).toList ++ p.drop fidLen := by
    simpa using drop_eq_vectorAt (i := 0) (n := fidLen) (by rwa [Nat.zero_add])
  have hmk : ∀ fe ∈ fw.fwTable.filter fun fe => decide (Bits.Contains (vectorAt fidLen p 0) fe.LID),
      ∀ id, ((fw.encapsulate (UInt16.ofNat p.length - 14 - 32) p id fe).1).isSome = true :=
    fun fe hfe id => encapsulate_isSome hfw (mem_of_mem_filter hfe) _ id
  have hshape : CopiesThenPacket (fw.pushLocal id p).1 := by
    rw [pushLocal]
    split
    case isTrue hnil =>
      rw [length_eq_zero_iff] at hnil
      rw [hnil]
      exact ⟨[], .kill .entered, rfl, .nil, rfl⟩
    case isFalse hne =>
      exact emit_copiesThenPacket hmk id fun hnil => hne (length_eq_zero_iff.2 hnil)
  refine ⟨?_, ?_, fun h => absurd rfl h, ?_, hshape.entered, fun n hn => hshape.copies hn⟩
  · rw [pushLocal, sends_append, map_append, map_sends_emit hmk, apply_ite sends,
      sends_kill, sends_nil, ite_self, map_nil]
    simp [Selects, fidIn]
  · rintro ⟨fe, frame⟩ hframe
    rw [hsplit] at hframe
    have hcar := carries_of_mem_pushLocal hframe
    exact ⟨hcar.fidOf_eq, hcar.payloadOf_eq⟩
  · rw [pushLocal, deliveries_append, deliveries_emit, apply_ite deliveries]
    simp

/-! ### Packets of the network -/

theorem carries_self (hp : fw.headerLen p + fidLen ≤ p.length) :
    fw.Carries p (fw.fidOf p) (fw.payloadOf p) :=
  drop_eq_vectorAt hp

def outLinks (fw : Forwarder) (p : List UInt8) : List ForwardingEntry :=
  if Bits.isZero (Bits.neg (fw.fidOf p)) then [] else
    fw.fwTable.filter fun fe => decide (Bits.Contains (fw.fidOf p) fe.LID) && !fw.loops p fe

theorem pushNetwork_fst : (fw.pushNetwork id p).1 =
    (emit (fw.outLinks p).length (decide (Bits.Contains (fw.fidOf p) fw.iLID))
        (fun id fe => (some (fw.rewrite (UInt16.ofNat p.length - 14 - 32) p fe), id)) 1 id
        (fw.outLinks p)).1 ++
      (if decide (Bits.Contains (fw.fidOf p) fw.iLID) then [.deliver .entered (fw.payloadOf p)]
        else []) ++
      (if (fw.outLinks p).length = 0 ∧ decide (Bits.Contains (fw.fidOf p) fw.iLID) = false
        then [.kill .entered] else []) := by
  rw [pushNetwork, outLinks]
  cases Bits.isZero (Bits.neg (fw.fidOf p)) with
  | true | false => rfl

theorem map_sends_pushNetwork : (sends (fw.pushNetwork id p).1).map Prod.fst = fw.outLinks p := by
  rw [pushNetwork_fst, sends_append, sends_append, apply_ite sends, apply_ite sends, sends_deliver,
    sends_kill, sends_nil, ite_self, ite_self, append_nil, append_nil,
    map_sends_emit fun _ _ _ => rfl]

theorem outLinks_eq {inPort : ℕ} (hport : inPort ≠ 0) :
    fw.outLinks p = fw.fwTable.filter fun fe => decide (fw.Selects inPort p fe) := by
  rw [outLinks]
  split
  case isTrue hones =>
    symm
    rw [filter_eq_nil_iff]
    intro fe _ hsel
    have := ((of_decide_eq_true hsel).2 hport).1
    rw [hones] at this
    cases this
  case isFalse hones =>
    simp [Selects, fidIn, hport, hones]

theorem pushNetwork_forwardedOnce {inPort : ℕ} (hport : inPort ≠ 0)
    (hp : fw.headerLen p + fidLen ≤ p.length) :
    fw.ForwardedOnce inPort p (fw.pushNetwork id p).1 := by
  have hshape : CopiesThenPacket (fw.pushNetwork id p).1 := by
    rw [pushNetwork_fst]
    exact emit_then_local (fun _ _ _ => rfl) id _
  refine ⟨?_, ?_, fun _ hones => ?_, ?_, hshape.entered, fun n hn => hshape.copies hn⟩
  · rw [map_sends_pushNetwork, outLinks_eq hport]
  · rintro ⟨fe, frame⟩ hframe
    have hcar := carries_of_mem_pushNetwork (carries_self hp) hframe
    rw [fidIn, payloadIn, if_neg hport, if_neg hport]
    exact ⟨hcar.fidOf_eq, hcar.payloadOf_eq⟩
  · have hnil : fw.outLinks p = [] := if_pos (Bits.isZero_neg_iff.2 hones)
    exact map_eq_nil_iff.1 (map_sends_pushNetwork.trans hnil)
  · rw [deliveries_pushNetwork]
    simp [hport]

/-! ### Both -/

/-- **The packet is sent once on each selected entry, and nowhere else**; it goes to the local proxy
if it is for this node; and it is given away once. -/
theorem push_forwardedOnce {inPort : ℕ} (hfw : fw.KnownTypes) (hp : fw.WellFormed inPort p) :
    fw.ForwardedOnce inPort p (fw.push id inPort p).1 := by
  rw [WellFormed] at hp
  split at hp
  case isTrue hport =>
    subst hport
    exact pushLocal_forwardedOnce hfw hp
  case isFalse hport =>
    rw [push_of_ne hport]
    exact pushNetwork_forwardedOnce hport hp

/-- A packet of the network leaves on one of two links, and goes to the local proxy. -/
theorem push_forwardedOnce_example :
    let fw : Forwarder := { exampleForwarder (exampleLink 2 3 1 protoSDN) 3 with
      fwTable := [exampleLink 2 3 1 protoSDN, exampleLink 2 4 9 protoBA] }
    fw.ForwardedOnce 1 exampleFrame₀ (fw.push 0 1 exampleFrame₀).1 := by
  refine push_forwardedOnce (fun _ fe hfe => ?_) ?_
  · rcases mem_cons.1 hfe with rfl | hfe
    · exact .inr rfl
    · rw [mem_singleton.1 hfe]
      exact .inl rfl
  · decide +kernel

end Forwarder

end Blackadder
