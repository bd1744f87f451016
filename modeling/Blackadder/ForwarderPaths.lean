/-
**What a packet carries along a path.**

A forwarder between links of different kinds takes bytes of the header out or puts them in. A
packet arrives with the forwarding identifier and the payload of its source, whatever the kinds of
the links.
-/

import Blackadder.Forwarder
import Blackadder.ProxyWire

namespace Blackadder

open List
open Forwarder (sends)

variable {fw : Forwarder} {fe : ForwardingEntry} {fid : FID} {payload frame p data : List UInt8}
  {plen : UInt16} {id : UInt32}

/-! ### Headers -/

theorem netAt_congr {data' : List UInt8} {i : ℕ}
    (h : ∀ j, i ≤ j → j < i + 2 → data.getD j 0 = data'.getD j 0) : netAt data i = netAt data' i := by
  rw [netAt, netAt, byteAt, byteAt, byteAt, byteAt, h i (by omega) (by omega),
    h (i + 1) (by omega) (by omega)]

theorem netAt_write_outside {bytes : List UInt8} {i j : ℕ} (h : i + bytes.length ≤ data.length)
    (hj : j + 2 ≤ i ∨ i + bytes.length ≤ j) : netAt (Buffer.write i bytes data) j = netAt data j :=
  netAt_congr fun k _ _ => Buffer.getD_write_outside h (by omega)

theorem netAt_write_netBytes {i : ℕ} (x : UInt16) (h : i + 2 ≤ data.length) :
    netAt (Buffer.write i (netBytes x) data) i = x := by
  have hlen : (netBytes x).length = 2 := rfl
  have hfit : i + (netBytes x).length ≤ data.length := by omega
  have h₀ := Buffer.getD_write_inside (j := 0) (d := 0) hfit (by omega)
  have h₁ := Buffer.getD_write_inside (j := 1) (d := 0) hfit (by omega)
  have hx := x.toNat_lt
  rw [Nat.add_zero] at h₀
  rw [netAt, byteAt, byteAt, h₀, h₁]
  refine UInt16.toNat_inj.1 ?_
  simp only [netBytes, getD_cons_zero, getD_cons_succ, UInt8.toNat_ofNat', UInt16.toNat_ofNat']
  omega

namespace ForwardingEntry

theorem sameFrom_writeAddresses (h : 12 ≤ data.length) :
    Buffer.SameFrom 12 data (fe.writeAddresses data) := by
  have hdst : Buffer.SameFrom 12 data (Buffer.write 0 fe.dst.toList data) :=
    Buffer.sameFrom_write (by rw [fe.dst.toList_length, macLen]; omega) h
  refine hdst.trans (Buffer.sameFrom_write ?_ (hdst.length ▸ h))
  rw [fe.src.toList_length, macLen]

theorem sameFrom_writeMacHeader (h : 14 ≤ data.length) :
    Buffer.SameFrom 14 data (fe.writeMacHeader data) := by
  have haddr : Buffer.SameFrom 14 data (fe.writeAddresses data) :=
    (sameFrom_writeAddresses (by omega)).mono (by omega)
  exact haddr.trans (Buffer.sameFrom_write (by simp [macLen, netBytes]) (haddr.length ▸ h))

theorem netAt_writeMacHeader (h : 14 ≤ data.length) :
    netAt (fe.writeMacHeader data) 12 = fe.protoType := by
  refine netAt_write_netBytes fe.protoType ?_
  rw [(sameFrom_writeAddresses (by omega : 12 ≤ data.length)).length]
  exact h

theorem netAt_writeAddresses (h : 12 ≤ data.length) :
    netAt (fe.writeAddresses data) 12 = netAt data 12 := by
  refine netAt_congr fun j hj _ => ?_
  have hcell := congrArg (fun l : List UInt8 => l.getD (j - 12) 0)
    (fe.sameFrom_writeAddresses h).drop
  simpa [Nat.add_sub_cancel' hj] using hcell

theorem write_behind_protoType {bytes data' : List UInt8} {i : ℕ} {x : UInt16}
    (hlen : 22 ≤ data.length) (hi : 14 ≤ i) (hb : i + bytes.length ≤ 22)
    (h : Buffer.SameFrom 22 data data' ∧ netAt data' 12 = x) :
    Buffer.SameFrom 22 data (Buffer.write i bytes data') ∧
      netAt (Buffer.write i bytes data') 12 = x := by
  obtain ⟨hsame, hx⟩ := h
  have hlen' : 22 ≤ data'.length := hsame.length ▸ hlen
  refine ⟨hsame.trans (Buffer.sameFrom_write hb hlen'), ?_⟩
  rw [netAt_write_outside (by omega) (by omega), hx]

theorem writeSDNHeader_spec (fe : ForwardingEntry) (plen : UInt16) (hlen : 22 ≤ data.length) :
    Buffer.SameFrom 22 data (fe.writeSDNHeader plen data) ∧
      netAt (fe.writeSDNHeader plen data) 12 = fe.protoType := by
  have hmac : Buffer.SameFrom 22 data (fe.writeMacHeader data) ∧
      netAt (fe.writeMacHeader data) 12 = fe.protoType :=
    ⟨(sameFrom_writeMacHeader (by omega)).mono (by omega), netAt_writeMacHeader (by omega)⟩
  iterate 5 refine write_behind_protoType hlen (by simp [macLen]) (by simp [macLen, memBytes]) ?_
  exact hmac

end ForwardingEntry

/-! ### What stays behind the header -/

namespace Forwarder

/-- Behind the header, a packet of the network has a forwarding identifier and a payload. -/
def Carries (fw : Forwarder) (frame : List UInt8) (fid : FID) (payload : List UInt8) : Prop :=
  frame.drop (fw.headerLen frame) = fid.toList ++ payload

section
variable (h : fw.Carries frame fid payload)
include h

theorem Carries.fidOf_eq : fw.fidOf frame = fid := vectorAt_of_drop h

theorem Carries.payloadOf_eq : fw.payloadOf frame = payload := by
  rw [payloadOf, ← drop_drop, h, drop_left' fid.toList_length]

theorem Carries.headerLen_le : fw.headerLen frame + fidLen + payload.length = frame.length := by
  have hlen := congrArg length h
  rw [length_drop, length_append, fid.toList_length, fidLen] at hlen
  rw [fidLen]
  omega

end

theorem carries_of_mac {n : ℕ} (hmac : fw.useMac = true)
    (hn : n = if netAt frame 12 = protoSDN then 22 else 14)
    (hdrop : frame.drop n = fid.toList ++ payload) : fw.Carries frame fid payload := by
  rwa [Carries, headerLen, if_pos hmac, ← hn]

theorem carries_of_ip (hip : fw.useMac = false) (hdrop : frame.drop 28 = fid.toList ++ payload) :
    fw.Carries frame fid payload := by
  rwa [Carries, headerLen, hip]

theorem length_pushBytes (n : ℕ) (data : List UInt8) :
    (pushBytes n data).length = n + data.length := by
  simp [pushBytes]

theorem drop_pushBytes (n : ℕ) (data : List UInt8) : (pushBytes n data).drop n = data :=
  drop_left' length_replicate

section
variable (hmac : fw.useMac = true)
include hmac

theorem carries_writeMacHeader (hp : fe.protoType = protoBA)
    (hdata : data = fid.toList ++ payload) :
    fw.Carries (fe.writeMacHeader (pushBytes 14 data)) fid payload := by
  have hlen : 14 ≤ (pushBytes 14 data).length := by
    rw [length_pushBytes]
    omega
  refine carries_of_mac (n := 14) hmac ?_ ?_
  · rw [ForwardingEntry.netAt_writeMacHeader hlen, hp, if_neg (by decide)]
  · rw [(ForwardingEntry.sameFrom_writeMacHeader hlen).drop, drop_pushBytes, hdata]

theorem carries_writeSDNHeader (hp : fe.protoType = protoSDN)
    (hlen : 22 ≤ data.length) (hdata : data.drop 22 = fid.toList ++ payload) :
    fw.Carries (fe.writeSDNHeader plen data) fid payload := by
  obtain ⟨hsame, hpro⟩ := fe.writeSDNHeader_spec plen hlen
  refine carries_of_mac (n := 22) hmac ?_ ?_
  · rw [hpro, hp, if_pos rfl]
  · rw [hsame.drop, hdata]

theorem carries_writeAddresses (h : fw.Carries p fid payload) :
    fw.Carries (fe.writeAddresses p) fid payload := by
  have hhead : 14 ≤ fw.headerLen p := by
    rw [headerLen, if_pos hmac]
    split <;> omega
  have hle := h.headerLen_le
  have hsame : Buffer.SameFrom 12 p (fe.writeAddresses p) :=
    ForwardingEntry.sameFrom_writeAddresses (by omega)
  refine carries_of_mac (n := fw.headerLen p) hmac ?_ ?_
  · rw [ForwardingEntry.netAt_writeAddresses (by omega), headerLen, if_pos hmac]
  · rw [(hsame.mono (by omega : 12 ≤ fw.headerLen p)).drop]
    exact h

end

theorem ForwardingEntry.length_ipHeader (fe : ForwardingEntry) (len id : UInt16)
    (sum : List.Vector UInt8 2) : (fe.ipHeader len id sum).length = 20 := by
  simp [ForwardingEntry.ipHeader, netBytes]

theorem length_udpHeader (len : UInt16) (sum : List.Vector UInt8 2) :
    (udpHeader len sum).length = 8 := by
  simp [udpHeader, netBytes]

theorem encapsulate_carries
    (h : (fw.encapsulate plen (fid.toList ++ payload) id fe).1 = some frame) :
    fw.Carries frame fid payload := by
  cases hmac : fw.useMac with
  | true =>
    rw [encapsulate, if_pos hmac] at h
    split at h
    case isTrue hp =>
      obtain rfl := Option.some.inj h
      exact carries_writeMacHeader hmac hp rfl
    · split at h
      case isTrue hp =>
        obtain rfl := Option.some.inj h
        refine carries_writeSDNHeader hmac hp ?_ (drop_pushBytes _ _)
        rw [length_pushBytes]
        omega
      · cases h
  | false =>
    rw [encapsulate, hmac] at h
    obtain rfl := Option.some.inj h
    refine carries_of_ip hmac (drop_left' ?_)
    rw [length_append, ForwardingEntry.length_ipHeader, length_udpHeader]

theorem drop_rewrite_ip (hip : fw.useMac = false) (hlen : 28 ≤ p.length) :
    (fw.rewrite plen p fe).drop 28 = p.drop 28 := by
  have step : ∀ {d : List UInt8} (i : ℕ) (bytes : List UInt8), i + bytes.length ≤ 28 →
      Buffer.SameFrom 28 p d → Buffer.SameFrom 28 p (Buffer.write i bytes d) := by
    intro d i bytes hi hsame
    exact hsame.trans (Buffer.sameFrom_write hi (hsame.length ▸ hlen))
  have hstart : Buffer.SameFrom 28 p p := ⟨rfl, rfl⟩
  have haddr := step 16 fe.dstIP.toList (by simp) (step 12 fe.srcIP.toList (by simp) hstart)
  have hfie := step 10 [0, 0] (by simp) <| step 8 [250] (by simp) <| step 6 [0, 0] (by simp) <|
    step 1 [0] (by simp) haddr
  rw [rewrite, hip]
  refine (step 26 _ ?_ (step 26 [0, 0] (by simp) (step 10 _ ?_ hfie))).drop
  · rw [List.Vector.toList_length]
  · rw [List.Vector.toList_length]
    omega

theorem rewrite_carries (h : fw.Carries p fid payload) :
    fw.Carries (fw.rewrite plen p fe) fid payload := by
  cases hmac : fw.useMac with
  | false =>
    have hlen := h.headerLen_le
    rw [headerLen, hmac, if_neg Bool.false_ne_true] at hlen
    rw [Carries, headerLen, hmac] at h
    exact carries_of_ip hmac ((drop_rewrite_ip hmac (by omega)).trans h)
  | true =>
    rw [rewrite, if_pos hmac]
    dsimp only
    split
    · exact carries_writeAddresses hmac h
    · have hdrop := h
      rw [Carries, headerLen, if_pos hmac] at hdrop
      split
      case isTrue hba =>
        -- the header of 14 bytes becomes one of 22
        rw [hba.1, if_neg (by decide)] at hdrop
        have hlen := congrArg length hdrop
        rw [length_drop, length_append, fid.toList_length, fidLen] at hlen
        refine carries_writeSDNHeader hmac hba.2 ?_ ?_
        · rw [length_pushBytes]
          omega
        · rw [show 22 = 8 + 14 from rfl, ← drop_drop, drop_pushBytes, hdrop]
      · split
        case isTrue hsdn =>
          -- the header of 22 bytes becomes one of 14
          rw [hsdn.1] at hdrop
          exact carries_writeMacHeader hmac hsdn.2 hdrop
        · exact carries_writeAddresses hmac h

/-! ### What is sent -/

variable {size counter : ℕ} {pushLocally : Bool}
  {mk : UInt32 → ForwardingEntry → Option (List UInt8) × UInt32}

section
variable (q : PacketRef) (l l' : List ForwarderAction)

@[simp] theorem sends_nil : sends [] = [] := rfl

@[simp] theorem sends_send : sends (.send q fe frame :: l) = (fe, frame) :: sends l := rfl

@[simp] theorem sends_clone (n : ℕ) : sends (.clone n :: l) = sends l := rfl

@[simp] theorem sends_deliver : sends (.deliver q data :: l) = sends l := rfl

@[simp] theorem sends_kill : sends (.kill q :: l) = sends l := rfl

@[simp] theorem deliveries_nil : deliveries [] = [] := rfl

@[simp] theorem deliveries_deliver : deliveries (.deliver q data :: l) = data :: deliveries l := rfl

@[simp] theorem deliveries_kill : deliveries (.kill q :: l) = deliveries l := rfl

@[simp] theorem sends_append : sends (l ++ l') = sends l ++ sends l' := filterMap_append

@[simp] theorem deliveries_append : deliveries (l ++ l') = deliveries l ++ deliveries l' :=
  filterMap_append

end

theorem mem_sends_emit {outLinks : List ForwardingEntry}
    (h : (fe, frame) ∈ sends (emit size pushLocally mk counter id outLinks).1) :
    ∃ id', (mk id' fe).1 = some frame := by
  induction outLinks generalizing counter id with
  | nil => cases h
  | cons fe' outLinks ih =>
    rw [emit, sends_append, sends_append, mem_append, mem_append] at h
    rcases h with (h | h) | h
    · split at h <;> simp at h
    · split at h
      case h_1 data hdata =>
        simp only [sends_send, sends_nil, mem_singleton] at h
        obtain ⟨rfl, rfl⟩ := h
        exact ⟨id, hdata⟩
      case h_2 => cases h
    · exact ih h

theorem deliveries_emit {outLinks : List ForwardingEntry} :
    deliveries (emit size pushLocally mk counter id outLinks).1 = [] := by
  induction outLinks generalizing counter id with
  | nil => rfl
  | cons fe outLinks ih =>
    rw [emit, deliveries_append, ih]
    split <;> split <;> rfl

theorem mem_sends_pushLocal (h : (fe, frame) ∈ sends (fw.pushLocal id p).1) :
    ∃ id', (fw.encapsulate (UInt16.ofNat p.length - 14 - 32) p id' fe).1 = some frame := by
  rw [pushLocal, sends_append, mem_append] at h
  rcases h with h | h
  · split at h <;> cases h
  · exact mem_sends_emit h

theorem mem_sends_pushNetwork (h : (fe, frame) ∈ sends (fw.pushNetwork id p).1) :
    frame = fw.rewrite (UInt16.ofNat p.length - 14 - 32) p fe := by
  rw [pushNetwork, sends_append, sends_append, mem_append, mem_append] at h
  rcases h with (h | h) | h
  · split at h
    · cases h
    · obtain ⟨_, hframe⟩ := mem_sends_emit h
      exact (Option.some.inj hframe).symm
  · split at h <;> simp at h
  · rw [apply_ite sends, sends_kill, ite_self] at h
    cases h

theorem carries_of_mem_pushLocal
    (h : (fe, frame) ∈ sends (fw.pushLocal id (fid.toList ++ payload)).1) :
    fw.Carries frame fid payload := by
  obtain ⟨id', hframe⟩ := mem_sends_pushLocal h
  exact encapsulate_carries hframe

theorem carries_of_mem_pushNetwork (hp : fw.Carries p fid payload)
    (h : (fe, frame) ∈ sends (fw.pushNetwork id p).1) : fw.Carries frame fid payload := by
  rw [mem_sends_pushNetwork h]
  exact rewrite_carries hp

theorem deliveries_pushNetwork : deliveries (fw.pushNetwork id p).1 =
    if Bits.Contains (fw.fidOf p) fw.iLID then [fw.payloadOf p] else [] := by
  have hsent : ∀ (c : Bool) (l : List ForwarderAction × UInt32), deliveries l.1 = [] →
      deliveries (if c then ([], id) else l).1 = [] := by
    intro c l hl
    cases c with
    | true => rfl
    | false => exact hl
  rw [pushNetwork, deliveries_append, deliveries_append, hsent _ _ deliveries_emit,
    apply_ite deliveries, apply_ite deliveries, deliveries_kill, deliveries_nil, ite_self]
  simp

theorem push_zero : fw.push id 0 p = fw.pushLocal id p := if_pos rfl

theorem push_of_ne {port : ℕ} (hport : port ≠ 0) : fw.push id port p = fw.pushNetwork id p :=
  if_neg hport

/-! ### The IPv6 payload length -/

theorem netAt_writeSDNHeader (hlen : 22 ≤ data.length) : netAt (fe.writeSDNHeader plen data) 18 =
      UInt16.ofNat (plen.toNat % 256 * 256 + plen.toNat / 256) := by
  set front := Buffer.write 15 [0, 0, 0] (Buffer.write 14 [0x60] (fe.writeMacHeader data)) with hfront
  have hmac : (fe.writeMacHeader data).length = data.length :=
    (ForwardingEntry.sameFrom_writeMacHeader (by omega)).length
  have hbytes : front.length = data.length := by
    rw [Buffer.length_write, Buffer.length_write, hmac]
    · simp only [length_singleton]
      omega
    · rw [Buffer.length_write] <;> simp only [length_cons, length_nil] <;> omega
  have hfit : 18 + (memBytes plen).length ≤ front.length := by
    simp only [memBytes, length_cons, length_nil]
    omega
  have hlow := Buffer.getD_write_inside (j := 0) (d := 0) hfit (by simp [memBytes])
  have hhigh := Buffer.getD_write_inside (j := 1) (d := 0) hfit (by simp [memBytes])
  have hx := plen.toNat_lt
  change netAt (Buffer.write 21 [0xff] (Buffer.write 20 [59] (Buffer.write 18 _ front))) 18 = _
  rw [netAt_write_outside, netAt_write_outside, netAt, byteAt, byteAt, hhigh]
  · rw [Nat.add_zero] at hlow
    rw [hlow]
    simp only [memBytes, getD_cons_zero, getD_cons_succ, UInt8.toNat_ofNat']
    rw [Nat.mod_eq_of_lt (a := plen.toNat / _) (by omega)]
  all_goals simp only [Buffer.length_write hfit, length_singleton]
  · omega
  · omega
  · rw [Buffer.length_write] <;> simp only [Buffer.length_write hfit, length_singleton] <;> omega
  · omega

/-- The payload length is, in network byte order, the number of bytes behind the IPv6 header. -/
def PayloadLengthRight (frame : List UInt8) : Prop := (netAt frame 18).toNat = frame.length - (14 + 40)

theorem payloadLengthRight_writeSDNHeader (hlen : 22 ≤ data.length) :
    PayloadLengthRight (fe.writeSDNHeader plen data) ↔
      plen.toNat % 256 * 256 + plen.toNat / 256 = data.length - 54 := by
  have hx := plen.toNat_lt
  rw [PayloadLengthRight, netAt_writeSDNHeader hlen, UInt16.toNat_ofNat',
    (ForwardingEntry.writeSDNHeader_spec fe plen hlen).1.length, Nat.mod_eq_of_lt (by omega)]

-- The multiples of 257 are the two-byte numbers with equal bytes.
theorem swapped_eq_iff (m : ℕ) :
    m % 65536 % 256 * 256 + m % 65536 / 256 = m ↔ m < 65536 ∧ m % 257 = 0 := by
  by_cases hm : m < 65536
  · rw [Nat.mod_eq_of_lt hm]
    omega
  · omega

/-- **When the payload length is right**: never for packets of the local proxy; for those of a
native link when both its bytes are the same. -/
theorem payloadLengthRight_iff (hmac : fw.useMac = true) (hsdn : fe.protoType = protoSDN) {inPort : ℕ}
    (hp : if inPort = 0 then fidLen ≤ p.length else netAt p 12 = protoBA ∧ 14 + fidLen ≤ p.length)
    (h : (fe, frame) ∈ sends (fw.push id inPort p).1) :
    PayloadLengthRight frame ↔ inPort ≠ 0 ∧ p.length - 46 < 65536 ∧ (p.length - 46) % 257 = 0 := by
  have hne : protoSDN ≠ protoBA := by decide
  have hlen : (UInt16.ofNat p.length - 14 - 32).toNat = (p.length + 65490) % 65536 := by
    simp only [UInt16.toNat_sub, UInt16.toNat_ofNat', UInt16.reduceToNat]
    omega
  by_cases hport : inPort = 0
  · rw [if_pos hport] at hp
    rw [hport] at h
    obtain ⟨id', hframe⟩ := mem_sends_pushLocal h
    rw [encapsulate, if_pos hmac, if_neg (hsdn ▸ hne), if_pos hsdn] at hframe
    rw [← Option.some.inj hframe,
      payloadLengthRight_writeSDNHeader (by rw [length_pushBytes]; omega), length_pushBytes]
    omega
  · rw [if_neg hport, fidLen] at hp
    rw [push_of_ne hport] at h
    rw [mem_sends_pushNetwork h, rewrite, if_pos hmac]
    simp only [hp.1, hsdn, hne.symm, if_false, and_self, if_true]
    rw [payloadLengthRight_writeSDNHeader (by rw [length_pushBytes]; omega), length_pushBytes, hlen,
      show (p.length + 65490) % 65536 = (p.length - 46) % 65536 by omega,
      show 8 + p.length - 54 = p.length - 46 by omega, swapped_eq_iff, and_iff_right hport]

/-- A packet with 257 bytes behind the forwarding identifier, from a native link. -/
theorem payloadLengthRight_257 :
    let fe : ForwardingEntry := ⟨.replicate _ 1, .replicate _ 2, .replicate _ 0, .replicate _ 0, 1,
      .replicate _ 0, protoSDN⟩
    let fw : Forwarder := ⟨true, .replicate _ 0xff, [fe], fun _ => .replicate _ 0,
      fun _ _ _ => .replicate _ 0⟩
    let p := List.replicate 12 3 ++ netBytes protoBA ++ List.replicate (fidLen + 257) 0
    ∃ frame, (fe, frame) ∈ sends (fw.push 0 1 p).1 ∧ PayloadLengthRight frame := by
  intro fe fw p
  have hmem : (fe, fw.rewrite (UInt16.ofNat p.length - 14 - 32) p fe) ∈ sends (fw.push 0 1 p).1 := by
    decide +kernel
  exact ⟨_, hmem, (payloadLengthRight_iff rfl rfl (by decide +kernel) hmem).2 (by decide +kernel)⟩

/-- With 4 bytes behind the forwarding identifier the field has the bytes `0xf6` and `0xff`. -/
theorem not_payloadLengthRight_local :
    let fe : ForwardingEntry := ⟨.replicate _ 1, .replicate _ 2, .replicate _ 0, .replicate _ 0, 1,
      .replicate _ 0, protoSDN⟩
    let fw : Forwarder := ⟨true, .replicate _ 0xff, [fe], fun _ => .replicate _ 0,
      fun _ _ _ => .replicate _ 0⟩
    (sends (fw.push 0 0 (List.replicate (fidLen + 4) 0)).1).map
      (fun x => (x.2.length - 54, netAt x.2 18)) = [(4, 0xf6ff)] := by
  decide +kernel

end Forwarder

/-! ### Journeys -/

/-- The packets on the links of a path, the last one first. All forwarders use the same mode. -/
inductive Journey (useMac : Bool) (packet : List UInt8) : List (List UInt8) → Prop
  | source {fw : Forwarder} {id : UInt32} {fe : ForwardingEntry} {frame : List UInt8}
    (hmode : fw.useMac = useMac) (hsend : (fe, frame) ∈ sends (fw.push id 0 packet).1) :
    Journey useMac packet [frame]
  | hop {fw : Forwarder} {id : UInt32} {port : ℕ} {fe : ForwardingEntry} {frame next : List UInt8}
    {frames : List (List UInt8)} (journey : Journey useMac packet (frame :: frames))
    (hmode : fw.useMac = useMac) (hport : port ≠ 0)
    (hsend : (fe, next) ∈ sends (fw.push id port frame).1) :
    Journey useMac packet (next :: frame :: frames)

theorem Forwarder.Carries.of_mode {fw' : Forwarder} (h : fw.Carries frame fid payload)
    (hmode : fw'.useMac = fw.useMac) : fw'.Carries frame fid payload := by
  rw [Forwarder.Carries, Forwarder.headerLen] at h ⊢
  rwa [hmode]

theorem Journey.carries {useMac : Bool} {frames : List (List UInt8)}
    (h : Journey useMac (fid.toList ++ payload) frames) (hfw : fw.useMac = useMac) :
    ∀ frame ∈ frames, fw.Carries frame fid payload := by
  induction h with
  | source hmode hsend =>
    intro frame hframe
    rw [mem_singleton.1 hframe]
    exact (Forwarder.carries_of_mem_pushLocal hsend).of_mode (hfw.trans hmode.symm)
  | hop _ hmode hport hsend ih =>
    rw [Forwarder.push_of_ne hport] at hsend
    intro frame hframe
    rcases mem_cons.1 hframe with rfl | hframe
    · have hlast := (ih _ mem_cons_self).of_mode (hmode.trans hfw.symm)
      exact (Forwarder.carries_of_mem_pushNetwork hlast hsend).of_mode (hfw.trans hmode.symm)
    · exact ih frame hframe

/-- **A packet carries its forwarding identifier and payload on every link, and is delivered with
them.** -/
theorem journey_carries {useMac : Bool} {frames : List (List UInt8)}
    (h : Journey useMac (fid.toList ++ payload) (frame :: frames)) :
    (∀ fw : Forwarder, fw.useMac = useMac → ∀ f ∈ frame :: frames,
      fw.fidOf f = fid ∧ fw.payloadOf f = payload) ∧
    ∀ (fw : Forwarder) (id : UInt32) (port : ℕ) (data : List UInt8), fw.useMac = useMac →
      port ≠ 0 → data ∈ Forwarder.deliveries (fw.push id port frame).1 → data = payload := by
  constructor
  · intro fw hfw f hf
    exact ⟨(h.carries hfw f hf).fidOf_eq, (h.carries hfw f hf).payloadOf_eq⟩
  · intro fw id port data hfw hport hdata
    rw [Forwarder.push_of_ne hport, Forwarder.deliveries_pushNetwork,
      (h.carries hfw frame mem_cons_self).payloadOf_eq] at hdata
    split at hdata
    · exact mem_singleton.1 hdata
    · cases hdata

def exampleLink (a b : UInt8) (bit : ℕ) (protoType : UInt16) : ForwardingEntry where
  src := List.Vector.replicate macLen a
  dst := List.Vector.replicate macLen b
  srcIP := List.Vector.replicate 4 a
  dstIP := List.Vector.replicate 4 b
  port := 1
  LID := Bits.single fidLen bit
  protoType := protoType

def exampleForwarder (fe : ForwardingEntry) (bit : ℕ) : Forwarder where
  useMac := true
  iLID := Bits.single fidLen bit
  fwTable := [fe]
  inCksum := fun _ => List.Vector.replicate 2 0
  inCksumPseudohdr := fun _ _ _ => List.Vector.replicate 2 0

def exampleFID : FID := Bits.orAll (Bits.zeros fidLen) ((List.range 4).map (Bits.single fidLen))

def firstFrame (actions : List ForwarderAction) : List UInt8 :=
  (((sends actions).head?).map Prod.snd).getD []

def examplePacket : List UInt8 := exampleFID.toList ++ [42]

def exampleFrame₀ : List UInt8 :=
  firstFrame ((exampleForwarder (exampleLink 1 2 0 protoBA) 4).push 0 0 examplePacket).1

def exampleFrame₁ : List UInt8 :=
  firstFrame ((exampleForwarder (exampleLink 2 3 1 protoSDN) 5).push 0 1 exampleFrame₀).1

def exampleFrame₂ : List UInt8 :=
  firstFrame ((exampleForwarder (exampleLink 3 4 2 protoBA) 6).push 0 1 exampleFrame₁).1

theorem exampleFrame_journey :
    Journey true examplePacket [exampleFrame₂, exampleFrame₁, exampleFrame₀] := by
  have h₀ : (exampleLink 1 2 0 protoBA, exampleFrame₀) ∈ sends
      ((exampleForwarder (exampleLink 1 2 0 protoBA) 4).push 0 0 examplePacket).1 := by
    decide +kernel
  have h₁ : (exampleLink 2 3 1 protoSDN, exampleFrame₁) ∈ sends
      ((exampleForwarder (exampleLink 2 3 1 protoSDN) 5).push 0 1 exampleFrame₀).1 := by
    decide +kernel
  have h₂ : (exampleLink 3 4 2 protoBA, exampleFrame₂) ∈ sends
      ((exampleForwarder (exampleLink 3 4 2 protoBA) 6).push 0 1 exampleFrame₁).1 := by
    decide +kernel
  exact .hop (.hop (.source rfl h₀) rfl one_ne_zero h₁) rfl one_ne_zero h₂

/-- The last forwarder reads what the first one was given, and delivers the payload. -/
theorem journey_carries_mixed :
    (exampleForwarder (exampleLink 4 5 6 protoBA) 3).fidOf exampleFrame₂ = exampleFID ∧
    Forwarder.deliveries
      ((exampleForwarder (exampleLink 4 5 6 protoBA) 3).push 0 1 exampleFrame₂).1 ≠ [] ∧
    ∀ data ∈ Forwarder.deliveries
      ((exampleForwarder (exampleLink 4 5 6 protoBA) 3).push 0 1 exampleFrame₂).1,
      data = [42] := by
  obtain ⟨hlinks, hloc⟩ := journey_carries exampleFrame_journey
  refine ⟨(hlinks _ rfl _ mem_cons_self).1, by decide +kernel, fun data hdata => ?_⟩
  exact hloc _ 0 1 data rfl one_ne_zero hdata

end Blackadder
