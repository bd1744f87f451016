/-
**Link identifiers as rules of SDN switches.**

On such a link the forwarding identifier takes the place of the two IPv6 addresses. The rule of a
switch is made from the text of a link identifier, highest bit first. The deployment application
swaps the bytes of 16 bits with `htons`; the controller takes 8 bits at a time, and makes texts with
the classes of Java, which write an IPv6 address that embeds one of IPv4 as the latter.
-/

import Mathlib.Data.List.DropRight
import Mathlib.Tactic.Ring
import Blackadder.AddressText
import Blackadder.ForwarderCopies

namespace Blackadder

open Option List
open Ipv6 (fullForm)
open Bits (bit)

/-! ### Texts -/

def lidText (lid : FID) : List Char :=
  (range (fidLen * 8)).map fun i => if bit lid (fidLen * 8 - i - 1) then '1' else '0'

def readBits (s : List Char) : Option ℕ :=
  s.foldlM (fun value c => if c = '0' then some (2 * value) else
    if c = '1' then some (2 * value + 1) else none) 0

def substr (s : List Char) (pos len : ℕ) : List Char := (s.drop pos).take len

/-! ### The deployment application -/

def htons (x : ℕ) : ℕ := x % 256 * 256 + x / 256

/-- `lid2ipv6` throws behind the end of the text, and for characters that are no digits. -/
def lid2ipv6 (lid : List Char) : Option (List Char) :=
  let lid := lid.reverse
  if lid.length < 15 * 16 then none else
    (range 16).foldlM (fun os k =>
      (readBits (substr lid (k * 16) 16).reverse).map fun b =>
        os ++ (Ipv6.hex4 (htons b) ++ if k < 15 then [':'] else [])) []

/-- The rule of a link, with `ipv6_h1` and `ipv6_h2` as addresses and as masks. -/
def deploymentRule (lid : List Char) : Option Ipv6.Rule := do
  let text ← lid2ipv6 lid
  let h1 ← Ipv6.read (substr text 0 39)
  let h2 ← Ipv6.read (substr text 40 79)
  return ⟨h1, h1, h2, h2⟩

/-! ### The controller -/

/-- The addresses that `getByAddress` takes for addresses of IPv4. -/
def IPv4Mapped (addr : List UInt8) : Prop := addr.take 12 = List.replicate 10 0 ++ [0xff, 0xff]

instance (addr : List UInt8) : Decidable (IPv4Mapped addr) := inferInstanceAs (Decidable (_ = _))

def hostAddress (addr : List UInt8) : List Char :=
  if IPv4Mapped addr then
    ['.'].intercalate ((addr.drop 12).map fun b => Nat.toDigits 10 b.toNat)
  else [':'].intercalate ((range 8).map fun i =>
    Nat.toDigits 16 ((byteAt addr (2 * i)).toNat * 256 + (byteAt addr (2 * i + 1)).toNat))

/-- `fullFormIpv6`. Java's `split` leaves out the empty strings at the end. -/
def fullFormIpv6 (shortIpv6 : List Char) : List Char :=
  let strings := (shortIpv6.splitOn ':').rdropWhile List.isEmpty
  (strings.mapIdx fun i s => (s.leftpad 4 ' ').map (fun c => if c = ' ' then '0' else c) ++
    if i ≠ 7 then [':'] else []).flatten

def lidToIpv6 (lid : List Char) : Option (List Char) := do
  let ipv6Bytes ← (range 16).mapM fun i =>
    (readBits (substr lid (i * 8) 8).reverse).map UInt8.ofNat
  return fullFormIpv6 (hostAddress ipv6Bytes)

def addLink (genlid : List Char) : Option (List Char × List Char) :=
  let lid := genlid.reverse
  if lid.length < 256 then none else do
    let srcAddress ← lidToIpv6 (substr lid 0 128)
    let dstAddress ← lidToIpv6 (substr lid 128 128)
    return (srcAddress, dstAddress)

def createAddedFlow (srcAddress dstAddress : List Char) : Option Ipv6.Rule := do
  let src ← Ipv6.read srcAddress
  let dst ← Ipv6.read dstAddress
  return ⟨src, src, dst, dst⟩

/-! ### Bits and bytes -/

theorem vectorAt_congr {n i i' : ℕ} {data data' : List UInt8}
    (h : ∀ j < n, byteAt data (i + j) = byteAt data' (i' + j)) :
    vectorAt n data i = vectorAt n data' i' :=
  List.Vector.toList_injective (map_congr_left fun j hj => h j (mem_range.1 hj))

def half (v : FID) (i : ℕ) : Ipv6.Address := vectorAt 16 v.toList i

theorem getD_half (v : FID) (o : ℕ) {j : ℕ} (hj : j < 16) :
    (half v o).toList.getD j 0 = byteAt v.toList (o + j) := by
  have hlt : j < (half v o).toList.length := by rwa [List.Vector.toList_length]
  rw [getD_eq_getElem _ _ hlt]
  simp [half, vectorAt]

theorem bit_half (v : FID) (o : ℕ) {i : ℕ} (hi : i < 128) :
    bit (half v o) i = bit v (8 * o + i) := by
  rw [bit, bit, getD_half v o (by omega), byteAt, Nat.mul_add_div (by omega), Nat.mul_add_mod]

theorem contains_iff_half (v w : FID) : Bits.Contains v w ↔
    Bits.Contains (half v 0) (half w 0) ∧ Bits.Contains (half v 16) (half w 16) := by
  rw [Bits.contains_iff, Bits.contains_iff, Bits.contains_iff]
  have hbits : ∀ o, (∀ i, bit (half w o) i = true → bit (half v o) i = true) ↔
      ∀ i < 128, bit w (8 * o + i) = true → bit v (8 * o + i) = true := by
    intro o
    refine forall_congr' fun i => ?_
    by_cases hi : i < 128
    · rw [bit_half v o hi, bit_half w o hi, forall_prop_of_true hi]
    · rw [Bits.bit_eq_false_of_le (by omega), forall_prop_of_false hi]
      simp
  rw [hbits, hbits]
  constructor
  · exact fun h => ⟨fun i _ => h _, fun i _ => h _⟩
  · rintro ⟨hlow, hhigh⟩ i hbit
    by_cases hi : i < 128
    · simpa using hlow i hi (by simpa using hbit)
    · by_cases hi' : i < 256
      · have hsum : 8 * 16 + (i - 128) = i := by omega
        have := hhigh (i - 128) (by omega)
        rw [hsum] at this
        exact this hbit
      · rw [Bits.bit_eq_false_of_le (by rw [fidLen]; omega)] at hbit
        cases hbit

theorem readBits_reverse (x w : ℕ) :
    readBits ((range w).map fun j => if x.testBit j then '1' else '0').reverse =
      some (x % 2 ^ w) := by
  have hacc : ∀ acc, (((range w).map fun j => if x.testBit j then '1' else '0').reverse).foldlM
      (fun value c => if c = '0' then some (2 * value) else
        if c = '1' then some (2 * value + 1) else none) acc = some (acc * 2 ^ w + x % 2 ^ w) := by
    induction w with
    | zero => simp [Nat.mod_one]
    | succ w ih =>
      intro acc
      rw [range_succ, map_append, reverse_append, map_singleton, reverse_singleton,
        singleton_append, foldlM_cons, Nat.mod_pow_succ, ← Nat.toNat_testBit]
      cases hbit : x.testBit w with
      | true =>
        simp only [if_true, Char.reduceEq, if_false, bind_eq_bind, bind_some, ih]
        rw [Bool.toNat_true]
        congr 1
        ring
      | false =>
        simp only [if_true, Bool.false_eq_true, if_false, bind_eq_bind, bind_some, ih]
        rw [Bool.toNat_false]
        congr 1
        ring
  simpa [readBits] using hacc 0

theorem reverse_lidText (lid : FID) : (lidText lid).reverse =
    (range 256).map fun i => if bit lid i then '1' else '0' := by
  refine ext_getElem (by simp [lidText, fidLen]) fun i h₁ h₂ => ?_
  have hi : i < 256 := by simpa using h₂
  simp only [lidText, getElem_reverse, getElem_map, getElem_range, length_map, length_range, fidLen]
  congr 2
  congr 1
  omega

theorem substr_map_range {f : ℕ → Char} {n pos len : ℕ} (h : pos + len ≤ n) :
    substr ((range n).map f) pos len = (range len).map fun j => f (pos + j) := by
  refine ext_getElem (by simp [substr]; omega) fun i h₁ h₂ => ?_
  simp [substr]

theorem readBits_byte (lid : FID) {m : ℕ} :
    readBits ((range 8).map fun j => if bit lid (m * 8 + j) then '1' else '0').reverse =
      some (byteAt lid.toList m).toNat := by
  have hread := readBits_reverse (byteAt lid.toList m).toNat 8
  rw [Nat.mod_eq_of_lt (byteAt lid.toList m).toNat_lt] at hread
  rw [← hread]
  congr 2
  refine map_congr_left fun j hj => ?_
  have hj : j < 8 := mem_range.1 hj
  rw [bit, byteAt, show (m * 8 + j) / 8 = m by omega, show (m * 8 + j) % 8 = j by omega]

theorem readBits_group (lid : FID) (k : ℕ) :
    readBits ((range 16).map fun j => if bit lid (k * 16 + j) then '1' else '0').reverse =
      some (2 ^ 8 * (byteAt lid.toList (2 * k + 1)).toNat + (byteAt lid.toList (2 * k)).toNat) := by
  have hlow := (byteAt lid.toList (2 * k)).toNat_lt
  have hhigh := (byteAt lid.toList (2 * k + 1)).toNat_lt
  have hread := readBits_reverse (2 ^ 8 * (byteAt lid.toList (2 * k + 1)).toNat +
    (byteAt lid.toList (2 * k)).toNat) 16
  rw [Nat.mod_eq_of_lt (by omega)] at hread
  rw [← hread]
  congr 2
  refine map_congr_left fun j hj => ?_
  have hj : j < 16 := mem_range.1 hj
  rw [Nat.testBit_two_pow_mul_add _ hlow, bit]
  by_cases hj' : j < 8
  · rw [if_pos hj', byteAt, show (k * 16 + j) / 8 = 2 * k by omega,
      show (k * 16 + j) % 8 = j by omega]
  · rw [if_neg hj', byteAt, show (k * 16 + j) / 8 = 2 * k + 1 by omega,
      show (k * 16 + j) % 8 = j - 8 by omega]

/-! ### The texts of the two programs -/

theorem foldlM_append_eq_some {f : ℕ → Option ℕ} {g : ℕ → ℕ} {text : ℕ → ℕ → List Char}
    {l : List ℕ} (h : ∀ k ∈ l, f k = some (g k)) (os : List Char) :
    l.foldlM (fun os k => (f k).map fun b => os ++ text k b) os =
      some (os ++ l.flatMap fun k => text k (g k)) := by
  induction l generalizing os with
  | nil => simp
  | cons k l ih =>
    obtain ⟨hk, hl⟩ := forall_mem_cons.1 h
    rw [foldlM_cons, hk, map_some, bind_eq_bind, bind_some, ih hl, flatMap_cons, append_assoc]

theorem group_half (lid : FID) (o : ℕ) {k : ℕ} (hk : k < 8) : Ipv6.group (half lid o) k =
    (byteAt lid.toList (o + 2 * k)).toNat * 256 + (byteAt lid.toList (o + 2 * k + 1)).toNat := by
  rw [Ipv6.group, getD_half lid o (by omega), getD_half lid o (by omega), Nat.add_assoc]

/-- **The text of the deployment application is that of the two halves.** -/
theorem lid2ipv6_lidText (lid : FID) : lid2ipv6 (lidText lid) =
    some (fullForm (half lid 0) ++ ':' :: fullForm (half lid 16)) := by
  have hread : ∀ k ∈ range 16, readBits (substr (lidText lid).reverse (k * 16) 16).reverse =
        some (2 ^ 8 * (byteAt lid.toList (2 * k + 1)).toNat + (byteAt lid.toList (2 * k)).toNat) := by
    intro k hk
    have hk : k < 16 := mem_range.1 hk
    rw [reverse_lidText, substr_map_range (by omega)]
    exact readBits_group lid k
  have hswap : ∀ k, htons (2 ^ 8 * (byteAt lid.toList (2 * k + 1)).toNat +
      (byteAt lid.toList (2 * k)).toNat) = (byteAt lid.toList (2 * k)).toNat * 256 +
        (byteAt lid.toList (2 * k + 1)).toNat := by
    intro k
    have hlow := (byteAt lid.toList (2 * k)).toNat_lt
    rw [htons]
    omega
  rw [lid2ipv6, if_neg (by simp [lidText, fidLen]), foldlM_append_eq_some hread]
  simp only [hswap]
  have hlow : (range 8).map (fun k => Ipv6.hex4 (Ipv6.group (half lid 0) k)) =
      (range 8).map fun k => Ipv6.hex4 ((byteAt lid.toList (2 * k)).toNat * 256 +
        (byteAt lid.toList (2 * k + 1)).toNat) := by
    refine map_congr_left fun k hk => ?_
    rw [group_half lid 0 (mem_range.1 hk), Nat.zero_add]
  have hhigh : (range 8).map (fun k => Ipv6.hex4 (Ipv6.group (half lid 16) k)) =
      (range 8).map fun k => Ipv6.hex4 ((byteAt lid.toList (2 * (8 + k))).toNat * 256 +
        (byteAt lid.toList (2 * (8 + k) + 1)).toNat) := by
    refine map_congr_left fun k hk => ?_
    rw [group_half lid 16 (mem_range.1 hk), show 16 + 2 * k = 2 * (8 + k) by omega]
  rw [fullForm, fullForm, hlow, hhigh]
  simp [range_succ]

theorem flatten_mapIdx_eight (pad : List Char → List Char) (D : ℕ → List Char) :
    (((range 8).map D).mapIdx fun i s => pad s ++ if i ≠ 7 then [':'] else []).flatten =
      [':'].intercalate ((range 8).map fun i => pad (D i)) := by
  simp [range_succ]

theorem fullFormIpv6_hostAddress {a : Ipv6.Address} (ha : ¬ IPv4Mapped a.toList) :
    fullFormIpv6 (hostAddress a.toList) = fullForm a := by
  have hhost : hostAddress a.toList =
      [':'].intercalate ((range 8).map fun i => Nat.toDigits 16 (Ipv6.group a i)) := if_neg ha
  have hcolon : ∀ k, Nat.digitChar k ≠ ':' := fun k => Nat.digitChar_ne ':' rfl
  have hspace : ∀ x, ' ' ∉ Nat.toDigits 16 x :=
    Ipv6.not_mem_toDigits fun k => Nat.digitChar_ne ' ' rfl
  have hsplit : (hostAddress a.toList).splitOn ':' =
      (range 8).map fun i => Nat.toDigits 16 (Ipv6.group a i) := by
    rw [hhost]
    refine splitOn_intercalate ':' (fun l hl => ?_) (by simp)
    obtain ⟨i, -, rfl⟩ := mem_map.1 hl
    exact Ipv6.not_mem_toDigits hcolon _
  have hdrop : ((range 8).map fun i => Nat.toDigits 16 (Ipv6.group a i)).rdropWhile
      isEmpty = (range 8).map fun i => Nat.toDigits 16 (Ipv6.group a i) := by
    refine rdropWhile_eq_self_iff.2 fun hne => ?_
    obtain ⟨i, -, hi⟩ := mem_map.1 (getLast_mem hne)
    rw [List.isEmpty_iff]
    exact Nat.toDigits_ne_nil
  have hpad : ∀ x, ((Nat.toDigits 16 x).leftpad 4 ' ').map (fun c => if c = ' ' then '0' else c) =
      Ipv6.hex4 x := by
    intro x
    rw [leftpad, map_append, map_replicate, Ipv6.hex4]
    congr 1
    refine (map_congr_left fun c hc => if_neg ?_).trans (map_id _)
    rintro rfl
    exact hspace x hc
  rw [fullFormIpv6, hsplit, hdrop, flatten_mapIdx_eight fun s =>
    (s.leftpad 4 ' ').map fun c => if c = ' ' then '0' else c]
  simp only [hpad]
  rfl

theorem lidToIpv6_half (lid : FID) (o : ℕ) (h : ¬ IPv4Mapped (half lid o).toList) :
    lidToIpv6 ((range 128).map fun j => if bit lid (8 * o + j) then '1' else '0') =
      some (fullForm (half lid o)) := by
  have hbytes : (range 16).mapM (fun i => (readBits (substr ((range 128).map fun j =>
      if bit lid (8 * o + j) then '1' else '0') (i * 8) 8).reverse).map UInt8.ofNat) =
      some (half lid o).toList := by
    refine Ipv6.mapM_eq_some_map (g := fun i => byteAt lid.toList (o + i)) fun i hi => ?_
    have hi : i < 16 := mem_range.1 hi
    rw [substr_map_range (by omega)]
    have hbyte := readBits_byte lid (m := o + i)
    rw [show (fun j => if bit lid ((o + i) * 8 + j) then '1' else '0') =
      fun j => if bit lid (8 * o + (i * 8 + j)) then '1' else '0' by
        funext j
        rw [show (o + i) * 8 + j = 8 * o + (i * 8 + j) by ring]] at hbyte
    rw [hbyte, map_some, UInt8.ofNat_toNat]
  rw [lidToIpv6, hbytes, ← fullFormIpv6_hostAddress h]
  rfl

/-- **The controller has the same text**, unless a half is taken for an address of IPv4. -/
theorem addLink_lidText {lid : FID} (hlow : ¬ IPv4Mapped (half lid 0).toList)
    (hhigh : ¬ IPv4Mapped (half lid 16).toList) : addLink (lidText lid) =
      some (fullForm (half lid 0), fullForm (half lid 16)) := by
  rw [addLink, reverse_lidText, substr_map_range (by omega), substr_map_range (by omega)]
  have hfirst := lidToIpv6_half lid 0 hlow
  have hsec := lidToIpv6_half lid 16 hhigh
  rw [hfirst, hsec]
  rfl

theorem not_mapped_of_isSingle {lid : FID} (h : Bits.IsSingle lid) (o : ℕ) :
    ¬ IPv4Mapped (half lid o).toList := by
  obtain ⟨k, hk, rfl⟩ := h
  intro hmapp
  -- two bits of the two bytes would be set
  have hbyte : ∀ j, j = 10 ∨ j = 11 → bit (half (Bits.single fidLen k) o) (8 * j) = true := by
    intro j hj
    have htake := congrArg (fun l : List UInt8 => l.getD j 0) hmapp
    have hget : (half (Bits.single fidLen k) o).toList.getD j 0 = 0xff := by
      rcases hj with rfl | rfl <;> simpa [getD_eq_getElem?_getD] using htake
    rw [bit, Nat.mul_div_cancel_left j (by omega), hget, Nat.mul_mod_right]
    rfl
  have hten := hbyte 10 (.inl rfl)
  have hele := hbyte 11 (.inr rfl)
  rw [bit_half _ _ (by omega), Bits.bit_single hk, decide_eq_true_iff] at hten hele
  omega

/-! ### Packets on a link of SDN switches -/

def ipv6Source (frame : List UInt8) : Ipv6.Address := vectorAt 16 frame (14 + 8)

def ipv6Destination (frame : List UInt8) : Ipv6.Address := vectorAt 16 frame (14 + 8 + 16)

namespace Forwarder

variable {fw : Forwarder} {fe : ForwardingEntry} {fid : FID} {pay frame p : List UInt8}
  {plen : UInt16} {id : UInt32} {inPort : ℕ}

section
variable (hmac : fw.useMac = true) (hfe : fe.protoType = protoSDN)
include hmac hfe

theorem netAt_encapsulate
    (h : (fw.encapsulate plen pay id fe).1 = some frame) : netAt frame 12 = protoSDN := by
  rw [encapsulate, if_pos hmac, if_neg (by rw [hfe]; decide), if_pos hfe] at h
  obtain rfl := some.inj h
  rw [(fe.writeSDNHeader_spec plen (by rw [length_pushBytes]; omega)).2, hfe]

theorem netAt_rewrite (hknown : netAt p 12 = protoBA ∨ netAt p 12 = protoSDN)
    (hlen : 14 ≤ p.length) : netAt (fw.rewrite plen p fe) 12 = protoSDN := by
  rw [rewrite, if_pos hmac]
  rcases hknown with hba | hsdn
  · rw [hba, hfe, if_neg (by decide), if_pos ⟨rfl, rfl⟩,
      (fe.writeSDNHeader_spec plen (by rw [length_pushBytes]; omega)).2, hfe]
  · rw [hsdn, hfe, if_pos rfl, ForwardingEntry.netAt_writeAddresses (by omega), hsdn]

end

theorem Carries.ipv6 (h : fw.Carries frame fid pay) (hmac : fw.useMac = true)
    (hpro : netAt frame 12 = protoSDN) :
    ipv6Source frame = half fid 0 ∧ ipv6Destination frame = half fid 16 := by
  rw [Carries, headerLen, if_pos hmac, if_pos hpro] at h
  have hbyte : ∀ j < 32, byteAt frame (22 + j) = byteAt fid.toList j := by
    intro j hj
    have hj : j < fid.toList.length := by rwa [fid.toList_length]
    have hcell := congrArg (fun l : List UInt8 => l.getD j 0) h
    simpa [byteAt, getElem?_append_left hj] using hcell
  constructor
  · refine vectorAt_congr fun j hj => ?_
    rw [Nat.zero_add]
    exact hbyte j (by omega)
  · refine vectorAt_congr fun j hj => ?_
    rw [show 14 + 8 + 16 + j = 22 + (16 + j) by omega]
    exact hbyte (16 + j) (by omega)

/-- **The addresses of a packet on a link of SDN switches are the halves of its forwarding
identifier.** -/
theorem ipv6_of_mem_push (hmac : fw.useMac = true) (hp : fw.WellFormed inPort p)
    (hknown : inPort ≠ 0 → netAt p 12 = protoBA ∨ netAt p 12 = protoSDN)
    (hfe : fe.protoType = protoSDN) (hsent : (fe, frame) ∈ sends (fw.push id inPort p).1) :
    ipv6Source frame = half (fw.fidIn inPort p) 0 ∧
      ipv6Destination frame = half (fw.fidIn inPort p) 16 := by
  by_cases hport : inPort = 0
  · rw [WellFormed, if_pos hport] at hp
    rw [hport] at hsent
    rw [fidIn, if_pos hport]
    have hsplit : p = (vectorAt fidLen p 0).toList ++ p.drop fidLen := by
      simpa using drop_eq_vectorAt (i := 0) (n := fidLen) (by rwa [Nat.zero_add])
    obtain ⟨id', hframe⟩ := mem_sends_pushLocal hsent
    have hpro := netAt_encapsulate hmac hfe hframe
    rw [hsplit] at hframe
    exact (encapsulate_carries hframe).ipv6 hmac hpro
  · rw [WellFormed, if_neg hport] at hp
    rw [push_of_ne hport] at hsent
    rw [fidIn, if_neg hport]
    have hlen : 14 ≤ p.length := by
      rw [headerLen, if_pos hmac] at hp
      split at hp <;> omega
    have hpro : netAt frame 12 = protoSDN := by
      rw [mem_sends_pushNetwork hsent]
      exact netAt_rewrite hmac hfe (hknown hport) hlen
    exact (carries_of_mem_pushNetwork (carries_self hp) hsent).ipv6 hmac hpro

end Forwarder

/-! ### Rules -/

theorem matches_half_iff (fid lid : FID) :
    (⟨half lid 0, half lid 0, half lid 16, half lid 16⟩ : Ipv6.Rule).Matches (half fid 0)
      (half fid 16) ↔ Bits.Contains fid lid := by
  rw [contains_iff_half, Ipv6.Rule.Matches]
  have hself : ∀ a : Ipv6.Address, Bits.and a a = a := fun a => Bits.contains_refl a
  rw [hself, hself]
  rfl

theorem deploymentRule_lidText (lid : FID) : deploymentRule (lidText lid) =
    some ⟨half lid 0, half lid 0, half lid 16, half lid 16⟩ := by
  have hfirst : substr (fullForm (half lid 0) ++ ':' :: fullForm (half lid 16)) 0 39 =
      fullForm (half lid 0) := take_left' (Ipv6.length_fullForm _)
  have hsec : substr (fullForm (half lid 0) ++ ':' :: fullForm (half lid 16)) 40 79 =
      fullForm (half lid 16) := by
    rw [substr, append_cons, drop_left' (by simp [Ipv6.length_fullForm])]
    exact take_of_length_le (by rw [Ipv6.length_fullForm]; omega)
  rw [deploymentRule, lid2ipv6_lidText]
  simp only [bind_eq_bind, bind_some, hfirst, hsec, Ipv6.read_fullForm]
  rfl

/-- **The rules of a link match the packets that a forwarder would forward on it.** For a single
bit the controller makes the same rule as the deployment application. -/
theorem sdn_rules_match_iff {fw : Forwarder} {inPort : ℕ} {p frame : List UInt8} {id : UInt32}
    {fe : ForwardingEntry} (hmac : fw.useMac = true) (hp : fw.WellFormed inPort p)
    (hknown : inPort ≠ 0 → netAt p 12 = protoBA ∨ netAt p 12 = protoSDN)
    (hfe : fe.protoType = protoSDN) (hsent : (fe, frame) ∈ Forwarder.sends (fw.push id inPort p).1)
    (lid : FID) :
    (∃ rule, deploymentRule (lidText lid) = some rule ∧
      (rule.Matches (ipv6Source frame) (ipv6Destination frame) ↔
        Bits.Contains (fw.fidIn inPort p) lid)) ∧
    (Bits.IsSingle lid → ∃ srcAddress dstAddress,
      addLink (lidText lid) = some (srcAddress, dstAddress) ∧
      lid2ipv6 (lidText lid) = some (srcAddress ++ ':' :: dstAddress) ∧
      ∃ rule, createAddedFlow srcAddress dstAddress = some rule ∧
        (rule.Matches (ipv6Source frame) (ipv6Destination frame) ↔
          Bits.Contains (fw.fidIn inPort p) lid)) := by
  obtain ⟨hsrc, hdst⟩ := Forwarder.ipv6_of_mem_push hmac hp hknown hfe hsent
  rw [hsrc, hdst]
  constructor
  · exact ⟨_, deploymentRule_lidText lid, matches_half_iff _ lid⟩
  · intro hone
    refine ⟨_, _, addLink_lidText (not_mapped_of_isSingle hone 0) (not_mapped_of_isSingle hone 16),
      lid2ipv6_lidText lid, _, ?_, matches_half_iff _ lid⟩
    rw [createAddedFlow, Ipv6.read_fullForm, Ipv6.read_fullForm]
    rfl

/-- The rule of the controller for bit 3, which is set, matches; that of the deployment application
for bit 200 does not. -/
theorem sdn_rules_match_mixed : (exampleLink 2 3 1 protoSDN, exampleFrame₁) ∈ Forwarder.sends
      ((exampleForwarder (exampleLink 2 3 1 protoSDN) 5).push 0 1 exampleFrame₀).1 ∧
    (∃ srcAddress dstAddress rule,
      addLink (lidText (Bits.single fidLen 3)) = some (srcAddress, dstAddress) ∧
      createAddedFlow srcAddress dstAddress = some rule ∧
      rule.Matches (ipv6Source exampleFrame₁) (ipv6Destination exampleFrame₁)) ∧
    ∃ rule, deploymentRule (lidText (Bits.single fidLen 200)) = some rule ∧
      ¬ rule.Matches (ipv6Source exampleFrame₁) (ipv6Destination exampleFrame₁) := by
  have hsent : (exampleLink 2 3 1 protoSDN, exampleFrame₁) ∈ Forwarder.sends
      ((exampleForwarder (exampleLink 2 3 1 protoSDN) 5).push 0 1 exampleFrame₀).1 := by
    decide +kernel
  have hmatch := sdn_rules_match_iff rfl (by decide +kernel) (fun _ => by decide +kernel) rfl hsent
  obtain ⟨src, dst, hadd, -, rule, hflow, hiff⟩ := (hmatch (Bits.single fidLen 3)).2
    ⟨3, by decide, rfl⟩
  obtain ⟨rule', hrule', hiff'⟩ := (hmatch (Bits.single fidLen 200)).1
  exact ⟨hsent, ⟨src, dst, rule, hadd, hflow, hiff.2 (by decide +kernel)⟩, rule', hrule',
    fun hm => absurd (hiff'.1 hm) (by decide +kernel)⟩

end Blackadder
