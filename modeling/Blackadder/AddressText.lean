/-
**IPv6 addresses and their texts.**

The full text of the 16 bytes has eight groups of four hexadecimal digits between colons; a reader
takes groups of one to four digits. A mask matches an address that has all its bits.
-/

import Blackadder.Bits

namespace Ipv6

open Option List

abbrev Address := List.Vector UInt8 16

/-! ### Writing -/

def hex4 (x : ℕ) : List Char := (Nat.toDigits 16 x).leftpad 4 '0'

def group (a : Address) (k : ℕ) : ℕ :=
  (a.toList.getD (2 * k) 0).toNat * 256 + (a.toList.getD (2 * k + 1) 0).toNat

def fullForm (a : Address) : List Char :=
  [':'].intercalate ((List.range 8).map fun k => hex4 (group a k))

theorem group_lt (a : Address) (k : ℕ) : group a k < 65536 := by
  have hhigh := (a.toList.getD (2 * k) 0).toNat_lt
  have hlow := (a.toList.getD (2 * k + 1) 0).toNat_lt
  rw [group]
  omega

theorem leftpad_toDigits (n x : ℕ) : (Nat.toDigits 16 x).leftpad (n + 2) '0' =
    (Nat.toDigits 16 (x / 16)).leftpad (n + 1) '0' ++ [(x % 16).digitChar] := by
  by_cases hx : x < 16
  · rw [Nat.toDigits_of_lt_base hx, Nat.div_eq_of_lt hx, Nat.mod_eq_of_lt hx]
    simp [replicate_succ']
  · rw [Nat.toDigits_of_base_le (by omega) (by omega)]
    simp [leftpad]

theorem hex4_eq {x : ℕ} (hx : x < 65536) : hex4 x = [(x / 4096).digitChar,
    (x / 256 % 16).digitChar, (x / 16 % 16).digitChar, (x % 16).digitChar] := by
  have h₂ : x / 16 / 16 = x / 256 := by omega
  have h₃ : x / 256 / 16 = x / 4096 := by omega
  rw [hex4, leftpad_toDigits 2, leftpad_toDigits 1, leftpad_toDigits 0, h₂, h₃,
    Nat.toDigits_of_lt_base (by omega)]
  rfl

theorem not_mem_toDigits {c : Char} (hc : ∀ k, Nat.digitChar k ≠ c) (x : ℕ) :
    c ∉ Nat.toDigits 16 x := by
  induction x using Nat.strong_induction_on with
  | _ x ih =>
    by_cases hx : x < 16
    · rw [Nat.toDigits_of_lt_base hx, mem_singleton]
      exact (hc x).symm
    · rw [Nat.toDigits_of_base_le (by omega) (by omega), mem_append, mem_singleton]
      rintro (hin | hin)
      · exact ih (x / 16) (by omega) hin
      · exact hc _ hin.symm

theorem length_fullForm (a : Address) : (fullForm a).length = 39 := by
  have hlen : ∀ k, (hex4 (group a k)).length = 4 := fun k => by rw [hex4_eq (group_lt a k)]; rfl
  simp [fullForm, range_succ, hlen]

/-! ### Reading -/

def digitValue (c : Char) : Option ℕ := "0123456789abcdef".toList.findIdx? fun d => d = c.toLower

def readGroup (s : List Char) : Option ℕ :=
  if s.length = 0 ∨ 4 < s.length then none
  else s.foldlM (fun value c => (digitValue c).map (16 * value + ·)) 0

def read (s : List Char) : Option Address := do
  let groups ← (s.splitOn ':').mapM readGroup
  let bytes := groups.flatMap fun x => [UInt8.ofNat (x / 256), UInt8.ofNat x]
  if h : bytes.length = 16 then some ⟨bytes, h⟩ else none

theorem digitValue_digitChar {k : ℕ} (hk : k < 16) : digitValue (Nat.digitChar k) = some k := by
  revert k
  decide

theorem readGroup_hex4 {x : ℕ} (hx : x < 65536) : readGroup (hex4 x) = some x := by
  have h₃ : x / 4096 < 16 := by omega
  have h₂ : x / 256 % 16 < 16 := by omega
  have h₁ : x / 16 % 16 < 16 := by omega
  have h₀ : x % 16 < 16 := by omega
  rw [hex4_eq hx, readGroup]
  simp only [foldlM_cons, digitValue_digitChar h₃, digitValue_digitChar h₂,
    digitValue_digitChar h₁, digitValue_digitChar h₀, map_some]
  refine congrArg some ?_
  omega

theorem not_mem_hex4 (x : ℕ) : ':' ∉ hex4 x := by
  rw [hex4, leftpad, mem_append, mem_replicate]
  rintro (⟨-, hin⟩ | hin)
  · cases hin
  · exact not_mem_toDigits (fun k => Nat.digitChar_ne ':' rfl) x hin

theorem mapM_eq_some_map {α β : Type} {f : α → Option β} {g : α → β} {l : List α}
    (h : ∀ x ∈ l, f x = some (g x)) : l.mapM f = some (l.map g) := by
  induction l with
  | nil => rfl
  | cons x l ih =>
    obtain ⟨hx, hl⟩ := forall_mem_cons.1 h
    rw [mapM_cons, hx, ih hl]
    rfl

theorem ofNat_group (a : Address) (k : ℕ) : UInt8.ofNat (group a k / 256) =
    a.toList.getD (2 * k) 0 ∧ UInt8.ofNat (group a k) = a.toList.getD (2 * k + 1) 0 := by
  have hlow := (a.toList.getD (2 * k + 1) 0).toNat_lt
  constructor
  · rw [group, Nat.add_comm, Nat.add_mul_div_right _ _ (by omega), Nat.div_eq_of_lt hlow,
      Nat.zero_add, UInt8.ofNat_toNat]
  · refine UInt8.toNat_inj.1 ?_
    rw [UInt8.toNat_ofNat', group]
    omega

/-- **Reading a full text gives the address back.** -/
theorem read_fullForm (a : Address) : read (fullForm a) = some a := by
  have hsplit : (fullForm a).splitOn ':' = (range 8).map fun k => hex4 (group a k) := by
    refine splitOn_intercalate ':' (fun l hl => ?_) (by simp)
    obtain ⟨k, -, rfl⟩ := mem_map.1 hl
    exact not_mem_hex4 _
  have hgro : ((range 8).map fun k => hex4 (group a k)).mapM readGroup =
      some ((range 8).map (group a)) := by
    rw [mapM_map]
    exact mapM_eq_some_map fun k _ => readGroup_hex4 (group_lt a k)
  have hbytes : ((range 8).map (group a)).flatMap
      (fun x => [UInt8.ofNat (x / 256), UInt8.ofNat x]) = a.toList := by
    have hpai : (range 8).flatMap (fun k => [a.toList.getD (2 * k) 0,
        a.toList.getD (2 * k + 1) 0]) = (range 16).map fun i => a.toList.getD i 0 := rfl
    rw [flatMap_map]
    simp only [ofNat_group]
    rw [hpai]
    refine ext_getElem (by simp) fun i h₁ h₂ => ?_
    rw [getElem_map, getElem_range, getD_eq_getElem]
  rw [read, hsplit, hgro]
  simp only [bind_eq_bind, bind_some, hbytes]
  rw [dif_pos a.toList_length]
  rfl

/-! ### Masks -/

/-- An arbitrary-bitmask rule: two addresses, each with a mask. -/
structure Rule where
  src : Address
  srcMask : Address
  dst : Address
  dstMask : Address

/-- The addresses of a packet agree with those of the rule where the masks have bits. -/
def Rule.Matches (r : Rule) (src dst : Address) : Prop :=
  Bits.and src r.srcMask = Bits.and r.src r.srcMask ∧
    Bits.and dst r.dstMask = Bits.and r.dst r.dstMask

end Ipv6
