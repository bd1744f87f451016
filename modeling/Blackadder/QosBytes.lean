/-
**The byte arrays of QoS messages.**

Numbers of any width are written from any bit on, the highest bit first, and read back. The bits that
do not fill a byte come first; `setBits` only splits them off when it writes all eight bytes.
-/

import Blackadder.ProxyInput

namespace Blackadder.QosBytes

open List

/-- A bit of an array; the highest bit of a byte comes first. -/
def bitAt (data : List UInt8) (i : ℕ) : Bool := (byteAt data (i / 8)).toNat.testBit (7 - i % 8)

def getLowMask (num : ℕ) : ℕ :=
  if 64 < num then 0 else (range num).foldl (fun res i => res ||| 1 <<< i % 256) 0

/-- `setBits` for a byte. -/
def setBits8 (data : List UInt8) (b : UInt8) (lownum offset bits : ℕ) : List UInt8 :=
  if 8 < lownum ∨ 8 < bits ∨ (data.length + 18446744073709551615) % 18446744073709551616 < offset ∨
      data.length < lownum / 8 + offset then data
  else
    let mask := getLowMask lownum % 256
    let b := (b.toNat &&& mask) <<< (8 - lownum) % 256
    let mask := mask <<< (8 - lownum) % 256
    let old := fun i => (byteAt data i).toNat
    if lownum + bits ≤ 8 then
      data.set offset (.ofNat (old offset &&& (mask >>> bits ^^^ 255) ||| b >>> bits))
    else
      let b2 := b <<< 8 >>> bits
      let mask2 := mask <<< 8 >>> bits ^^^ 65535
      (data.set offset (.ofNat (old offset &&& mask2 >>> 8 ||| b2 >>> 8))).set (offset + 1)
        (.ofNat (old (offset + 1) &&& (mask2 &&& 255) ||| b2 &&& 255))

/-- The offsets behind some bits. -/
def advance (offset bits n : ℕ) : ℕ × ℕ :=
  if 8 < bits + n then (offset + 1, (bits + n) % 8) else (offset, bits + n)

/-- A byte of `setBits`, with the number of all bytes. -/
def setStep (b : UInt64) (lownum num : ℕ) : List UInt8 × ℕ × ℕ → ℕ → List UInt8 × ℕ × ℕ
  | (data, offset, bits), i =>
    if i = 0 ∧ 0 < lownum % 8 then
      (setBits8 data (.ofNat (b.toNat >>> ((num - 1) * 8))) (lownum % 8) offset bits,
        advance offset bits (lownum % 8))
    else
      (setBits8 data (.ofNat ((b.toNat <<< (i * 8) % 18446744073709551616) >>> 56)) 8 offset bits,
        offset + 1, bits)

/-- `setBits` for up to 64 bits. -/
def setBits (data : List UInt8) (b : UInt64) (lownum offset bits : ℕ) : List UInt8 :=
  let num := (lownum + 7) / 8
  if data.length < lownum / 8 + offset then data
  else ((range' (8 - num) num).foldl (setStep b lownum num) (data, offset, bits)).1

/-- `getBits8_ORLESS`. -/
def getBits8OrLess (data : List UInt8) (num offset bits : ℕ) : ℕ :=
  let first := (byteAt data offset).toNat <<< bits % 256
  if 8 < num then 0
  else if num + bits ≤ 8 then first >>> (8 - num)
  else first >>> bits <<< (num - (8 - bits)) % 256 |||
    (byteAt data (offset + 1)).toNat >>> (16 - num - bits)

/-- A byte of `getBits`. -/
def getStep (data : List UInt8) (num : ℕ) : ℕ × ℕ × ℕ → ℕ → ℕ × ℕ × ℕ
  | (res, offset, bits), i =>
    if i = 0 ∧ 0 < num % 8 then
      (getBits8OrLess data (num % 8) offset bits, advance offset bits (num % 8))
    else
      (res <<< 8 % 18446744073709551616 ||| getBits8OrLess data 8 offset bits, offset + 1, bits)

def getBits (data : List UInt8) (num offset bits : ℕ) : ℕ :=
  ((range' 0 ((num + 7) / 8)).foldl (getStep data num) (0, offset, bits)).1

/-- The `n` bits from `m` on are set to the lowest bits of `v`, and no others. -/
structure Writes (data : List UInt8) (m n v : ℕ) (data' : List UInt8) : Prop where
  length : data'.length = data.length
  bitAt : ∀ i, bitAt data' i = if m ≤ i ∧ i < m + n then v.testBit (m + n - 1 - i) else bitAt data i

/-- The `n` bits from `m` on are those of `x`. -/
def Reads (data : List UInt8) (m n x : ℕ) : Prop :=
  ∀ j, x.testBit j = (decide (j < n) && bitAt data (m + n - 1 - j))

variable {data data' data'' : List UInt8} {m n a k u v x y offset bits i : ℕ}

/-! ### One byte -/

theorem getLowMask_eq (h : n ≤ 8) : getLowMask n % 256 = 2 ^ n - 1 := by
  revert n
  decide

theorem testBit_ofNat (x k : ℕ) :
    (UInt8.ofNat x).toNat.testBit k = (decide (k < 8) && x.testBit k) := by
  rw [UInt8.toNat_ofNat', Nat.testBit_mod_two_pow]

theorem testBit_mod_256 (x k : ℕ) : (x % 256).testBit k = (decide (k < 8) && x.testBit k) :=
  Nat.testBit_mod_two_pow x 8 k

theorem testBit_255 (k : ℕ) : Nat.testBit 255 k = decide (k < 8) := Nat.testBit_two_pow_sub_one 8 k

theorem testBit_65535 (k : ℕ) : Nat.testBit 65535 k = decide (k < 16) :=
  Nat.testBit_two_pow_sub_one 16 k

theorem byteAt_set (data : List UInt8) (i j : ℕ) (b : UInt8) :
    byteAt (data.set i b) j = if i = j ∧ i < data.length then b else byteAt data j := by
  rw [byteAt, byteAt, getD_eq_getElem?_getD]
  by_cases hij : i = j
  · subst hij
    by_cases hi : i < data.length <;> simp [hi]
  · simp [hij]

theorem setBits8_writes (b : UInt8) (hn : 1 ≤ n) (h8 : n ≤ 8) (hbits : bits ≤ 8)
    (hin : 8 * offset + bits + n ≤ 8 * data.length) (hlen : data.length < 18446744073709551616) :
    Writes data (8 * offset + bits) n b.toNat (setBits8 data b n offset bits) := by
  rw [setBits8, if_neg (by omega), getLowMask_eq h8]
  refine ⟨by dsimp only; split <;> simp, fun i => ?_⟩
  -- the bits of the new bytes, read off their terms
  split <;> simp only [bitAt, byteAt_set] <;> split_ifs <;>
    (try simp only [testBit_ofNat, Nat.testBit_or, Nat.testBit_and, Nat.testBit_xor,
      Nat.testBit_shiftRight, Nat.testBit_shiftLeft, testBit_mod_256, testBit_255,
      testBit_65535]) <;> grind

theorem bitAt_eq {o k : ℕ} (hi : i = 8 * o + (7 - k)) (hk : k < 8) :
    bitAt data i = (byteAt data o).toNat.testBit k := by
  rw [bitAt, show i / 8 = o by omega, show 7 - i % 8 = k by omega]

theorem getBits8OrLess_reads (hn : 1 ≤ n) (h8 : n ≤ 8) (hbits : bits ≤ 8) :
    Reads data (8 * offset + bits) n (getBits8OrLess data n offset bits) := by
  intro j
  have hbyte (b : UInt8) (k : ℕ) (hk : 8 ≤ k) : b.toNat.testBit k = false :=
    Nat.testBit_lt_two_pow (b.toNat_lt.trans_le (Nat.pow_le_pow_right (by omega) hk))
  rw [getBits8OrLess, if_neg (by omega)]
  split
  case isTrue =>
    simp only [Nat.testBit_shiftRight, testBit_mod_256]
    by_cases hj : j < n
    · rw [@bitAt_eq data _ offset (8 - n + j - bits) (by omega) (by omega)]
      simp [hj, show 8 - n + j < 8 by omega, show bits ≤ 8 - n + j by omega]
    · simp [hj, show ¬ 8 - n + j < 8 by omega]
  case isFalse =>
    simp only [Nat.testBit_or, Nat.testBit_shiftRight, Nat.testBit_shiftLeft, testBit_mod_256]
    by_cases hj : j < n - (8 - bits)
    · rw [@bitAt_eq data _ (offset + 1) (16 - n - bits + j) (by omega) (by omega)]
      simp [show j < n by omega, show ¬ n - (8 - bits) ≤ j by omega]
    · rw [hbyte _ (16 - n - bits + j) (by omega)]
      by_cases hn : j < n
      · rw [@bitAt_eq data _ offset (j - (n - (8 - bits))) (by omega) (by omega)]
        simp [hn, show n - (8 - bits) ≤ j by omega, show j < 8 by omega,
          show bits + (j - (n - (8 - bits))) < 8 by omega]
      · simp [hn, show ¬ bits + (j - (n - (8 - bits))) < 8 by omega]

/-! ### Whole numbers -/

theorem Writes.append (h : Writes data m a u data') (h' : Writes data' (m + a) n v data'')
    (hu : ∀ j < a, u.testBit j = v.testBit (n + j)) : Writes data m (a + n) v data'' := by
  refine ⟨h'.length.trans h.length, fun i => ?_⟩
  rw [h'.bitAt, h.bitAt]
  by_cases hi : m ≤ i ∧ i < m + a
  · rw [if_neg (by omega), if_pos hi, if_pos (by omega), hu _ (by omega)]
    congr 1
    omega
  · rw [if_neg hi]
    by_cases hi' : m + a ≤ i ∧ i < m + a + n
    · rw [if_pos hi', if_pos (by omega), Nat.add_assoc]
    · rw [if_neg hi', if_neg (by omega)]

theorem Reads.append (h : Reads data m a x) (h' : Reads data (m + a) 8 y) (ha : a + 8 ≤ 64) :
    Reads data m (a + 8) (x <<< 8 % 18446744073709551616 ||| y) := by
  intro j
  rw [Nat.testBit_or, show 18446744073709551616 = 2 ^ 64 from rfl, Nat.testBit_mod_two_pow,
    Nat.testBit_shiftLeft, h, h']
  by_cases hj : j < 8
  · rw [show m + (a + 8) - 1 - j = m + a + 8 - 1 - j by omega]
    simp [hj, show j < a + 8 by omega]
  · rw [show m + (a + 8) - 1 - j = m + a - 1 - (j - 8) by omega]
    simp only [hj]
    by_cases hja : j < a + 8
    · simp [hja, show j < 64 by omega, show 8 ≤ j by omega, show j - 8 < a by omega]
    · simp [hja, show ¬ j - 8 < a by omega]

theorem advance_spec (hbits : bits < 8) (hn : n < 8) :
    8 * (advance offset bits n).1 + (advance offset bits n).2 = 8 * offset + bits + n ∧
      (advance offset bits n).2 ≤ 8 := by
  rw [advance]
  split <;> simp only <;> omega

theorem foldl_setBits (b : UInt64) (num : ℕ) (hk : k ≤ 8) (h0 : k < 8 ∨ n % 8 = 0)
    (hbits : bits ≤ 8) (hin : 8 * offset + bits + 8 * k ≤ 8 * data.length)
    (hlen : data.length < 18446744073709551616) :
    Writes data (8 * offset + bits) (8 * k) b.toNat
      ((range' (8 - k) k).foldl (setStep b n num) (data, offset, bits)).1 := by
  induction k generalizing data offset with
  | zero => exact ⟨rfl, fun i => by rw [if_neg (by omega)]; rfl⟩
  | succ k ih =>
    rw [range'_succ, foldl_cons, setStep, if_neg (by omega)]
    have hw := @setBits8_writes data 8 offset bits
      (.ofNat ((b.toNat <<< ((8 - (k + 1)) * 8) % 18446744073709551616) >>> 56))
      (by omega) le_rfl hbits (by omega) hlen
    have hrest := @ih _ (offset + 1) (by omega) (by omega) (by rw [hw.length]; omega)
      (hw.length.symm ▸ hlen)
    rw [show 8 - (k + 1) + 1 = 8 - k by omega, show 8 * (k + 1) = 8 + 8 * k by omega]
    refine hw.append (by rwa [show 8 * offset + bits + 8 = 8 * (offset + 1) + bits by omega]) ?_
    intro j hj
    rw [testBit_ofNat, Nat.testBit_shiftRight, show 18446744073709551616 = 2 ^ 64 from rfl,
      Nat.testBit_mod_two_pow, Nat.testBit_shiftLeft,
      show 56 + j - (8 - (k + 1)) * 8 = 8 * k + j by omega]
    simp [hj, show 56 + j < 64 by omega, show (7 - k) * 8 ≤ 56 + j by omega]

theorem setBits_writes (b : UInt64) (hn : 1 ≤ n) (h64 : n ≤ 64) (hright : n % 8 = 0 ∨ 56 < n)
    (hbits : bits < 8) (hin : 8 * offset + bits + n ≤ 8 * data.length)
    (hlen : data.length < 18446744073709551616) :
    Writes data (8 * offset + bits) n b.toNat (setBits data b n offset bits) := by
  rw [setBits, if_neg (by omega)]
  by_cases h8 : n % 8 = 0
  · have hloop := @foldl_setBits data n ((n + 7) / 8) offset bits b ((n + 7) / 8) (by omega)
      (.inr h8) hbits.le (by omega) hlen
    rwa [show 8 * ((n + 7) / 8) = n by omega] at hloop
  · rw [show (n + 7) / 8 = 8 by omega, range'_succ, foldl_cons, setStep, if_pos (by omega)]
    have hw := @setBits8_writes data (n % 8) offset bits (.ofNat (b.toNat >>> ((8 - 1) * 8)))
      (by omega) (by omega) hbits.le (by omega) hlen
    obtain ⟨hpos, hle⟩ := @advance_spec (n % 8) offset bits hbits (by omega)
    have hrest := @foldl_setBits _ n 7 (advance offset bits (n % 8)).1 _ b 8 (by omega)
      (.inl (by omega)) hle (by rw [hw.length]; omega) (hw.length.symm ▸ hlen)
    rw [hpos] at hrest
    have hall := hw.append hrest fun j hj => by
      rw [testBit_ofNat]
      simp [show j < 8 by omega]
    rwa [show n % 8 + 8 * 7 = n by omega] at hall

theorem foldl_getBits (hi : i = 0 → n % 8 = 0) (hbits : bits ≤ 8) (ha : a + 8 * k ≤ 64)
    (hx : Reads data m a x) (hm : m + a = 8 * offset + bits) :
    Reads data m (a + 8 * k) ((range' i k).foldl (getStep data n) (x, offset, bits)).1 := by
  induction k generalizing i a x offset with
  | zero => exact hx
  | succ k ih =>
    rw [range'_succ, foldl_cons, getStep, if_neg (by omega)]
    have hy := @getBits8OrLess_reads data 8 offset bits (by omega) le_rfl hbits
    rw [← hm] at hy
    have hrest := @ih (a + 8) _ (offset + 1) (i + 1) (by omega) (by omega)
      (hx.append hy (by omega)) (by omega)
    rwa [show a + 8 + 8 * k = a + 8 * (k + 1) by omega] at hrest

theorem getBits_reads (hn : 1 ≤ n) (h64 : n ≤ 64) (hbits : bits < 8) :
    Reads data (8 * offset + bits) n (getBits data n offset bits) := by
  rw [getBits]
  by_cases h8 : n % 8 = 0
  · have hloop := @foldl_getBits data (8 * offset + bits) n 0 ((n + 7) / 8) 0 offset bits 0
      (fun _ => h8) hbits.le (by omega) (fun j => by simp) rfl
    rwa [show 0 + 8 * ((n + 7) / 8) = n by omega] at hloop
  · rw [show (n + 7) / 8 = n / 8 + 1 by omega, range'_succ, foldl_cons, getStep, if_pos (by omega)]
    obtain ⟨hpos, hle⟩ := @advance_spec (n % 8) offset bits hbits (by omega)
    have hloop := foldl_getBits (i := 1) (n := n) (k := n / 8) (by omega) hle (by omega)
      (@getBits8OrLess_reads data (n % 8) offset bits (by omega) (by omega) hbits.le) hpos.symm
    rwa [show n % 8 + 8 * (n / 8) = n by omega] at hloop

theorem Reads.eq_mod (hx : Reads data' m n x) (hw : Writes data m n v data') : x = v % 2 ^ n := by
  refine Nat.eq_of_testBit_eq fun j => ?_
  rw [hx, hw.bitAt, Nat.testBit_mod_two_pow]
  by_cases hj : j < n
  · rw [if_pos (by omega), show m + n - 1 - (m + n - 1 - j) = j by omega]
  · simp [hj]

/-- What `setBits` writes in `n` bits is read back, and nothing else is changed; the size of an array
is a 64-bit number. -/
def RoundTrips (n : ℕ) : Prop :=
  ∀ (data : List UInt8) (v : UInt64) (offset bits : ℕ), data.length < 18446744073709551616 →
    bits < 8 → 8 * offset + bits + n ≤ 8 * data.length →
      getBits (setBits data v n offset bits) n offset bits = v.toNat % 2 ^ n ∧
        (setBits data v n offset bits).length = data.length ∧
        ∀ i, i < 8 * offset + bits ∨ 8 * offset + bits + n ≤ i →
          bitAt (setBits data v n offset bits) i = bitAt data i

theorem getBits_setBits_replicate (hn : 1 ≤ n) (h56 : n ≤ 56) (h8 : n % 8 ≠ 0) :
    getBits (setBits (replicate 8 0) 1 n 0 0) n 0 0 = 0 := by
  revert n
  decide

/-- **What is read back.** The widths for which writing and reading agree at every position are
those of whole bytes and those above 56 bits. -/
theorem roundTrips_iff (n : ℕ) (hn : 1 ≤ n) (h64 : n ≤ 64) : RoundTrips n ↔ n % 8 = 0 ∨ 56 < n := by
  constructor
  · intro h
    by_contra hcon
    have hone := (h (replicate 8 0) 1 0 0 (by simp) (by omega) (by simp; omega)).1
    rw [getBits_setBits_replicate hn (by omega) (by omega), Nat.mod_eq_of_lt] at hone
    · exact absurd hone (by decide)
    · exact Nat.one_lt_two_pow (by omega)
  · intro hright data v offset bits hlen hbits hin
    have hw := setBits_writes v hn h64 hright hbits hin hlen
    refine ⟨(getBits_reads hn h64 hbits).eq_mod hw, hw.length, fun i hi => ?_⟩
    rw [hw.bitAt, if_neg (by omega)]

theorem roundTrips_sixteen : RoundTrips 16 := (roundTrips_iff 16 (by decide) (by decide)).2 (.inl rfl)

/-- A single bit that is set is read back as zero, and a bit before a number of nine is changed. -/
theorem getBits_setBits_one :
    getBits (setBits [0] 1 1 0 0) 1 0 0 = 0 ∧ setBits [0, 0] 256 9 0 0 = [1, 0] ∧
      getBits [1, 0] 9 0 0 = 2 := by
  decide

end Blackadder.QosBytes
