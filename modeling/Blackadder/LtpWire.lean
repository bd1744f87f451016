/-
**The messages of the lightweight transport protocol.**

The DATA message and the seven CTRL messages of `apps/nap/transport/lightweight.cc`, as bytes and as
`handle` reads them, and the loop of `_publishData`, which numbers fragments from 1 on. The last
one is padded to a multiple of 8 bytes. The padding and two bytes at the end of a packet are what
the memory held, a parameter.
-/

import Blackadder.Unreliable

namespace Blackadder

open List
open Buffer (length_piece lt_pieceCount_iff piece pieceCount)
open Unreliable (copyPayload)

/-! ### Numbers of four bytes -/

def memBytes32 (x : UInt32) : List UInt8 :=
  [UInt8.ofNat x.toNat, UInt8.ofNat (x.toNat / 256), UInt8.ofNat (x.toNat / 65536),
    UInt8.ofNat (x.toNat / 16777216)]

def memAt32 (data : List UInt8) (i : ℕ) : UInt32 :=
  UInt32.ofNat ((byteAt data i).toNat + 256 * (byteAt data (i + 1)).toNat +
    65536 * (byteAt data (i + 2)).toNat + 16777216 * (byteAt data (i + 3)).toNat)

theorem ofNat_bytes32 (x : UInt32) :
    UInt32.ofNat ((UInt8.ofNat x.toNat).toNat + 256 * (UInt8.ofNat (x.toNat / 256)).toNat +
      65536 * (UInt8.ofNat (x.toNat / 65536)).toNat +
      16777216 * (UInt8.ofNat (x.toNat / 16777216)).toNat) = x := by
  have hx : x.toNat < 4294967296 := x.toNat_lt
  apply UInt32.toNat_inj.1
  simp only [UInt8.toNat_ofNat', UInt32.toNat_ofNat']
  omega

/-! ### Messages -/

/-- A message as `handle` reads it. The field `ripd` is 0 in all messages that are sent. -/
inductive LtpMessage
  | data (sessionKey sequenceNumber payloadLength : UInt16) (payload : List UInt8)
  | nack (ripd : UInt32) (sessionKey start stop : UInt16)
  | sessionEnd (sessionKey : UInt16)
  | sessionEnded (sessionKey : UInt16)
  | windowEnd (ripd : UInt32) (sessionKey sequenceNumber : UInt16)
  | windowEnded (ripd : UInt32) (sessionKey : UInt16)
  | windowUpdate (ripd : UInt32) (sessionKey : UInt16)
  | windowUpdated (ripd : UInt32) (sessionKey : UInt16)
  | unknownControl
  | unknown
deriving DecidableEq

namespace LtpMessage

def control (controlType ripd : UInt32) : List UInt8 :=
  memBytes32 1 ++ memBytes32 controlType ++ memBytes32 ripd

def bytes : LtpMessage → List UInt8
  | .data sessionKey sequenceNumber payloadLength payload =>
    memBytes32 0 ++ memBytes32 0 ++ memBytes sessionKey ++ memBytes sequenceNumber ++
      memBytes payloadLength ++ payload
  | .nack ripd sessionKey start stop =>
    control 0 ripd ++ memBytes sessionKey ++ memBytes start ++ memBytes stop
  | .sessionEnd sessionKey => control 1 0 ++ memBytes sessionKey
  | .sessionEnded sessionKey => control 2 0 ++ memBytes sessionKey
  | .windowEnd ripd sessionKey sequenceNumber =>
    control 3 ripd ++ memBytes sessionKey ++ memBytes sequenceNumber
  | .windowEnded ripd sessionKey => control 4 ripd ++ memBytes sessionKey
  | .windowUpdate ripd sessionKey => control 5 ripd ++ memBytes sessionKey
  | .windowUpdated ripd sessionKey => control 6 ripd ++ memBytes sessionKey
  -- no one sends these
  | .unknownControl => control 7 0
  | .unknown => memBytes32 2

def readControl (packet : List UInt8) : LtpMessage :=
  let ripd := memAt32 packet 8
  let sessionKey := memAt packet 12
  match (memAt32 packet 4).toNat with
  | 0 => .nack ripd sessionKey (memAt packet 14) (memAt packet 16)
  | 1 => .sessionEnd sessionKey
  | 2 => .sessionEnded sessionKey
  | 3 => .windowEnd ripd sessionKey (memAt packet 14)
  | 4 => .windowEnded ripd sessionKey
  | 5 => .windowUpdate ripd sessionKey
  | 6 => .windowUpdated ripd sessionKey
  | _ => .unknownControl

def read (packet : List UInt8) : LtpMessage :=
  match (memAt32 packet 0).toNat with
  | 0 => .data (memAt packet 8) (memAt packet 10) (memAt packet 12) (packet.drop 14)
  | 1 => readControl packet
  | _ => .unknown

def followedBy (rest : List UInt8) : LtpMessage → LtpMessage
  | .data sessionKey sequenceNumber payloadLength payload =>
    .data sessionKey sequenceNumber payloadLength (payload ++ rest)
  | m => m

section
variable (controlType ripd : UInt32) (sessionKey x y : UInt16) (rest : List UInt8)

theorem read_control : read (control controlType ripd ++ rest) =
    readControl (control controlType ripd ++ rest) := rfl

theorem controlType_control : memAt32 (control controlType ripd ++ rest) 4 = controlType :=
  ofNat_bytes32 controlType

theorem ripd_control : memAt32 (control controlType ripd ++ rest) 8 = ripd := ofNat_bytes32 ripd

theorem sessionKey_control :
    memAt (control controlType ripd ++ (memBytes sessionKey ++ rest)) 12 = sessionKey :=
  UtpHeader.ofNat_bytes sessionKey

theorem first_control :
    memAt (control controlType ripd ++ (memBytes sessionKey ++ (memBytes x ++ rest))) 14 = x :=
  UtpHeader.ofNat_bytes x

theorem second_control : memAt (control controlType ripd ++
      (memBytes sessionKey ++ (memBytes x ++ (memBytes y ++ rest)))) 16 = y :=
  UtpHeader.ofNat_bytes y

end

theorem read_data (sessionKey sequenceNumber payloadLength : UInt16) (payload : List UInt8) :
    read ((LtpMessage.data sessionKey sequenceNumber payloadLength payload).bytes) =
      .data sessionKey sequenceNumber payloadLength payload := by
  have hkey : memAt (data sessionKey sequenceNumber payloadLength payload).bytes 8 =
      sessionKey := UtpHeader.ofNat_bytes sessionKey
  have hnum : memAt (data sessionKey sequenceNumber payloadLength payload).bytes 10 =
      sequenceNumber := UtpHeader.ofNat_bytes sequenceNumber
  have hlen : memAt (data sessionKey sequenceNumber payloadLength payload).bytes 12 =
      payloadLength := UtpHeader.ofNat_bytes payloadLength
  change data (memAt _ 8) (memAt _ 10) (memAt _ 12) payload = _
  rw [hkey, hnum, hlen]

theorem length_data (sessionKey sequenceNumber payloadLength : UInt16) (payload : List UInt8) :
    (LtpMessage.data sessionKey sequenceNumber payloadLength payload).bytes.length =
      14 + payload.length := by
  simp [bytes, memBytes, memBytes32]
  omega

/-- **A message is read as it was sent.** -/
theorem read_bytes_append (m : LtpMessage) (rest : List UInt8) :
    read (m.bytes ++ rest) = m.followedBy rest := by
  cases m with
  | data sessionKey sequenceNumber payloadLength payload =>
    exact read_data sessionKey sequenceNumber payloadLength (payload ++ rest)
  | nack ripd sessionKey start stop =>
    simp only [bytes, append_assoc, read_control, readControl, ripd_control, sessionKey_control,
      first_control, second_control]
    rfl
  | windowEnd ripd sessionKey sequenceNumber =>
    simp only [bytes, append_assoc, read_control, readControl, ripd_control, sessionKey_control,
      first_control]
    rfl
  | sessionEnd | sessionEnded | windowEnded | windowUpdate | windowUpdated =>
    simp only [bytes, append_assoc, read_control, readControl, ripd_control, sessionKey_control]
    rfl
  | unknownControl => rfl
  | unknown => rfl

end LtpMessage

/-! ### Fragments -/

namespace Ltp

/-- `sizeof(ltp_hdr_data_t)`: the fourteen bytes of the fields, and two behind them. -/
def dataHeaderSize : ℕ := 16

def room (unit idLength icnHeaderLength : ℕ) : ℤ :=
  unit - idLength - icnHeaderLength - dataHeaderSize - 20

/-- The largest multiple of 8 that is left of a transmission unit, a number of 32 bits. -/
def payloadLimit (unit idLength icnHeaderLength : ℕ) : UInt32 :=
  UInt32.ofInt (room unit idLength icnHeaderLength) -
    UInt32.ofInt (room unit idLength icnHeaderLength) % 8

def responseLimit (mitu rCIdLength icnHeaderLength : ℕ) : UInt32 :=
  payloadLimit mitu rCIdLength icnHeaderLength

def requestLimit (mtu cIdLength rCIdLength icnHeaderLength : ℕ) : UInt32 :=
  payloadLimit mtu (cIdLength + rCIdLength) icnHeaderLength

structure Fragment where
  sequenceNumber : UInt16
  packet : List UInt8
deriving DecidableEq

section
variable (limit : ℕ) (sessionKey : UInt16) (data : List UInt8) (junk : ℕ → UInt8)

def payloadLength (sentBytes : ℕ) : UInt16 :=
  if data.length - sentBytes > limit then UInt16.ofNat limit
  else UInt16.ofNat (data.length - sentBytes)

def pad (sentBytes : ℕ) : ℕ :=
  if data.length - sentBytes > limit then 0
  else if (payloadLength limit data sentBytes).toNat % 8 = 0 then 0
  else 8 - (payloadLength limit data sentBytes).toNat % 8

def fragmentSize (sentBytes : ℕ) : ℕ :=
  ((payloadLength limit data sentBytes).toNat + pad limit data sentBytes) % 65536

/-- The packet of a fragment. Padding is read behind the message, and the last two bytes are not
written. -/
def makePacket (sequenceNumber : UInt16) (sentBytes : ℕ) : List UInt8 :=
  let size := fragmentSize limit data sentBytes
  let payload := copyPayload junk (data.drop sentBytes) size
  let message := LtpMessage.data sessionKey sequenceNumber (payloadLength limit data sentBytes)
    payload
  (message.bytes ++ [junk size, junk (size + 1)]).take ((dataHeaderSize + size) % 65536)

/-- The loop of `_publishData`. Without room for a payload it does not end. -/
def fragmentLoop : ℕ → UInt16 → ℕ → Option (List Fragment)
  | 0, _, _ => none
  | fuel + 1, sequenceNumber, sentBytes =>
    if sentBytes < data.length then
      let sequenceNumber := sequenceNumber + 1
      let packet := makePacket limit sessionKey data junk sequenceNumber sentBytes
      (fragmentLoop fuel sequenceNumber
        ((sentBytes + 4294967296 + fragmentSize limit data sentBytes - pad limit data sentBytes) %
          4294967296)).map (⟨sequenceNumber, packet⟩ :: ·)
    else some []

def fragments : Option (List Fragment) :=
  fragmentLoop limit sessionKey data junk (data.length + 1) 0 0

def fragment (i : ℕ) : Fragment where
  sequenceNumber := UInt16.ofNat (i + 1)
  packet := makePacket limit sessionKey data junk (UInt16.ofNat (i + 1)) (i * limit)

end

/-- There is room for a payload, and the size of a packet is a number of 16 bits. -/
structure LimitOk (limit : ℕ) : Prop where
  pos : 0 < limit
  dvd : limit % 8 = 0
  fits : limit + dataHeaderSize < 65536

theorem limitOk_payloadLimit {unit idLength hdr : ℕ} (hunit : unit < 65536)
    (hpos : 0 < room unit idLength hdr - room unit idLength hdr % 8) :
    LimitOk (payloadLimit unit idLength hdr).toNat := by
  have hroom : room unit idLength hdr = unit - idLength - hdr - dataHeaderSize - 20 := rfl
  have hlimit : (UInt32.ofInt (room unit idLength hdr)).toNat = (room unit idLength hdr).toNat := by
    rw [UInt32.ofInt, UInt32.toNat_ofNat']
    omega
  have heq : (payloadLimit unit idLength hdr).toNat = (room unit idLength hdr).toNat -
        (room unit idLength hdr).toNat % 8 := by
    rw [payloadLimit, UInt32.toNat_sub_of_le, UInt32.toNat_mod, hlimit]
    · rfl
    · rw [UInt32.le_iff_toNat_le]
      exact Nat.mod_le _ _
  constructor
  · omega
  · omega
  · omega

section
variable {limit : ℕ} {sessionKey : UInt16} {data : List UInt8} {junk mem : ℕ → UInt8} {i : ℕ}

section
variable (h : LimitOk limit)
include h

theorem LimitOk.payloadLength_eq (i : ℕ) :
    (payloadLength limit data (i * limit)).toNat = (piece limit data i).length := by
  have hfits := h.fits
  rw [payloadLength, length_piece]
  split
  case isTrue hmore | isFalse hlast => rw [UInt16.toNat_ofNat']; omega

theorem LimitOk.fragmentSize_eq (hi : i * limit < data.length) :
    fragmentSize limit data (i * limit) = (piece limit data i).length + pad limit data (i * limit) ∧
      fragmentSize limit data (i * limit) ≤ limit := by
  have hfits := h.fits
  have hdvd := h.dvd
  have hlen : (piece limit data i).length = min limit (data.length - i * limit) :=
    length_piece limit data i
  have hpad : (piece limit data i).length + pad limit data (i * limit) ≤ limit := by
    rw [pad, h.payloadLength_eq i]
    split_ifs <;> omega
  rw [fragmentSize, h.payloadLength_eq i, Nat.mod_eq_of_lt (by omega)]
  exact ⟨rfl, hpad⟩

section
variable (hsize : data.length < 65536)
include hsize

theorem LimitOk.sentBytes_eq (hi : i * limit < data.length) :
    (i * limit + 4294967296 + fragmentSize limit data (i * limit) - pad limit data (i * limit)) %
      4294967296 = min ((i + 1) * limit) data.length := by
  have hlen : (piece limit data i).length = min limit (data.length - i * limit) :=
    length_piece limit data i
  have hnext : (i + 1) * limit = i * limit + limit := by rw [Nat.add_mul, Nat.one_mul]
  rw [(h.fragmentSize_eq hi).1]
  omega

theorem LimitOk.fragmentLoop_from (sessionKey : UInt16) (junk : ℕ → UInt8) (n : ℕ) :
    ∀ i fuel, i + n = pieceCount limit data → n < fuel →
      fragmentLoop limit sessionKey data junk fuel (UInt16.ofNat i) (min (i * limit) data.length) =
        some ((List.range' i n).map (fragment limit sessionKey data junk)) := by
  induction n with
  | zero =>
    intro i fuel hi hfuel
    obtain ⟨fuel, rfl⟩ := Nat.exists_eq_succ_of_ne_zero (by omega : fuel ≠ 0)
    have hend : ¬ i < pieceCount limit data := by omega
    rw [lt_pieceCount_iff h.pos] at hend
    rw [fragmentLoop, if_neg (by omega)]
    rfl
  | succ n ih =>
    intro i fuel hi hfuel
    obtain ⟨fuel, rfl⟩ := Nat.exists_eq_succ_of_ne_zero (by omega : fuel ≠ 0)
    have hlt : i * limit < data.length := (lt_pieceCount_iff h.pos).1 (by omega)
    have hnum : UInt16.ofNat i + 1 = UInt16.ofNat (i + 1) := (UInt16.ofNat_add i 1).symm
    rw [Nat.min_eq_left hlt.le, fragmentLoop, if_pos hlt]
    dsimp only
    rw [h.sentBytes_eq hsize hlt, hnum, ih (i + 1) fuel (by omega) (by omega), range'_succ]
    rfl

theorem LimitOk.fragments_eq : fragments limit sessionKey data junk =
      some ((List.range (pieceCount limit data)).map (fragment limit sessionKey data junk)) := by
  have hcount : pieceCount limit data ≤ data.length := by
    by_contra hlt
    have := (lt_pieceCount_iff h.pos).1 (not_le.1 hlt)
    exact absurd (Nat.le_mul_of_pos_right data.length h.pos) (not_le.2 this)
  have hloop := h.fragmentLoop_from hsize sessionKey junk (pieceCount limit data) 0
    (data.length + 1) (by omega) (by omega)
  rw [Nat.zero_mul] at hloop
  rw [range_eq_range']
  exact hloop

theorem LimitOk.pieceCount_lt : pieceCount limit data < 65536 := by
  have hlimit : 8 ≤ limit := by
    have := h.pos
    have := h.dvd
    omega
  by_contra hlt
  have := (lt_pieceCount_iff h.pos).1 (show 65535 < pieceCount limit data by omega)
  omega

end

end

theorem limitOk_eight : LimitOk 8 := ⟨by decide, by decide, by decide⟩

/-- The fragment of a message of one byte, under the session key 3. -/
def exampleFragment (b : UInt8) : Fragment := fragment 8 3 [b] (fun _ => 0) 0

/-! ### What is read from a fragment -/

@[simp] theorem length_copyPayload (payload : List UInt8) (n : ℕ) :
    (copyPayload mem payload n).length = n := by
  simp [copyPayload]

theorem copyPayload_of_le {payload : List UInt8} {n : ℕ} (hn : n ≤ payload.length) :
    copyPayload mem payload n = payload.take n := by
  refine ext_getElem (by simp [hn]) ?_
  intro j h₁ h₂
  have hj : j < payload.length := by
    rw [length_take] at h₂
    omega
  simp [copyPayload, hj]

theorem take_copyPayload {payload : List UInt8} {n size : ℕ} (hn : n ≤ size)
    (hpay : n ≤ payload.length) : (copyPayload mem payload size).take n = payload.take n := by
  refine ext_getElem (by simp [hn, hpay]) ?_
  intro j h₁ h₂
  have hj : j < payload.length := by
    rw [length_take] at h₂
    omega
  simp [copyPayload, hj]

theorem LimitOk.read_fragment (h : LimitOk limit) (hi : i * limit < data.length)
    (sessionKey : UInt16) (junk : ℕ → UInt8) :
    ∃ payload, LtpMessage.read (fragment limit sessionKey data junk i).packet =
        .data sessionKey (UInt16.ofNat (i + 1)) (payloadLength limit data (i * limit)) payload ∧
      ∀ mem, copyPayload mem payload (payloadLength limit data (i * limit)).toNat =
        piece limit data i := by
  obtain ⟨hfra, hle⟩ := h.fragmentSize_eq hi
  have hlen : (payloadLength limit data (i * limit)).toNat = (piece limit data i).length :=
    h.payloadLength_eq i
  have hpiece := length_piece limit data i
  have hfits := h.fits
  rw [fragment, makePacket]
  rw [take_of_length_le, LtpMessage.read_bytes_append]
  · refine ⟨_, rfl, ?_⟩
    intro mem
    rw [copyPayload_of_le, take_append_of_le_length, take_copyPayload, piece,
      take_eq_take_iff, length_drop]
    · omega
    · omega
    · rw [length_drop]
      omega
    · rw [length_copyPayload]
      omega
    · rw [length_append, length_copyPayload]
      omega
  · rw [length_append, LtpMessage.length_data, length_copyPayload, Nat.mod_eq_of_lt (by omega)]
    simp only [length_cons, length_nil, dataHeaderSize]
    omega

end

end Ltp

end Blackadder
