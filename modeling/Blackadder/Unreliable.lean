/-
**IP packets over the unreliable transport protocol.**

`publish` of `apps/nap/transport/unreliable.cc` cuts a packet into fragments with a key and numbers
from 1 on, from `START` to `FINISHED`; `handle` collects them until there is no gap. A packet whose
size is a multiple of the maximum payload has no `FINISHED` fragment. And the copy loop sets its
offset to the length of a fragment instead of adding it, so that the third overwrites the second.
-/

import Blackadder.Forwarder
import Blackadder.OrderedMap

namespace Blackadder

open OrderedMap List

/-! ### The header -/

inductive TransportState
  | start
  | fragment
  | finished
  | singlePacket
  | unknown
deriving DecidableEq

namespace TransportState

def code : TransportState → UInt8
  | .start => 0
  | .fragment => 1
  | .finished => 2
  | .singlePacket => 3
  | .unknown => 4

def ofCode (b : UInt8) : TransportState :=
  if b = 0 then .start
  else if b = 1 then .fragment
  else if b = 2 then .finished
  else if b = 3 then .singlePacket
  else .unknown

@[simp] theorem ofCode_code (s : TransportState) : ofCode s.code = s := by cases s <;> rfl

end TransportState

def memAt (data : List UInt8) (i : ℕ) : UInt16 :=
  UInt16.ofNat ((byteAt data i).toNat + 256 * (byteAt data (i + 1)).toNat)

structure UtpHeader where
  key : UInt16
  payloadLength : UInt16
  sequence : UInt8
  state : TransportState
deriving DecidableEq

namespace UtpHeader

def size : ℕ := 6

def bytes (h : UtpHeader) : List UInt8 :=
  memBytes h.key ++ memBytes h.payloadLength ++ [h.sequence, h.state.code]

def read (packet : List UInt8) : UtpHeader where
  key := memAt packet 0
  payloadLength := memAt packet 2
  sequence := byteAt packet 4
  state := .ofCode (byteAt packet 5)

theorem ofNat_bytes (x : UInt16) :
    UInt16.ofNat ((UInt8.ofNat x.toNat).toNat + 256 * (UInt8.ofNat (x.toNat / 256)).toNat) = x := by
  have hx : x.toNat < 65536 := x.toNat_lt
  apply UInt16.toNat_inj.1
  simp only [UInt8.toNat_ofNat', UInt16.toNat_ofNat']
  omega

@[simp] theorem read_bytes_append (h : UtpHeader) (data : List UInt8) :
    read (h.bytes ++ data) = h := by
  have hkey : memAt (h.bytes ++ data) 0 = h.key := ofNat_bytes h.key
  have hlen : memAt (h.bytes ++ data) 2 = h.payloadLength := ofNat_bytes h.payloadLength
  have hstate : TransportState.ofCode (byteAt (h.bytes ++ data) 5) = h.state := h.state.ofCode_code
  rw [read, hkey, hlen, hstate]
  rfl

@[simp] theorem drop_bytes_append (h : UtpHeader) (data : List UInt8) :
    (h.bytes ++ data).drop size = data := rfl

end UtpHeader

namespace Unreliable

/-! ### The sender -/

def maxPayloadLength (mitu idLength : ℕ) : UInt16 :=
  UInt16.ofInt ((mitu : ℤ) - idLength - 20 - UtpHeader.size)

def nextHeader (dataSize bytesSent : ℕ) (header : UtpHeader) : UtpHeader :=
  let header := if bytesSent + header.payloadLength.toNat > dataSize then
    { header with state := .finished, payloadLength := UInt16.ofNat (dataSize - bytesSent) }
    else header
  { header with sequence := header.sequence + 1 }

/-- The loop of `publish`. Without a payload it does not end. -/
def publishLoop (dataSize : ℕ) : ℕ → UtpHeader → ℕ → List UInt8 → Option (List (List UInt8))
  | 0, _, _, _ => none
  | fuel + 1, header, bytesSent, data =>
    if bytesSent < dataSize then
      let header := nextHeader dataSize bytesSent header
      let length := header.payloadLength.toNat
      let packet := header.bytes ++ data.take length
      (publishLoop dataSize fuel { header with state := .fragment }
        ((bytesSent + length) % 2 ^ 16) (data.drop length)).map (packet :: ·)
    else some []

def publish (mitu idLength : ℕ) (key : UInt16) (data : List UInt8) : Option (List (List UInt8)) :=
  let maxPayload := maxPayloadLength mitu idLength
  if maxPayload.toNat < data.length then
    publishLoop data.length (data.length + 1) ⟨key, maxPayload, 0, .start⟩ 0 data
  else
    some [(UtpHeader.mk key (UInt16.ofNat data.length) 1 .singlePacket).bytes ++ data]

/-! ### The receiver -/

abbrev Fragments := OrderedMap ℕ (UtpHeader × List UInt8)

abbrev ReassemblyBuffer := OrderedMap ℕ Fragments

/-- `transportStateFinished` and `reassembledPacketLength`, or nothing when `handle` returns because
of a gap. -/
def scan : ℕ → TransportState → ℕ → List (ℕ × UtpHeader × List UInt8) → Option (TransportState × ℕ)
  | _, last, length, [] => some (last, length)
  | previous, last, length, (sequence, header, _) :: l =>
    if previous = 0 then
      if header.state = .start then
        scan sequence last ((length + header.payloadLength.toNat) % 2 ^ 16) l
      else none
    else if sequence = previous + 1 then
      scan sequence header.state ((length + header.payloadLength.toNat) % 2 ^ 16) l
    else none

def copyLoop : ℕ → List UInt8 → List (ℕ × UtpHeader × List UInt8) → List UInt8
  | _, block, [] => block
  | offset, block, (_, header, payload) :: l =>
    copyLoop header.payloadLength.toNat (Buffer.write offset payload block) l

section
variable (memory : ℕ → UInt8)

def reassemble (length : ℕ) (packets : Fragments) : List UInt8 :=
  (copyLoop 0 ((range length).map memory) packets.entries).take length

/-- `memcpy` of the payload, which may reach behind the end of the packet. -/
def copyPayload (data : List UInt8) (length : ℕ) : List UInt8 :=
  (range length).map fun i => data.getD i (memory i)

def handleFragment (buffer : ReassemblyBuffer) (header : UtpHeader)
    (payload : List UInt8) : ReassemblyBuffer × List (List UInt8) :=
  let packets := ((buffer.get header.key.toNat).getD ∅).insert header.sequence.toNat
    (header, payload)
  let buffer := buffer.set header.key.toNat packets
  match scan 0 .unknown 0 packets.entries with
  | some (.finished, length) =>
    (buffer.erase header.key.toNat, [reassemble memory length packets])
  | _ => (buffer, [])

def handle (buffer : ReassemblyBuffer) (packet : List UInt8) :
    ReassemblyBuffer × List (List UInt8) :=
  let header := UtpHeader.read packet
  let data := packet.drop UtpHeader.size
  match header.state with
  | .start | .fragment | .finished =>
    handleFragment memory buffer header (copyPayload memory data header.payloadLength.toNat)
  | .singlePacket => (buffer, [data])
  | .unknown => (buffer, [])

end

structure Arrival where
  memory : ℕ → UInt8
  packet : List UInt8

def receive (buffer : ReassemblyBuffer) (arrivals : List Arrival) : ReassemblyBuffer :=
  arrivals.foldl (fun b a => (handle a.memory b a.packet).1) buffer

def outputs : ReassemblyBuffer → List Arrival → List (Arrival × List (List UInt8))
  | _, [] => []
  | buffer, a :: l =>
    (a, (handle a.memory buffer a.packet).2) :: outputs (handle a.memory buffer a.packet).1 l

/-- In any order of its fragments, whatever the buffer holds and whatever comes in between, nothing
is sent while a fragment is missing, and then the packet is. -/
def Reassembles (key : UInt16) (fragments : List (List UInt8)) (data : List UInt8) : Prop :=
  ∀ (buffer : ReassemblyBuffer) (arrivals : List Arrival) (last : Arrival),
    buffer.get key.toNat = none →
    (∀ a ∈ arrivals, a.packet ∈ fragments ∨ (UtpHeader.read a.packet).key ≠ key) →
    last.packet ∈ fragments →
    last.packet ∉ arrivals.map Arrival.packet →
    (∀ p ∈ fragments, p = last.packet ∨ p ∈ arrivals.map Arrival.packet) →
    (∀ o ∈ outputs buffer arrivals, o.1.packet ∈ fragments → o.2 = []) ∧
      (handle last.memory (receive buffer arrivals) last.packet).2 = [data]

/-! ### The fragments of a packet -/

section
variable (key maxPayload : UInt16) (data : List UInt8)

def count : ℕ := (data.length + maxPayload.toNat - 1) / maxPayload.toNat

def fragmentHeader (i : ℕ) : UtpHeader where
  key := key
  payloadLength := UInt16.ofNat (min maxPayload.toNat (data.length - i * maxPayload.toNat))
  sequence := UInt8.ofNat (i + 1)
  state :=
    if data.length < (i + 1) * maxPayload.toNat then .finished
    else if i = 0 then .start else .fragment

def fragmentPayload (i : ℕ) : List UInt8 :=
  (data.drop (i * maxPayload.toNat)).take maxPayload.toNat

def fragmentPacket (i : ℕ) : List UInt8 :=
  (fragmentHeader key maxPayload data i).bytes ++ fragmentPayload maxPayload data i

end

section
variable {key mp : UInt16} {data : List UInt8} {i : ℕ}

theorem lt_count_iff (hmax : 0 < mp.toNat) : i < count mp data ↔ i * mp.toNat < data.length := by
  rw [count, Nat.lt_iff_add_one_le, Nat.le_div_iff_mul_le hmax, Nat.add_mul]
  omega

theorem fragmentPayload_length : (fragmentPayload mp data i).length =
      min mp.toNat (data.length - i * mp.toNat) := by
  rw [fragmentPayload, length_take, length_drop]

theorem payloadLength_toNat : (fragmentHeader key mp data i).payloadLength.toNat =
      min mp.toNat (data.length - i * mp.toNat) := by
  have hmax : mp.toNat < 2 ^ 16 := mp.toNat_lt
  rw [fragmentHeader, UInt16.toNat_ofNat', Nat.mod_eq_of_lt (by omega)]

theorem nextHeader_eq {header : UtpHeader} (hlt : i * mp.toNat < data.length)
    (hhea : header = ⟨key, mp, UInt8.ofNat i, if i = 0 then .start else .fragment⟩) :
    nextHeader data.length (i * mp.toNat) header = fragmentHeader key mp data i := by
  have hnext : (i + 1) * mp.toNat = i * mp.toNat + mp.toNat := by rw [Nat.add_mul, Nat.one_mul]
  have hseq : UInt8.ofNat i + 1 = UInt8.ofNat (i + 1) := (UInt8.ofNat_add i 1).symm
  rw [fragmentHeader, hnext, nextHeader, hhea]
  dsimp only
  split
  · next h => rw [hseq, Nat.min_eq_right (by omega)]
  · next h => rw [hseq, Nat.min_eq_left (by omega), UInt16.ofNat_toNat]

theorem publishLoop_eq (hmax : 0 < mp.toNat) (hsize : data.length < 2 ^ 16) (n : ℕ) :
    ∀ (i fuel : ℕ) (header : UtpHeader), i + n = count mp data → n < fuel →
      (0 < n → header = ⟨key, mp, UInt8.ofNat i, if i = 0 then .start else .fragment⟩) →
      publishLoop data.length fuel header (min (i * mp.toNat) data.length)
          (data.drop (i * mp.toNat)) =
        some ((range' i n).map (fragmentPacket key mp data)) := by
  induction n with
  | zero =>
    intro i fuel header hi hfuel _
    obtain ⟨fuel, rfl⟩ := Nat.exists_eq_succ_of_ne_zero (by omega : fuel ≠ 0)
    have hend : ¬ i < count mp data := by omega
    rw [lt_count_iff hmax] at hend
    rw [publishLoop, if_neg (by omega)]
    rfl
  | succ n ih =>
    intro i fuel header hi hfuel hhea
    obtain ⟨fuel, rfl⟩ := Nat.exists_eq_succ_of_ne_zero (by omega : fuel ≠ 0)
    have hlt : i * mp.toNat < data.length := (lt_count_iff hmax).1 (by omega)
    have hnext : (i + 1) * mp.toNat = i * mp.toNat + mp.toNat := by rw [Nat.add_mul, Nat.one_mul]
    have hpay : (data.drop (i * mp.toNat)).take (fragmentHeader key mp data i).payloadLength.toNat =
          fragmentPayload mp data i := by
      rw [payloadLength_toNat, fragmentPayload, take_eq_take_iff, length_drop]
      omega
    have hrest : (data.drop (i * mp.toNat)).drop
        (fragmentHeader key mp data i).payloadLength.toNat = data.drop ((i + 1) * mp.toNat) := by
      rw [drop_drop, payloadLength_toNat, hnext]
      rcases Nat.le_total mp.toNat (data.length - i * mp.toNat) with h | h
      · rw [Nat.min_eq_left h]
      · rw [drop_eq_nil_of_le (by omega), drop_eq_nil_of_le (by omega)]
    have hsent : (i * mp.toNat + (fragmentHeader key mp data i).payloadLength.toNat) % 2 ^ 16 =
          min ((i + 1) * mp.toNat) data.length := by
      rw [payloadLength_toNat]
      omega
    rw [Nat.min_eq_left hlt.le, publishLoop, if_pos hlt, nextHeader_eq hlt (hhea (by omega))]
    dsimp only
    rw [hpay, hrest, hsent, ih (i + 1) fuel _ (by omega) (by omega), range'_succ,
      map_cons, Option.map_some, fragmentPacket]
    -- a round that is not the last one leaves the payload length as it was
    intro hn
    have hmore : (i + 1) * mp.toNat < data.length := (lt_count_iff hmax).1 (by omega)
    rw [fragmentHeader, Nat.min_eq_left (by omega)]
    simp

theorem publish_eq {mitu idLength : ℕ} (hmax : 0 < (maxPayloadLength mitu idLength).toNat)
    (hsize : data.length < 2 ^ 16) (hlong : (maxPayloadLength mitu idLength).toNat < data.length) :
    publish mitu idLength key data = some ((range (count (maxPayloadLength mitu idLength) data)).map
        (fragmentPacket key (maxPayloadLength mitu idLength) data)) := by
  have hcount : count (maxPayloadLength mitu idLength) data ≤ data.length := by
    by_contra h
    have := (lt_count_iff hmax).1 (not_le.1 h)
    exact absurd (Nat.le_mul_of_pos_right data.length hmax) (not_le.2 this)
  have h := publishLoop_eq hmax hsize (count (maxPayloadLength mitu idLength) data) 0
    (data.length + 1) ⟨key, maxPayloadLength mitu idLength, 0, .start⟩ (by omega) (by omega)
    (fun _ => rfl)
  rw [Nat.zero_mul, Nat.zero_min, drop_zero] at h
  rw [publish, if_pos hlong, h, range_eq_range']

end

/-! ### What the receiver holds -/

section
variable {key mp : UInt16} {data : List UInt8} {i : ℕ} {memory : ℕ → UInt8}
  {buf : ReassemblyBuffer} {pkts : Fragments} {got : Set ℕ}

def entry (key maxPayload : UInt16) (data : List UInt8) (i : ℕ) : ℕ × UtpHeader × List UInt8 :=
  (i + 1, fragmentHeader key maxPayload data i, fragmentPayload maxPayload data i)

def Holds (key maxPayload : UInt16) (data : List UInt8) (packets : Fragments) (got : Set ℕ) :
    Prop :=
  ∀ e, e ∈ packets.entries ↔ ∃ i < count maxPayload data, i ∈ got ∧ e = entry key maxPayload data i

theorem holds_empty : Holds key mp data ∅ ∅ := by simp [Holds]

theorem copyPayload_eq (payload : List UInt8) :
    copyPayload memory payload payload.length = payload := by
  refine ext_getElem (by simp [copyPayload]) ?_
  intro j h₁ h₂
  simp [copyPayload, h₂]

theorem state_eq_start_iff (hlong : mp.toNat < data.length) :
    (fragmentHeader key mp data i).state = .start ↔ i = 0 := by
  rw [fragmentHeader]
  by_cases hi : i = 0
  · simp [hi, hlong.le]
  · split <;> simp [hi]

theorem state_eq_finished_iff : (fragmentHeader key mp data i).state = .finished ↔
      data.length < (i + 1) * mp.toNat := by
  rw [fragmentHeader]
  by_cases hi : i = 0
  · split <;> simp_all
  · split <;> simp_all

theorem handle_fragmentPacket (i : ℕ) : handle memory buf (fragmentPacket key mp data i) =
      handleFragment memory buf (fragmentHeader key mp data i) (fragmentPayload mp data i) := by
  have hpay : copyPayload memory (fragmentPayload mp data i)
      (fragmentHeader key mp data i).payloadLength.toNat = fragmentPayload mp data i := by
    rw [payloadLength_toNat, ← fragmentPayload_length, copyPayload_eq]
  have hstate : (fragmentHeader key mp data i).state = .start ∨
      (fragmentHeader key mp data i).state = .fragment ∨
      (fragmentHeader key mp data i).state = .finished := by
    rw [fragmentHeader]
    split_ifs <;> simp
  rw [handle, fragmentPacket, UtpHeader.read_bytes_append, UtpHeader.drop_bytes_append, hpay]
  obtain h | h | h := hstate <;> rw [h]

theorem Holds.insert (h : Holds key mp data pkts got) (hi : i < count mp data) :
    Holds key mp data (pkts.insert (i + 1)
      (fragmentHeader key mp data i, fragmentPayload mp data i))
      (Insert.insert i got) := by
  have hsame {v : UtpHeader × List UInt8} (hv : pkts.get (i + 1) = some v) :
      v = (fragmentHeader key mp data i, fragmentPayload mp data i) := by
    obtain ⟨j, -, -, hj⟩ := (h _).1 (mem_entries_iff.2 hv)
    obtain rfl : i = j := by simpa [entry] using congrArg Prod.fst hj
    exact congrArg Prod.snd hj
  intro e
  obtain ⟨k, v⟩ := e
  rw [mem_entries_iff, get_insert]
  split
  case isTrue hk =>
    subst hk
    have hget : (pkts.get (i + 1)).getD (fragmentHeader key mp data i, fragmentPayload mp data i) =
          (fragmentHeader key mp data i, fragmentPayload mp data i) := by
      cases hv : pkts.get (i + 1) with
      | none => rfl
      | some v => exact hsame hv
    rw [hget]
    constructor
    · intro hv
      exact ⟨i, hi, .inl rfl, by rw [entry, Option.some.inj hv]⟩
    · rintro ⟨j, -, -, hj⟩
      obtain rfl : i = j := by simpa [entry] using congrArg Prod.fst hj
      exact congrArg some (congrArg Prod.snd hj).symm
  case isFalse hk =>
    rw [← mem_entries_iff, h]
    constructor
    · rintro ⟨j, hj, hgot, he⟩
      exact ⟨j, hj, .inr hgot, he⟩
    · rintro ⟨j, hj, hgot, he⟩
      obtain rfl | hgot := hgot
      · exact absurd (congrArg Prod.fst he) hk
      · exact ⟨j, hj, hgot, he⟩

/-! ### The scan -/

variable {l : List (ℕ × UtpHeader × List UInt8)} {j : ℕ} {arrivals : List Arrival}
  (hmax : 0 < mp.toNat) (hsize : data.length < 2 ^ 16)
  (hlong : mp.toNat < data.length) (hcount : count mp data ≤ 255)

theorem scan_eq_some {previous length n : ℕ} {last state : TransportState}
    (hpre : previous ≠ 0) (h : scan previous last length l = some (state, n)) :
    l.map Prod.fst = range' (previous + 1) l.length ∧
      state = ((l.map fun e => e.2.1.state).getLast?).getD last := by
  induction l generalizing previous last length with
  | nil =>
    simp [(Prod.mk.inj (Option.some.inj h)).1]
  | cons e l ih =>
    rw [scan, if_neg hpre] at h
    split at h
    case isTrue hseq =>
      obtain ⟨hkeys, hstate⟩ := ih (by omega) h
      refine ⟨by simp [hkeys, hseq, range'_succ], ?_⟩
      rw [hstate, map_cons, getLast?_cons, Option.getD_some]
    · simp at h

theorem Holds.mem_of_key (h : Holds key mp data pkts got)
    (hi : i + 1 ∈ pkts.entries.map Prod.fst) : i ∈ got := by
  obtain ⟨e, he, hfst⟩ := mem_map.1 hi
  obtain ⟨j, -, hgot, rfl⟩ := (h e).1 he
  obtain rfl : j = i := by simpa [entry] using hfst
  exact hgot

include hmax hlong in
theorem Holds.complete_of_scan (h : Holds key mp data pkts got) {n : ℕ}
    (hscan : scan 0 .unknown 0 pkts.entries = some (.finished, n)) :
    ∀ i < count mp data, i ∈ got := by
  cases hent : pkts.entries with
  | nil => simp [hent, scan] at hscan
  | cons e l =>
    rw [hent] at hscan
    obtain ⟨i₀, -, -, rfl⟩ := (h e).1 (by simp [hent])
    rw [entry, scan, if_pos rfl] at hscan
    split at hscan
    case isTrue hstart =>
      obtain rfl := (state_eq_start_iff hlong).1 hstart
      obtain ⟨hkeys, hstate⟩ := scan_eq_some (by omega) hscan
      have hall : pkts.entries.map Prod.fst = range' 1 (l.length + 1) := by
        rw [hent, map_cons, hkeys]
        rfl
      -- the last fragment is there, and its number says how many there are
      have hne : l ≠ [] := by
        rintro rfl
        simp at hstate
      obtain ⟨j, hj, -, hlast⟩ := (h (l.getLast hne)).1 (hent ▸ mem_cons_of_mem _ (getLast_mem hne))
      rw [getLast?_map, getLast?_eq_getLast_of_ne_nil hne, hlast] at hstate
      have hfin : data.length < (j + 1) * mp.toNat := state_eq_finished_iff.1 hstate.symm
      have hmem : (l.getLast hne).1 ∈ range' 1 (l.length + 1) := by
        rw [← hall, hent]
        exact mem_map_of_mem (mem_cons_of_mem _ (getLast_mem hne))
      rw [hlast, mem_range'_1, entry] at hmem
      intro i hi
      have hij : i < j + 1 := by
        by_contra hij
        have hle := Nat.mul_le_mul_right mp.toNat (not_lt.1 hij)
        have := (lt_count_iff hmax).1 hi
        omega
      refine h.mem_of_key ?_
      rw [hall, mem_range'_1]
      omega
    · simp at hscan

include hmax hsize in
theorem scan_entries (n : ℕ) : ∀ (i : ℕ) (last : TransportState), 0 < i → i + n = count mp data →
      scan i last (min (i * mp.toNat) data.length) ((range' i n).map (entry key mp data)) =
        some (if n = 0 then last else (fragmentHeader key mp data (count mp data - 1)).state,
          data.length) := by
  induction n with
  | zero =>
    intro i last _ hi
    have hend : ¬ i < count mp data := by omega
    rw [lt_count_iff hmax] at hend
    rw [range'_zero, map_nil, scan, if_pos rfl, Nat.min_eq_right (by omega)]
  | succ n ih =>
    intro i last hpos hi
    have hnext : (i + 1) * mp.toNat = i * mp.toNat + mp.toNat := by rw [Nat.add_mul, Nat.one_mul]
    have hlen : (min (i * mp.toNat) data.length +
        (fragmentHeader key mp data i).payloadLength.toNat) % 2 ^ 16 =
          min ((i + 1) * mp.toNat) data.length := by
      rw [payloadLength_toNat]
      omega
    rw [range'_succ, map_cons, entry, scan, if_neg (by omega), if_pos rfl, hlen,
      ih (i + 1) _ (by omega) (by omega), if_neg (by omega : n + 1 ≠ 0)]
    split
    · next hn => rw [show count mp data - 1 = i by omega]
    · rfl

theorem Holds.entries_eq (h : Holds key mp data pkts got) (hall : ∀ i < count mp data, i ∈ got) :
    pkts.entries = (range (count mp data)).map (entry key mp data) := by
  refine entries_eq_of_get ?_ ?_
  · rw [pairwise_map]
    refine pairwise_lt_range.imp ?_
    intro i j hij
    exact Nat.succ_lt_succ hij
  · intro k v
    rw [← mem_entries_iff, h, mem_map]
    constructor
    · rintro ⟨i, hi, -, he⟩
      exact ⟨i, mem_range.2 hi, he.symm⟩
    · rintro ⟨i, hi, he⟩
      exact ⟨i, mem_range.1 hi, hall i (mem_range.1 hi), he.symm⟩

include hmax hlong in
theorem two_le_count : 2 ≤ count mp data := (lt_count_iff hmax).2 (by simpa using hlong)

include hmax hsize hlong in
theorem scan_complete : scan 0 .unknown 0 ((range (count mp data)).map (entry key mp data)) =
      some ((fragmentHeader key mp data (count mp data - 1)).state, data.length) := by
  have hcount := two_le_count hmax hlong
  obtain ⟨n, hn⟩ := Nat.exists_eq_add_of_le' (by omega : 1 ≤ count mp data)
  have hlen : (0 + (fragmentHeader key mp data 0).payloadLength.toNat) % 2 ^ 16 =
      min (1 * mp.toNat) data.length := by
    rw [payloadLength_toNat]
    omega
  rw [hn, range_eq_range', range'_succ, map_cons, entry, scan, if_pos rfl,
    if_pos ((state_eq_start_iff hlong).2 rfl), hlen, ← hn,
      scan_entries hmax hsize n 1 .unknown (by omega) (by omega), if_neg (by omega)]

/-! ### The copy loop -/

theorem getD_copyLoop {offset : ℕ} {d : UInt8} (hl : ∀ e ∈ l, ∃ i, e = entry key mp data i)
    (hoff : offset ≤ mp.toNat) (hj : 2 * mp.toNat ≤ j) {block : List UInt8}
    (hblock : 2 * mp.toNat ≤ block.length) :
    (copyLoop offset block l).getD j d = block.getD j d := by
  induction l generalizing offset block with
  | nil => rfl
  | cons e l ih =>
    obtain ⟨i, rfl⟩ := hl e mem_cons_self
    have hlen : (fragmentPayload mp data i).length =
        min mp.toNat (data.length - i * mp.toNat) := fragmentPayload_length
    rw [entry, copyLoop, ih (fun e he => hl e (mem_cons_of_mem _ he)),
      Buffer.getD_write_outside (by omega) (.inr (by omega))]
    · rw [payloadLength_toNat]
      exact Nat.min_le_left _ _
    · rw [Buffer.length_write (by omega)]
      exact hblock

theorem getD_reassemble (hent : pkts.entries = (range (count mp data)).map (entry key mp data))
    (hj : 2 * mp.toNat ≤ j) (hlt : j < data.length) :
    (reassemble memory data.length pkts).getD j 0 = memory j := by
  have hblock : ((range data.length).map memory).length = data.length := by simp
  have hentry : ∀ e ∈ pkts.entries, ∃ i, e = entry key mp data i := by
    intro e he
    rw [hent] at he
    obtain ⟨i, -, rfl⟩ := mem_map.1 he
    exact ⟨i, rfl⟩
  have hcopy := getD_copyLoop (d := 0) hentry (Nat.zero_le _) hj
    (by omega : 2 * mp.toNat ≤ ((range data.length).map memory).length)
  rw [reassemble, getD_eq_getElem?_getD, getElem?_take_of_lt hlt,
    ← getD_eq_getElem?_getD, hcopy, getD_eq_getElem _ _ (by omega)]
  simp

theorem reassemble_two (hlong : mp.toNat < data.length)
    (hent : pkts.entries = [entry key mp data 0, entry key mp data 1])
    (hshort : data.length < 2 * mp.toNat) : reassemble memory data.length pkts = data := by
  have hfirst : fragmentPayload mp data 0 = data.take mp.toNat := by
    rw [fragmentPayload, Nat.zero_mul, drop_zero]
  have hsec : fragmentPayload mp data 1 = data.drop mp.toNat := by
    rw [fragmentPayload, Nat.one_mul, take_of_length_le]
    rw [length_drop]
    omega
  have hoff : (fragmentHeader key mp data 0).payloadLength.toNat = mp.toNat := by
    rw [payloadLength_toNat]
    omega
  have htake : (data.take mp.toNat).length = mp.toNat := by
    rw [length_take]
    omega
  have hwrite (block : List UInt8) : Buffer.write 0 (data.take mp.toNat) block =
      data.take mp.toNat ++ block.drop mp.toNat := by
    rw [Buffer.write, take_zero, nil_append, Nat.zero_add, htake]
  rw [reassemble, hent, entry, entry, copyLoop, copyLoop, copyLoop, hfirst, hsec, hoff,
    hwrite, Buffer.write_append htake, take_append_drop, take_left' rfl]

/-! ### Runs of the receiver -/

theorem get_handle_of_ne (mem : ℕ → UInt8) (buf : ReassemblyBuffer) {pkt : List UInt8}
    (hkey : (UtpHeader.read pkt).key ≠ key) :
    (handle mem buf pkt).1.get key.toNat = buf.get key.toNat := by
  have hne : key.toNat ≠ (UtpHeader.read pkt).key.toNat := fun h =>
    hkey (UInt16.toNat_inj.1 h).symm
  have hfra (payload : List UInt8) :
      (handleFragment mem buf (UtpHeader.read pkt) payload).1.get key.toNat =
        buf.get key.toNat := by
    rw [handleFragment]
    split
    · rw [get_erase, if_neg hne, get_set, if_neg hne]
    · rw [get_set, if_neg hne]
  rw [handle]
  split
  · exact hfra _
  · exact hfra _
  · exact hfra _
  · rfl
  · rfl

include hcount in
theorem sequence_toNat (hi : i < count mp data) :
    (fragmentHeader key mp data i).sequence.toNat = i + 1 := by
  rw [fragmentHeader, UInt8.toNat_ofNat', Nat.mod_eq_of_lt (by omega)]

include hcount in
theorem fragmentPacket_inj (hi : i < count mp data) (hj : j < count mp data)
    (h : fragmentPacket key mp data i = fragmentPacket key mp data j) : i = j := by
  have hread := congrArg UtpHeader.read h
  rw [fragmentPacket, fragmentPacket, UtpHeader.read_bytes_append,
    UtpHeader.read_bytes_append] at hread
  have hseq := congrArg (fun x => x.sequence.toNat) hread
  simp only [sequence_toNat hcount hi, sequence_toNat hcount hj] at hseq
  omega

include hmax hlong hcount in
theorem handle_of_missing (mem : ℕ → UInt8) (h : Holds key mp data ((buf.get key.toNat).getD ∅) got)
    (hi : i < count mp data) (hj : j < count mp data) (hij : i ≠ j) (hgot : j ∉ got) :
    (handle mem buf (fragmentPacket key mp data i)).2 = [] ∧ Holds key mp data
        (((handle mem buf (fragmentPacket key mp data i)).1.get key.toNat).getD ∅)
        (Insert.insert i got) := by
  have hins := h.insert hi
  rw [handle_fragmentPacket, handleFragment, sequence_toNat hcount hi]
  dsimp only [fragmentHeader] at hins ⊢
  split
  case h_1 length hscan =>
    obtain rfl | hj := hins.complete_of_scan hmax hlong hscan j hj
    · exact absurd rfl hij
    · exact absurd hj hgot
  case h_2 =>
    refine ⟨rfl, ?_⟩
    rw [get_set, if_pos rfl]
    exact hins

include hmax hlong hcount in
theorem collected_receive (hj : j < count mp data) (harr : ∀ a ∈ arrivals,
      (∃ i < count mp data, i ≠ j ∧ a.packet = fragmentPacket key mp data i) ∨
      (UtpHeader.read a.packet).key ≠ key)
    (h : Holds key mp data ((buf.get key.toNat).getD ∅) got) (hgot : j ∉ got) :
    (∃ got', Holds key mp data (((receive buf arrivals).get key.toNat).getD ∅) got' ∧
      got ⊆ got' ∧ ∀ i < count mp data,
        fragmentPacket key mp data i ∈ arrivals.map Arrival.packet → i ∈ got') ∧
    ∀ o ∈ outputs buf arrivals, (UtpHeader.read o.1.packet).key = key → o.2 = [] := by
  induction arrivals generalizing buf got with
  | nil => exact ⟨⟨got, h, subset_rfl, by simp⟩, by simp [outputs]⟩
  | cons a l ih =>
    have hl := fun a ha => harr a (mem_cons_of_mem _ ha)
    obtain ⟨i, hi, hij, ha⟩ | ha := harr a mem_cons_self
    · obtain ⟨hnone, hnext⟩ := handle_of_missing hmax hlong hcount a.memory h hi hj hij hgot
      rw [← ha] at hnone hnext
      obtain ⟨⟨got', hholds, hsub, hall⟩, hout⟩ := ih hl hnext (by simp [Ne.symm hij, hgot])
      refine ⟨⟨got', hholds, (Set.subset_insert i got).trans hsub, ?_⟩, ?_⟩
      · intro x hx hmem
        rw [map_cons, mem_cons, ha] at hmem
        obtain hmem | hmem := hmem
        · obtain rfl := fragmentPacket_inj hcount hx hi hmem
          exact hsub (Set.mem_insert x got)
        · exact hall x hx hmem
      · intro o ho hkey
        obtain rfl | ho := mem_cons.1 ho
        · exact hnone
        · exact hout o ho hkey
    · rw [← get_handle_of_ne a.memory buf ha] at h
      obtain ⟨⟨got', hholds, hsub, hall⟩, hout⟩ := ih hl h hgot
      refine ⟨⟨got', hholds, hsub, ?_⟩, ?_⟩
      · intro x hx hmem
        rw [map_cons, mem_cons] at hmem
        obtain hmem | hmem := hmem
        · refine absurd ?_ ha
          rw [← hmem, fragmentPacket, UtpHeader.read_bytes_append, fragmentHeader]
        · exact hall x hx hmem
      · intro o ho hkey
        obtain rfl | ho := mem_cons.1 ho
        · exact absurd hkey ha
        · exact hout o ho hkey

include hmax hsize hlong hcount in
theorem handle_of_complete (h : Holds key mp data ((buf.get key.toNat).getD ∅) got)
    (hi : i < count mp data) (hall : ∀ j < count mp data, j = i ∨ j ∈ got) :
    ∃ pkts : Fragments, pkts.entries = (range (count mp data)).map (entry key mp data) ∧
      (handle memory buf (fragmentPacket key mp data i)).2 =
        if data.length < count mp data * mp.toNat
        then [reassemble memory data.length pkts] else [] := by
  have hins := h.insert hi
  have hent := hins.entries_eq hall
  refine ⟨_, hent, ?_⟩
  rw [handle_fragmentPacket, handleFragment, sequence_toNat hcount hi]
  have hkey : (fragmentHeader key mp data i).key = key := rfl
  have hcount' : count mp data - 1 + 1 = count mp data := by omega
  rw [hkey, hent, scan_complete hmax hsize hlong]
  split
  case h_1 length hscan =>
    obtain ⟨hstate, rfl⟩ := Prod.mk.inj (Option.some.inj hscan)
    rw [state_eq_finished_iff, hcount'] at hstate
    rw [if_pos hstate]
  case h_2 hscan =>
    rw [if_neg]
    intro hlt
    refine hscan data.length ?_
    rw [state_eq_finished_iff.2 (hcount'.symm ▸ hlt)]

/-! ### When a packet arrives -/

theorem mem_of_mem_outputs {o : Arrival × List (List UInt8)} (ho : o ∈ outputs buf arrivals) :
    o.1 ∈ arrivals := by
  induction arrivals generalizing buf with
  | nil => simp [outputs] at ho
  | cons a l ih =>
    obtain rfl | ho := mem_cons.1 ho
    · exact mem_cons_self
    · exact mem_cons_of_mem _ (ih ho)

theorem reassembles_single :
    Reassembles key [(UtpHeader.mk key (UInt16.ofNat data.length) 1 .singlePacket).bytes ++ data]
      data := by
  intro buf arrivals last _ _ hlast hnew _
  rw [mem_singleton] at hlast
  refine ⟨?_, ?_⟩
  · intro o ho hpac
    refine absurd ?_ hnew
    rw [hlast, ← mem_singleton.1 hpac]
    exact mem_map_of_mem (mem_of_mem_outputs ho)
  · rw [hlast, handle, UtpHeader.read_bytes_append, UtpHeader.drop_bytes_append]

include hmax hsize hlong hcount in
theorem handle_receive (mem : ℕ → UInt8) (hj : j < count mp data) (hbuf : buf.get key.toNat = none)
    (harr : ∀ a ∈ arrivals, (∃ i < count mp data, i ≠ j ∧ a.packet = fragmentPacket key mp data i) ∨
      (UtpHeader.read a.packet).key ≠ key)
    (hall : ∀ i < count mp data, i = j ∨
      fragmentPacket key mp data i ∈ arrivals.map Arrival.packet) :
    ∃ pkts : Fragments, pkts.entries = (range (count mp data)).map (entry key mp data) ∧
      (handle mem (receive buf arrivals) (fragmentPacket key mp data j)).2 =
        if data.length < count mp data * mp.toNat
        then [reassemble mem data.length pkts] else [] := by
  have hempty : Holds key mp data ((buf.get key.toNat).getD ∅) ∅ := by
    rw [hbuf]
    exact holds_empty
  obtain ⟨⟨got, hholds, -, hgot⟩, -⟩ :=
    collected_receive hmax hlong hcount hj harr hempty (Set.notMem_empty j)
  refine handle_of_complete hmax hsize hlong hcount hholds hj ?_
  intro i hi
  exact (hall i hi).imp_right (hgot i hi)

include hmax hsize hlong in
theorem reassembles_two (hshort : data.length < 2 * mp.toNat) : Reassembles key
      ((range (count mp data)).map (fragmentPacket key mp data)) data := by
  have htwo : count mp data = 2 := by
    refine le_antisymm (not_lt.1 ?_) (two_le_count hmax hlong)
    rw [lt_count_iff hmax]
    omega
  intro buf arrivals last hbuf harr hlast hnew hall
  obtain ⟨j, hj, hlast⟩ := mem_map.1 hlast
  rw [mem_range] at hj
  have harr' : ∀ a ∈ arrivals,
      (∃ i < count mp data, i ≠ j ∧ a.packet = fragmentPacket key mp data i) ∨
        (UtpHeader.read a.packet).key ≠ key := by
    intro a ha
    refine (harr a ha).imp_left ?_
    intro hmem
    obtain ⟨i, hi, hpac⟩ := mem_map.1 hmem
    refine ⟨i, mem_range.1 hi, ?_, hpac.symm⟩
    rintro rfl
    exact hnew (mem_map.2 ⟨a, ha, hpac.symm.trans hlast⟩)
  have hempty : Holds key mp data ((buf.get key.toNat).getD ∅) ∅ := by
    rw [hbuf]
    exact holds_empty
  refine ⟨?_, ?_⟩
  · intro o ho hpac
    refine (collected_receive hmax hlong (by omega) hj harr' hempty (Set.notMem_empty j)).2 o ho ?_
    obtain ⟨i, -, hpac⟩ := mem_map.1 hpac
    rw [← hpac, fragmentPacket, UtpHeader.read_bytes_append, fragmentHeader]
  · have hall' : ∀ i < count mp data, i = j ∨
        fragmentPacket key mp data i ∈ arrivals.map Arrival.packet := by
      intro i hi
      refine (hall _ (mem_map_of_mem (mem_range.2 hi))).imp_left ?_
      intro h
      exact fragmentPacket_inj (by omega) hi hj (h.trans hlast.symm)
    obtain ⟨pkts, hent, hhan⟩ := handle_receive hmax hsize hlong (by omega) last.memory
      hj hbuf harr' hall'
    rw [← hlast, hhan, htwo, if_pos hshort, reassemble_two hlong (by rw [hent, htwo]; rfl) hshort]

def inOrder (memory : ℕ → UInt8) (key maxPayload : UInt16) (data : List UInt8) : List Arrival :=
  (range (count maxPayload data - 1)).map fun i =>
    ⟨memory, fragmentPacket key maxPayload data i⟩

theorem mem_inOrder {a : Arrival} (ha : a ∈ inOrder memory key mp data) :
    ∃ i < count mp data - 1, a.packet = fragmentPacket key mp data i := by
  obtain ⟨i, hi, rfl⟩ := mem_map.1 ha
  exact ⟨i, mem_range.1 hi, rfl⟩

theorem packet_mem_inOrder (hi : i < count mp data) : i = count mp data - 1 ∨
      fragmentPacket key mp data i ∈ (inOrder memory key mp data).map Arrival.packet := by
  refine (Nat.lt_or_ge i (count mp data - 1)).symm.imp (by omega) ?_
  intro hlt
  rw [inOrder, map_map]
  exact mem_map_of_mem (mem_range.2 hlt)

theorem Reassembles.inOrder (mem : ℕ → UInt8)
    (h : Reassembles key ((range (count mp data)).map (fragmentPacket key mp data)) data)
    (hcount : count mp data ≤ 255) (hpos : 0 < count mp data) :
    (handle mem (receive ∅ (inOrder mem key mp data))
      (fragmentPacket key mp data (count mp data - 1))).2 = [data] := by
  have hlast : count mp data - 1 < count mp data := by omega
  refine (h ∅ (Unreliable.inOrder mem key mp data) ⟨mem, _⟩
    (get_empty _) ?_ (mem_map_of_mem (mem_range.2 hlast)) ?_ ?_).2
  · intro a ha
    obtain ⟨i, hi, hpac⟩ := mem_inOrder ha
    exact .inl (mem_map.2 ⟨i, mem_range.2 (by omega), hpac.symm⟩)
  · intro hmem
    obtain ⟨a, ha, hpac⟩ := mem_map.1 hmem
    obtain ⟨i, hi, hpac'⟩ := mem_inOrder ha
    have := fragmentPacket_inj hcount (by omega) hlast (hpac'.symm.trans hpac)
    omega
  · intro p hp
    obtain ⟨i, hi, rfl⟩ := mem_map.1 hp
    refine (packet_mem_inOrder (mem_range.1 hi)).imp_left ?_
    exact congrArg _

include hmax hsize hcount in
/-- From three fragments on, and for a multiple of the maximum payload, something else is sent in
some run, or nothing. -/
theorem not_reassembles (hlong : 2 * mp.toNat ≤ data.length) : ¬ Reassembles key
      ((range (count mp data)).map (fragmentPacket key mp data)) data := by
  intro h
  have htwo := two_le_count hmax (by omega : mp.toNat < data.length)
  -- the memory differs from the packet everywhere
  let memory : ℕ → UInt8 := fun j => data.getD j 0 + 1
  have hsent := h.inOrder memory hcount (by omega)
  have harr : ∀ a ∈ inOrder memory key mp data, (∃ i < count mp data, i ≠ count mp data - 1 ∧
        a.packet = fragmentPacket key mp data i) ∨
        (UtpHeader.read a.packet).key ≠ key := by
    intro a ha
    obtain ⟨i, hi, hpac⟩ := mem_inOrder ha
    exact .inl ⟨i, by omega, by omega, hpac⟩
  obtain ⟨pkts, hent, hhan⟩ := handle_receive hmax hsize (by omega) hcount memory
    (by omega : count mp data - 1 < count mp data)
    (get_empty key.toNat) harr (fun i hi => packet_mem_inOrder hi)
  rw [hhan] at hsent
  split at hsent
  case isTrue hlt =>
    -- so the byte behind the first two fragments is not that of the packet
    have hthr : 2 * mp.toNat < data.length := by
      refine lt_of_le_of_ne hlong ?_
      intro heq
      have hnot : ¬ 2 < count mp data := by
        rw [lt_count_iff hmax]
        omega
      have := Nat.mul_le_mul_right mp.toNat (not_lt.1 hnot)
      omega
    have hbyte : (reassemble memory data.length pkts).getD (2 * mp.toNat) 0 =
        memory (2 * mp.toNat) := getD_reassemble hent le_rfl hthr
    rw [singleton_inj.1 hsent] at hbyte
    simp [memory] at hbyte
  · simp at hsent

/-- **When a packet arrives as it was published**, in any order of its fragments: exactly when it
fits into one publication, or into two of which the second is not full. -/
theorem publish_handle_iff (mitu idLength : ℕ) (key : UInt16) (data : List UInt8)
    (hsize : data.length < 2 ^ 16) (hmax : 0 < (maxPayloadLength mitu idLength).toNat)
    (hcount : data.length ≤ 255 * (maxPayloadLength mitu idLength).toNat) :
    (∃ fragments, publish mitu idLength key data = some fragments ∧
      Reassembles key fragments data) ↔
      data.length < 2 * (maxPayloadLength mitu idLength).toNat := by
  rcases Nat.lt_or_ge (maxPayloadLength mitu idLength).toNat data.length with hlong | hshort
  · have hcount' : count (maxPayloadLength mitu idLength) data ≤ 255 := by
      rw [← not_lt, lt_count_iff hmax]
      omega
    rw [publish_eq hmax hsize hlong]
    constructor
    · rintro ⟨fragments, hfra, h⟩
      obtain rfl := Option.some.inj hfra
      by_contra hle
      exact not_reassembles hmax hsize hcount' (not_lt.1 hle) h
    · intro hlt
      exact ⟨_, rfl, reassembles_two hmax hsize hlong hlt⟩
  · refine iff_of_true ⟨_, ?_, reassembles_single⟩ (by omega)
    rw [publish, if_neg (by omega)]

/-- Six bytes with a maximum payload of four arrive in two fragments. -/
theorem publish_handle_iff_two_fragments :
    ∃ fragments, publish 46 16 7 [1, 2, 3, 4, 5, 6] = some fragments ∧
      Reassembles 7 fragments [1, 2, 3, 4, 5, 6] :=
  (publish_handle_iff 46 16 7 [1, 2, 3, 4, 5, 6] (by decide) (by decide) (by decide)).2 (by decide)

/-- Nine bytes in fragments of four are sent as something else, and eight are never sent. -/
theorem publish_handle_three_fragments_and_multiple :
    (∃ fragments, publish 46 16 7 [1, 2, 3, 4, 5, 6, 7, 8, 9] = some fragments ∧
      (outputs ∅ (fragments.map fun p => ⟨fun _ => 0, p⟩)).map Prod.snd =
        [[], [], [[1, 2, 3, 4, 9, 6, 7, 8, 0]]]) ∧
    ∃ fragments, publish 46 16 7 [1, 2, 3, 4, 5, 6, 7, 8] = some fragments ∧
      (outputs ∅ (fragments.map fun p => ⟨fun _ => 0, p⟩)).map Prod.snd = [[], []] :=
  ⟨⟨_, rfl, by decide +kernel⟩, _, rfl, by decide +kernel⟩

end

end Unreliable

end Blackadder
