/-
**Publications on the wire.**

`pushDataToRemoteSubscribers` writes the number of identifiers, each behind its length, the type,
for implicit subscriptions the label of the node, and the data; another proxy computes indices from
the length bytes. They are lengths in bytes, cast to `unsigned char` and then divided: fragments
modulo 32.
-/

import Blackadder.ProxyRuns
import Blackadder.RvEncode

namespace Blackadder

open List

variable {data l : List UInt8} {i : ℕ} {IDs : List Id} {k : Id}

/-! ### Writing -/

def remoteID (k : Id) : List UInt8 := idLength k :: idBytes k

inductive RemoteType
  | data
  | isub
deriving DecidableEq

namespace RemoteType

def code : RemoteType → UInt8
  | .data => publishData
  | .isub => publishDataISub

def label (nodeID : NodeID) : RemoteType → List UInt8
  | .data => []
  | .isub => nodeID.toList

def Holds (nodeID : NodeID) (payload read : List UInt8) : RemoteType → Prop
  | .data => read = payload
  | .isub => vectorAt nodeIDLen read 0 = nodeID ∧ read.drop nodeIDLen = payload

end RemoteType

/-- What is written behind the forwarding identifier. The number of identifiers is an `unsigned
char`. -/
def remoteBytes (nodeID : NodeID) (IDs : List Id) (type : RemoteType) (payload : List UInt8) :
    List UInt8 :=
  UInt8.ofNat IDs.length :: (IDs.take (UInt8.ofNat IDs.length).toNat).flatMap remoteID ++
    type.code :: (type.label nodeID ++ payload)

theorem take_toNat_length (hIDs : IDs.length ≤ 255) :
    IDs.take (UInt8.ofNat IDs.length).toNat = IDs ∧
      (UInt8.ofNat IDs.length).toNat = IDs.length := by
  have hlen : (UInt8.ofNat IDs.length).toNat = IDs.length := by
    rw [UInt8.toNat_ofNat']
    omega
  exact ⟨by rw [hlen, take_length], hlen⟩

/-! ### Reading -/

theorem byteAt_of_drop {b : UInt8} (hd : data.drop i = b :: l) : byteAt data i = b := by
  rw [byteAt, getD_eq_getElem?_getD, ← head?_drop, hd]
  rfl

variable {n start index : ℕ}

theorem vectorAt_of_drop {v : List.Vector UInt8 n} (hd : data.drop i = v.toList ++ l) :
    vectorAt n data i = v := by
  refine List.Vector.toList_injective (ext_getElem (by simp [vectorAt]) fun j h₁ h₂ => ?_)
  have hbyte : byteAt data (i + j) = v.toList[j] := by
    refine byteAt_of_drop (l := (v.toList ++ l).drop (j + 1)) ?_
    rw [← drop_drop, hd, drop_eq_getElem_cons (by rw [length_append]; omega),
      getElem_append_left h₂]
  simpa [vectorAt] using hbyte

theorem drop_eq_vectorAt (hn : i + n ≤ data.length) :
    data.drop i = (vectorAt n data i).toList ++ data.drop (i + n) := by
  have hlen : ((data.drop i).take n).length = n := by
    rw [length_take, length_drop]
    omega
  have hsplit : data.drop i = (data.drop i).take n ++ data.drop (i + n) := by
    rw [← drop_drop, take_append_drop]
  have hread : vectorAt n data i = ⟨(data.drop i).take n, hlen⟩ := vectorAt_of_drop hsplit
  rw [hread]
  exact hsplit

theorem vectorsAt_succ (n : ℕ) (data : List UInt8) (i count : ℕ) : vectorsAt n data i (count + 1) =
    vectorAt n data i :: vectorsAt n data (i + n) count := by
  rw [vectorsAt, range_succ_eq_map, map_cons, map_map, Nat.zero_mul]
  refine congrArg _ (map_congr_left fun j _ => ?_)
  rw [Function.comp_apply, Nat.succ_mul, Nat.add_comm (j * n), ← Nat.add_assoc]

theorem vectorsAt_of_drop {blocks : List (List.Vector UInt8 n)}
    (hd : data.drop i = blocks.flatMap (fun a => a.toList) ++ l) :
    vectorsAt n data i blocks.length = blocks := by
  induction blocks generalizing i with
  | nil => rfl
  | cons a blocks ih =>
    rw [flatMap_cons, append_assoc] at hd
    rw [length_cons, vectorsAt_succ, vectorAt_of_drop hd, ih]
    rw [← drop_drop, hd, drop_left' a.toList_length]

theorem idAt_of_drop (hd : data.drop i = idBytes k ++ l) : idAt data i k.length = k :=
  vectorsAt_of_drop hd

@[simp] theorem remoteID_length (k : Id) : (remoteID k).length = 1 + k.length * pursuitIDLen := by
  rw [remoteID, length_cons, idBytes_length, Nat.add_comm]

section
variable (hd : data.drop (start + index) = remoteID k ++ l)
include hd

theorem drop_remoteID : data.drop (start + (index + (remoteID k).length)) = l := by
  rw [← Nat.add_assoc, ← drop_drop, hd, drop_left' rfl]

theorem readIDs_succ (hk : k.length < 32) (n : ℕ) : readIDs data start (n + 1) index =
      (k :: (readIDs data start n (index + (remoteID k).length)).1,
        (readIDs data start n (index + (remoteID k).length)).2) := by
  have hbyte : (byteAt data (start + index)).toNat = k.length := by
    rw [byteAt_of_drop hd, idLength_toNat, Nat.mod_eq_of_lt hk]
  have hid : idAt data (start + 1 + index) k.length = k := by
    refine idAt_of_drop (l := l) ?_
    rw [Nat.add_right_comm, ← drop_drop, hd]
    rfl
  rw [readIDs, hbyte, hid, remoteID_length, Nat.add_assoc index]

end

section
variable (hd : data.drop (start + index) = IDs.flatMap remoteID ++ l)
include hd

/-- **The loop reads back** exactly identifiers of less than 32 fragments. -/
theorem readIDs_eq_iff :
    (readIDs data start IDs.length index).1 = IDs ↔ ∀ k ∈ IDs, k.length < 32 := by
  induction IDs generalizing index with
  | nil => simp [readIDs]
  | cons k IDs ih =>
    rw [flatMap_cons, append_assoc] at hd
    by_cases hk : k.length < 32
    · rw [length_cons, readIDs_succ hd hk]
      simp only [cons.injEq, true_and, forall_mem_cons, hk]
      exact ih (drop_remoteID hd)
    · refine iff_of_false (fun heq => ?_) fun hall => hk (hall k mem_cons_self)
      -- the length byte is less than 32
      have hhead := (cons.inj heq).1
      have hlen := congrArg length hhead
      rw [idAt_length, byteAt_of_drop hd, idLength_toNat] at hlen
      omega

theorem readIDs_snd (hIDs : ∀ k ∈ IDs, k.length < 32) :
    (readIDs data start IDs.length index).2 = index + (IDs.flatMap remoteID).length := by
  induction IDs generalizing index with
  | nil => rfl
  | cons k IDs ih =>
    rw [flatMap_cons, append_assoc] at hd
    rw [length_cons, readIDs_succ hd (hIDs k mem_cons_self),
      ih (drop_remoteID hd) fun g hg => hIDs g (mem_cons_of_mem k hg), flatMap_cons,
      length_append, Nat.add_assoc]

end

/-- **The header of a publication is read back** when its identifiers are short. -/
theorem read_header (hIDs : IDs.length ≤ 255) (hshort : ∀ k ∈ IDs, k.length < 32) (rest : List UInt8) :
    let packet := UInt8.ofNat IDs.length :: (IDs.flatMap remoteID ++ rest)
    (readIDs packet 1 (byteAt packet 0).toNat 0).1 = IDs ∧
      packet.drop (1 + (readIDs packet 1 (byteAt packet 0).toNat 0).2) = rest := by
  intro packet
  have hd : packet.drop (1 + 0) = IDs.flatMap remoteID ++ rest := rfl
  have hnum : (byteAt packet 0).toNat = IDs.length := (take_toNat_length hIDs).2
  rw [hnum, readIDs_snd hd hshort]
  refine ⟨(readIDs_eq_iff hd).2 hshort, ?_⟩
  rw [← Nat.add_assoc, ← drop_drop, hd, drop_left' rfl]

/-! ### Reading back what was written -/

variable {nodeID : NodeID} {type : RemoteType} {payload : List UInt8}

theorem remoteBytes_eq (hIDs : IDs.length ≤ 255) : remoteBytes nodeID IDs type payload =
    UInt8.ofNat IDs.length ::
      (IDs.flatMap remoteID ++ type.code :: (type.label nodeID ++ payload)) := by
  rw [remoteBytes, (take_toNat_length hIDs).1]
  rfl

theorem read_remoteBytes (hIDs : IDs.length ≤ 255) (hshort : ∀ k ∈ IDs, k.length < 32) :
    NetworkPacket.read (remoteBytes nodeID IDs type payload) =
      ⟨IDs, type.code, type.label nodeID ++ payload⟩ := by
  obtain ⟨hread, hrest⟩ := read_header hIDs hshort (type.code :: (type.label nodeID ++ payload))
  rw [remoteBytes_eq hIDs, NetworkPacket.read, hread, hrest]
  rfl

/-- The receiving proxy reads the identifiers, the type, an implicit label, and the data. -/
def ReadsBack (nodeID : NodeID) (IDs : List Id) (type : RemoteType) (payload : List UInt8)
    (p : NetworkPacket) : Prop :=
  p.IDs = IDs ∧ p.type = type.code ∧ type.Holds nodeID payload p.data

/-- **A publication is read back** exactly with identifiers of less than 32 fragments. -/
theorem readsBack_iff (nodeID : NodeID) (hIDs : IDs.length ≤ 255) (type : RemoteType)
    (payload : List UInt8) :
    ReadsBack nodeID IDs type payload
      (NetworkPacket.read (remoteBytes nodeID IDs type payload)) ↔ ∀ k ∈ IDs, k.length < 32 := by
  constructor
  · intro hread
    obtain ⟨-, hlen⟩ := take_toNat_length hIDs
    have hd : (remoteBytes nodeID IDs type payload).drop (1 + 0) = IDs.flatMap remoteID ++ _ :=
      congrArg (drop 1) (remoteBytes_eq hIDs)
    refine (readIDs_eq_iff hd).1 (Eq.trans ?_ hread.1)
    exact congrArg (fun m => (readIDs _ 1 m 0).1) hlen.symm
  · intro hshort
    rw [read_remoteBytes hIDs hshort]
    refine ⟨rfl, rfl, ?_⟩
    cases type with
    | data => rfl
    | isub => exact ⟨vectorAt_of_drop (l := payload) rfl, drop_left' nodeID.toList_length⟩

theorem readsBack_iff_isub : ReadsBack (.ofByte 7) [[.ofByte 1, .ofByte 2], [.ofByte 3]] .isub
      [4, 5] (NetworkPacket.read (remoteBytes (.ofByte 7)
        [[.ofByte 1, .ofByte 2], [.ofByte 3]] .isub [4, 5])) :=
  (readsBack_iff (.ofByte 7) (by decide) .isub [4, 5]).2 (by decide)

/-- An identifier of 32 fragments has the length byte zero, and is read as an empty one. -/
theorem not_readsBack_of_long :
    (NetworkPacket.read (remoteBytes (.ofByte 7) [List.replicate 32 (.ofByte 1)] .data
      [4, 5])).IDs = [[]] ∧
    ¬ ReadsBack (.ofByte 7) [List.replicate 32 (.ofByte 1)] .data [4, 5]
      (NetworkPacket.read (remoteBytes (.ofByte 7) [List.replicate 32 (.ofByte 1)] .data
        [4, 5])) := by
  have hIDs : (NetworkPacket.read (remoteBytes (.ofByte 7)
      [replicate 32 (.ofByte 1)] .data [4, 5])).IDs = [[]] := by decide +kernel
  refine ⟨hIDs, fun hread => ?_⟩
  cases hIDs.symm.trans hread.1

end Blackadder
