/-
**Writing into a buffer.**

A buffer is the list of its cells. `Buffer.write i bytes` overwrites the cells from `i` on.
-/

import Mathlib.Data.List.GetD

universe u

namespace Buffer

open List

variable {α : Type u} {bytes data : List α} {i j : ℕ} {d : α}

def write (i : ℕ) (bytes data : List α) : List α :=
  data.take i ++ bytes ++ data.drop (i + bytes.length)

section
variable (h : i + bytes.length ≤ data.length)
include h

@[simp] theorem length_write : (write i bytes data).length = data.length := by
  simp only [write, length_append, length_take, length_drop]
  omega

theorem getD_write_outside (hj : j < i ∨ i + bytes.length ≤ j) :
    (write i bytes data).getD j d = data.getD j d := by
  have htake : (data.take i).length = i := by
    rw [length_take]
    omega
  rw [getD_eq_getElem?_getD, getD_eq_getElem?_getD, write, append_assoc]
  rcases hj with hj | hj
  · rw [getElem?_append_left (by omega), getElem?_take_of_lt hj]
  · rw [getElem?_append_right (by omega), getElem?_append_right (by omega),
      getElem?_drop, htake, show i + bytes.length + (j - i - bytes.length) = j by omega]

theorem getD_write_inside (hj : j < bytes.length) :
    (write i bytes data).getD (i + j) d = bytes.getD j d := by
  have htake : (data.take i).length = i := by
    rw [length_take]
    omega
  rw [getD_eq_getElem?_getD, getD_eq_getElem?_getD, write, append_assoc,
    getElem?_append_right (by omega), htake, Nat.add_sub_cancel_left,
    getElem?_append_left hj]

end

theorem write_append {front rest : List α} (hi : front.length = i) :
    write i bytes (front ++ rest) = (front ++ bytes) ++ rest.drop bytes.length := by
  rw [write, take_left' hi, ← drop_drop, drop_left' hi]

def Consecutive : ℕ → List (ℕ × List α) → Prop
  | _, [] => True
  | i, (j, bytes) :: writes => j = i ∧ Consecutive (i + bytes.length) writes

theorem foldl_write {writes : List (ℕ × List α)} {front rest : List α}
    (h : Consecutive front.length writes) :
    writes.foldl (fun data w => write w.1 w.2 data) (front ++ rest) =
      front ++ (writes.map Prod.snd).flatten ++ rest.drop (writes.map Prod.snd).flatten.length := by
  induction writes generalizing front rest with
  | nil => simp
  | cons w writes ih =>
    rw [foldl_cons, write_append h.1.symm, ih (length_append ▸ h.2), map_cons, flatten_cons,
      length_append, drop_drop, append_assoc front]

/-! ### What a write leaves alone -/

/-- The buffers have the same length, and the same cells from the index `n` on. -/
structure SameFrom (n : ℕ) (data data' : List α) : Prop where
  length : data'.length = data.length
  drop : data'.drop n = data.drop n

theorem SameFrom.trans {data' data'' : List α} {n : ℕ} (h : SameFrom n data data')
    (h' : SameFrom n data' data'') : SameFrom n data data'' :=
  ⟨h'.length.trans h.length, h'.drop.trans h.drop⟩

theorem SameFrom.mono {data' : List α} {m n : ℕ} (h : SameFrom m data data') (hmn : m ≤ n) :
    SameFrom n data data' := by
  refine ⟨h.length, ?_⟩
  rw [← Nat.add_sub_cancel' hmn, ← drop_drop, ← drop_drop, h.drop]

theorem sameFrom_write {n : ℕ} (hi : i + bytes.length ≤ n) (hn : n ≤ data.length) :
    SameFrom n data (write i bytes data) := by
  refine ⟨length_write (by omega), ?_⟩
  have hlen : (data.take i ++ bytes).length = i + bytes.length := by
    rw [length_append, length_take]
    omega
  rw [write, ← Nat.add_sub_cancel' hi, ← drop_drop, drop_left' hlen, drop_drop]

/-! ### Pieces of the same length -/

/-- Piece number `i`, where each piece but the last has `n` cells. -/
def piece (n : ℕ) (data : List α) (k : ℕ) : List α := (data.drop (k * n)).take n

def pieceCount (n : ℕ) (data : List α) : ℕ := (data.length + n - 1) / n

theorem length_piece (n : ℕ) (data : List α) (k : ℕ) :
    (piece n data k).length = min n (data.length - k * n) := by
  rw [piece, length_take, length_drop]

theorem lt_pieceCount_iff {n k : ℕ} (hn : 0 < n) : k < pieceCount n data ↔ k * n < data.length := by
  rw [pieceCount, Nat.lt_iff_add_one_le, Nat.le_div_iff_mul_le hn, Nat.add_mul]
  omega

theorem length_le_pieceCount_mul {n : ℕ} (hn : 0 < n) : data.length ≤ pieceCount n data * n :=
  Nat.le_of_not_lt (mt (lt_pieceCount_iff hn).2 (Nat.lt_irrefl _))

theorem flatten_pieces (n k : ℕ) (data : List α) :
    ((List.range k).map (piece n data)).flatten = data.take (k * n) := by
  induction k with
  | zero => simp
  | succ k ih =>
    rw [range_succ, map_append, flatten_append, ih, Nat.add_mul, take_add]
    simp [piece]

end Buffer
