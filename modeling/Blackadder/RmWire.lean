/-
**Reports to the resiliency manager.**

A report has the item, the paths behind their lengths, and the alternatives behind their number.
The lengths of the payload and of the paths are kept in an `unsigned char`: a report is understood
if and only if it fits into 255 bytes. A unicast delivery whose path has a multiple of 256 bytes
has none.
-/

import Blackadder.RmHandlers
import Blackadder.TmWire

namespace Blackadder

open Except List

variable {data l : List UInt8} {i : ℕ} {k : Id} {paths : List (List UInt8)}
  {alts : List NodeID}

/-! ### Reading and copying -/

theorem bytesAt_of_drop {bytes : List UInt8} (hd : data.drop i = bytes ++ l) :
    bytesAt data i bytes.length = bytes :=
  congrArg List.Vector.toList (vectorAt_of_drop (v := ⟨bytes, rfl⟩) hd)

@[simp] theorem bytesAt_length (data : List UInt8) (i n : ℕ) : (bytesAt data i n).length = n := by
  simp [bytesAt]

theorem bytesAt_add (data : List UInt8) (i m n : ℕ) :
    bytesAt data i (m + n) = bytesAt data i m ++ bytesAt data (i + m) n := by
  rw [bytesAt, range_add, map_append, map_map]
  refine congrArg (_ ++ ·) (map_congr_left fun j _ => ?_)
  rw [Function.comp_apply, Nat.add_assoc]

theorem byteAt_take {m : ℕ} (hi : i < m) : byteAt (data.take m) i = byteAt data i := by
  rw [byteAt, byteAt, getD_eq_getElem?_getD, getD_eq_getElem?_getD, getElem?_take_of_lt hi]

theorem memcpy_append {front rest bytes : List UInt8} (hi : front.length = i)
    (hfits : bytes.length ≤ rest.length) :
    memcpy i bytes (front ++ rest) = .ok ((front ++ bytes) ++ rest.drop bytes.length) := by
  rw [memcpy, if_pos (by rw [length_append]; omega), Buffer.write_append hi]

theorem dispathPayload_cons (type : UInt8) (body : List UInt8) :
    dispathPayload (type :: body) = body.take (body.length % 256) := by
  have hlen : (UInt8.ofNat ((type :: body).length + 255)).toNat =
      (body.take (body.length % 256)).length := by
    rw [UInt8.toNat_ofNat', length_cons, length_take]
    omega
  rw [dispathPayload, hlen]
  exact bytesAt_of_drop (l := body.drop (body.length % 256)) (take_append_drop _ _).symm

/-! ### Items and bodies -/

def itemBlock (k : Id) : List UInt8 := [1, UInt8.ofNat k.length] ++ idBytes k

theorem itemBlock_length (k : Id) : (itemBlock k).length = 2 + k.length * pursuitIDLen := by
  simp [itemBlock]
  omega

def multicastBody (k : Id) (paths : List (List UInt8)) (alternatives : List NodeID) : List UInt8 :=
  itemBlock k ++ (UInt8.ofNat paths.length ::
    (pathvectorsField paths ++ (UInt8.ofNat alternatives.length :: labels alternatives)))

def pathsSize (paths : List (List UInt8)) : ℕ := (paths.map fun path => 1 + path.length).sum

theorem pathvectorsField_length (paths : List (List UInt8)) :
    (pathvectorsField paths).length = pathsSize paths := by
  rw [pathvectorsField, length_flatMap]
  refine congrArg sum (map_congr_left fun path _ => ?_)
  rw [length_cons, Nat.add_comm]

theorem multicastBody_length (k : Id) (paths : List (List UInt8)) (alts : List NodeID) :
    (multicastBody k paths alts).length = 2 + k.length * pursuitIDLen + 1 +
      pathsSize paths + 1 + alts.length * nodeIDLen := by
  rw [multicastBody, length_append, itemBlock_length, length_cons, length_append,
    pathvectorsField_length, length_cons, labels_length]
  omega

def unicastBody (k : Id) (publisher : NodeID) (path : List UInt8) (alternatives : List NodeID) :
    List UInt8 :=
  itemBlock k ++ (publisher.toList ++ (1 :: UInt8.ofNat path.length ::
    (path ++ (UInt8.ofNat alternatives.length :: labels alternatives))))

theorem unicastBody_length (k : Id) (pub : NodeID) (path : List UInt8)
    (alts : List NodeID) : (unicastBody k pub path alts).length =
      2 + k.length * pursuitIDLen + nodeIDLen + 2 + path.length + 1 + alts.length * nodeIDLen := by
  rw [unicastBody, length_append, itemBlock_length, length_append, List.Vector.toList_length,
    length_cons, length_cons, length_append, length_cons, labels_length]
  omega

theorem exists_memcpy_append (front rest bytes : List UInt8) (hi : front.length = i)
    (hfits : bytes.length ≤ rest.length) :
    ∃ rest', memcpy i bytes (front ++ rest) = .ok ((front ++ bytes) ++ rest') ∧
      rest'.length = rest.length - bytes.length :=
  ⟨_, memcpy_append hi hfits, length_drop⟩

theorem pathvectorsField_eq (hpaths : paths.length ≤ 255) :
    (if UInt8.ofNat paths.length > 0 then pathvectorsField paths else []) =
      pathvectorsField paths := by
  cases paths with
  | nil => rfl
  | cons path paths =>
    refine if_pos (UInt8.lt_iff_toNat_lt.2 ?_)
    rw [toNat_ofNat_of_le hpaths]
    exact Nat.succ_pos _

theorem copies (head ids field alts : List UInt8) (n m : UInt8) (block : List UInt8)
    {extra : List UInt8} (hext : extra.length = 2)
    (hblock : block.length = head.length + ids.length + 1 + field.length + 1 + alts.length) :
    (do
      let r ← memcpy 0 head block
      let r ← memcpy head.length (ids ++ extra) r
      let r ← memcpy (head.length + ids.length) [n] r
      let r ← memcpy (head.length + ids.length + 1) field r
      let r ← memcpy (head.length + ids.length + 1 + field.length) [m] r
      memcpy (head.length + ids.length + 1 + field.length + 1) alts r) =
    .ok (head ++ ids ++ [n] ++ field ++ [m] ++ alts) := by
  obtain ⟨r₁, h₁, l₁⟩ := exists_memcpy_append (i := 0) [] block head rfl (by omega)
  obtain ⟨r₂, h₂, l₂⟩ := exists_memcpy_append head r₁ (ids ++ extra) rfl (by
    rw [length_append]
    omega)
  rw [length_append] at l₂
  obtain ⟨r₃, h₃, l₃⟩ := exists_memcpy_append (head ++ ids) (extra ++ r₂) [n] length_append (by
    rw [length_append, length_singleton]
    omega)
  rw [length_append, length_singleton] at l₃
  obtain ⟨r₄, h₄, l₄⟩ := exists_memcpy_append (i := head.length + ids.length + 1)
    (head ++ ids ++ [n]) r₃ field (by simp only [length_append, length_singleton])
    (by omega)
  obtain ⟨r₅, h₅, l₅⟩ := exists_memcpy_append (i := head.length + ids.length + 1 + field.length)
    (head ++ ids ++ [n] ++ field) r₄ [m]
    (by simp only [length_append, length_singleton])
    (by rw [length_singleton]; omega)
  rw [length_singleton] at l₅
  obtain ⟨r₆, h₆, l₆⟩ := exists_memcpy_append (i := head.length + ids.length + 1 + field.length + 1)
    (head ++ ids ++ [n] ++ field ++ [m]) r₅ alts
    (by simp only [length_append, length_singleton]) (by omega)
  obtain rfl : r₆ = [] := eq_nil_of_length_eq_zero (by omega)
  have hassoc : head ++ (ids ++ extra) ++ r₂ = head ++ ids ++ (extra ++ r₂) := by simp
  rw [nil_append, nil_append] at h₁
  rw [h₁, ok_bind, h₂, ok_bind, hassoc, h₃, ok_bind, h₄, ok_bind, h₅, ok_bind, h₆, append_nil]

/-- **The copies into a report leave exactly its body.** The two bytes that are copied behind the
identifier are overwritten. -/
theorem multicastDelivery_item (junk : ℕ → UInt8) (hk : k.length < 256)
    (hpaths : paths.length ≤ 255) (hal : alts.length ≤ 255) {extra : List UInt8}
    (hext : extra.length = 2) :
    multicastDelivery junk 1 (UInt8.ofNat k.length) (idBytes k ++ extra) paths alts =
      .ok (updateDelivery :: multicastBody k paths alts) := by
  have hL : (UInt8.ofNat k.length).toNat = k.length := toNat_ofNat_of_le (by omega)
  have hlab : (labels alts).take (alts.length * nodeIDLen) =
      labels alts := take_of_length_le (labels_length alts).le
  have hcop := copies [updateDelivery, 1, UInt8.ofNat k.length] (idBytes k)
    (pathvectorsField paths) (labels alts) (UInt8.ofNat paths.length)
    (UInt8.ofNat alts.length)
    (malloc junk (1 + 1 + 1 + 1 * k.length * pursuitIDLen + 1 + (pathvectorsField paths).length + 1 +
      alts.length * nodeIDLen)) hext
    (by rw [malloc_length, idBytes_length, labels_length, Nat.one_mul]; rfl)
  rw [multicastDelivery]
  simp only [pathvectorsField_eq hpaths, hL, toNat_ofNat_of_le hal, hlab]
  rw [idBytes_length] at hcop
  refine hcop.trans (congrArg ok ?_)
  simp [multicastBody, itemBlock]

/-! ### Reading paths -/

theorem lt_length_of_drop {b : UInt8} (hd : data.drop i = b :: l) : i < data.length := by
  have hlen := congrArg length hd
  rw [length_drop, length_cons] at hlen
  omega

theorem readPaths_of_drop (hpaths : ∀ path ∈ paths, path.length ≤ 255)
    (hd : data.drop i = pathvectorsField paths ++ l) :
    readPaths data paths.length i = .ok (paths, i + pathsSize paths) := by
  induction paths generalizing i with
  | nil => rfl
  | cons path paths ih =>
    obtain ⟨hpath, hpaths⟩ := forall_mem_cons.1 hpaths
    rw [pathvectorsField, flatMap_cons, cons_append, cons_append, append_assoc] at hd
    have hlen : (byteAt data i).toNat = path.length := by
      rw [byteAt_of_drop hd, toNat_ofNat_of_le hpath]
    have hnext : data.drop (i + 1) = path ++ (pathvectorsField paths ++ l) := by
      rw [← drop_drop, hd]
      rfl
    have hrest : data.drop (i + 1 + path.length) = pathvectorsField paths ++ l := by
      rw [← drop_drop, hnext, drop_left' rfl]
    have hlt := lt_length_of_drop hd
    rw [length_cons, readPaths, hlen, if_neg (by omega), ih hpaths hrest, hnext, take_left' rfl]
    refine congrArg (fun n => ok (path :: paths, n)) ?_
    rw [pathsSize, pathsSize, map_cons, sum_cons]
    omega

theorem readPaths_spec {n : ℕ} {x : List (List UInt8) × ℕ} (h : readPaths data n i = .ok x) :
    x.1.length = n ∧ (x.2 ≤ data.length → x.2 = i + pathsSize x.1) := by
  induction n generalizing i x with
  | zero =>
    obtain rfl := ok.inj h
    exact ⟨rfl, fun _ => rfl⟩
  | succ n ih =>
    rw [readPaths] at h
    split at h
    · cases h
    · rename_i hi
      obtain ⟨rest, hrest, h⟩ := bind_eq_ok.1 h
      obtain rfl := ok.inj h
      obtain ⟨hlen, hstop⟩ := ih hrest
      refine ⟨by rw [length_cons, hlen], fun hins => ?_⟩
      rw [pathsSize, map_cons, sum_cons, ← pathsSize, length_take, length_drop]
      omega

/-! ### Multicast -/

/-- A multicast delivery is recorded as it was reported, without a read behind the payload. -/
def RM.DecodesMulticast (rm : RM) (report icnID : List UInt8) (paths : ListSet (List UInt8))
    (alternatives : List NodeID) : Prop :=
  ∃ d, MulticastDelivery.read (dispathPayload report) = .ok d ∧
    rm.dispathToHandler .updatePath report = .ok (rm.recordMulticast d) ∧
    d.stop ≤ (dispathPayload report).length ∧ d.icnID = icnID ∧
    (∀ path, path ∈ d.paths ↔ path ∈ paths) ∧ ∀ n, n ∈ d.alternatives ↔ n ∈ alternatives

theorem RM.dispathToHandler_multicast (rm : RM) {body : List UInt8} {d : MulticastDelivery}
    (h : MulticastDelivery.read (dispathPayload (updateDelivery :: body)) = .ok d) :
    rm.dispathToHandler .updatePath (updateDelivery :: body) = .ok (rm.recordMulticast d) := by
  simp only [dispathToHandler, h]
  rfl

theorem idsSize_of_icnID (h : bytesAt data 0 ((byteAt data 1).toNat * pursuitIDLen + 1 + 1) =
    itemBlock k) : (byteAt data 1).toNat * pursuitIDLen + 1 + 1 = 2 + k.length * pursuitIDLen := by
  rw [← itemBlock_length, ← h, bytesAt_length]

section
variable (k paths alts)

theorem drop_item : (multicastBody k paths alts).drop (2 + k.length * pursuitIDLen) =
    UInt8.ofNat paths.length :: (pathvectorsField paths ++
      (UInt8.ofNat alts.length :: labels alts)) :=
  drop_left' (itemBlock_length k)

theorem drop_noPaths : (multicastBody k paths alts).drop (2 + k.length * pursuitIDLen + 1) =
    pathvectorsField paths ++ (UInt8.ofNat alts.length :: labels alts) := by
  rw [← drop_drop, drop_item]
  rfl

theorem drop_paths : (multicastBody k paths alts).drop
    (2 + k.length * pursuitIDLen + 1 + pathsSize paths) =
      UInt8.ofNat alts.length :: labels alts := by
  rw [← drop_drop, drop_noPaths, drop_left' (pathvectorsField_length paths)]

variable {k paths alts}

theorem read_multicastBody (hk : k.length ≤ 255) (hpaths : paths.length ≤ 255)
    (hall : ∀ path ∈ paths, path.length ≤ 255) (hal : alts.length ≤ 255) :
    MulticastDelivery.read (multicastBody k paths alts) = .ok
      { icnID := itemBlock k
        paths := paths
        alternatives := alts
        stop := (multicastBody k paths alts).length } := by
  have hsize : (byteAt (multicastBody k paths alts) 1).toNat * pursuitIDLen + 1 + 1 =
      2 + k.length * pursuitIDLen := by
    have hbyte : byteAt (multicastBody k paths alts) 1 = UInt8.ofNat k.length := rfl
    rw [hbyte, toNat_ofNat_of_le hk]
    omega
  have hblock : bytesAt (multicastBody k paths alts) 0 (2 + k.length * pursuitIDLen) =
      itemBlock k := by
    rw [← itemBlock_length]
    exact bytesAt_of_drop rfl
  have hlab : (multicastBody k paths alts).drop
      (2 + k.length * pursuitIDLen + 1 + pathsSize paths + 1) = labels alts ++ [] := by
    rw [← drop_drop, drop_paths, append_nil]
    rfl
  rw [MulticastDelivery.read]
  simp only [hsize, hblock, byteAt_of_drop (drop_item k paths alts), toNat_ofNat_of_le hpaths,
    readPaths_of_drop hall (drop_noPaths k paths alts), ok_bind,
    byteAt_of_drop (drop_paths k paths alts), toNat_ofNat_of_le hal, multicastBody_length]
  rw [vectorsAt_of_drop hlab]
  rfl

theorem multicast_decoded_iff (rm : RM) (hk : k.length ≤ 255) (paths : ListSet (List UInt8))
    (hpaths : paths.toList.length ≤ 255) (hal : alts.length ≤ 255) :
    rm.DecodesMulticast (updateDelivery :: multicastBody k paths.toList alts) (itemBlock k)
      paths alts ↔ (multicastBody k paths.toList alts).length ≤ 255 := by
  set body := multicastBody k paths.toList alts with hbody
  constructor
  · intro hdec
    obtain ⟨d, hread, -, hstop, hicn, hp, hn⟩ := hdec
    rw [dispathPayload_cons] at hread hstop
    set data := body.take (body.length % 256) with hdata
    have hlen : data.length = body.length % 256 := by
      rw [length_take]
      omega
    obtain ⟨x, hx, h⟩ := bind_eq_ok.1 hread
    obtain rfl := ok.inj h
    dsimp only at hstop hicn hp
    have hsize := idsSize_of_icnID hicn
    rw [hsize] at hx
    obtain ⟨hcount, hidx⟩ := readPaths_spec hx
    have hidx := hidx (by omega)
    -- the number of the paths was read inside, and the paths are those of the set, in some order
    rw [byteAt_take (by omega), byteAt_of_drop (drop_item k paths.toList alts),
      toNat_ofNat_of_le hpaths] at hcount
    have hperm : paths.toList.Perm x.1 :=
      (paths.nodup.subperm fun path hpath => (hp path).2 hpath).perm_of_length_le hcount.le
    have hsum : pathsSize x.1 = pathsSize paths.toList := ((hperm.map _).sum_eq).symm
    rw [hsum] at hidx
    -- so the number of the alts is where it was written
    rw [hidx, byteAt_take (by omega), byteAt_of_drop (drop_paths k paths.toList alts),
      toNat_ofNat_of_le hal, ← multicastBody_length, ← hbody] at hstop
    omega
  · intro hshort
    have hall : ∀ path ∈ paths.toList, path.length ≤ 255 := by
      intro path hpath
      have hle : 1 + path.length ≤ pathsSize paths.toList :=
        single_le_sum (by simp) _ (mem_map_of_mem hpath)
      rw [multicastBody_length] at hshort
      omega
    have hpay : dispathPayload (updateDelivery :: body) = body := by
      rw [dispathPayload_cons, Nat.mod_eq_of_lt (by omega), take_length]
    have hread := read_multicastBody hk hpaths hall hal
    rw [← hbody, ← hpay] at hread
    refine ⟨_, hread, rm.dispathToHandler_multicast hread, ?_, rfl, fun _ => Iff.rfl,
      fun _ => Iff.rfl⟩
    rw [hpay]

end

/-! ### Unicast -/

/-- A unicast delivery is recorded as it was reported, without a read behind the payload. -/
def RM.DecodesUnicast (rm : RM) (report icnID : List UInt8) (publisher : NodeID)
    (path : List UInt8) (alternatives : List NodeID) : Prop :=
  ∃ d, UnicastDelivery.read (dispathPayload report) = d ∧
    rm.dispathToHandler .updateUnicastPath report = .ok (rm.recordUnicast d) ∧
    d.stop ≤ (dispathPayload report).length ∧ d.icnID = icnID ∧ d.publisher = publisher ∧
    d.path = some path ∧ ∀ n, n ∈ d.alternatives ↔ n ∈ alternatives

section
variable {pub : NodeID} {path : List UInt8}

theorem unicastDelivery_item (k : Id) (pub : NodeID) (path : List UInt8) (hal : alts.length ≤ 255) :
    unicastDelivery 1 (UInt8.ofNat k.length) (idBytes k) pub path alts = updateDelivery ::
        unicastBody k pub (path.take (path.length % 256)) alts := by
  have hlab : (labels alts).take (alts.length * nodeIDLen) =
      labels alts := take_of_length_le (labels_length alts).le
  have hlen : UInt8.ofNat (path.take (path.length % 256)).length = UInt8.ofNat path.length := by
    refine UInt8.toNat_inj.1 ?_
    rw [UInt8.toNat_ofNat', UInt8.toNat_ofNat', length_take]
    omega
  rw [unicastDelivery, unicastBody, hlen, toNat_ofNat_of_le hal, hlab]
  simp [itemBlock]

variable (k pub path alts)

theorem drop_itemBlock : (unicastBody k pub path alts).drop
    (2 + k.length * pursuitIDLen) = pub.toList ++ (1 :: UInt8.ofNat path.length ::
      (path ++ (UInt8.ofNat alts.length :: labels alts))) :=
  drop_left' (itemBlock_length k)

theorem drop_publisher : (unicastBody k pub path alts).drop
    (2 + k.length * pursuitIDLen + nodeIDLen) = 1 :: UInt8.ofNat path.length ::
      (path ++ (UInt8.ofNat alts.length :: labels alts)) := by
  rw [← drop_drop, drop_itemBlock, drop_left' pub.toList_length]

theorem drop_noUnicastPaths : (unicastBody k pub path alts).drop
    (2 + k.length * pursuitIDLen + nodeIDLen + 1) = UInt8.ofNat path.length ::
      (path ++ (UInt8.ofNat alts.length :: labels alts)) := by
  rw [← drop_drop, drop_publisher]
  rfl

theorem drop_pathLen : (unicastBody k pub path alts).drop
    (2 + k.length * pursuitIDLen + nodeIDLen + 2) =
      path ++ (UInt8.ofNat alts.length :: labels alts) := by
  rw [← drop_drop, drop_publisher]
  rfl

theorem drop_path : (unicastBody k pub path alts).drop
    (2 + k.length * pursuitIDLen + nodeIDLen + 2 + path.length) =
      UInt8.ofNat alts.length :: labels alts := by
  rw [← drop_drop, drop_pathLen, drop_left' rfl]

variable {k pub path alts}

theorem read_unicastBody (hk : k.length ≤ 255) (hpath : path.length ≤ 255)
    (hal : alts.length ≤ 255) :
    UnicastDelivery.read (unicastBody k pub path alts) =
      { icnID := itemBlock k
        publisher := pub
        path := some path
        alternatives := alts
        stop := (unicastBody k pub path alts).length } := by
  have hsize : (byteAt (unicastBody k pub path alts) 1).toNat * pursuitIDLen + 1 + 1 =
      2 + k.length * pursuitIDLen := by
    have hbyte : byteAt (unicastBody k pub path alts) 1 = UInt8.ofNat k.length := rfl
    rw [hbyte, toNat_ofNat_of_le hk]
    omega
  have hblock : bytesAt (unicastBody k pub path alts) 0
      (2 + k.length * pursuitIDLen) = itemBlock k := by
    rw [← itemBlock_length]
    exact bytesAt_of_drop rfl
  have hlab : (unicastBody k pub path alts).drop
      (2 + k.length * pursuitIDLen + nodeIDLen + 2 + path.length + 1) = labels alts ++ [] := by
    rw [← drop_drop, drop_path, append_nil]
    rfl
  have hone : (1 : UInt8).toNat > 0 := by decide
  have hidx : 2 + k.length * pursuitIDLen + nodeIDLen + 1 + (1 + path.length) =
      2 + k.length * pursuitIDLen + nodeIDLen + 2 + path.length := by omega
  rw [UnicastDelivery.read]
  simp only [hsize, hblock, byteAt_of_drop (drop_publisher k alts pub path),
    byteAt_of_drop (drop_noUnicastPaths k alts pub path),
    vectorAt_of_drop (drop_itemBlock k alts pub path), toNat_ofNat_of_le hpath,
    bytesAt_of_drop (drop_pathLen k alts pub path), if_pos hone, hidx,
    byteAt_of_drop (drop_path k alts pub path), toNat_ofNat_of_le hal,
    vectorsAt_of_drop hlab, unicastBody_length]

theorem unicast_decoded_iff (rm : RM) (hk : k.length ≤ 255) (pub : NodeID)
    (path : List UInt8) (hal : alts.length ≤ 255) :
    rm.DecodesUnicast (updateDelivery :: unicastBody k pub (path.take (path.length % 256))
      alts) (itemBlock k) pub path alts ↔
      (unicastBody k pub path alts).length ≤ 255 := by
  constructor
  · intro hdec
    obtain ⟨d, rfl, -, hstop, hicn, -, hpath, -⟩ := hdec
    rw [dispathPayload_cons] at hstop hicn hpath
    have hsize := idsSize_of_icnID hicn
    simp only [UnicastDelivery.read, hsize] at hstop hpath
    split at hpath
    · -- a path that was read is no longer than its length byte can say
      rename_i hpos
      have hread := congrArg length (Option.some.inj hpath)
      rw [bytesAt_length] at hread
      rw [if_pos hpos, hread] at hstop
      have hlt : path.length < 256 := hread ▸ UInt8.toNat_lt _
      rw [Nat.mod_eq_of_lt hlt, take_length] at hstop
      have hidx : 2 + k.length * pursuitIDLen + nodeIDLen + 1 + (1 + path.length) =
          2 + k.length * pursuitIDLen + nodeIDLen + 2 + path.length := by omega
      rw [hidx, length_take] at hstop
      rw [byteAt_take (by omega), byteAt_of_drop (drop_path k alts pub path),
        toNat_ofNat_of_le hal, ← unicastBody_length k pub path alts] at hstop
      omega
    · cases hpath
  · intro hshort
    have hpath : path.length ≤ 255 := by
      rw [unicastBody_length] at hshort
      omega
    have hpay : dispathPayload (updateDelivery :: unicastBody k pub path alts) =
        unicastBody k pub path alts := by
      rw [dispathPayload_cons, Nat.mod_eq_of_lt (by omega), take_length]
    rw [Nat.mod_eq_of_lt (by omega), take_length]
    refine ⟨_, rfl, rfl, ?_⟩
    rw [hpay, read_unicastBody hk hpath hal]
    exact ⟨le_rfl, rfl, rfl, rfl, fun _ => Iff.rfl⟩

end

/-! ### Both kinds of reports -/

/-- The request is about an item with one identifier; `extra` stands behind it in memory. -/
structure PathRequest.IsItem (r : PathRequest) (k : Id) (extra : List UInt8) : Prop where
  noIDs : r.noIDs = 1
  IDLen : r.IDLen = UInt8.ofNat k.length
  ids : r.ids = idBytes k ++ extra

theorem mem_reportUnicast_iff {tm : TMIgraph} {rm pub : NodeID} {r : PathRequest}
    {path report : List UInt8} (hrm : rm ∈ tm.nodes) :
    (∃ fid, .ok (.toRM .updateUnicastPath fid report) ∈ tm.reportUnicast rm r pub path alts) ↔
    path.length % 256 ≠ 0 ∧ report = unicastDelivery r.noIDs r.IDLen r.ids pub path alts := by
  have hpos : UInt8.ofNat path.length > 0 ↔ path.length % 256 ≠ 0 := by
    exact Nat.pos_iff_ne_zero
  have hfid : tm.getTMToNodeFID rm = .ok (tm.tmToNodeFID rm) := if_pos hrm
  rw [TMIgraph.reportUnicast, hfid]
  by_cases h : path.length % 256 = 0
  · rw [if_neg (fun hp => hpos.1 hp h)]
    simp [h]
  · rw [if_pos (hpos.2 h)]
    simp [h, Except.map]

/-- **A report is decoded to the same item, paths and alternatives** if and only if its payload has
at most 255 bytes. -/
theorem deliveries_decoded_iff (tm : TMIgraph) (rm : RM) (junk : ℕ → UInt8) (k : WireId)
    (alternatives : List NodeID) (hrm : rm.rmNodeID ∈ tm.nodes) (hal : alternatives.length ≤ 255) :
    (∀ (r : PathRequest) (extra : List UInt8) (paths : ListSet (List UInt8)), r.IsItem k.1 extra →
      extra.length = 2 → paths.size ≤ 255 →
      ((∃ report, multicastDelivery junk r.noIDs r.IDLen r.ids paths.toList alternatives =
          .ok report ∧ rm.DecodesMulticast report (itemBlock k.1) paths alternatives) ↔
        (multicastBody k.1 paths.toList alternatives).length ≤ 255)) ∧
    ∀ (r : PathRequest) (publisher : NodeID) (path : List UInt8), r.IsItem k.1 [] → path ≠ [] →
      ((∃ report, (∃ fid, .ok (.toRM .updateUnicastPath fid report) ∈
          tm.reportUnicast rm.rmNodeID r publisher path alternatives) ∧
          rm.DecodesUnicast report (itemBlock k.1) publisher path alternatives) ↔
        (unicastBody k.1 publisher path alternatives).length ≤ 255) := by
  obtain ⟨k, hk⟩ := k
  dsimp only at hk ⊢
  constructor
  · intro r extra paths hr hext hpaths
    rw [hr.noIDs, hr.IDLen, hr.ids, multicastDelivery_item junk hk hpaths hal hext,
      ← multicast_decoded_iff rm (by omega) paths hpaths hal]
    constructor
    · intro hdec
      obtain ⟨report, hrep, hdec⟩ := hdec
      obtain rfl := ok.inj hrep
      exact hdec
    · intro hdec
      exact ⟨_, rfl, hdec⟩
  · intro r publisher path hr hpath
    simp only [mem_reportUnicast_iff hrm]
    rw [hr.noIDs, hr.IDLen, hr.ids, append_nil, unicastDelivery_item k publisher path hal]
    have hdec := unicast_decoded_iff rm (by omega) publisher path hal (k := k)
    constructor
    · intro hex
      obtain ⟨report, ⟨-, rfl⟩, h⟩ := hex
      exact hdec.1 h
    · intro hshort
      have hpos := length_pos_iff.2 hpath
      have hlen := hshort
      rw [unicastBody_length] at hlen
      exact ⟨_, ⟨by omega, rfl⟩, hdec.2 hshort⟩

def exampleRM : RM := ⟨TMIgraph.exampleLineTM, .ofByte 1, ∅, ∅, ∅, ∅⟩

def examplePath : List UInt8 := TMIgraph.pathString [.ofByte 1, .ofByte 2, .ofByte 3]

def exampleLongPath : List UInt8 := TMIgraph.pathString ((List.range 26).map fun n =>
  .ofByte (UInt8.ofNat n))

/-- One path and one alternative, in both kinds of reports. -/
theorem deliveries_decoded_line :
    (∃ report, multicastDelivery (fun _ => 0) 1 1 (idBytes [.ofByte 9] ++ [0, 0]) [examplePath]
        [.ofByte 4] = .ok report ∧
      exampleRM.DecodesMulticast report (itemBlock [.ofByte 9]) ⟨[examplePath], by decide⟩
        [.ofByte 4]) ∧
    ∃ report, (∃ fid, .ok (.toRM .updateUnicastPath fid report) ∈
        TMIgraph.exampleLineTM.reportUnicast (.ofByte 1)
          ⟨[], [], 0, 1, 1, idBytes [.ofByte 9]⟩ (.ofByte 1) examplePath [.ofByte 4]) ∧
      exampleRM.DecodesUnicast report (itemBlock [.ofByte 9]) (.ofByte 1) examplePath
        [.ofByte 4] := by
  have h := deliveries_decoded_iff TMIgraph.exampleLineTM exampleRM (fun _ => 0)
    ⟨[.ofByte 9], by decide⟩ [.ofByte 4] (by decide) (by decide)
  exact ⟨(h.1 ⟨[], [], 0, 1, 1, idBytes [.ofByte 9] ++ [0, 0]⟩ [0, 0] ⟨[examplePath], by decide⟩
      ⟨rfl, rfl, rfl⟩ rfl (by decide)).2 (by decide),
    (h.2 ⟨[], [], 0, 1, 1, idBytes [.ofByte 9]⟩ (.ofByte 1) examplePath
      ⟨rfl, rfl, rfl⟩ (by decide)).2 (by decide)⟩

/-- With a path of 26 nodes the 271 bytes are cut to 15: the item, the number of paths, the length
byte 2 for 258 bytes, and three bytes of the path. -/
theorem deliveries_decoded_fails_at_26_nodes :
    ∃ report, multicastDelivery (fun _ => 0) 1 1 (idBytes [.ofByte 9] ++ [0, 0]) [exampleLongPath]
        [] = .ok report ∧
      (dispathPayload report).length = 15 ∧
      ¬ exampleRM.DecodesMulticast report (itemBlock [.ofByte 9]) ⟨[exampleLongPath],
        List.nodup_singleton _⟩ [] := by
  have hpaths : [exampleLongPath].length ≤ 255 := by decide
  have hal : ([] : List NodeID).length ≤ 255 := by decide
  have hrep : multicastDelivery (fun _ => 0) 1 1 (idBytes [.ofByte 9] ++ [0, 0])
      [exampleLongPath] [] = .ok (updateDelivery :: multicastBody [.ofByte 9] [exampleLongPath] []) := by
    have hk : [Fragment.ofByte 9].length < 256 := by decide
    have hext : ([0, 0] : List UInt8).length = 2 := rfl
    exact multicastDelivery_item (fun _ => 0) hk hpaths hal hext
  have hlong : (multicastBody [.ofByte 9] [exampleLongPath] []).length = 271 := by decide +kernel
  refine ⟨_, hrep, ?_, fun hdec => ?_⟩
  · rw [dispathPayload_cons, hlong]
    rfl
  · have hlen := (multicast_decoded_iff exampleRM (by decide) ⟨[exampleLongPath],
      nodup_singleton _⟩ hpaths hal).1 hdec
    rw [hlong] at hlen
    omega

end Blackadder
