/-
**Broken deliveries.**

When a node reports that it has lost a neighbour, the resiliency manager goes through the paths of all
deliveries. A path is split at each of the two characters of its arrows. A delivery counts as broken
when both nodes are found on one of its paths, wherever they are: the link between them need not be
one of the path.
-/

import Blackadder.RmRequests

namespace Blackadder

open List

/-- `boost::split` at the characters of an arrow. -/
def splitPath : List UInt8 → List (List UInt8)
  | [] => [[]]
  | b :: path => if b = 45 ∨ b = 62 then [] :: splitPath path else (splitPath path).modifyHead (b :: ·)

/-- The nodes of a path; there is nothing between the two characters of an arrow. -/
def pathNodes (path : List UInt8) : List (List UInt8) := (splitPath path).filter (· ≠ [])

/-- What a search over the deliveries collects. -/
structure Search where
  publishers : List UInt8 → ListSet (List UInt8)
  subscribers : List UInt8 → ListSet (List UInt8)
  affected : ListSet (List UInt8)

namespace Search

/-- A path of an item; the publisher is known, or is the first node. -/
def visit (u v : NodeID) (icnID : List UInt8) (publisher : Option (List UInt8)) (s : Search)
    (path : List UInt8) : Search :=
  let nodes := splitPath path
  { publishers := Function.update s.publishers icnID
      ((s.publishers icnID).insert (publisher.getD (nodes.headD [])))
    subscribers := Function.update s.subscribers icnID
      ((s.subscribers icnID).insert (nodes.getLastD []))
    affected := if u.toList ∈ nodes ∧ v.toList ∈ nodes then s.affected.insert icnID else s.affected }

/-- A list of paths, each with its item and its publisher. -/
def visitAll (u v : NodeID) (s : Search) (l : List (List UInt8 × Option (List UInt8) × List UInt8)) :
    Search :=
  l.foldl (fun s x => s.visit u v x.1 x.2.1 x.2.2) s

end Search

namespace RM

variable (rm : RM)

/-- The deliveries of `path_info`, in the order in which they are searched. -/
def multicastPaths : List (List UInt8 × Option (List UInt8) × List UInt8) :=
  rm.pathInfo.keys.toList.flatMap fun icnID =>
    ((rm.pathInfo.get icnID).getD ∅).toList.map fun path => (icnID, none, path)

def unicastPaths : List (List UInt8 × Option (List UInt8) × List UInt8) :=
  rm.unicastPathInfo.keys.toList.flatMap fun icnID =>
    let paths := (rm.unicastPathInfo.get icnID).getD ∅
    paths.keys.toList.map fun pub => (icnID, some pub.toList, (paths.get pub).getD [])

def searchMulticast (u v : NodeID) : Search :=
  Search.visitAll u v ⟨fun _ => ∅, fun _ => ∅, ∅⟩ rm.multicastPaths

/-- The second search goes on with the nodes of the first one. -/
def searchUnicast (u v : NodeID) : Search :=
  Search.visitAll u v { rm.searchMulticast u v with affected := ∅ } rm.unicastPaths

/-- `handleLinkStateNotification` for a report of `u` about `v`. -/
def handleLinkStateNotification (ig : Igraph) (junk : ℕ → UInt8) (u v : NodeID) :
    List (Except TmFault RecoveryRequest) :=
  let ids := (rm.searchMulticast u v).affected
  let s := rm.searchUnicast u v
  let nodes (f : List UInt8 → ListSet (List UInt8)) (icnID : List UInt8) : ListSet NodeID :=
    ListSet.ofList ((f icnID).toList.map (vectorAt nodeIDLen · 0))
  (if ids.isEmpty then []
    else rm.requestMulticastTree ig junk (nodes s.publishers) (nodes s.subscribers) ids) ++
  if s.affected.isEmpty then []
  else rm.requestUnicastPaths ig junk (nodes s.publishers) (nodes s.subscribers) s.affected

/-- Recovery is requested for an item. -/
def Requested (u v : NodeID) (icnID : List UInt8) : Prop :=
  icnID ∈ (rm.searchMulticast u v).affected ∨ icnID ∈ (rm.searchUnicast u v).affected

/-- A path of a delivery of an item. -/
def HasPath (icnID path : List UInt8) : Prop :=
  (∃ paths, rm.pathInfo.get icnID = some paths ∧ path ∈ paths) ∨
    ∃ paths pub, rm.unicastPathInfo.get icnID = some paths ∧ paths.get pub = some path

end RM

/-- The two nodes are next to each other on a path. -/
def Adjacent (u v : NodeID) (path : List UInt8) : Prop :=
  [u.toList, v.toList] <:+: pathNodes path ∨ [v.toList, u.toList] <:+: pathNodes path

instance (u v : NodeID) (path : List UInt8) : Decidable (Adjacent u v path) :=
  inferInstanceAs (Decidable (_ ∨ _))

variable {rm : RM} {u v : NodeID} {icnID path : List UInt8} {s : Search}

/-! ### What is found -/

/-- Both nodes are found on a path. -/
def OnPath (u v : NodeID) (path : List UInt8) : Prop :=
  u.toList ∈ splitPath path ∧ v.toList ∈ splitPath path

theorem mem_affected_visit (id : List UInt8) (pub : Option (List UInt8)) :
    icnID ∈ (s.visit u v id pub path).affected ↔
      icnID ∈ s.affected ∨ id = icnID ∧ OnPath u v path := by
  rw [Search.visit, OnPath]
  split
  case isTrue h => rw [ListSet.mem_insert, and_iff_left h, or_comm, eq_comm]
  case isFalse h => rw [and_iff_right_of_imp fun h' => absurd h' h, or_iff_left h]

theorem mem_affected_visitAll (l : List (List UInt8 × Option (List UInt8) × List UInt8)) :
    icnID ∈ (s.visitAll u v l).affected ↔
      icnID ∈ s.affected ∨ ∃ x ∈ l, x.1 = icnID ∧ OnPath u v x.2.2 := by
  induction l generalizing s with
  | nil => simp [Search.visitAll]
  | cons x l ih =>
    rw [Search.visitAll, foldl_cons, ← Search.visitAll, ih, mem_affected_visit, exists_mem_cons_iff,
      or_assoc]

theorem RM.exists_mem_multicastPaths {P : List UInt8 → Prop} :
    (∃ x ∈ rm.multicastPaths, x.1 = icnID ∧ P x.2.2) ↔
      ∃ path, (∃ paths, rm.pathInfo.get icnID = some paths ∧ path ∈ paths) ∧ P path := by
  simp only [multicastPaths, mem_flatMap, mem_map]
  constructor
  · rintro ⟨_, ⟨id, hid, path, hpath, rfl⟩, rfl, hP⟩
    obtain ⟨paths, hget⟩ := Table.mem_iff.1 hid
    exact ⟨path, ⟨paths, hget, by rwa [hget] at hpath⟩, hP⟩
  · rintro ⟨path, ⟨paths, hget, hpath⟩, hP⟩
    exact ⟨_, ⟨icnID, Table.mem_of_get hget, path, by rwa [hget], rfl⟩, rfl, hP⟩

theorem RM.exists_mem_unicastPaths {P : List UInt8 → Prop} :
    (∃ x ∈ rm.unicastPaths, x.1 = icnID ∧ P x.2.2) ↔ ∃ path, (∃ paths pub,
      rm.unicastPathInfo.get icnID = some paths ∧ paths.get pub = some path) ∧ P path := by
  simp only [unicastPaths, mem_flatMap, mem_map]
  constructor
  · rintro ⟨_, ⟨id, hid, pub, hpub, rfl⟩, rfl, hP⟩
    obtain ⟨paths, hget⟩ := Table.mem_iff.1 hid
    rw [hget] at hpub hP
    obtain ⟨path, hpath⟩ := Table.mem_iff.1 hpub
    exact ⟨path, ⟨paths, pub, hget, hpath⟩, by rwa [hpath] at hP⟩
  · rintro ⟨path, ⟨paths, pub, hget, hpath⟩, hP⟩
    refine ⟨_, ⟨icnID, Table.mem_of_get hget, pub, ?_, rfl⟩, rfl, ?_⟩ <;> rw [hget]
    · exact Table.mem_of_get hpath
    · simpa [hpath] using hP

theorem RM.requested_iff :
    rm.Requested u v icnID ↔ ∃ path, rm.HasPath icnID path ∧ OnPath u v path := by
  rw [Requested, searchUnicast, searchMulticast, mem_affected_visitAll, mem_affected_visitAll,
    exists_mem_multicastPaths, exists_mem_unicastPaths]
  simp [HasPath, or_and_right, exists_or]

theorem mem_splitPath_iff : u.toList ∈ splitPath path ↔ u.toList ∈ pathNodes path := by
  have hne : u.toList ≠ [] := ne_nil_of_length_pos (by rw [u.toList_length]; decide)
  simp [pathNodes, hne]

theorem Adjacent.onPath (h : Adjacent u v path) : OnPath u v path := by
  rw [OnPath, mem_splitPath_iff, mem_splitPath_iff]
  obtain h | h := h <;> exact ⟨h.subset (by simp), h.subset (by simp)⟩

/-- A delivery from node 1 over node 2 to node 3. -/
def exampleDelivery : RM :=
  { RM.initial TMIgraph.exampleLineTM (.ofByte 1) with
    pathInfo := (∅ : Table (List UInt8) (ListSet (List UInt8))).set [1]
      ⟨[TMIgraph.pathString [.ofByte 1, .ofByte 2, .ofByte 3]], nodup_singleton _⟩ }

end Blackadder
