/-
**The resource manager of SDN domains.**

`apps/icn-sdn/resource_manager.cpp` gives out labels and LIDs, from one pool of bit positions,
always the least free one; 0 stands for "unassigned", and position 0 goes to the TM first. The
functions stop at position 255, but for the one that answers the SDN controller; from then on LIDs
have no bit. The node of a TMFID is a parameter; for an unknown one it is the node without a label.
-/

import Mathlib.Data.List.Range

namespace Blackadder

open Function List

/-! ### Labels and LIDs -/

def numberToNodeId (number : ℕ) : String :=
  let digits := Nat.toDigits 10 number
  String.ofList (List.replicate (8 - digits.length) '0' ++ digits)

def positionToLid (number : ℕ) : String :=
  String.ofList ((range 256).map fun i => if i = number then '1' else '0')

def tmNodeId : String := "00000001"

theorem numberToNodeId_inj {n n' : ℕ} (h : numberToNodeId n = numberToNodeId n') : n = n' := by
  have hvalue (n : ℕ) : Nat.ofDigitChars 10 (numberToNodeId n).toList 0 = n := by
    rw [numberToNodeId, String.toList_ofList, Nat.ofDigitChars_append,
      Nat.ofDigitChars_replicate_zero, Nat.mul_zero,
      Nat.ofDigitChars_toDigits (by decide) (by decide)]
  rw [← hvalue n, h, hvalue]

theorem length_numberToNodeId {n : ℕ} (h : n < 100000000) :
    (numberToNodeId n).toList.length = 8 := by
  have hlen : (Nat.toDigits 10 n).length ≤ 8 :=
    (Nat.length_toDigits_le_iff (by decide) (by decide)).2 h
  rw [numberToNodeId, String.toList_ofList, length_append, length_replicate]
  omega

theorem numberToNodeId_one : numberToNodeId 1 = tmNodeId := by decide +kernel

theorem length_tmNodeId : tmNodeId.toList.length = 8 := by decide

def bitsSet (lid : String) : ℕ := lid.toList.count '1'

theorem bitsSet_positionToLid (number : ℕ) :
    bitsSet (positionToLid number) = if number < 256 then 1 else 0 := by
  have hcount (l : List ℕ) :
      (l.map fun i => if i = number then '1' else '0').count '1' = l.count number := by
    rw [count, countP_map]
    refine countP_congr ?_
    intro i _
    by_cases hi : i = number <;> simp [hi]
  rw [bitsSet, positionToLid, String.toList_ofList, hcount, count_range]

theorem positionToLid_inj {p q : ℕ} (hp : p < 256) (h : positionToLid p = positionToLid q) :
    p = q := by
  have hlist := congrArg (fun s => s.toList[p]?) h
  simp only [positionToLid, String.toList_ofList, getElem?_map, getElem?_range hp] at hlist
  by_contra hne
  simp [hne] at hlist

/-! ### The state -/

structure RmNode where
  label : String
  isTM : Bool
  iLid : String
  connections : List (String × String)

/-- An entry of `given_link_ids` or of `given_internal_link_ids`. -/
inductive Slot
  | link (id : String)
  | internal (node : String)
deriving DecidableEq

/-- A key that is not in a map has the value 0, as with `operator[]`. -/
structure ResourceManager where
  givenNids : List ℕ
  givenNodeIds : String → ℕ
  givenLids : List ℕ
  /-- `given_link_ids` and `given_internal_link_ids`. -/
  position : Slot → ℕ
  networkNodes : List RmNode

namespace ResourceManager

def firstFree (given : List ℕ) : ℕ → ℕ → ℕ
  | 0, n => n
  | fuel + 1, n => if n ∈ given then firstFree given fuel (n + 1) else n

variable (rm : ResourceManager)

def generateNodeIdNumber : ℕ := firstFree rm.givenNids rm.givenNids.length 1

def generateLinkIdBitPosition : ℕ := firstFree rm.givenLids rm.givenLids.length 0

def addNode (src : String) (tmrv : Bool) : ResourceManager :=
  { rm with networkNodes := rm.networkNodes ++ [⟨src, tmrv, "", []⟩] }

def addNodeConnector (srcNode dstNode lid ilid : String) : ResourceManager :=
  { rm with networkNodes := rm.networkNodes.map fun n =>
      if n.label = srcNode then
        { n with iLid := ilid, connections := n.connections ++ [(dstNode, lid)] }
      else n }

def nodeLimit : ℕ := 99999999

def generateNodeId (nodeInformation : String) : ResourceManager × String :=
  let nidNumber := rm.generateNodeIdNumber
  if nidNumber ≠ nodeLimit then
    if rm.givenNodeIds nodeInformation = 0 then
      let nid := numberToNodeId nidNumber
      ({ rm with
          givenNodeIds := Function.update rm.givenNodeIds nodeInformation nidNumber
          givenNids := rm.givenNids ++ [nidNumber] }.addNode nid (nidNumber == 1), nid)
    else (rm, numberToNodeId (rm.givenNodeIds nodeInformation))
  else (rm, "")

def assign (slot : Slot) (number : ℕ) : ResourceManager :=
  { rm with
    givenLids := rm.givenLids ++ [number]
    position := Function.update rm.position slot number }

def generateInternalLinkId (srcNodeId : String) (flag : Bool) : ResourceManager × String :=
  if rm.position (.internal srcNodeId) = 0 ∧ flag = true then
    let ilidNumber := rm.generateLinkIdBitPosition
    if ilidNumber = 255 then (rm, "")
    else (rm.assign (.internal srcNodeId) ilidNumber, positionToLid ilidNumber)
  else (rm, positionToLid (rm.position (.internal srcNodeId)))

def linkKey (src dst : String) : String := src ++ "," ++ dst

def sourceIlid (srcNodeId lidBits : String) : ResourceManager × String :=
  if srcNodeId = tmNodeId then rm.generateInternalLinkId srcNodeId false else (rm, lidBits)

def generateLinkId (nodeInformation attachedNodeInformation : String) : ResourceManager × String :=
  let src := rm.generateNodeId nodeInformation
  let dst := src.1.generateNodeId attachedNodeInformation
  let slot := Slot.link (linkKey src.2 dst.2)
  if dst.1.position slot = 0 then
    let lidNumber := dst.1.generateLinkIdBitPosition
    if lidNumber = 255 then (dst.1, "")
    else
      let lidBits := positionToLid lidNumber
      let ilid := dst.1.sourceIlid src.2 lidBits
      ((ilid.1.assign slot lidNumber).addNodeConnector src.2 dst.2 lidBits ilid.2,
        src.2 ++ "," ++ toString lidNumber)
  else (dst.1, src.2 ++ "," ++ toString (dst.1.position slot))

structure Offer where
  nid : String
  lid : String
  ilid : String
  srcmac : String

/-- `generate_link_id` for a request of the SDN controller. At position 255 it goes on. -/
def generateLinkIdOffer (srcnode dstnode srcmac : String) : ResourceManager × Offer :=
  let src := rm.generateNodeId srcnode
  let dst := src.1.generateNodeId dstnode
  let slot := Slot.link (linkKey src.2 dst.2)
  if dst.1.position slot = 0 then
    let lidNumber := dst.1.generateLinkIdBitPosition
    let lidBits := positionToLid lidNumber
    let ilid := dst.1.sourceIlid src.2 lidBits
    ((ilid.1.assign slot lidNumber).addNodeConnector src.2 dst.2 lidBits ilid.2,
      ⟨src.2, lidBits, ilid.2, srcmac⟩)
  else (dst.1, ⟨src.2, positionToLid (dst.1.position slot), "", srcmac⟩)

structure IcnOffer where
  nid : String
  lid : String
  ilid : String

/-- `generate_link_id_from_icn`, with the label that `get_attached_node` finds. -/
def generateLinkIdFromIcn (attached : ResourceManager → String → String)
    (tmfid macAddress : String) : ResourceManager × Option IcnOffer :=
  let dst := attached rm tmfid
  let src := rm.generateNodeId ("host:" ++ macAddress)
  let slot := Slot.link (linkKey src.2 dst)
  let ilid := src.1.generateInternalLinkId src.2 true
  if ilid.1.position slot = 0 then
    let lidNumber := ilid.1.generateLinkIdBitPosition
    if lidNumber = 255 then (ilid.1, none)
    else
      let lidBits := positionToLid lidNumber
      ((ilid.1.assign slot lidNumber).addNodeConnector src.2 dst lidBits ilid.2,
        some ⟨src.2, lidBits, ilid.2⟩)
  else (ilid.1, some ⟨src.2, positionToLid (ilid.1.position slot), ilid.2⟩)

def init (tmNid tmOfId attachedSwitchOfId : String) : ResourceManager :=
  let rm : ResourceManager := ⟨[], fun _ => 0, [], fun _ => 0, []⟩
  ((rm.generateInternalLinkId tmNid true).1.generateLinkId tmOfId attachedSwitchOfId).1

/-! ### Requests -/

inductive Request
  | sdn (srcnode dstnode srcmac : String)
  | icn (tmfid macAddress : String)

inductive Owner
  | link (src dst : String)
  | host (node : String)
deriving DecidableEq

def Owner.slot : Owner → Slot
  | .link src dst => .link (linkKey src dst)
  | .host node => .internal node

def Owner.label : Owner → String
  | .link src _ => src
  | .host node => node

def nodeId (nodeInformation : String) : String := numberToNodeId (rm.givenNodeIds nodeInformation)

def handOut (owner : Owner) (lid : String) : List (Owner × String) :=
  if lid = "" then [] else [(owner, lid)]

/-- The LIDs that are handed out. For a link of the SDN controller the internal LID of its source
counts if this is the TM. -/
def serve (attached : ResourceManager → String → String) :
    Request → ResourceManager × List (Owner × String)
  | .sdn srcnode dstnode srcmac =>
    let answer := rm.generateLinkIdOffer srcnode dstnode srcmac
    let link := Owner.link (answer.1.nodeId srcnode) (answer.1.nodeId dstnode)
    (answer.1, handOut link answer.2.lid ++
      if answer.2.nid = tmNodeId then handOut (.host answer.2.nid) answer.2.ilid else [])
  | .icn tmfid macAddress =>
    let answer := rm.generateLinkIdFromIcn attached tmfid macAddress
    let link := Owner.link (answer.1.nodeId ("host:" ++ macAddress)) (attached rm tmfid)
    (answer.1, match answer.2 with
      | none => []
      | some offer => handOut link offer.lid ++ handOut (.host offer.nid) offer.ilid)

def missing (slot : Slot) : ℕ := if rm.position slot = 0 then 1 else 0

def needs (attached : ResourceManager → String → String) : Request → ℕ
  | .sdn srcnode dstnode _ =>
    let rm' := ((rm.generateNodeId srcnode).1.generateNodeId dstnode).1
    rm'.missing (.link (linkKey (rm'.nodeId srcnode) (rm'.nodeId dstnode)))
  | .icn tmfid macAddress =>
    let rm' := (rm.generateNodeId ("host:" ++ macAddress)).1
    let src := rm'.nodeId ("host:" ++ macAddress)
    rm'.missing (.internal src) + rm'.missing (.link (linkKey src (attached rm tmfid)))

/-- The request needs no new LID, or not all 256 LIDs are given. -/
def Fits (attached : ResourceManager → String → String) (r : Request) : Prop :=
  rm.givenLids.length < 256 ∨ rm.needs attached r = 0

def IdsLeft : Prop := rm.givenNids.length + 2 < nodeLimit

end ResourceManager

structure Served where
  rm : ResourceManager
  handedOut : List (ResourceManager.Owner × String)

namespace Served

open ResourceManager

/-- The link of the TM to its switch has a LID, and the TM an internal one. -/
def start (tmNid tmOfId attachedSwitchOfId : String) : Served :=
  let rm := ResourceManager.init tmNid tmOfId attachedSwitchOfId
  let src := rm.nodeId tmOfId
  let dst := rm.nodeId attachedSwitchOfId
  ⟨rm, handOut (.link src dst) (positionToLid (rm.position (.link (linkKey src dst)))) ++
    handOut (.host src) (rm.generateInternalLinkId src false).2⟩

def step (attached : ResourceManager → String → String) (s : Served) (r : Request) : Served :=
  ⟨(s.rm.serve attached r).1, s.handedOut ++ (s.rm.serve attached r).2⟩

def run (attached : ResourceManager → String → String) (s : Served) (requests : List Request) :
    Served :=
  requests.foldl (step attached) s

/-- Each LID has one bit, different links and hosts have different ones, and labels tell nodes
apart. -/
structure Right (s : Served) : Prop where
  oneBit : ∀ e ∈ s.handedOut, bitsSet e.2 = 1
  distinct : ∀ e ∈ s.handedOut, ∀ e' ∈ s.handedOut, e.2 = e'.2 → e.1 = e'.1
  labels : ∀ x y, s.rm.givenNodeIds x ≠ 0 → s.rm.nodeId x = s.rm.nodeId y → x = y

end Served

namespace ResourceManager

variable {rm rm' : ResourceManager} {x y src dst : String} {slot : Slot}

/-! ### The pool of positions -/

theorem firstFree_range' (a n fuel m : ℕ) (h : m + fuel = n) :
    firstFree (range' a n) fuel (a + m) = a + n := by
  induction fuel generalizing m with
  | zero => rw [firstFree, ← h, Nat.add_zero]
  | succ fuel ih =>
    have hmem : a + m ∈ range' a n := by
      rw [mem_range'_1]
      omega
    rw [firstFree, if_pos hmem, Nat.add_assoc, ih (m + 1) (by omega)]

theorem inj_update {κ : Type} [DecidableEq κ] {f : κ → ℕ} {n : ℕ}
    (hf : ∀ a b, f a ≠ 0 → f a = f b → a = b) (hn : ∀ a, f a < n) (k : κ) :
    ∀ a b, Function.update f k n a ≠ 0 → Function.update f k n a = Function.update f k n b →
      a = b := by
  intro a b hne heq
  have ha := hn a
  have hb := hn b
  rw [update_apply] at hne
  rw [update_apply, update_apply] at heq
  by_cases hak : a = k
  · by_cases hbk : b = k
    · exact hak.trans hbk.symm
    · rw [if_pos hak, if_neg hbk] at heq
      omega
  · rw [if_neg hak] at hne heq
    by_cases hbk : b = k
    · rw [if_pos hbk] at heq
      omega
    · rw [if_neg hbk] at heq
      exact hf a b hne heq

/-- The first positions are given, to different entries. Position 0 is, so that no entry is 0 by
assignment. -/
structure Pool (given : List ℕ) (position : Slot → ℕ) : Prop where
  given_eq : given = range given.length
  pos : 0 < given.length
  lt : ∀ slot, position slot < given.length
  inj : ∀ a b, position a ≠ 0 → position a = position b → a = b

theorem generateLinkIdBitPosition_eq (h : rm.givenLids = range rm.givenLids.length) :
    rm.generateLinkIdBitPosition = rm.givenLids.length := by
  have := firstFree_range' 0 rm.givenLids.length rm.givenLids.length 0 (by omega)
  rwa [← range_eq_range', ← h, Nat.zero_add, Nat.zero_add] at this

@[simp] theorem position_assign (slot slot' : Slot) (number : ℕ) :
    (rm.assign slot number).position slot' = if slot' = slot then number else rm.position slot' :=
  update_apply _ _ _ _

@[simp] theorem length_assign (slot : Slot) (number : ℕ) :
    (rm.assign slot number).givenLids.length = rm.givenLids.length + 1 := by
  rw [assign, length_append, length_singleton]

theorem Pool.assign (h : Pool rm.givenLids rm.position) (slot : Slot) :
    Pool (rm.assign slot rm.givenLids.length).givenLids
      (rm.assign slot rm.givenLids.length).position := by
  refine ⟨?_, by simp, ?_, inj_update h.inj h.lt slot⟩
  · rw [length_assign, range_succ, ← h.given_eq, ResourceManager.assign]
  · intro slot'
    have := h.lt slot'
    rw [length_assign, position_assign]
    split <;> omega

def Keeps (rm rm' : ResourceManager) : Prop :=
  ∀ slot, rm.position slot ≠ 0 → rm'.position slot = rm.position slot

theorem Keeps.trans {rm'' : ResourceManager} (h : rm.Keeps rm') (h' : rm'.Keeps rm'') :
    rm.Keeps rm'' := by
  intro slot hne
  have heq := h slot hne
  rw [← heq]
  exact h' slot (heq ▸ hne)

theorem keeps_assign (hslot : rm.position slot = 0) (number : ℕ) :
    rm.Keeps (rm.assign slot number) := by
  intro slot' hne
  rw [position_assign, if_neg]
  rintro rfl
  exact hne hslot

/-! ### Labels -/

structure Labels (given : List ℕ) (ids : String → ℕ) : Prop where
  given_eq : given = range' 1 given.length
  le : ∀ x, ids x ≤ given.length
  inj : ∀ x y, ids x ≠ 0 → ids x = ids y → x = y

structure Labelled (rm : ResourceManager) (x : String) (rm' : ResourceManager) : Prop where
  labels : Labels rm'.givenNids rm'.givenNodeIds
  known : rm'.givenNodeIds x ≠ 0
  new : rm.givenNodeIds x = 0 → rm'.givenNodeIds x = rm.givenNids.length + 1
  keeps : ∀ y, rm.givenNodeIds y ≠ 0 → rm'.givenNodeIds y = rm.givenNodeIds y
  others : ∀ y, y ≠ x → rm'.givenNodeIds y = rm.givenNodeIds y
  grows : rm.givenNids.length ≤ rm'.givenNids.length
  length : rm'.givenNids.length ≤ rm.givenNids.length + 1
  givenLids : rm'.givenLids = rm.givenLids
  position : rm'.position = rm.position

section
variable (h : Labels rm.givenNids rm.givenNodeIds)
include h

theorem generateNodeIdNumber_eq : rm.generateNodeIdNumber = rm.givenNids.length + 1 := by
  have := firstFree_range' 1 rm.givenNids.length rm.givenNids.length 0 (by omega)
  rwa [← h.given_eq, Nat.add_zero, Nat.add_comm 1] at this

theorem generateNodeId_spec (hleft : rm.givenNids.length + 1 < nodeLimit) (x : String) :
    (rm.generateNodeId x).2 = (rm.generateNodeId x).1.nodeId x ∧
      Labelled rm x (rm.generateNodeId x).1 := by
  have hnum := generateNodeIdNumber_eq h
  rw [generateNodeId, hnum, if_pos (by omega)]
  split
  case isTrue hx =>
    refine ⟨by simp [nodeId, addNode], ?_⟩
    have hoth (y : String) (hyx : y ≠ x) : update rm.givenNodeIds x
        (rm.givenNids.length + 1) y = rm.givenNodeIds y := update_of_ne hyx _ _
    refine ⟨⟨?_, ?_, ?_⟩, by simp [addNode], fun _ => by simp [addNode], ?_, hoth,
      by simp [addNode], by simp [addNode], rfl, rfl⟩
    · simp only [addNode, length_append, length_singleton]
      rw [range'_1_concat, ← h.given_eq, Nat.add_comm 1]
    · intro y
      have := h.le y
      simp only [addNode, length_append, length_singleton, update_apply]
      split <;> omega
    · exact inj_update h.inj (fun y => Nat.lt_succ_of_le (h.le y)) x
    · intro y hy
      refine hoth y ?_
      rintro rfl
      exact hy hx
  case isFalse hx =>
    exact ⟨rfl, ⟨h, hx, fun h => absurd h hx, fun _ _ => rfl, fun _ _ => rfl, le_rfl, Nat.le_succ _,
      rfl, rfl⟩⟩

end

theorem Labelled.nodeId_eq (h : Labelled rm x rm') (hy : rm.givenNodeIds y ≠ 0) :
    rm'.nodeId y = rm.nodeId y := by
  rw [nodeId, nodeId, h.keeps y hy]

theorem length_nodeId (h : Labels rm.givenNids rm.givenNodeIds)
    (hleft : rm.givenNids.length < nodeLimit) (x : String) : (rm.nodeId x).toList.length = 8 := by
  refine length_numberToNodeId ?_
  have := h.le x
  simp only [nodeLimit] at hleft
  omega

/-! ### What a request does -/

theorem Owner.slot_inj {o o' : Owner} (ho : o.label.toList.length = 8)
    (ho' : o'.label.toList.length = 8) (h : o.slot = o'.slot) : o = o' := by
  cases o with
  | link src dst =>
    cases o' with
    | link src' dst' =>
      have hkey := congrArg String.toList (Slot.link.inj h)
      simp only [linkKey, String.toList_append, append_assoc] at hkey
      obtain ⟨hsrc, hdst⟩ := append_inj hkey (ho.trans ho'.symm)
      rw [String.toList_inj.1 hsrc, String.toList_inj.1 (append_cancel_left hdst)]
    | host node => simp [Owner.slot] at h
  | host node =>
    cases o' with
    | link src dst => simp [Owner.slot] at h
    | host node' => rw [Slot.internal.inj h]

theorem positionToLid_ne_empty (number : ℕ) : positionToLid number ≠ "" := by
  intro h
  have hlen := congrArg (fun s => s.toList.length) h
  simp [positionToLid] at hlen

@[simp] theorem handOut_positionToLid (o : Owner) (number : ℕ) :
    handOut o (positionToLid number) = [(o, positionToLid number)] :=
  if_neg (positionToLid_ne_empty number)

theorem mem_handOut (o : Owner) (number : ℕ) :
    (o, positionToLid number) ∈ handOut o (positionToLid number) := by
  rw [handOut_positionToLid]
  exact mem_singleton.2 rfl

@[simp] theorem handOut_empty (o : Owner) : handOut o "" = [] := rfl

@[simp] theorem nodeId_assign (slot : Slot) (number : ℕ) (x : String) :
    (rm.assign slot number).nodeId x = rm.nodeId x := rfl

@[simp] theorem nodeId_addNodeConnector (src dst lid ilid x : String) :
    (rm.addNodeConnector src dst lid ilid).nodeId x = rm.nodeId x := rfl

@[simp] theorem position_addNodeConnector (src dst lid ilid : String) :
    (rm.addNodeConnector src dst lid ilid).position = rm.position := rfl

@[simp] theorem givenLids_addNodeConnector (src dst lid ilid : String) :
    (rm.addNodeConnector src dst lid ilid).givenLids = rm.givenLids := rfl

/-- What serving a request that needs some positions does. -/
structure ServedAs (rm : ResourceManager) (needs : ℕ) (rm' : ResourceManager)
    (entries : List (Owner × String)) : Prop where
  labels : Labels rm'.givenNids rm'.givenNodeIds
  pool : Pool rm'.givenLids rm'.position
  keeps : rm.Keeps rm'
  nids : rm'.givenNids.length ≤ rm.givenNids.length + 2
  lids : rm'.givenLids.length ≤ rm.givenLids.length + needs
  entry : ∀ e ∈ entries, e.2 = positionToLid (rm'.position e.1.slot) ∧
    (rm'.position e.1.slot ≠ 0 ∨ e.1 = .host tmNodeId) ∧ e.1.label.toList.length = 8
  length : rm.givenLids.length ≤ 256 → rm.givenLids.length < 256 ∨ needs = 0 →
    rm'.givenLids.length ≤ 256
  refused : rm.givenLids.length < 256 → 256 < rm.givenLids.length + needs → entries = []
  exhausted : 256 ≤ rm.givenLids.length → needs ≠ 0 → ∃ e ∈ entries, bitsSet e.2 = 0

@[simp] theorem sourceIlid_fst (srcNodeId lidBits : String) :
    (rm.sourceIlid srcNodeId lidBits).1 = rm := by
  rw [sourceIlid]
  split
  · simp [generateInternalLinkId]
  · rfl

theorem sourceIlid_tm (lidBits : String) :
    (rm.sourceIlid tmNodeId lidBits).2 = positionToLid (rm.position (.internal tmNodeId)) := by
  simp [sourceIlid, generateInternalLinkId]

theorem generateNodeId_two (h : Labels rm.givenNids rm.givenNodeIds) (hleft : rm.IdsLeft)
    (x y : String) {rm' : ResourceManager} (hrm' : ((rm.generateNodeId x).1.generateNodeId y).1 = rm') :
    (rm.generateNodeId x).2 = rm'.nodeId x ∧
      ((rm.generateNodeId x).1.generateNodeId y).2 = rm'.nodeId y ∧
      Labels rm'.givenNids rm'.givenNodeIds ∧ rm'.givenNids.length ≤ rm.givenNids.length + 2 ∧
      rm'.givenLids = rm.givenLids ∧ rm'.position = rm.position := by
  subst hrm'
  rw [IdsLeft] at hleft
  obtain ⟨hx, h₁⟩ := generateNodeId_spec h (by omega) x
  have hlen := h₁.length
  obtain ⟨hy, h₂⟩ := generateNodeId_spec h₁.labels (by omega) y
  have hlen' := h₂.length
  refine ⟨?_, hy, h₂.labels, by omega, h₂.givenLids.trans h₁.givenLids,
    h₂.position.trans h₁.position⟩
  rw [hx, h₂.nodeId_eq h₁.known]

theorem missing_le_one (slot : Slot) : rm.missing slot ≤ 1 := by
  rw [missing]
  split <;> omega

structure InternalGiven (rm : ResourceManager) (node : String) (rm' : ResourceManager)
    (ilid : String) : Prop where
  pool : Pool rm'.givenLids rm'.position
  keeps : rm.Keeps rm'
  givenNids : rm'.givenNids = rm.givenNids
  givenNodeIds : rm'.givenNodeIds = rm.givenNodeIds
  link : ∀ id, rm'.position (.link id) = rm.position (.link id)
  length : rm'.givenLids.length = if rm.givenLids.length = 255 then 255
    else rm.givenLids.length + rm.missing (.internal node)
  text : ilid = "" ∨ ilid = positionToLid (rm'.position (.internal node)) ∧
    rm'.position (.internal node) ≠ 0
  exhausted : 256 ≤ rm.givenLids.length → rm.missing (.internal node) ≠ 0 →
    ∃ number, 256 ≤ number ∧ ilid = positionToLid number

theorem generateInternalLinkId_spec (hp : Pool rm.givenLids rm.position) (node : String) :
    InternalGiven rm node (rm.generateInternalLinkId node true).1
      (rm.generateInternalLinkId node true).2 := by
  have hnum := generateLinkIdBitPosition_eq hp.given_eq
  have hpos := hp.pos
  simp only [generateInternalLinkId, hnum, and_true]
  split
  case isTrue hslot =>
    have hmis : rm.missing (.internal node) = 1 := if_pos hslot
    split
    case isTrue hfull =>
      refine ⟨hp, fun _ _ => rfl, rfl, rfl, fun _ => rfl, ?_, .inl rfl, ?_⟩
      · rw [if_pos hfull]
        exact hfull
      · intro h
        omega
    case isFalse hfull =>
      refine ⟨hp.assign _, keeps_assign hslot _, rfl, rfl, ?_, ?_, .inr ?_, ?_⟩
      · intro id
        simp
      · rw [length_assign, if_neg hfull, hmis]
      · simp only [position_assign, if_pos]
        exact ⟨trivial, by omega⟩
      · intro h _
        exact ⟨_, h, rfl⟩
  case isFalse hslot =>
    have hmis : rm.missing (.internal node) = 0 := if_neg hslot
    refine ⟨hp, fun _ _ => rfl, rfl, rfl, fun _ => rfl, ?_, .inr ⟨rfl, hslot⟩, ?_⟩
    · dsimp only
      split <;> omega
    · intro _ h
      exact absurd hmis h

theorem entry_icn {lid ilid : String} (hlabel : src.toList.length = 8)
    (hlid : lid = positionToLid (rm.position (.link (linkKey src dst))))
    (hlink : rm.position (.link (linkKey src dst)) ≠ 0)
    (htext : ilid = "" ∨ ilid = positionToLid (rm.position (.internal src)) ∧
      rm.position (.internal src) ≠ 0) :
    ∀ e ∈ handOut (.link src dst) lid ++ handOut (.host src) ilid,
      e.2 = positionToLid (rm.position e.1.slot) ∧
        (rm.position e.1.slot ≠ 0 ∨ e.1 = .host tmNodeId) ∧ e.1.label.toList.length = 8 := by
  intro e he
  rw [hlid, handOut_positionToLid] at he
  obtain he | he := mem_append.1 he
  · rw [mem_singleton] at he
    subst he
    exact ⟨rfl, .inl hlink, hlabel⟩
  · obtain rfl | ⟨rfl, hne⟩ := htext
    · simp at he
    · rw [handOut_positionToLid, mem_singleton] at he
      subst he
      exact ⟨rfl, .inl hne, hlabel⟩

section
variable (hl : Labels rm.givenNids rm.givenNodeIds) (hp : Pool rm.givenLids rm.position)
  (hleft : rm.IdsLeft) (att : ResourceManager → String → String)
include hl hp hleft att

theorem servedAs_sdn (srcnode dstnode srcmac : String) :
    ServedAs rm (rm.needs att (.sdn srcnode dstnode srcmac))
      (rm.serve att (.sdn srcnode dstnode srcmac)).1
      (rm.serve att (.sdn srcnode dstnode srcmac)).2 := by
  obtain ⟨hsrc, hdst, hlab, hnids, hlids, hposi⟩ := generateNodeId_two hl hleft srcnode dstnode rfl
  simp only [serve, needs, missing, generateLinkIdOffer, hsrc, hdst]
  generalize ((rm.generateNodeId srcnode).1.generateNodeId dstnode).1 = rm₂ at *
  have hp₂ : Pool rm₂.givenLids rm₂.position := by
    rw [hlids, hposi]
    exact hp
  rw [IdsLeft] at hleft
  have hsrcl := length_nodeId hlab (by omega) srcnode
  have hlen : rm₂.givenLids.length = rm.givenLids.length := by rw [hlids]
  have hkeeps : rm.Keeps rm₂ := fun slot _ => by rw [hposi]
  split
  case isTrue hslot =>
    simp only [generateLinkIdBitPosition_eq hp₂.given_eq, sourceIlid_fst, nodeId_addNodeConnector,
      nodeId_assign]
    refine ⟨hlab, hp₂.assign _, hkeeps.trans (keeps_assign hslot _), hnids, ?_, ?_, ?_, ?_, ?_⟩
    · rw [givenLids_addNodeConnector, length_assign, hlen]
    · intro e he
      have hpos := hp₂.pos
      obtain he | he := mem_append.1 he
      · rw [handOut_positionToLid, mem_singleton] at he
        subst he
        simp only [Owner.slot, position_addNodeConnector, position_assign, if_pos]
        exact ⟨trivial, .inl (by omega), hsrcl⟩
      · split at he
        case isTrue htm =>
          rw [htm, sourceIlid_tm, handOut_positionToLid, mem_singleton] at he
          subst he
          refine ⟨?_, .inr rfl, htm ▸ hsrcl⟩
          simp [Owner.slot]
        · simp at he
    · intro _ h
      rw [givenLids_addNodeConnector, length_assign]
      omega
    · intro _ _
      omega
    · intro h _
      refine ⟨_, mem_append_left _ (mem_handOut _ _), ?_⟩
      rw [bitsSet_positionToLid, if_neg (by omega)]
  case isFalse hslot =>
    refine ⟨hlab, hp₂, hkeeps, hnids, hlen.le, ?_, ?_, ?_, ?_⟩
    · intro e he
      simp only [handOut_positionToLid, handOut_empty, ite_self, append_nil, mem_singleton] at he
      subst he
      exact ⟨rfl, .inl hslot, hsrcl⟩
    · intro h _
      rw [hlids]
      exact h
    · intro h h'
      omega
    · intro _ h
      exact absurd rfl h

theorem servedAs_icn (tmfid mac : String) :
    ServedAs rm (rm.needs att (.icn tmfid mac)) (rm.serve att (.icn tmfid mac)).1
      (rm.serve att (.icn tmfid mac)).2 := by
  rw [IdsLeft] at hleft
  obtain ⟨hsrc, h₁⟩ := generateNodeId_spec hl (by omega) ("host:" ++ mac)
  simp only [serve, needs, generateLinkIdFromIcn, hsrc]
  generalize (rm.generateNodeId ("host:" ++ mac)).1 = rm₁ at *
  have hp₁ : Pool rm₁.givenLids rm₁.position := by
    rw [h₁.givenLids, h₁.position]
    exact hp
  have hlen₁ : rm₁.givenLids.length = rm.givenLids.length := by rw [h₁.givenLids]
  have hsrcl : (rm₁.nodeId ("host:" ++ mac)).toList.length = 8 := by
    have := h₁.length
    exact length_nodeId h₁.labels (by omega) _
  generalize hsrcd : rm₁.nodeId ("host:" ++ mac) = src at *
  have h₂ := generateInternalLinkId_spec hp₁ src
  generalize rm₁.generateInternalLinkId src true = internal at *
  obtain ⟨rm₂, ilid⟩ := internal
  dsimp only at h₂ ⊢
  have hlen₂ := h₂.length
  have hint := rm₁.missing_le_one (.internal src)
  have hkeeps : rm.Keeps rm₂ := by
    intro slot hne
    rw [h₂.keeps slot (h₁.position ▸ hne), h₁.position]
  have hlab : Labels rm₂.givenNids rm₂.givenNodeIds := by
    rw [h₂.givenNids, h₂.givenNodeIds]
    exact h₁.labels
  have hnids : rm₂.givenNids.length ≤ rm.givenNids.length + 2 := by
    rw [h₂.givenNids]
    exact h₁.length.trans (Nat.le_succ _)
  have hnode : rm₂.nodeId ("host:" ++ mac) = src := by rw [← hsrcd, nodeId, nodeId, h₂.givenNodeIds]
  have hlin := h₂.link (linkKey src (att rm tmfid))
  split
  case isTrue hslot =>
    have hlink : rm₁.missing (.link (linkKey src (att rm tmfid))) = 1 := if_pos (hlin ▸ hslot)
    rw [generateLinkIdBitPosition_eq h₂.pool.given_eq]
    split
    case isTrue hfull =>
      refine ⟨hlab, h₂.pool, hkeeps, hnids, ?_, by simp, ?_, fun _ _ => rfl, ?_⟩
      · dsimp only
        split at hlen₂ <;> omega
      · intro _ _
        dsimp only
        omega
      · intro h
        split at hlen₂ <;> omega
    case isFalse hfull =>
      simp only [nodeId_addNodeConnector, nodeId_assign, hnode]
      refine ⟨hlab, h₂.pool.assign _, hkeeps.trans (keeps_assign hslot _), hnids, ?_, ?_, ?_, ?_,
        ?_⟩
      · rw [givenLids_addNodeConnector, length_assign]
        split at hlen₂ <;> omega
      · have hpos := h₂.pool.pos
        refine entry_icn hsrcl ?_ ?_ ?_
        · rw [position_addNodeConnector, position_assign, if_pos rfl]
        · rw [position_addNodeConnector, position_assign, if_pos rfl]
          omega
        · simpa using h₂.text
      · intro _ _
        rw [givenLids_addNodeConnector, length_assign]
        split at hlen₂ <;> omega
      · intro _ _
        split at hlen₂ <;> omega
      · intro h _
        refine ⟨_, mem_append_left _ (mem_handOut _ _), ?_⟩
        rw [bitsSet_positionToLid, if_neg]
        split at hlen₂ <;> omega
  case isFalse hslot =>
    have hlink : rm₁.missing (.link (linkKey src (att rm tmfid))) = 0 := if_neg (hlin ▸ hslot)
    simp only [hnode]
    refine ⟨hlab, h₂.pool, hkeeps, hnids, ?_, entry_icn hsrcl rfl hslot h₂.text, ?_, ?_, ?_⟩
    · split at hlen₂ <;> omega
    · intro _ _
      split at hlen₂ <;> omega
    · intro _ _
      omega
    · intro h hne
      obtain ⟨number, hlar, hilid⟩ := h₂.exhausted (by omega) (by omega)
      rw [hilid]
      refine ⟨_, mem_append_right _ (mem_handOut _ _), ?_⟩
      rw [bitsSet_positionToLid, if_neg (by omega)]

theorem servedAs (r : Request) :
    ServedAs rm (rm.needs att r) (rm.serve att r).1 (rm.serve att r).2 := by
  cases r with
  | sdn srcnode dstnode srcmac => exact servedAs_sdn hl hp hleft att srcnode dstnode srcmac
  | icn tmfid mac => exact servedAs_icn hl hp hleft att tmfid mac

end

end ResourceManager

namespace Served

open ResourceManager

variable {att : ResourceManager → String → String} {s : Served} {r : Request}
  {reqs pre : List Request}

/-! ### Runs -/

structure InOrder (s : Served) : Prop where
  labels : Labels s.rm.givenNids s.rm.givenNodeIds
  pool : Pool s.rm.givenLids s.rm.position

/-- What was handed out is in the maps, and the pool was not used beyond its end. -/
structure Records (s : Served) : Prop extends InOrder s where
  length : s.rm.givenLids.length ≤ 256
  entry : ∀ e ∈ s.handedOut, e.1.label.toList.length = 8 ∧ ∃ p < 256, e.2 = positionToLid p ∧
    (p ≠ 0 ∧ s.rm.position e.1.slot = p ∨ p = 0 ∧ e.1 = .host tmNodeId)

theorem Records.right (h : s.Records) : s.Right where
  oneBit := by
    intro e he
    obtain ⟨-, p, hp, hlid, -⟩ := h.entry e he
    rw [hlid, bitsSet_positionToLid, if_pos hp]
  distinct := by
    intro e he e' he' heq
    obtain ⟨hlabel, p, hp, hlid, hcase⟩ := h.entry e he
    obtain ⟨hlab', p', hp', hlid', hcase'⟩ := h.entry e' he'
    obtain rfl : p = p' := positionToLid_inj hp (hlid.symm.trans (heq.trans hlid'))
    obtain ⟨hne, hpos⟩ | ⟨hzero, hown⟩ := hcase
    · obtain ⟨-, hpos'⟩ | ⟨hzero, -⟩ := hcase'
      · refine Owner.slot_inj hlabel hlab' (h.pool.inj _ _ ?_ (hpos.trans hpos'.symm))
        rw [hpos]
        exact hne
      · exact absurd hzero hne
    · obtain ⟨hne, -⟩ | ⟨-, hown'⟩ := hcase'
      · exact absurd hzero hne
      · rw [hown, hown']
  labels := by
    intro x y hx heq
    exact h.labels.inj x y hx (numberToNodeId_inj heq)

theorem InOrder.step (h : s.InOrder) (hleft : s.rm.IdsLeft) (r : Request) :
    (s.step att r).InOrder :=
  ⟨(servedAs h.labels h.pool hleft att r).labels, (servedAs h.labels h.pool hleft att r).pool⟩

theorem Records.step (h : s.Records) (hleft : s.rm.IdsLeft) (hfits : s.rm.Fits att r) :
    (s.step att r).Records := by
  have hser := servedAs h.labels h.pool hleft att r
  refine ⟨h.toInOrder.step hleft r, hser.length h.length hfits, ?_⟩
  intro e he
  obtain he | he := mem_append.1 he
  · obtain ⟨hlabel, p, hp, hlid, hcase⟩ := h.entry e he
    refine ⟨hlabel, p, hp, hlid, hcase.imp_left ?_⟩
    rintro ⟨hne, hpos⟩
    refine ⟨hne, ?_⟩
    rw [← hpos]
    exact hser.keeps _ (hpos ▸ hne)
  · obtain ⟨hlid, hcase, hlabel⟩ := hser.entry e he
    have hlt := hser.pool.lt e.1.slot
    have hlen := hser.length h.length hfits
    refine ⟨hlabel, _, by omega, hlid, ?_⟩
    by_cases hzero : (s.rm.serve att r).1.position e.1.slot = 0
    · exact .inr ⟨hzero, hcase.resolve_left (fun hne => hne hzero)⟩
    · exact .inl ⟨hzero, rfl⟩

section
variable (tmNid tmOfId sw : String)

theorem init_eq : ∃ rm : ResourceManager, Labels rm.givenNids rm.givenNodeIds ∧
      rm.givenNids.length ≤ 2 ∧ Pool rm.givenLids rm.position ∧ rm.givenLids.length = 1 ∧
      (∀ slot, rm.position slot = 0) ∧ rm.nodeId tmOfId = tmNodeId ∧
      (∀ x, x ≠ tmOfId → x ≠ sw → rm.givenNodeIds x = 0) ∧
      ResourceManager.init tmNid tmOfId sw = (rm.assign (.link (linkKey tmNodeId (rm.nodeId sw)))
          rm.givenLids.length).addNodeConnector tmNodeId (rm.nodeId sw)
            (positionToLid rm.givenLids.length)
            (rm.sourceIlid tmNodeId (positionToLid rm.givenLids.length)).2 := by
  let rm₁ : ResourceManager := ⟨[], fun _ => 0, [0], fun _ => 0, []⟩
  have hint : ((⟨[], fun _ => 0, [], fun _ => 0, []⟩ :
      ResourceManager).generateInternalLinkId tmNid true).1 = rm₁ := by
    simp [generateInternalLinkId, generateLinkIdBitPosition, firstFree, assign, rm₁]
  have hp₁ : Pool rm₁.givenLids rm₁.position :=
    ⟨rfl, Nat.one_pos, fun _ => Nat.one_pos, by simp [rm₁]⟩
  have hl₁ : Labels rm₁.givenNids rm₁.givenNodeIds := ⟨rfl, fun _ => le_rfl, by simp [rm₁]⟩
  obtain ⟨hsrc, h₂⟩ := generateNodeId_spec hl₁ (by decide) tmOfId
  obtain ⟨hdst, h₃⟩ := generateNodeId_spec h₂.labels
    (lt_of_le_of_lt (Nat.succ_le_succ h₂.length) (by decide)) sw
  have htm : ((rm₁.generateNodeId tmOfId).1.generateNodeId sw).1.nodeId tmOfId = tmNodeId := by
    rw [h₃.nodeId_eq h₂.known, nodeId, h₂.new rfl, ← numberToNodeId_one]
    rfl
  have hpos := h₃.position.trans h₂.position
  have hlids := h₃.givenLids.trans h₂.givenLids
  have hp₃ : Pool ((rm₁.generateNodeId tmOfId).1.generateNodeId sw).1.givenLids
      ((rm₁.generateNodeId tmOfId).1.generateNodeId sw).1.position := by
    rw [hlids, hpos]
    exact hp₁
  have hlen := congrArg length hlids
  have hzero (slot : Slot) : ((rm₁.generateNodeId tmOfId).1.generateNodeId
      sw).1.position slot = 0 := by rw [hpos]
  refine ⟨_, h₃.labels, h₃.length.trans (Nat.succ_le_succ h₂.length), hp₃, hlen, hzero, htm,
    fun x hx hx' => (h₃.others x hx').trans (h₂.others x hx), ?_⟩
  rw [← h₃.nodeId_eq h₂.known, htm] at hsrc
  simp only [init, hint, generateLinkId, hsrc, hdst, hzero, if_true,
    generateLinkIdBitPosition_eq hp₃.given_eq, sourceIlid_fst]
  rw [if_neg]
  rw [hlen]
  decide

theorem records_start : (start tmNid tmOfId sw).Records := by
  obtain ⟨rm, hlab, -, hpool, hlen, hzero, htm, -, hinit⟩ := init_eq tmNid tmOfId sw
  rw [start, hinit]
  refine ⟨⟨hlab, hpool.assign _⟩, ?_, ?_⟩
  · rw [givenLids_addNodeConnector, length_assign]
    omega
  · intro e he
    simp only [nodeId_addNodeConnector, nodeId_assign, htm, position_addNodeConnector,
      position_assign, handOut_positionToLid, hlen] at he
    obtain he | he := mem_append.1 he
    · rw [mem_singleton] at he
      subst he
      refine ⟨length_tmNodeId, 1, by decide, rfl, .inl ⟨by decide, ?_⟩⟩
      simp [Owner.slot, hlen]
    · simp [generateInternalLinkId, hzero] at he
      subst he
      exact ⟨length_tmNodeId, 0, by decide, rfl, .inr ⟨rfl, rfl⟩⟩

end

theorem run_concat (s : Served) (pre : List Request) (r : Request) :
    s.run att (pre ++ [r]) = (s.run att pre).step att r := by
  rw [run, foldl_append]
  rfl

theorem run_induction {P : Served → Prop} (h : P s)
    (hstep : ∀ pre r, pre ++ [r] <+: reqs → P (s.run att pre) → P ((s.run att pre).step att r))
    (hpre : pre <+: reqs) : P (s.run att pre) := by
  induction pre using reverseRecOn with
  | nil => exact h
  | append_singleton pre r ih =>
    rw [run_concat]
    exact hstep pre r hpre (ih ((prefix_append pre [r]).trans hpre))

/-! ### Short sequences -/

theorem needs_le_two (att : ResourceManager → String → String) (rm : ResourceManager)
    (r : Request) : rm.needs att r ≤ 2 := by
  cases r with
  | sdn srcnode dstnode srcmac => exact (missing_le_one _).trans (Nat.le_succ 1)
  | icn tmfid mac => exact Nat.add_le_add (missing_le_one _) (missing_le_one _)

structure Small (s : Served) (n : ℕ) : Prop extends InOrder s where
  nids : s.rm.givenNids.length ≤ 2 + 2 * n
  lids : s.rm.givenLids.length ≤ 2 + 2 * n

theorem small_start (tmNid tmOfId sw : String) : (start tmNid tmOfId sw).Small 0 := by
  have hino := (records_start tmNid tmOfId sw).toInOrder
  obtain ⟨rm, -, hnids, -, hlen, -, -, -, hinit⟩ := init_eq tmNid tmOfId sw
  rw [start, hinit] at hino ⊢
  refine ⟨hino, hnids, ?_⟩
  rw [givenLids_addNodeConnector, length_assign, hlen]

theorem small_run (att : ResourceManager → String → String) {n : ℕ} (h : s.Small 0)
    (hn : 2 + 2 * n < nodeLimit) (hpre : pre.length ≤ n) : (s.run att pre).Small pre.length := by
  induction pre using reverseRecOn with
  | nil => exact h
  | append_singleton pre r ih =>
    rw [length_append, length_singleton] at hpre ⊢
    have hsma := ih (by omega)
    have hnids := hsma.nids
    have hlids := hsma.lids
    have hser := servedAs hsma.labels hsma.pool (by rw [IdsLeft]; omega) att r
    have hnids' := hser.nids
    have hlids' := hser.lids
    have hnee := needs_le_two att (s.run att pre).rm r
    rw [run_concat]
    refine ⟨⟨hser.labels, hser.pool⟩, ?_, ?_⟩
    · exact hnids'.trans (by omega)
    · exact hlids'.trans (by omega)

theorem Small.idsLeft {n : ℕ} (h : s.Small n) (hn : 2 + 2 * (n + 1) < nodeLimit) :
    s.rm.IdsLeft := by
  have hnids := h.nids
  rw [IdsLeft]
  omega

theorem idsLeft_run (h : s.Small 0) (hlen : 2 + 2 * reqs.length < nodeLimit)
    (hpre : pre ++ [r] <+: reqs) : (s.run att pre).rm.IdsLeft := by
  have hle := hpre.length_le
  rw [length_append, length_singleton] at hle
  exact (small_run att h hlen (by omega : pre.length ≤ _)).idsLeft (by omega)

theorem fits_run (h : s.Small 0) (hlen : reqs.length ≤ 127)
    (hpre : pre ++ [r] <+: reqs) : (s.run att pre).rm.Fits att r := by
  have hle := hpre.length_le
  rw [length_append, length_singleton] at hle
  have hlids := (small_run att h (by decide) (by omega : pre.length ≤ 127)).lids
  exact .inl (by omega)

end Served

open Served in
/-- **When the LIDs are right** after each request: exactly when none needs a new LID while all 256
are given. -/
theorem served_right_iff (attached : ResourceManager → String → String)
    (tmNid tmOfId attachedSwitchOfId : String) (requests : List ResourceManager.Request)
    (hleft : ∀ pre r, pre ++ [r] <+: requests →
      ((start tmNid tmOfId attachedSwitchOfId).run attached pre).rm.IdsLeft) :
    ((∀ pre, pre <+: requests → ((start tmNid tmOfId attachedSwitchOfId).run attached pre).Right) ∧
      ∀ pre r, pre ++ [r] <+: requests →
        256 < ((start tmNid tmOfId attachedSwitchOfId).run attached pre).rm.givenLids.length +
          ((start tmNid tmOfId attachedSwitchOfId).run attached pre).rm.needs attached r →
        (((start tmNid tmOfId attachedSwitchOfId).run attached pre).rm.serve attached r).2 = []) ↔
      ∀ pre r, pre ++ [r] <+: requests →
        ((start tmNid tmOfId attachedSwitchOfId).run attached pre).rm.Fits attached r := by
  have hstart := records_start tmNid tmOfId attachedSwitchOfId
  constructor
  · rintro ⟨hright, -⟩ pre r hpre
    by_contra hfits
    rw [ResourceManager.Fits, not_or, not_lt] at hfits
    have hino := run_induction hstart.toInOrder
      (fun pre r hpre h => h.step (hleft pre r hpre) r) ((prefix_append pre [r]).trans hpre)
    obtain ⟨e, he, hbits⟩ := (ResourceManager.servedAs hino.labels hino.pool
      (hleft pre r hpre) attached r).exhausted hfits.1 hfits.2
    have hone := (hright _ hpre).oneBit e (by
      rw [run_concat]
      exact mem_append_right _ he)
    omega
  · intro hfits
    have hrecs (pre : List ResourceManager.Request) (hpre : pre <+: requests) :=
      run_induction hstart (fun pre r hpre h => h.step (hleft pre r hpre) (hfits pre r hpre)) hpre
    refine ⟨fun pre hpre => (hrecs pre hpre).right, ?_⟩
    intro pre r hpre hlar
    have hrec := hrecs pre ((prefix_append pre [r]).trans hpre)
    have hser := ResourceManager.servedAs hrec.labels hrec.pool (hleft pre r hpre) attached r
    have hlen := hrec.length
    obtain hlt | hnone := hfits pre r hpre
    · exact hser.refused hlt hlar
    · omega

/-- A link of the controller, and of a host with its internal LID. -/
theorem served_right_two_requests :
    ((Served.start "00000001" "host:00:00:00:00:00:01" "openflow:1").run (fun _ _ => "00000003")
      [.sdn "openflow:1" "openflow:2" "", .icn "" "00:00:00:00:00:02"]).Right :=
  ((served_right_iff (fun _ _ => "00000003") "00000001" "host:00:00:00:00:00:01" "openflow:1"
    [.sdn "openflow:1" "openflow:2" "", .icn "" "00:00:00:00:00:02"]
    (fun _ _ => Served.idsLeft_run (Served.small_start _ _ _) (by decide))).2
    (fun _ _ => Served.fits_run (Served.small_start _ _ _) (by decide))).1 _ (prefix_refl _)

/-! ### Running out of LIDs -/

namespace ResourceManager

variable {rm : ResourceManager}

def Fresh (rm : ResourceManager) : Prop :=
  ∀ src n, src.toList.length = 8 → rm.givenNids.length < n →
    rm.position (.link (linkKey src (numberToNodeId n))) = 0

theorem serve_new (hl : Labels rm.givenNids rm.givenNodeIds) (hleft : rm.IdsLeft)
    (hfresh : rm.Fresh) (att : ResourceManager → String → String)
    {srcnode dstnode : String} (hne : srcnode ≠ dstnode) (hnew : rm.givenNodeIds dstnode = 0) :
    rm.needs att (.sdn srcnode dstnode "") = 1 ∧ (rm.serve att (.sdn srcnode dstnode "")).1.Fresh ∧
      (rm.serve att (.sdn srcnode dstnode "")).1.givenLids.length = rm.givenLids.length + 1 ∧
      ∀ x, x ≠ srcnode → x ≠ dstnode → rm.givenNodeIds x = 0 →
        (rm.serve att (.sdn srcnode dstnode "")).1.givenNodeIds x = 0 := by
  have hleft' := hleft
  rw [IdsLeft] at hleft'
  obtain ⟨hsrc, hdst, hlab, hnids, hlids, hpos⟩ := generateNodeId_two hl hleft srcnode dstnode rfl
  obtain ⟨-, h₁⟩ := generateNodeId_spec hl (by omega) srcnode
  have hlen₁ := h₁.length
  have hgrows₁ := h₁.grows
  obtain ⟨-, h₂⟩ := generateNodeId_spec h₁.labels (by omega) dstnode
  -- the label of the destination is new
  have hnum := h₂.new ((h₁.others dstnode hne.symm).trans hnew)
  have hoth (x : String) (hx : x ≠ srcnode) (hx' : x ≠ dstnode) :=
    (h₂.others x hx').trans (h₁.others x hx)
  have hslot : ((rm.generateNodeId srcnode).1.generateNodeId dstnode).1.position
      (.link (linkKey (((rm.generateNodeId srcnode).1.generateNodeId dstnode).1.nodeId srcnode)
        (((rm.generateNodeId srcnode).1.generateNodeId dstnode).1.nodeId dstnode))) = 0 := by
    rw [hpos]
    refine hfresh _ _ (length_nodeId hlab (by omega) srcnode) ?_
    omega
  simp only [serve, needs, missing, generateLinkIdOffer, hsrc, hdst]
  generalize ((rm.generateNodeId srcnode).1.generateNodeId dstnode).1 = rm₂ at *
  rw [if_pos hslot, if_pos hslot, sourceIlid_fst]
  refine ⟨rfl, ?_, ?_, ?_⟩
  · intro src n hsrcl hn
    have hle := hlab.le dstnode
    have hn' : rm₂.givenNids.length < n := hn
    rw [position_addNodeConnector, position_assign, if_neg, hpos]
    · exact hfresh src n hsrcl (by omega)
    · intro heq
      have hown : Owner.link src (numberToNodeId n) =
          .link (rm₂.nodeId srcnode) (rm₂.nodeId dstnode) :=
        Owner.slot_inj hsrcl (length_nodeId hlab (by omega) srcnode) heq
      have := numberToNodeId_inj (Owner.link.inj hown).2
      omega
  · rw [givenLids_addNodeConnector, length_assign, hlids]
  · intro x hx hx' hzero
    exact (hoth x hx hx').trans hzero

end ResourceManager

namespace Served

open ResourceManager

theorem fresh_start (tmNid tmOfId sw : String) : (start tmNid tmOfId sw).rm.Fresh ∧
      (start tmNid tmOfId sw).rm.givenLids.length = 2 ∧
      ∀ x, x ≠ tmOfId → x ≠ sw → (start tmNid tmOfId sw).rm.givenNodeIds x = 0 := by
  obtain ⟨rm, hlab, -, -, hlen, hzero, -, hoth, hinit⟩ := init_eq tmNid tmOfId sw
  rw [start, hinit]
  refine ⟨?_, ?_, hoth⟩
  · intro src n hsrc hn
    have hle := hlab.le sw
    have hn' : rm.givenNids.length < n := hn
    rw [position_addNodeConnector, position_assign, if_neg, hzero]
    intro heq
    have hown : Owner.link src (numberToNodeId n) = .link tmNodeId (rm.nodeId sw) :=
      Owner.slot_inj hsrc length_tmNodeId heq
    have := numberToNodeId_inj (Owner.link.inj hown).2
    omega
  · rw [givenLids_addNodeConnector, length_assign, hlen]

def exampleSwitch (i : ℕ) : String := "openflow:" ++ numberToNodeId (i + 2)

def exampleLinks (n : ℕ) : List Request :=
  (range n).map fun i => .sdn "openflow:1" (exampleSwitch i) ""

theorem exampleLinks_succ (n : ℕ) :
    exampleLinks (n + 1) = exampleLinks n ++ [.sdn "openflow:1" (exampleSwitch n) ""] := by
  rw [exampleLinks, range_succ, map_append]
  rfl

theorem exampleSwitch_inj {i j : ℕ} (h : exampleSwitch i = exampleSwitch j) : i = j := by
  have hlist := congrArg String.toList h
  rw [exampleSwitch, exampleSwitch, String.toList_append, String.toList_append] at hlist
  have := numberToNodeId_inj (String.toList_inj.1 (append_cancel_left hlist))
  omega

theorem exampleSwitch_ne {i : ℕ} (hi : i < 10000000) :
    exampleSwitch i ≠ "openflow:1" ∧ exampleSwitch i ≠ "host:00:00:00:00:00:01" := by
  have hlen : (exampleSwitch i).toList.length = 17 := by
    rw [exampleSwitch, String.toList_append, length_append, length_numberToNodeId (by omega)]
    rfl
  constructor
  · intro h
    rw [h] at hlen
    exact absurd hlen (by decide)
  · intro h
    rw [h] at hlen
    exact absurd hlen (by decide)

def exampleRun (attached : ResourceManager → String → String) (n : ℕ) : Served :=
  (start "00000001" "host:00:00:00:00:00:01" "openflow:1").run attached (exampleLinks n)

theorem exampleLinks_run (att : ResourceManager → String → String) (n : ℕ) (hn : n ≤ 1000) :
    (exampleRun att n).Small n ∧ (exampleRun att n).rm.Fresh ∧
      (exampleRun att n).rm.givenLids.length = 2 + n ∧
      ∀ i, n ≤ i → i ≤ 1000 → (exampleRun att n).rm.givenNodeIds (exampleSwitch i) = 0 := by
  have hlimit : 2 + 2 * (1000 + 1) < nodeLimit := by decide
  have hlen (k : ℕ) : (exampleLinks k).length = k := by simp [exampleLinks]
  have hsma (k : ℕ) (hk : k ≤ 1000) : (exampleRun att k).Small k := by
    have hrun := small_run att
      (small_start "00000001" "host:00:00:00:00:00:01" "openflow:1") (by omega : 2 + 2 * 1000 < _)
      (by rw [hlen]; exact hk : (exampleLinks k).length ≤ 1000)
    rwa [hlen] at hrun
  refine ⟨hsma n hn, ?_⟩
  induction n with
  | zero =>
    obtain ⟨hfresh, hlids, hoth⟩ := fresh_start "00000001" "host:00:00:00:00:00:01" "openflow:1"
    refine ⟨hfresh, hlids, ?_⟩
    intro i _ hi
    exact hoth _ (exampleSwitch_ne (by omega)).2 (exampleSwitch_ne (by omega)).1
  | succ n ih =>
    obtain ⟨hfresh, hlids, hoth⟩ := ih (by omega)
    have hsma := hsma n (by omega)
    rw [exampleRun, exampleLinks_succ, run_concat, ← exampleRun]
    -- how the state was reached does not matter any more
    generalize exampleRun att n = s at hsma hfresh hlids hoth ⊢
    obtain ⟨-, hfre', hlids', hoth'⟩ := serve_new hsma.labels
      (hsma.idsLeft (by omega)) hfresh att (exampleSwitch_ne (by omega)).1.symm
      (hoth n le_rfl (by omega))
    refine ⟨hfre', ?_, ?_⟩
    · exact hlids'.trans (by omega)
    · intro i hi hi'
      refine hoth' _ (exampleSwitch_ne (by omega)).1 ?_ (hoth i (by omega) hi')
      intro h
      have := exampleSwitch_inj h
      omega

/-- The 255th link of the controller is given a LID without a bit. -/
theorem exampleLinks_run_out :
    ∃ e ∈ ((start "00000001" "host:00:00:00:00:00:01" "openflow:1").run (fun _ _ => "")
      (exampleLinks 255)).handedOut, bitsSet e.2 = 0 := by
  obtain ⟨hsma, hfresh, hlids, hoth⟩ := exampleLinks_run (fun _ _ => "") 254 (by omega)
  have hids := hsma.idsLeft (by decide)
  obtain ⟨hnee, -⟩ := serve_new hsma.labels hids hfresh (fun _ _ => "")
    (exampleSwitch_ne (by omega)).1.symm (hoth 254 le_rfl (by omega))
  obtain ⟨e, he, hbits⟩ := (servedAs hsma.labels hsma.pool hids (fun _ _ => "")
    (.sdn "openflow:1" (exampleSwitch 254) "")).exhausted (by omega) (by omega)
  exact ⟨e, mem_append_right _ he, hbits⟩

end Served

end Blackadder
