/-
**What the local proxy is handed.**

Packets come on port 2 from the network, on port 3 from management applications, on port 0 from
applications, and else from a Click element. Publications from the network are bytes; a read beyond
the end gives zero. The messages of hosts are modelled as they are decoded.
-/

import Blackadder.ProxyState

namespace Blackadder

/-! ### Bytes -/

def byteAt (data : List UInt8) (i : ℕ) : UInt8 := data.getD i 0

def vectorAt (n : ℕ) (data : List UInt8) (i : ℕ) : List.Vector UInt8 n :=
  ⟨(List.range n).map fun j => byteAt data (i + j), by simp⟩

def vectorsAt (n : ℕ) (data : List UInt8) (i count : ℕ) : List (List.Vector UInt8 n) :=
  (List.range count).map fun j => vectorAt n data (i + j * n)

def idAt (data : List UInt8) (i n : ℕ) : Id :=
  (List.range n).map fun j => vectorAt pursuitIDLen data (i + j * pursuitIDLen)

@[simp] theorem idAt_length (data : List UInt8) (i n : ℕ) : (idAt data i n).length = n := by
  simp [idAt]

/-- `n` identifiers behind their lengths, from the index `start + index` on, and the index behind
them. -/
def readIDs (data : List UInt8) (start : ℕ) : ℕ → ℕ → List Id × ℕ
  | 0, index => ([], index)
  | n + 1, index =>
    let IDLength := (byteAt data (start + index)).toNat
    let rest := readIDs data start n (index + 1 + IDLength * pursuitIDLen)
    (idAt data (start + 1 + index) IDLength :: rest.1, rest.2)

/-- A publication from the network, and the rest of its packet. -/
structure NetworkPacket where
  IDs : List Id
  type : UInt8
  data : List UInt8
deriving DecidableEq

def NetworkPacket.read (packet : List UInt8) : NetworkPacket :=
  let IDs := readIDs packet 1 (byteAt packet 0).toNat 0
  let rest := packet.drop (1 + IDs.2)
  ⟨IDs.1, byteAt rest 0, rest.drop 1⟩

/-! ### Notifications -/

inductive Notification
  | scopePublished (IDs : List Id)
  | scopeUnpublished (IDs : List Id)
  | startPublish (IDs : List Id) (fid : FID)
  | updateFID (IDs : List Id) (fid : FID)
  | updateRVFID (fid : FID)
  | updateTMFID (fid : FID)
  | stopPublish (IDs : List Id)
  | updateFIDISub (isubscribers : List (NodeID × FID))
  | other (type : UInt8)
deriving DecidableEq

def readNotification (data : List UInt8) : Notification :=
  let type := byteAt data 0
  if type = updateFIDISub then
    .updateFIDISub ((List.range (byteAt data 1).toNat).map fun j =>
      (vectorAt nodeIDLen data (2 + j * (nodeIDLen + fidLen)),
        vectorAt fidLen data (2 + j * (nodeIDLen + fidLen) + nodeIDLen)))
  else
    let IDs := readIDs data 2 (byteAt data 1).toNat 0
    if type = ScopeEvent.scopePublished.code then .scopePublished IDs.1
    else if type = ScopeEvent.scopeUnpublished.code then .scopeUnpublished IDs.1
    else if type = startPublish then .startPublish IDs.1 (vectorAt fidLen data (2 + IDs.2))
    else if type = updateFID then .updateFID IDs.1 (vectorAt fidLen data (2 + IDs.2))
    else if type = updateRVFID then .updateRVFID (vectorAt fidLen data 1)
    else if type = updateTMFID then .updateTMFID (vectorAt fidLen data 1)
    else if type = stopPublish then .stopPublish IDs.1
    else .other type

/-! ### Messages of hosts -/

abbrev WireId := {k : Id // k.length < 256}

inductive LocalMessage
  | disconnect
  /-- `PUBLISH_DATA`: the forwarding identifier is read under the strategies that carry one. -/
  | publishData (ID : WireId) (strategy : Strategy) (fid : FID) (payload : List UInt8)
  /-- `PUBLISH_DATA_iSUB`: `stale` is what the memory holds when the packet is read after it was
  passed on. -/
  | publishDataISub (ID : WireId) (strategy : Strategy) (stale : List UInt8)
  | publishDataIMulticast (ID : WireId) (strategy : Strategy) (nodeIDs : ListSet NodeID)
  | request (type : RequestType) (ID prefixID : WireId) (strategy : Strategy)

inductive ManagementMessage
  | getNodeID
  | getRVTMFID
  | setConnectionStatus (status : UInt8)
  | disconnect
  | other (type : UInt8)

inductive Input
  | network (packet : List UInt8)
  | management (descriptor : ℕ) (m : ManagementMessage)
  | host (type : HostType) (descriptor : ℕ) (m : LocalMessage)

end Blackadder
