/-
**The forwarder of a node.**

`src/forwarder.cc` sends a packet on along the links in its forwarding identifier. A packet of the
network has a header in front of it, of 14 bytes on a native link, 22 on a link of SDN switches and
28 in IP mode, which is all that changes.

The headroom that `push` uncovers is taken to be zero; all of it is written. Memory holds the low
byte of a number first. The checksums of Click are parameters.
-/

import Blackadder.Bits
import Blackadder.Buffer
import Blackadder.ProxyInput

namespace Blackadder

open Buffer (write)

/-! ### Addresses and entries -/

def macLen : ℕ := 6

abbrev EtherAddress := List.Vector UInt8 macLen

abbrev IPAddress := List.Vector UInt8 4

def protoBA : UInt16 := 2058

def protoSDN : UInt16 := 34525

/-- MAC mode uses `src` and `dst`, IP mode `srcIP` and `dstIP`. -/
structure ForwardingEntry where
  src : EtherAddress
  dst : EtherAddress
  srcIP : IPAddress
  dstIP : IPAddress
  port : ℕ
  LID : FID
  /-- `ntohs(proto_type)`. -/
  protoType : UInt16
deriving DecidableEq

/-- The configuration, with the checksums of Click. -/
structure Forwarder where
  useMac : Bool
  iLID : FID
  fwTable : List ForwardingEntry
  inCksum : List UInt8 → List.Vector UInt8 2
  inCksumPseudohdr : List.Vector UInt8 2 → List UInt8 → UInt16 → List.Vector UInt8 2

/-- What `push` does with the packet that enters, and with copies of it. -/
inductive ForwarderAction
  | clone (n : ℕ)
  | send (p : PacketRef) (fe : ForwardingEntry) (frame : List UInt8)
  | deliver (p : PacketRef) (data : List UInt8)
  | kill (p : PacketRef)
deriving DecidableEq

def Forwarder.sends (actions : List ForwarderAction) : List (ForwardingEntry × List UInt8) :=
  actions.filterMap fun
    | .send _ fe frame => some (fe, frame)
    | _ => none

def Forwarder.deliveries (actions : List ForwarderAction) : List (List UInt8) :=
  actions.filterMap fun
    | .deliver _ data => some data
    | _ => none

/-! ### Reading and writing a packet -/

def netBytes (x : UInt16) : List UInt8 := [UInt8.ofNat (x.toNat / 256), UInt8.ofNat x.toNat]

def memBytes (x : UInt16) : List UInt8 := [UInt8.ofNat x.toNat, UInt8.ofNat (x.toNat / 256)]

def netAt (data : List UInt8) (i : ℕ) : UInt16 :=
  UInt16.ofNat ((byteAt data i).toNat * 256 + (byteAt data (i + 1)).toNat)

def pushBytes (n : ℕ) (data : List UInt8) : List UInt8 := List.replicate n 0 ++ data

namespace ForwardingEntry

variable (fe : ForwardingEntry)

def writeAddresses (data : List UInt8) : List UInt8 :=
  write macLen fe.src.toList (write 0 fe.dst.toList data)

def writeMacHeader (data : List UInt8) : List UInt8 :=
  write (macLen + macLen) (netBytes fe.protoType) (fe.writeAddresses data)

def writeSDNHeader (payloadLen : UInt16) (data : List UInt8) : List UInt8 :=
  write (macLen + macLen + 9) [0xff] <|
  write (macLen + macLen + 8) [59] <|
  write (macLen + macLen + 6) (memBytes payloadLen) <|
  write (macLen + macLen + 3) [0, 0, 0] <|
  write (macLen + macLen + 2) [0x60] <|
  fe.writeMacHeader data

def ipHeader (len id : UInt16) (sum : List.Vector UInt8 2) : List UInt8 :=
  [0x45, 0] ++ netBytes len ++ netBytes id ++ [0, 0] ++ [250, 17] ++ sum.toList ++
    fe.srcIP.toList ++ fe.dstIP.toList

end ForwardingEntry

def udpHeader (len : UInt16) (sum : List.Vector UInt8 2) : List UInt8 :=
  netBytes 55555 ++ netBytes 55555 ++ netBytes len ++ sum.toList

namespace Forwarder

variable (fw : Forwarder)

/-- The header of a packet of the local proxy, and the new `_id`. Other protocol types send
nothing. -/
def encapsulate (payloadLen : UInt16) (payload : List UInt8) (id : UInt32)
    (fe : ForwardingEntry) : Option (List UInt8) × UInt32 :=
  if fw.useMac then
    if fe.protoType = protoBA then (some (fe.writeMacHeader (pushBytes 14 payload)), id)
    else if fe.protoType = protoSDN then
      (some (fe.writeSDNHeader payloadLen (pushBytes (14 + 8) payload)), id)
    else (none, id)
  else
    let len := UInt16.ofNat (28 + payload.length)
    let zero := List.Vector.replicate 2 0
    let ip := fe.ipHeader len id.toUInt16 (fw.inCksum (fe.ipHeader len id.toUInt16 zero))
    let udpLen := UInt16.ofNat (28 + payload.length - 20)
    let csum := fw.inCksum ((udpHeader udpLen zero ++ payload).take udpLen.toNat)
    (some (ip ++ udpHeader udpLen (fw.inCksumPseudohdr csum ip udpLen) ++ payload), id + 1)

def rewrite (payloadLen : UInt16) (payload : List UInt8) (fe : ForwardingEntry) : List UInt8 :=
  if fw.useMac then
    let protoType := netAt payload 12
    if protoType = fe.protoType then fe.writeAddresses payload
    else if protoType = protoBA ∧ fe.protoType = protoSDN then
      fe.writeSDNHeader payloadLen (pushBytes 8 payload)
    else if protoType = protoSDN ∧ fe.protoType = protoBA then
      fe.writeMacHeader (pushBytes 14 (payload.drop (14 + 8)))
    else fe.writeAddresses payload
  else
    let ip := write 10 [0, 0] <| write 8 [250] <| write 6 [0, 0] <|
      write 1 [0] <| write 16 fe.dstIP.toList <|
      write 12 fe.srcIP.toList payload
    let ip := write 10 (fw.inCksum (ip.take 20)).toList ip
    let len := UInt16.ofNat (payload.length - 20)
    let udp := write 26 [0, 0] ip
    let csum := fw.inCksum ((udp.drop 20).take len.toNat)
    write 26 (fw.inCksumPseudohdr csum (udp.take 20) len).toList udp

/-- The bytes in front of the forwarding identifier. Other protocol types are taken for a native
link. -/
def headerLen (p : List UInt8) : ℕ :=
  if fw.useMac then (if netAt p 12 = protoSDN then 14 + 8 else 14) else 20 + 8

def fidOf (p : List UInt8) : FID := vectorAt fidLen p (fw.headerLen p)

def payloadOf (p : List UInt8) : List UInt8 := p.drop (fw.headerLen p + fidLen)

def loops (p : List UInt8) (fe : ForwardingEntry) : Bool :=
  if fw.useMac then
    let src : EtherAddress := vectorAt macLen p macLen
    let dst : EtherAddress := vectorAt macLen p 0
    decide (src = fe.dst ∧ dst = fe.src) || decide (src = fe.src ∨ dst = fe.dst)
  else
    let src : IPAddress := vectorAt 4 p 12
    let dst : IPAddress := vectorAt 4 p 16
    decide (src = fe.dstIP ∧ dst = fe.srcIP)

/-! ### The element -/

/-- The loop over the links. The last one is given the packet itself unless it is pushed locally
afterwards. An entry without a frame is skipped, and its packet is lost. -/
def emit (size : ℕ) (pushLocally : Bool)
    (frame : UInt32 → ForwardingEntry → Option (List UInt8) × UInt32) :
    ℕ → UInt32 → List ForwardingEntry → List ForwarderAction × UInt32
  | _, id, [] => ([], id)
  | counter, id, fe :: outLinks =>
    let payload := if counter = size ∧ pushLocally = false then .entered else .copy counter
    let out := frame id fe
    let rest := emit size pushLocally frame (counter + 1) out.2 outLinks
    ((if counter = size ∧ pushLocally = false then [] else [.clone counter]) ++
      (match out.1 with
        | some data => [.send payload fe data]
        | none => []) ++ rest.1, rest.2)

def pushLocal (id : UInt32) (p : List UInt8) : List ForwarderAction × UInt32 :=
  let payloadLen := UInt16.ofNat p.length - 14 - 32
  let fid : FID := vectorAt fidLen p 0
  let outLinks := fw.fwTable.filter fun fe => decide (Bits.Contains fid fe.LID)
  let sent := emit outLinks.length false (fw.encapsulate payloadLen p) 1 id outLinks
  ((if outLinks.length = 0 then [.kill .entered] else []) ++ sent.1, sent.2)

def pushNetwork (id : UInt32) (p : List UInt8) : List ForwarderAction × UInt32 :=
  let payloadLen := UInt16.ofNat p.length - 14 - 32
  let fid := fw.fidOf p
  -- all bits are set in packets of the link broadcast strategy, which stay on their link
  let allOnes := Bits.isZero (Bits.neg fid)
  let outLinks := if allOnes then [] else
    fw.fwTable.filter fun fe => decide (Bits.Contains fid fe.LID) && !fw.loops p fe
  let pushLocally := decide (Bits.Contains fid fw.iLID)
  let sent := if allOnes then ([], id) else
    emit outLinks.length pushLocally (fun id fe => (some (fw.rewrite payloadLen p fe), id)) 1 id
      outLinks
  (sent.1 ++ (if pushLocally then [.deliver .entered (fw.payloadOf p)] else []) ++
    (if outLinks.length = 0 ∧ pushLocally = false then [.kill .entered] else []), sent.2)

def push (id : UInt32) (inPort : ℕ) (p : List UInt8) : List ForwarderAction × UInt32 :=
  if inPort = 0 then fw.pushLocal id p else fw.pushNetwork id p

end Forwarder

end Blackadder
