/-
**What rendezvous elements receive.**

`pushDataToLocalSubscriber` puts a type and an identifier in front of the data; applications and
rendezvous elements take this apart. Requests to a rendezvous element come in the same form from the
proxy of its node and from the network.
-/

import Blackadder.NodeSystem
import Blackadder.ProxyDelivery
import Blackadder.ProxyWire

namespace Blackadder

open List

def localBytes (type : UInt8) (ID : Id) (data : List UInt8) : List UInt8 :=
  type :: UInt8.ofNat ID.length :: (idBytes ID ++ data)

def networkEvent (packet : List UInt8) : UInt8 × List UInt8 :=
  let p := NetworkPacket.read packet
  if p.type = publishData then (publishedData, p.data)
  else if p.type = publishDataISub then (publishedDataISub, p.data)
  else (publishedData, packet.drop (1 + (readIDs packet 1 (byteAt packet 0).toNat 0).2))

/-! ### Requests -/

def RequestType.code : RequestType → UInt8
  | .publishScope => 0
  | .publishInfo => 1
  | .unpublishScope => 2
  | .unpublishInfo => 3
  | .subscribeScope => 4
  | .subscribeInfo => 5
  | .unsubscribeScope => 6
  | .unsubscribeInfo => 7
  | .other type => type

def RvRequest.bytes (q : RvRequest) : List UInt8 :=
  q.type.code :: q.idLength :: (idBytes q.ID ++ q.prefixIDLength :: (idBytes q.prefixID ++ [q.strategy]))

def ProxyConf.nodeRVScope (conf : ProxyConf) : Id :=
  [managementFragment 255, conf.nodeID.fragment]

/-- What `publishReqToRV` and `createAndSendPacketToRV` put in front of a request. -/
def rvHeader (conf : ProxyConf) : Destination → List UInt8
  | .localRV => publishedData :: UInt8.ofNat conf.nodeRVScope.length :: idBytes conf.nodeRVScope
  | .network _ => 1 :: 2 :: idBytes conf.nodeRVScope

def RvRequest.created (q : RvRequest) (header : List UInt8) : Encoding where
  packetLen := header.length + 1 + 1 + q.idLength.toNat * pursuitIDLen + 1 +
    q.prefixIDLength.toNat * pursuitIDLen + 1
  head := header ++ [q.type.code]
  ids := [⟨q.idLength, q.ID, idBytes q.ID⟩, ⟨q.prefixIDLength, q.prefixID, idBytes q.prefixID⟩]
  tail := [q.strategy]

theorem RvRequest.created_exact {q : RvRequest} (hq : q.Sized) (header : List UInt8) :
    (q.created header).Exact ∧ (q.created header).bytes = header ++ q.bytes := by
  have hbytes : (q.created header).bytes = header ++ q.bytes := by
    simp [created, Encoding.bytes, bytes]
  refine ⟨⟨?_, ?_⟩, hbytes⟩
  · rw [hbytes]
    simp only [created, bytes, length_append, length_cons, idBytes_length, hq.1, hq.2, length_nil]
    omega
  · simp [created, hq.1, hq.2]

namespace Proxy

variable {st : Proxy}

/-- **Requests arrive in the same form**, whichever proxy or packet they come from. -/
theorem request_arrives (conf : ProxyConf) {n : ProxyConf} {q : RvRequest} {h : HostRef}
    (options : List UInt8) (hq : q.Sized)
    (htype : q.type.code ≠ publishData ∧ q.type.code ≠ publishDataISub)
    (hh : st.Subscribes h n.nodeRVScope) (fid : BABitvector) :
    let sent := rvHeader n (.network fid) ++ (q.bytes ++ options)
    (∃ actions, st.push conf (.network sent) = .ok (st, actions) ∧
      (h, n.nodeRVScope) ∈ deliveries actions) ∧
    localBytes (networkEvent sent).1 n.nodeRVScope (networkEvent sent).2 =
      rvHeader n .localRV ++ (q.bytes ++ options) ∧
    ∀ dest, (q.created (rvHeader n dest)).Exact ∧
      (q.created (rvHeader n dest)).bytes = rvHeader n dest ++ q.bytes := by
  intro sent
  have hlen : idLength n.nodeRVScope = 2 := by
    rw [idLength, idBytes_length]
    exact (by decide : UInt8.ofNat (2 * pursuitIDLen) / UInt8.ofNat pursuitIDLen = 2)
  have hsent : sent = UInt8.ofNat [n.nodeRVScope].length ::
      ([n.nodeRVScope].flatMap remoteID ++ (q.bytes ++ options)) := by
    simp [sent, rvHeader, remoteID, hlen]
  have hshort : ∀ k ∈ [n.nodeRVScope], k.length < 32 := by simp [ProxyConf.nodeRVScope]
  obtain ⟨hIDs, hrest⟩ := read_header (by simp) hshort (q.bytes ++ options)
  rw [← hsent] at hIDs hrest
  have hread : NetworkPacket.read sent =
      ⟨[n.nodeRVScope], q.type.code, (q.bytes ++ options).drop 1⟩ := by
    rw [NetworkPacket.read, hIDs, hrest]
    rfl
  have hpush : st.push conf (.network sent) = .ok (st,
      .read .entered :: st.handleNetworkPublication conf [n.nodeRVScope] publishedData) := by
    rw [push, dispatch, handleNetworkPacket, hread, if_neg htype.1, if_neg htype.2]
    rfl
  refine ⟨⟨_, hpush, ?_⟩, ?_, fun dest => RvRequest.created_exact hq _⟩
  · have hmem : h ∈ st.findLocalSubscribers [n.nodeRVScope] :=
      mem_findLocalSubscribers.2 ⟨_, mem_singleton_self _, hh⟩
    obtain ⟨k, hget⟩ := Table.mem_iff.1 hmem
    cases mem_singleton.1 (subscribes_of_get hget).1
    change _ ∈ deliveries (st.handleNetworkPublication conf [n.nodeRVScope] publishedData)
    rw [deliveries_handleNetworkPublication, mem_filterMap]
    exact ⟨h, (Traversal.mem_visit _).2 hmem, by rw [hget]; rfl⟩
  · rw [networkEvent, hread, if_neg htype.1, if_neg htype.2, hrest]
    simp [localBytes, rvHeader]

theorem request_arrives_publishScope :
    let q : RvRequest := ⟨.publishScope, 1, [.ofByte 1], 0, [], domainLocal⟩
    let sent := rvHeader exampleProxyConf (.network .zeros) ++ (q.bytes ++ [])
    localBytes (networkEvent sent).1 exampleProxyConf.nodeRVScope (networkEvent sent).2 =
      rvHeader exampleProxyConf .localRV ++ (q.bytes ++ []) := by
  have hh : (runOf exampleProxyConf [.host .clickElement 1 (.request .subscribeScope
      ⟨[managementFragment 255], by decide⟩ ⟨[], by decide⟩ implicitRendezvous)]).Subscribes 1
        exampleProxyConf.nodeRVScope := by decide +kernel
  exact (request_arrives exampleProxyConf [] ⟨rfl, rfl⟩ (by decide) hh .zeros).2.1

end Proxy

end Blackadder
