/-
**A packet follows the path of its forwarding identifier.**

What a forwarder sends on an entry travels over the connection of the entry; any frame that is on
its way may arrive next. A packet follows a path when at each node the next connection is the only
one that is selected and is not a way back, and only the last node delivers it.
-/

import Blackadder.Domain
import Blackadder.ForwarderCopies

namespace Blackadder

open List
open NetworkConnection (dstLabel link)
open Buffer (write length_write)
open Forwarder (sends push_zero fidIn push_of_ne)

/-! ### The addresses of a frame -/

section
variable {fe : ForwardingEntry} {data frame bytes pay p : List UInt8} {n i j : ℕ}

theorem vectorAt_write_self (v : List.Vector UInt8 n) (h : i + n ≤ data.length) :
    vectorAt n (write i v.toList data) i = v := by
  have htake : (data.take i).length = i := by
    rw [length_take]
    omega
  refine vectorAt_of_drop (l := data.drop (i + n)) ?_
  rw [write, append_assoc, drop_left' htake, v.toList_length]

theorem vectorAt_write_outside (h : i + bytes.length ≤ data.length)
    (hj : j + n ≤ i ∨ i + bytes.length ≤ j) :
    vectorAt n (write i bytes data) j = vectorAt n data j := by
  refine List.Vector.toList_injective (map_congr_left fun k hk => ?_)
  rw [mem_range] at hk
  exact Buffer.getD_write_outside h (by omega)

def Addressed (useMac : Bool) (frame : List UInt8) (fe : ForwardingEntry) : Prop :=
  if useMac then vectorAt macLen frame macLen = fe.src ∧ vectorAt macLen frame 0 = fe.dst
  else vectorAt 4 frame 12 = fe.srcIP ∧ vectorAt 4 frame 16 = fe.dstIP

/-- The frame has an Ethernet header with the addresses of an entry. -/
def MacAddressed (frame : List UInt8) (fe : ForwardingEntry) : Prop :=
  12 ≤ frame.length ∧ vectorAt macLen frame macLen = fe.src ∧ vectorAt macLen frame 0 = fe.dst

theorem macAddressed_writeAddresses (h : 12 ≤ data.length) :
    MacAddressed (fe.writeAddresses data) fe := by
  have hdst : (write 0 fe.dst.toList data).length = data.length :=
    length_write (by rw [fe.dst.toList_length, macLen]; omega)
  refine ⟨(ForwardingEntry.sameFrom_writeAddresses h).length ▸ h, ?_, ?_⟩
  · exact vectorAt_write_self fe.src (by rw [hdst, macLen]; omega)
  · rw [ForwardingEntry.writeAddresses, vectorAt_write_outside ?_ (.inl (by simp))]
    · exact vectorAt_write_self fe.dst (by rw [macLen]; omega)
    · rw [hdst, fe.src.toList_length, macLen]
      omega

theorem MacAddressed.write (h : MacAddressed data fe) (hi : 12 ≤ i)
    (hfits : i + bytes.length ≤ data.length) : MacAddressed (write i bytes data) fe := by
  obtain ⟨hlen, hsrc, hdst⟩ := h
  refine ⟨length_write hfits ▸ hlen, ?_, ?_⟩
  · rw [vectorAt_write_outside hfits (.inl (by rw [macLen]; omega)), hsrc]
  · rw [vectorAt_write_outside hfits (.inl (by rw [macLen]; omega)), hdst]

theorem macAddressed_writeMacHeader (h : 14 ≤ data.length) :
    MacAddressed (fe.writeMacHeader data) fe := by
  have haddr : 12 ≤ data.length := by omega
  refine (macAddressed_writeAddresses haddr).write (by simp [macLen]) ?_
  rw [(ForwardingEntry.sameFrom_writeAddresses haddr).length]
  exact h

theorem macAddressed_writeSDNHeader (plen : UInt16) (h : 22 ≤ data.length) :
    MacAddressed (fe.writeSDNHeader plen data) fe := by
  -- the fields behind the Ethernet header end at byte 22
  have step : ∀ {d : List UInt8} (i : ℕ) (bytes : List UInt8), 12 ≤ i → i + bytes.length ≤ 22 →
      22 ≤ d.length ∧ MacAddressed d fe →
      22 ≤ (write i bytes d).length ∧ MacAddressed (write i bytes d) fe := by
    intro d i bytes hi hb hd
    have hfits : i + bytes.length ≤ d.length := hb.trans hd.1
    exact ⟨length_write hfits ▸ hd.1, hd.2.write hi hfits⟩
  have hmac : 22 ≤ (fe.writeMacHeader data).length ∧ MacAddressed (fe.writeMacHeader data) fe := by
    have hlen : 14 ≤ data.length := by omega
    exact ⟨(ForwardingEntry.sameFrom_writeMacHeader hlen).length ▸ h,
      macAddressed_writeMacHeader hlen⟩
  refine (step _ _ ?_ ?_ <| step _ _ ?_ ?_ <| step _ _ ?_ ?_ <| step _ _ ?_ ?_ <|
    step _ _ ?_ ?_ hmac).2 <;> simp [macLen, memBytes]

theorem MacAddressed.addressed {useMac : Bool} (hmac : useMac = true) (h : MacAddressed frame fe) :
    Addressed useMac frame fe := by
  rw [Addressed, if_pos hmac]
  exact h.2

/-- The frame has an IP header with the addresses of an entry, and a UDP header. -/
def IPAddressed (frame : List UInt8) (fe : ForwardingEntry) : Prop :=
  28 ≤ frame.length ∧ vectorAt 4 frame 12 = fe.srcIP ∧ vectorAt 4 frame 16 = fe.dstIP

theorem ipAddressed_ipHeader (len id : UInt16) (sum : List.Vector UInt8 2) {udp : List UInt8}
    (hudp : 8 ≤ udp.length) : IPAddressed (fe.ipHeader len id sum ++ udp) fe := by
  refine ⟨?_, vectorAt_of_drop (l := fe.dstIP.toList ++ udp) ?_, vectorAt_of_drop (l := udp) ?_⟩
  · rw [length_append, Forwarder.ForwardingEntry.length_ipHeader]
    omega
  · rw [ForwardingEntry.ipHeader, append_assoc, append_assoc]
    exact drop_left' (by simp [netBytes])
  · rw [ForwardingEntry.ipHeader, append_assoc]
    exact drop_left' (by simp [netBytes])

theorem IPAddressed.write (h : IPAddressed data fe) (i : ℕ) (bytes : List UInt8)
    (hi : i + bytes.length ≤ 12 ∨ 20 ≤ i) (hfits : i + bytes.length ≤ 28) :
    IPAddressed (write i bytes data) fe := by
  obtain ⟨hlen, hsrc, hdst⟩ := h
  have hin : i + bytes.length ≤ data.length := hfits.trans hlen
  refine ⟨length_write hin ▸ hlen, ?_, ?_⟩
  · rw [vectorAt_write_outside hin (by omega), hsrc]
  · rw [vectorAt_write_outside hin (by omega), hdst]

theorem ipAddressed_writes (fe : ForwardingEntry) (h : 28 ≤ data.length) :
    IPAddressed (write 16 fe.dstIP.toList (write 12 fe.srcIP.toList data)) fe := by
  have hsrc : 12 + fe.srcIP.toList.length ≤ data.length := by
    rw [fe.srcIP.toList_length]
    omega
  have hlen := length_write hsrc
  have hdst : 16 + fe.dstIP.toList.length ≤ (write 12 fe.srcIP.toList data).length := by
    rw [fe.dstIP.toList_length]
    omega
  refine ⟨?_, ?_, vectorAt_write_self fe.dstIP (by omega)⟩
  · rw [length_write hdst, hlen]
    exact h
  · rw [vectorAt_write_outside hdst (.inl (by omega))]
    exact vectorAt_write_self fe.srcIP (by omega)

theorem IPAddressed.addressed {useMac : Bool} (hip : useMac = false) (h : IPAddressed frame fe) :
    Addressed useMac frame fe := by
  rw [Addressed, hip]
  exact h.2

namespace Forwarder

variable {fw : Forwarder} {plen : UInt16} {id : UInt32}

theorem encapsulate_addressed (h : (fw.encapsulate plen pay id fe).1 = some frame) :
    Addressed fw.useMac frame fe := by
  cases hmac : fw.useMac with
  | true =>
    rw [encapsulate, if_pos hmac] at h
    split at h
    · obtain rfl := Option.some.inj h
      refine (macAddressed_writeMacHeader ?_).addressed rfl
      rw [length_pushBytes]
      omega
    · split at h
      · obtain rfl := Option.some.inj h
        refine (macAddressed_writeSDNHeader _ ?_).addressed rfl
        rw [length_pushBytes]
        omega
      · cases h
  | false =>
    rw [encapsulate, hmac] at h
    obtain rfl := Option.some.inj h
    rw [append_assoc]
    refine (ipAddressed_ipHeader _ _ _ ?_).addressed rfl
    rw [length_append, length_udpHeader]
    omega

theorem rewrite_addressed (h : fw.headerLen p ≤ p.length) :
    Addressed fw.useMac (fw.rewrite plen p fe) fe := by
  cases hmac : fw.useMac with
  | true =>
    have hlen : 14 ≤ p.length := by
      rw [headerLen, if_pos hmac] at h
      split at h <;> omega
    rw [rewrite, if_pos hmac]
    dsimp only
    split
    · exact (macAddressed_writeAddresses (by omega)).addressed rfl
    · split
      · refine (macAddressed_writeSDNHeader _ ?_).addressed rfl
        rw [length_pushBytes]
        omega
      · split
        · refine (macAddressed_writeMacHeader ?_).addressed rfl
          rw [length_pushBytes]
          omega
        · exact (macAddressed_writeAddresses (by omega)).addressed rfl
  | false =>
    have hlen : 28 ≤ p.length := by
      rw [headerLen, hmac] at h
      exact h
    rw [rewrite, hmac]
    -- the addresses are written first, and then fields around them
    have hfie := ((((ipAddressed_writes fe hlen).write 1 [0] (by simp) (by simp)).write
      6 [0, 0] (by simp) (by simp)).write 8 [250] (by simp) (by simp)).write
      10 [0, 0] (by simp) (by simp)
    refine IPAddressed.addressed rfl
      (((hfie.write 10 _ ?_ ?_).write 26 [0, 0] ?_ ?_).write 26 _ ?_ ?_) <;> simp

theorem addressed_of_mem_pushLocal (h : (fe, frame) ∈ sends (fw.pushLocal id p).1) :
    Addressed fw.useMac frame fe := by
  obtain ⟨id', hframe⟩ := mem_sends_pushLocal h
  exact encapsulate_addressed hframe

theorem addressed_of_mem_pushNetwork (hp : fw.headerLen p ≤ p.length)
    (h : (fe, frame) ∈ sends (fw.pushNetwork id p).1) : Addressed fw.useMac frame fe := by
  rw [mem_sends_pushNetwork h]
  exact rewrite_addressed hp

end Forwarder

end

/-! ### The network -/

structure NetState where
  ids : NodeID → UInt32
  inFlight : List (NetworkConnection × List UInt8)
  crossed : List NetworkConnection
  delivered : List (NodeID × List UInt8)

def NetworkNode.onLinks (n : NetworkNode) (sent : List (ForwardingEntry × List UInt8)) :
    List (NetworkConnection × List UInt8) :=
  sent.filterMap fun x => (n.connections.find? fun c => c.entry = x.1).map fun c => (c, x.2)

namespace Domain

variable (d : Domain) (sums : Checksums)

def push (st : NetState) (label : NodeID) (inPort : ℕ) (p : List UInt8) : NetState :=
  match d.findNode label with
  | none => st
  | some n =>
    let out := (d.forwarder sums n).push (st.ids label) inPort p
    let frames := n.onLinks (sends out.1)
    { ids := Function.update st.ids label out.2
      inFlight := st.inFlight ++ frames
      crossed := st.crossed ++ frames.map Prod.fst
      delivered := st.delivered ++ (Forwarder.deliveries out.1).map fun data => (label, data) }

/-- The proxy of a node writes a packet, and there is no other one. -/
def inject (ids : NodeID → UInt32) (label : NodeID) (p : List UInt8) : NetState :=
  d.push sums ⟨ids, [], [], []⟩ label 0 p

def Step (st st' : NetState) : Prop :=
  ∃ before c frame after port, st.inFlight = before ++ (c, frame) :: after ∧ port ≠ 0 ∧
    st' = d.push sums { st with inFlight := before ++ after } c.dstLabel port frame

inductive Run : ℕ → NetState → NetState → Prop
  | refl (st : NetState) : Run 0 st st
  | step {k : ℕ} {st st' st'' : NetState} (run : Run k st st') (last : d.Step sums st' st'') :
    Run (k + 1) st st''

variable {d sums}

/-! ### The next connection of a path -/

variable {n : NetworkNode} {c c' : NetworkConnection} {src dst : NodeID}
  {path before after : List NetworkConnection}

def DistinctLIDs (d : Domain) : Prop := ∀ n ∈ d.nodes, (n.connections.map NetworkConnection.LID).Nodup

theorem DistinctLIDs.eq_of_LID (hd : d.DistinctLIDs) (hn : n ∈ d.nodes) (hc : c ∈ n.connections)
    (hc' : c' ∈ n.connections) (h : c.LID = c'.LID) : c = c' :=
  inj_on_of_nodup_map (hd n hn) hc hc' h

/-- A path between two nodes of the domain that visits no node twice. -/
structure Route (d : Domain) (src dst : NodeID) (path : List NetworkConnection) : Prop where
  mem : ∀ c ∈ path, c ∈ d.connections
  walk : Routes.Walk d.edges src dst (path.map link)
  nodup : (Routes.vertices src (path.map link)).Nodup
  src_mem : src ∈ d.labels
  dst_mem : dst ∈ d.labels
  ne : src ≠ dst

namespace Route

theorem walk_after (h : d.Route src dst (before ++ after)) {label : NodeID}
    (hwalk : Routes.Walk d.edges src label (before.map link)) :
    Routes.Walk d.edges label dst (after.map link) := by
  have hall := h.walk
  rw [map_append, Routes.walk_append_iff] at hall
  obtain ⟨t, hbef, hafter⟩ := hall
  rwa [hwalk.end_unique hbef]

theorem walk_to (h : d.Route src dst (before ++ [c] ++ after)) :
    Routes.Walk d.edges src c.dstLabel ((before ++ [c]).map link) := by
  have hall := h.walk
  rw [append_assoc, map_append, Routes.walk_append_iff] at hall
  obtain ⟨t, hbef, hrest⟩ := hall
  obtain ⟨hc, hsrc, -⟩ := Routes.walk_cons_iff.1 hrest
  rw [map_append]
  exact hbef.append (Routes.walk_cons_iff.2 ⟨hc, hsrc, .nil _⟩)

theorem srcLabel_ne (h : d.Route src dst path) (hc : c ∈ path) : c.srcLabel ≠ dst :=
  h.walk.src_ne_end h.nodup (mem_map_of_mem hc)

/-- **Of the connections of a node, the path takes the next one**, and no other. -/
theorem mem_path_iff (hd : d.DistinctLIDs) (h : d.Route src dst (before ++ after))
    (hn : n ∈ d.nodes) (hwalk : Routes.Walk d.edges src n.label (before.map link))
    (hc : c ∈ n.connections) : c ∈ before ++ after ↔ after.head? = some c := by
  have hlabel := d.src_eq n hn c hc
  have hrest := h.walk_after hwalk
  cases after with
  | nil =>
    have hdst : n.label = dst := Routes.walk_nil_iff.1 hrest
    refine ⟨fun hin => absurd (hlabel.trans hdst) (h.srcLabel_ne hin), ?_⟩
    rintro ⟨⟩
  | cons c' after =>
    have hc' : c' ∈ before ++ c' :: after := mem_append_right _ mem_cons_self
    have hlab' : c'.srcLabel = n.label := (Routes.walk_cons_iff.1 hrest).2.1
    rw [head?_cons, Option.some_inj]
    constructor
    · intro hin
      -- two connections of the path that leave one node are the same
      have hlink : c'.link = c.link :=
        inj_on_of_nodup_map (h.walk.nodup_src h.nodup) (mem_map_of_mem hc')
          (mem_map_of_mem hin) (hlab'.trans hlabel.symm)
      exact hd.eq_of_LID hn ((mem_connections_iff hn).2 ⟨h.mem c' hc', hlab'⟩) hc
        (congrArg Routes.Arc.label hlink)
    · rintro rfl
      exact hc'

theorem head_mem (h : d.Route src dst (before ++ after)) (hn : n ∈ d.nodes)
    (hwalk : Routes.Walk d.edges src n.label (before.map link))
    (hc : after.head? = some c) : c ∈ n.connections := by
  obtain ⟨rest, rfl⟩ := head?_eq_some_iff.1 hc
  refine (mem_connections_iff hn).2 ⟨h.mem c (mem_append_right _ mem_cons_self), ?_⟩
  exact (Routes.walk_cons_iff.1 (h.walk_after hwalk)).2.1

theorem nodup_next (h : d.Route src dst (before ++ [c] ++ after)) (hc' : after.head? = some c') :
    [c.srcLabel, c.dstLabel, c'.dstLabel].Nodup := by
  obtain ⟨rest, rfl⟩ := head?_eq_some_iff.1 hc'
  have hmap : (before ++ [c] ++ c' :: rest).map link = before.map link ++ c.link :: c'.link ::
        rest.map link := by simp
  have hwalk := h.walk
  have hnodup := h.nodup
  rw [hmap] at hwalk hnodup
  exact hwalk.nodup_consecutive hnodup

theorem path_nodup (h : d.Route src dst path) : path.Nodup :=
  ((h.walk.nodup_src h.nodup).of_map _).of_map _

theorem label_eq_dst_iff (h : d.Route src dst (before ++ after))
    (hwalk : Routes.Walk d.edges src n.label (before.map link)) : n.label = dst ↔ after = [] := by
  have hrest := h.walk_after hwalk
  cases after with
  | nil => exact ⟨fun _ => rfl, fun _ => Routes.walk_nil_iff.1 hrest⟩
  | cons c after =>
    refine ⟨fun hdst => ?_, fun hnil => absurd hnil (cons_ne_nil _ _)⟩
    have hlabel : c.srcLabel = n.label := (Routes.walk_cons_iff.1 hrest).2.1
    have hc : c ∈ before ++ c :: after := mem_append_right _ mem_cons_self
    exact absurd (hlabel.trans hdst) (h.srcLabel_ne hc)

end Route

end Domain

/-! ### Frames do not go back -/

/-- May a packet that came over a connection leave on another? -/
def NetworkConnection.loopsTo (useMac : Bool) (c c' : NetworkConnection) : Bool :=
  if useMac then
    decide (c.srcMac = c'.dstMac ∧ c.dstMac = c'.srcMac) ||
      decide (c.srcMac = c'.srcMac ∨ c.dstMac = c'.dstMac)
  else decide (c.srcIP = c'.dstIP ∧ c.dstIP = c'.srcIP)

def NetworkConnection.ends (useMac : Bool) (c : NetworkConnection) : List (NodeID × List UInt8) :=
  if useMac then [(c.srcLabel, c.srcMac.toList), (c.dstLabel, c.dstMac.toList)]
  else [(c.srcLabel, c.srcIP.toList), (c.dstLabel, c.dstIP.toList)]

open NetworkConnection (ends)

namespace Domain

variable {d : Domain} {sums : Checksums} {n : NetworkNode} {c c' : NetworkConnection}
  {src dst : NodeID} {before after : List NetworkConnection} {frame p pay : List UInt8}

def DistinctAddresses (d : Domain) : Prop :=
  ∀ x ∈ d.connections.flatMap (ends d.useMac),
    ∀ y ∈ d.connections.flatMap (ends d.useMac), x.2 = y.2 → x.1 = y.1

instance (d : Domain) : Decidable d.DistinctAddresses :=
  inferInstanceAs (Decidable (∀ x ∈ d.connections.flatMap (ends d.useMac), _))

theorem DistinctAddresses.ne (h : d.DistinctAddresses) (hc : c ∈ d.connections)
    (hc' : c' ∈ d.connections) {u w : NodeID} {a b : List UInt8} (ha : (u, a) ∈ c.ends d.useMac)
    (hb : (w, b) ∈ c'.ends d.useMac) (huw : u ≠ w) : a ≠ b := fun hab =>
  huw (h (u, a) (mem_flatMap.2 ⟨c, hc, ha⟩) (w, b) (mem_flatMap.2 ⟨c', hc', hb⟩) hab)

theorem loops_of_addressed (hframe : Addressed d.useMac frame c.entry) :
    (d.forwarder sums n).loops frame c'.entry = c.loopsTo d.useMac c' := by
  have hmode : (d.forwarder sums n).useMac = d.useMac := rfl
  rw [Forwarder.loops, NetworkConnection.loopsTo, hmode]
  cases hmac : d.useMac with
  | true =>
    rw [Addressed, hmac] at hframe
    rw [hframe.1, hframe.2]
    rfl
  | false =>
    rw [Addressed, hmac] at hframe
    rw [hframe.1, hframe.2]
    rfl

/-- It may when the two join three nodes. -/
theorem loopsTo_eq_false (haddr : d.DistinctAddresses) (hc : c ∈ d.connections)
    (hc' : c' ∈ d.connections) (hnext : c'.srcLabel = c.dstLabel)
    (hnodes : [c.srcLabel, c.dstLabel, c'.dstLabel].Nodup) : c.loopsTo d.useMac c' = false := by
  obtain ⟨hsd, hsd', hdd⟩ : c.srcLabel ≠ c.dstLabel ∧ c.srcLabel ≠ c'.dstLabel ∧
      c.dstLabel ≠ c'.dstLabel := by
    simpa [and_assoc] using hnodes
  rw [NetworkConnection.loopsTo]
  cases hmac : d.useMac with
  | true =>
    have hback : c.srcMac ≠ c'.dstMac := ne_of_apply_ne List.Vector.toList <|
      haddr.ne hc hc' (by simp [ends, hmac]) (by simp [ends, hmac]) hsd'
    have hsrc : c.srcMac ≠ c'.srcMac := ne_of_apply_ne List.Vector.toList <|
      haddr.ne hc hc' (by simp [ends, hmac]) (by simp [ends, hmac]) (hnext ▸ hsd)
    have hdst : c.dstMac ≠ c'.dstMac := ne_of_apply_ne List.Vector.toList <|
      haddr.ne hc hc' (by simp [ends, hmac]) (by simp [ends, hmac]) hdd
    simp [hback, hsrc, hdst]
  | false =>
    have hback : c.srcIP ≠ c'.dstIP := ne_of_apply_ne List.Vector.toList <|
      haddr.ne hc hc' (by simp [ends, hmac]) (by simp [ends, hmac]) hsd'
    simp [hback]

/-! ### What one forwarder does -/

variable {next : Option NetworkConnection} {path : List NetworkConnection}

theorem filter_entries {S : ForwardingEntry → Bool} (hd : d.DistinctLIDs) (hn : n ∈ d.nodes)
    (hnext : ∀ c, next = some c → c ∈ n.connections)
    (hS : ∀ c ∈ n.connections, S c.entry = true ↔ next = some c) :
    (n.connections.map NetworkConnection.entry).filter S =
      next.toList.map NetworkConnection.entry := by
  rw [filter_map]
  congr 1
  cases next with
  | none =>
    refine filter_eq_nil_iff.2 fun c hc hsel => ?_
    cases (hS c hc).1 hsel
  | some c =>
    have hc : c ∈ n.connections := hnext c rfl
    have hcongr : n.connections.filter (S ∘ NetworkConnection.entry) =
        n.connections.filter fun x => x == c := by
      refine filter_congr fun x hx => ?_
      rw [Bool.eq_iff_iff, Function.comp_apply, hS x hx, beq_iff_eq, Option.some_inj, eq_comm]
    rw [hcongr, filter_beq, count_eq_one_of_mem ((hd n hn).of_map _) hc]
    rfl

theorem onLinks_spec {sent : List (ForwardingEntry × List UInt8)} (hd : d.DistinctLIDs)
    (hn : n ∈ d.nodes) (hnext : ∀ c, next = some c → c ∈ n.connections)
    (hsent : sent.map Prod.fst = next.toList.map NetworkConnection.entry) :
    (n.onLinks sent).map Prod.fst = next.toList ∧
      ∀ x ∈ n.onLinks sent, (x.1.entry, x.2) ∈ sent := by
  cases next with
  | none =>
    obtain rfl : sent = [] := map_eq_nil_iff.1 hsent
    exact ⟨rfl, fun x hx => absurd hx not_mem_nil⟩
  | some c =>
    have hc : c ∈ n.connections := hnext c rfl
    obtain ⟨⟨fe, frame⟩, rfl, hfe⟩ := map_eq_singleton_iff.1 hsent
    obtain rfl : fe = c.entry := hfe
    -- the identifier of the entry is that of one connection only
    have hfind : n.connections.find? (fun x => x.entry = c.entry) = some c := by
      cases hfind : n.connections.find? fun x => x.entry = c.entry with
      | none => exact absurd (decide_eq_true rfl) (find?_eq_none.1 hfind c hc)
      | some x =>
        have hx := mem_of_find?_eq_some hfind
        have hentry : x.entry = c.entry := of_decide_eq_true <|
          find?_some (p := fun x : NetworkConnection => decide (x.entry = c.entry)) hfind
        rw [hd.eq_of_LID hn hx hc (congrArg ForwardingEntry.LID hentry)]
    have hon : n.onLinks [(c.entry, frame)] = [(c, frame)] := by
      rw [NetworkNode.onLinks, filterMap_cons, hfind]
      rfl
    rw [hon]
    refine ⟨rfl, fun x hx => ?_⟩
    rw [mem_singleton.1 hx]
    exact mem_singleton_self _

/-! ### The journey -/

/-- **What a forwarding identifier has to select along a path.** -/
structure Leads (d : Domain) (src dst : NodeID) (fid : FID) (path : List NetworkConnection) :
    Prop where
  lids : d.DistinctLIDs
  first : ∀ c ∈ d.connections, c.srcLabel = src → (Bits.Contains fid c.LID ↔ path.head? = some c)
  next : ∀ before c after, path = before ++ [c] ++ after → ∀ c' ∈ d.connections,
    c'.srcLabel = c.dstLabel →
      (Bits.Contains fid c'.LID ∧ Bits.isZero (Bits.neg fid) = false ∧
        c.loopsTo d.useMac c' = false ↔ after.head? = some c')
  /-- Of the nodes that it reaches, the destination is the one that delivers it. -/
  last : ∀ c ∈ path, ∀ n ∈ d.nodes, n.label = c.dstLabel →
    (Bits.Contains fid n.iLid ↔ n.label = dst)

/-- The packet has crossed the first connections of a path: it is on the next one, or delivered. -/
structure Progress (d : Domain) (sums : Checksums) (dst : NodeID) (fid : FID) (payload : List UInt8)
    (before after : List NetworkConnection) (st : NetState) : Prop where
  links : st.inFlight.map Prod.fst = after.head?.toList
  frames : ∀ x ∈ st.inFlight, (∀ n, (d.forwarder sums n).Carries x.2 fid payload) ∧
    Addressed d.useMac x.2 x.1.entry
  crossed : st.crossed = before ++ after.head?.toList
  delivered : st.delivered = if after = [] then [(dst, payload)] else []

theorem forwarder_knownTypes : (d.forwarder sums n).KnownTypes := by
  intro _ fe hfe
  obtain ⟨c, -, rfl⟩ := mem_map.1 hfe
  exact .inl rfl

variable {st st' : NetState} {fid : FID} {port : ℕ} {id : UInt32}

theorem progress_push (hd : d.DistinctLIDs) (hn : n ∈ d.nodes)
    (hnext : ∀ c, after.head? = some c → c ∈ n.connections)
    (hfor : ∀ id, (d.forwarder sums n).ForwardedOnce port p ((d.forwarder sums n).push id port p).1)
    (hsel : ∀ c ∈ n.connections, (d.forwarder sums n).Selects port p c.entry ↔ after.head? = some c)
    (hfra : ∀ id, ∀ x ∈ sends ((d.forwarder sums n).push id port p).1,
      (d.forwarder sums n).Carries x.2 fid pay ∧ Addressed d.useMac x.2 x.1)
    (hloc : ∀ id, (Forwarder.deliveries ((d.forwarder sums n).push id port p).1).map
      (fun data => (n.label, data)) = if after = [] then [(dst, pay)] else [])
    (hcro : st.crossed = before) (hdeli : st.delivered = []) (hfli : st.inFlight = []) :
    d.Progress sums dst fid pay before after (d.push sums st n.label port p) := by
  obtain ⟨m, hm, hlabel, hfind⟩ := d.exists_findNode (mem_map_of_mem hn)
  obtain rfl := d.eq_of_label hm hn hlabel
  have hent := (hfor (st.ids m.label)).entries
  have hsele := filter_entries hd hn hnext
    (S := fun fe => decide ((d.forwarder sums m).Selects port p fe))
    fun c hc => by rw [decide_eq_true_iff, hsel c hc]
  obtain ⟨hlinks, hmem⟩ := onLinks_spec hd hn hnext (hent.trans hsele)
  have hpush : d.push sums st m.label port p =
      { ids := Function.update st.ids m.label
          ((d.forwarder sums m).push (st.ids m.label) port p).2
        inFlight := m.onLinks (sends ((d.forwarder sums m).push (st.ids m.label) port p).1)
        crossed := before ++ (m.onLinks (sends
          ((d.forwarder sums m).push (st.ids m.label) port p).1)).map Prod.fst
        delivered := (Forwarder.deliveries ((d.forwarder sums m).push (st.ids m.label) port p).1).map
            fun data => (m.label, data) } := by
    rw [push, hfind, hfli, hcro, hdeli]
    rfl
  rw [hpush]
  refine ⟨hlinks, fun x hx => ?_, congrArg (before ++ ·) hlinks, hloc _⟩
  obtain ⟨hcar, haddre⟩ := hfra _ _ (hmem x hx)
  exact ⟨fun n => hcar.of_mode rfl, haddre⟩

theorem progress_inject (h : d.Route src dst after) (hl : d.Leads src dst fid after)
    (ids : NodeID → UInt32) (pay : List UInt8) :
    d.Progress sums dst fid pay [] after (d.inject sums ids src (fid.toList ++ pay)) := by
  obtain ⟨n, hn, rfl, -⟩ := d.exists_findNode h.src_mem
  have hroute : d.Route n.label dst ([] ++ after) := h
  have hwalk : Routes.Walk d.edges n.label n.label
      (([] : List NetworkConnection).map link) := .nil _
  have hfid : vectorAt fidLen (fid.toList ++ pay) 0 = fid := vectorAt_of_drop (l := pay) rfl
  have hfor : ∀ id, (d.forwarder sums n).ForwardedOnce 0 (fid.toList ++ pay)
      ((d.forwarder sums n).push id 0 (fid.toList ++ pay)).1 := by
    intro id
    refine Forwarder.pushLocal_forwardedOnce forwarder_knownTypes ?_
    rw [length_append, List.Vector.toList_length]
    omega
  refine progress_push hl.lids hn (fun c hc => hroute.head_mem hn hwalk hc) hfor
    (fun c hc => ?_) (fun id x hx => ?_) (fun id => ?_) rfl rfl rfl
  · obtain ⟨hmem, hsrc⟩ := (mem_connections_iff hn).1 hc
    rw [← hl.first c hmem hsrc]
    simp [Forwarder.Selects, fidIn, hfid, NetworkConnection.entry]
  · rw [push_zero] at hx
    have hcar := Forwarder.carries_of_mem_pushLocal hx
    exact ⟨hcar, Forwarder.addressed_of_mem_pushLocal hx⟩
  · have hnil : after ≠ [] := fun hnil => h.ne ((hroute.label_eq_dst_iff hwalk).2 hnil)
    rw [(hfor id).proxy, if_neg hnil]
    rfl

section
variable (h : d.Route src dst (before ++ [c] ++ after))
  (hl : d.Leads src dst fid (before ++ [c] ++ after))
include h hl

theorem progress_arrival (hcar : ∀ n, (d.forwarder sums n).Carries frame fid pay)
    (hframe : Addressed d.useMac frame c.entry) (hport : port ≠ 0)
    (hcro : st.crossed = before ++ [c]) (hdeli : st.delivered = []) (hfli : st.inFlight = []) :
    d.Progress sums dst fid pay (before ++ [c]) after (d.push sums st c.dstLabel port frame) := by
  obtain ⟨m, hm, hc⟩ := mem_flatMap.1 (h.mem c (by simp))
  obtain ⟨n, hn, hlabel, -⟩ := d.exists_findNode (d.dst_mem m hm c hc)
  have hwalk : Routes.Walk d.edges src n.label ((before ++ [c]).map link) := hlabel ▸ h.walk_to
  have hlen := (hcar n).headerLen_le
  rw [← hlabel]
  refine progress_push hl.lids hn (fun c' hc' => h.head_mem hn hwalk hc') (fun id => ?_)
    (fun c' hc' => ?_) (fun id x hx => ?_) (fun id => ?_) hcro hdeli hfli
  · rw [push_of_ne hport]
    exact Forwarder.pushNetwork_forwardedOnce hport (by omega)
  · obtain ⟨hmem', hsrc'⟩ := (mem_connections_iff hn).1 hc'
    rw [← hl.next before c after rfl c' hmem' (hsrc'.trans hlabel), Forwarder.Selects,
      fidIn, if_neg hport, (hcar n).fidOf_eq, loops_of_addressed hframe]
    exact and_congr_right fun _ => ⟨fun hnot => hnot hport, fun hnot _ => hnot⟩
  · rw [push_of_ne hport] at hx
    exact ⟨Forwarder.carries_of_mem_pushNetwork (hcar n) hx,
      Forwarder.addressed_of_mem_pushNetwork (by omega) hx⟩
  · have hloc : Bits.Contains fid (d.forwarder sums n).iLID ↔ after = [] :=
      (hl.last c (by simp) n hn hlabel).trans (h.label_eq_dst_iff hwalk)
    rw [push_of_ne hport, Forwarder.deliveries_pushNetwork, (hcar n).fidOf_eq,
      (hcar n).payloadOf_eq]
    by_cases hnil : after = []
    · rw [if_pos hnil, if_pos (hloc.2 hnil), ← (h.label_eq_dst_iff hwalk).2 hnil]
      rfl
    · rw [if_neg hnil, if_neg (fun hin => hnil (hloc.1 hin))]
      rfl

/-- **Every step takes the packet over the next connection.** -/
theorem progress_step (hst : d.Progress sums dst fid pay before (c :: after) st)
    (hstep : d.Step sums st st') : d.Progress sums dst fid pay (before ++ [c]) after st' := by
  obtain ⟨front, c₀, frame, rear, port, hfli, hport, rfl⟩ := hstep
  -- the frame that arrives is the only one
  have hone := hst.links
  rw [hfli, map_append, head?_cons, Option.toList_some, append_eq_singleton_iff] at hone
  rcases hone with ⟨hfront, hrest⟩ | ⟨-, hrest⟩
  · obtain ⟨rfl, hrear⟩ := cons.inj hrest
    obtain rfl := map_eq_nil_iff.1 hfront
    obtain rfl := map_eq_nil_iff.1 hrear
    obtain ⟨hcar, hframe⟩ := hst.frames (_, frame) (by rw [hfli]; exact mem_cons_self)
    exact progress_arrival h hl hcar hframe hport hst.crossed hst.delivered rfl
  · cases hrest

end

theorem exists_step (hfli : st.inFlight ≠ []) : ∃ st', d.Step sums st st' := by
  obtain ⟨⟨c, frame⟩, rear, hst⟩ := exists_cons_of_ne_nil hfli
  exact ⟨_, [], c, frame, rear, 1, hst, one_ne_zero, rfl⟩

theorem progress_run {k : ℕ} (h : d.Route src dst path) (hl : d.Leads src dst fid path)
    {st₀ : NetState} (hst₀ : d.Progress sums dst fid pay [] path st₀)
    (hrun : d.Run sums k st₀ st) : ∃ before after, path = before ++ after ∧ before.length = k ∧
      d.Progress sums dst fid pay before after st := by
  induction hrun with
  | refl => exact ⟨[], path, rfl, rfl, hst₀⟩
  | step _ last ih =>
    obtain ⟨before, after, hsplit, hlen, hst⟩ := ih hst₀
    cases after with
    | nil =>
      -- nothing is on its way
      have hnone := map_eq_nil_iff.1 hst.links
      obtain ⟨front, c, frame, rear, port, hfli, -⟩ := last
      rw [hnone] at hfli
      simp at hfli
    | cons c after =>
      obtain rfl : path = before ++ [c] ++ after := by simpa using hsplit
      refine ⟨before ++ [c], after, rfl, ?_, progress_step h hl hst last⟩
      rw [length_append, hlen]
      rfl

/-- **A packet follows the path that its forwarding identifier selects** and is delivered. -/
theorem Leads.follows {k : ℕ} (hl : d.Leads src dst fid path) (h : d.Route src dst path)
    {ids : NodeID → UInt32} (hrun : d.Run sums k (d.inject sums ids src (fid.toList ++ pay)) st) :
    k ≤ path.length ∧ st.crossed <+: path ∧
      (k < path.length → st.delivered = [] ∧ ∃ st', d.Step sums st st') ∧
      (k = path.length → st.inFlight = [] ∧ st.crossed = path ∧ st.delivered = [(dst, pay)]) := by
  obtain ⟨before, after, rfl, rfl, hst⟩ := progress_run h hl (progress_inject h hl ids pay) hrun
  cases after with
  | nil =>
    have hcro : st.crossed = before := by simpa using hst.crossed
    rw [append_nil]
    refine ⟨le_rfl, hcro ▸ prefix_refl _, fun hlt => absurd hlt (lt_irrefl _),
      fun _ => ⟨map_eq_nil_iff.1 hst.links, hcro, hst.delivered⟩⟩
  | cons c after =>
    have hlt : before.length < (before ++ c :: after).length := by simp
    have hfli : st.inFlight ≠ [] := by
      intro hnil
      have hlinks := hst.links
      rw [hnil] at hlinks
      cases hlinks
    refine ⟨hlt.le, ⟨after, ?_⟩, fun _ => ⟨hst.delivered, exists_step hfli⟩,
      fun heq => absurd heq hlt.ne⟩
    rw [hst.crossed]
    simp

/-! ### Identifiers that are all different -/

theorem Separated.distinctLIDs (hd : d.Separated) : d.DistinctLIDs := by
  intro n hn
  have hall : (d.connections.map NetworkConnection.LID).Nodup := (nodup_append.1 hd.nodup).2.1
  rw [connections, map_flatMap] at hall
  exact (nodup_flatMap.1 hall).1 n hn

/-- **The identifiers of the connections of a path lead along it**, when all are different. -/
theorem Separated.leads (hd : d.Separated) (haddr : d.DistinctAddresses) (h : d.Route src dst path) :
    d.Leads src dst (d.pathFID dst path) path := by
  refine ⟨hd.distinctLIDs, ?_, ?_, ?_⟩
  · rintro c hc rfl
    obtain ⟨n, hn, hlabel, -⟩ := d.exists_findNode h.src_mem
    have hroute : d.Route c.srcLabel dst ([] ++ path) := h
    rw [contains_LID_iff hd h.mem h.dst_mem hc]
    exact hroute.mem_path_iff hd.distinctLIDs hn (hlabel ▸ .nil _)
      ((mem_connections_iff hn).2 ⟨hc, hlabel.symm⟩)
  · rintro before c after rfl c' hc' hsrc'
    obtain ⟨m, hm, hin⟩ := mem_flatMap.1 (h.mem c (by simp))
    obtain ⟨n, hn, hlabel, -⟩ := d.exists_findNode (d.dst_mem m hm c hin)
    have hnext := h.mem_path_iff hd.distinctLIDs hn (hlabel ▸ h.walk_to)
      ((mem_connections_iff hn).2 ⟨hc', hsrc'.trans hlabel.symm⟩)
    rw [contains_LID_iff hd h.mem h.dst_mem hc', hnext]
    refine ⟨fun hsel => hsel.1, fun hhead => ⟨hhead, ?_, ?_⟩⟩
    · -- the identifier of the source is not in the forwarding identifier
      obtain ⟨m, hm, hsrc⟩ := mem_map.1 h.src_mem
      refine Bits.isZero_neg_of_not_contains (hd.iLid m hm) fun hsou => h.ne ?_
      exact hsrc.symm.trans ((contains_iLid_iff hd h.mem h.dst_mem hm).1 hsou)
    · exact loopsTo_eq_false haddr (h.mem c (by simp)) hc' hsrc' (h.nodup_next hhead)
  · intro c _ n hn _
    exact contains_iLid_iff hd h.mem h.dst_mem hn

/-- **A packet follows the path of its forwarding identifier**: it crosses the connections of the
shortest path that igraph found, one with every step, and is then delivered, once and at its end
only. -/
theorem packet_follows_path {d₀ d : Domain} {rand : List ℕ} (hassign : d₀.assignLIDs rand = some d)
    (htotal : d.totalLIDs ≤ fidLen * 8) (haddr : d.DistinctAddresses) (sums : Checksums)
    (ig : Igraph) {src dst : NodeID} (hsrc : src ∈ d.labels) (hdst : dst ∈ d.labels)
    (hne : src ≠ dst) (hreach : Routes.Reach d.edges src dst) :
    ∃ (fid : FID) (path : List NetworkConnection),
      d.calculateFID ig src dst = .ok fid ∧
      (∀ nodeID rvNodeID rs, (d.topology nodeID rvNodeID rs).calculateFID ig src dst = .ok fid) ∧
      ig.shortestPath d.edges src dst = Routes.vertices src (path.map link) ∧
      Routes.Walk d.edges src dst (path.map link) ∧ path.Nodup ∧
      ∀ ids payload k st, d.Run sums k (d.inject sums ids src (fid.toList ++ payload)) st →
        k ≤ path.length ∧ st.crossed <+: path ∧
        (k < path.length → st.delivered = [] ∧ ∃ st', d.Step sums st st') ∧
        (k = path.length →
          st.inFlight = [] ∧ st.crossed = path ∧ st.delivered = [(dst, payload)]) := by
  have hd := separated_of_assignLIDs hassign htotal
  obtain ⟨path, hmem, hshort, hver, hfid, hfidT⟩ := d.calculateFID_eq ig hsrc hdst hreach
  have hroute : d.Route src dst path := ⟨hmem, hshort.walk, hshort.nodup, hsrc, hdst, hne⟩
  refine ⟨d.pathFID dst path, path, hfid, hfidT, hver, hshort.walk, hroute.path_nodup, ?_⟩
  intro ids payload k st hrun
  exact (hd.leads haddr hroute).follows hroute hrun

def exampleConnection (a b : UInt8) : NetworkConnection where
  srcLabel := .ofByte a
  dstLabel := .ofByte b
  srcMac := List.Vector.replicate macLen a
  dstMac := List.Vector.replicate macLen b
  srcIP := List.Vector.replicate 4 a
  dstIP := List.Vector.replicate 4 b
  port := 1
  LID := Bits.zeros fidLen

/-- Three nodes on a line, before identifiers are assigned. -/
def exampleDomain : Domain where
  useMac := true
  nodes := [⟨.ofByte 1, Bits.zeros fidLen, [exampleConnection 1 2]⟩,
    ⟨.ofByte 2, Bits.zeros fidLen, [exampleConnection 2 1, exampleConnection 2 3]⟩,
    ⟨.ofByte 3, Bits.zeros fidLen, [exampleConnection 3 2]⟩]
  labels_nodup := by decide
  src_eq := by decide
  dst_mem := by decide

/-- The bits that are drawn; the second one is drawn twice. -/
def exampleLIDs : List FID := [3, 1, 4, 5, 9, 2, 6].map (Bits.single fidLen)

def exampleChecksums : Checksums :=
  ⟨fun _ => List.Vector.replicate 2 0, fun _ _ _ => List.Vector.replicate 2 0⟩

theorem packet_follows_path_line :
    exampleDomain.assignLIDs [3, 1, 4, 1, 5, 9, 2, 6] = some (exampleDomain.setLIDs exampleLIDs) ∧
    ∃ (fid : FID) (path : List NetworkConnection),
      (exampleDomain.setLIDs exampleLIDs).calculateFID .search (.ofByte 1) (.ofByte 3) = .ok fid ∧
      path.map dstLabel = [.ofByte 2, .ofByte 3] ∧
      ∀ ids payload st, (exampleDomain.setLIDs exampleLIDs).Run exampleChecksums 2
        ((exampleDomain.setLIDs exampleLIDs).inject exampleChecksums ids (.ofByte 1)
          (fid.toList ++ payload)) st →
        st.inFlight = [] ∧ st.crossed = path ∧ st.delivered = [(.ofByte 3, payload)] := by
  have hass : exampleDomain.assignLIDs [3, 1, 4, 1, 5, 9, 2, 6] =
      some (exampleDomain.setLIDs exampleLIDs) := rfl
  have hpath : Igraph.search.shortestPath (exampleDomain.setLIDs exampleLIDs).edges (.ofByte 1)
      (.ofByte 3) = [.ofByte 1, .ofByte 2, .ofByte 3] := by decide +kernel
  have hreach := Igraph.reach_of_ne_nil (hpath.trans_ne (cons_ne_nil _ _))
  obtain ⟨fid, path, hfid, -, hver, -, -, hrun⟩ := packet_follows_path hass
    (by decide +kernel) (by decide +kernel) exampleChecksums .search (by decide +kernel)
    (by decide +kernel) (by decide) hreach
  have hdst : path.map dstLabel = [.ofByte 2, .ofByte 3] := by
    rw [Routes.vertices, map_map] at hver
    exact (cons.inj hver).2.symm
  refine ⟨hass, fid, path, hfid, hdst, fun ids payload st hst => ?_⟩
  have hlen : path.length = 2 := by simpa using congrArg length hdst
  exact (hrun ids payload 2 st hst).2.2.2 hlen.symm

end Domain

end Blackadder
