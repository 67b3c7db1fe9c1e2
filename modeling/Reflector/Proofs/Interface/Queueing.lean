import Reflector.Proofs.Interface.Routing
import Reflector.Proofs.Interface.Send
/-!
Queueing a datagram is all or nothing: the ring gets one new record with a complete frame, which is
the datagram or the request that has to come before it, or its records stay as they are.
-/
namespace Reflector

variable {α : Type} {b b' data headers : Bytes} {n len : Nat}

namespace Emit

variable {m : Emit α} {fill : Emit Unit}

/-- In a room of just their length the writer leaves these bytes. -/
def Fills (data : Bytes) (m : Emit Unit) : Prop :=
  ∀ part : Bytes, part.length = data.length → Writes m part () data

theorem Fills.of_writes
    (h : ∀ part : Bytes, part.length = data.length → ∃ a, Writes m part a data) :
    Fills data (do let _ ← m) := by
  intro part hpart
  obtain ⟨a, hm⟩ := h part hpart
  exact hm.bind Writes.pure

theorem Fills.into (h : Fills data fill) (hheaders : headers.length = 42)
    (hb : b.length = 42 + data.length) :
    Writes (Emit.into ⟨42, data.length⟩ fill) (headers ++ b.drop 42) () (headers ++ data) := by
  have hroom : (b.drop 42).length = data.length := by
    rw [List.length_drop]
    omega
  have hinto : Writes (Emit.into ⟨42, data.length⟩ fill) (headers ++ b.drop 42 ++ []) ()
      (headers ++ data ++ []) := Writes.into (h _ hroom) hheaders.symm hroom.symm []
  rwa [List.append_nil, List.append_nil] at hinto

end Emit

open Emit (Writes Fills)

theorem fills_write (data : Bytes) : Fills data (liftM (Edit.write 0 data)) := by
  intro part hpart
  have hheader := Writes.header (Edit.Appends.write [] data) (Nat.le_of_eq hpart.symm)
  rwa [← hpart, List.drop_length, List.append_nil] at hheader

namespace Sntp

def request : Bytes := (Message.clientRequest protocolVersion).bytes

theorem length_request : request.length = Packet.len := Message.length_bytes _

theorem Settings.fills_request : Fills request (do let _ ← emitRequest) := by
  refine Fills.of_writes fun part hpart => ⟨Packet.len, ?_⟩
  have hlen : part.length = Packet.len := hpart.trans length_request
  have hheader := Writes.header (Message.clientRequest protocolVersion).emit_appends
    (Nat.le_of_eq hpart.symm)
  rw [Message.length_bytes, ← hlen, List.drop_length, List.append_nil] at hheader
  apply Writes.get
  apply Emit.writes_guard (Nat.not_lt.2 (Nat.le_of_eq hlen.symm))
  exact hheader.bind Writes.pure

end Sntp

namespace Interface

open Reflector.Ring

variable {i : Interface} {destination : Ipv4.Address} {port sourcePort : Udp.Port} {r : Ring}
  {fill : Emit Unit}

/-- The frame that comes of a datagram to some host: the datagram, handed to the next hop, or the
request for the hardware address of that. -/
inductive Unicast (i : Interface) (destination : Ipv4.Address) (port : Udp.Port) (data : Bytes) :
    Generated → Bytes → Prop
  | sent {hop : Ipv4.Address} {hardware : Ethernet.Address} {frame : Bytes} :
      i.Forwards destination hop → i.neighbors.lookup hop = some hardware →
      i.IsDatagram hardware destination i.port port data.length frame → frame.drop 42 = data →
      Unicast i destination port data (.sent 42) frame
  | deferred {hop : Ipv4.Address} {frame : Bytes} : i.Forwards destination hop →
      i.neighbors.lookup hop = none → i.IsEnquiry hop frame →
      Unicast i destination port data (.deferred 42) frame

structure Broadcast (i : Interface) (sourcePort : Udp.Port) (data : Bytes) (len : Nat)
    (frame : Bytes) : Prop where
  len : len = 42 + data.length
  datagram : i.IsDatagram .broadcast (i.subnet.broadcast.getD .broadcast) sourcePort i.port
    data.length frame
  payload : frame.drop 42 = data

/-- A record is never too long for a datagram. -/
theorem payload_short (h : udpHeadersLen + n ≤ Tag.maxLen) : n ≤ 65507 :=
  Nat.le_trans (Nat.le_of_add_left_le h) (by decide)

/-- A datagram is given up if nobody on the link takes it. -/
def Strands (i : Interface) (destination : Ipv4.Address) (e : SendError) : Prop :=
  e = .unreachable ∧ i.subnet.contains destination = false ∧ i.router = none

theorem length_headers_append_drop (hheaders : headers.length = 42) (hb : 42 ≤ b.length) :
    (headers ++ b.drop 42).length = b.length := by
  calc (headers ++ b.drop 42).length
    _ = headers.length + (b.drop 42).length := List.length_append
    _ = 42 + (b.length - 42) := by rw [hheaders, List.length_drop]
    _ = b.length := Nat.add_sub_cancel' hb

theorem queueUnicast_settles (hr : r.Sound) (hfill : Fills data fill) :
    ∃ result r', (i.queueUnicast destination port data.length fill).run.on r = (.ok result, r') ∧
      r.Leads r' ∧ Settles r (udpHeadersLen + data.length) (i.Strands destination)
        (i.Unicast destination port data) result r' := by
  refine queueFrame_settles hr fun hlen b hb => ?_
  have hshort := payload_short hlen
  have hroom : udpHeadersLen + data.length ≤ b.length := Nat.le_of_eq hb.symm
  cases hhop : i.nextHop destination with
  | none =>
    have hrefused : Emit.Refuses (i.emitUnicastUdp destination port data.length) b .unreachable :=
      emitUnicastUdp_unreachable hshort hroom hhop
    exact ⟨_, b, hrefused.bind, rfl, .refused ⟨rfl, nextHop_eq_none_iff.1 hhop⟩ nofun⟩
  | some hop =>
    have hforwards := nextHop_eq_some_iff.1 hhop
    cases hlookup : i.neighbors.lookup hop with
    | none =>
      have hdeferred := emitUnicastUdp_deferred hhop hlookup port (frame_short hshort) hroom
      have hlength := length_headers_append_drop (i.length_enquiryFor hop)
        (Nat.le_of_add_right_le hroom)
      refine ⟨_, _, hdeferred.bind Writes.pure, hlength, .frame ?_ ?_⟩
      · rw [hlength]
        exact Nat.le_of_add_right_le hroom
      · rw [List.take_left' (i.length_enquiryFor hop)]
        exact .deferred hforwards hlookup isEnquiry_enquiryFor
    | some hardware =>
      have hheaders := i.length_datagramHeaders hardware destination i.port port data.length
      have hsent := emitUnicastUdp_sent hhop hlookup port hshort hroom
      have hlength : (i.datagramHeaders hardware destination i.port port data.length ++
          data).length = udpHeadersLen + data.length := by
        rw [List.length_append, hheaders]
        rfl
      refine ⟨_, _, hsent.bind ((hfill.into hheaders hb).bind Writes.pure), hlength.trans hb.symm,
        .frame (Nat.le_of_eq hlength.symm) ?_⟩
      rw [List.take_of_length_le (Nat.le_of_eq hlength)]
      exact .sent hforwards hlookup (isDatagram_datagramHeaders hshort rfl)
        (List.drop_left' hheaders)

theorem sendUdp_settles (i : Interface) (destination : Ipv4.Address) (port : Udp.Port)
    (data : Bytes) (hr : r.Sound) :
    ∃ result r', (i.sendUdp destination port data).run.on r = (.ok result, r') ∧ r.Leads r' ∧
      Settles r (udpHeadersLen + data.length) (i.Strands destination)
        (i.Unicast destination port data) result r' :=
  queueUnicast_settles hr (fills_write data)

theorem sendSntpRequest_settles (i : Interface) (server : Ipv4.Address) (hr : r.Sound) :
    ∃ result r', (i.sendSntpRequest server).run.on r = (.ok result, r') ∧ r.Leads r' ∧
      Settles r (udpHeadersLen + Sntp.Packet.len) (i.Strands server)
        (i.Unicast server Sntp.Packet.serverPort Sntp.request) result r' := by
  rw [sendSntpRequest, ← Sntp.length_request]
  exact queueUnicast_settles hr Sntp.Settings.fills_request

/-- A datagram to all hosts on the link is never given up. -/
theorem broadcastUdp_settles (i : Interface) (sourcePort : Udp.Port) (data : Bytes)
    (hr : r.Sound) :
    ∃ result r', (i.broadcastUdp sourcePort data).run.on r = (.ok result, r') ∧ r.Leads r' ∧
      Settles r (udpHeadersLen + data.length) (fun _ => False) (i.Broadcast sourcePort data) result
        r' := by
  refine queueFrame_settles hr fun hlen b hb => ?_
  have hshort := payload_short hlen
  have hheaders := i.length_datagramHeaders .broadcast (i.subnet.broadcast.getD .broadcast)
    sourcePort i.port data.length
  have hsent := i.emitBroadcastUdp_writes sourcePort hshort (Nat.le_of_eq hb.symm)
  have hlength : (i.datagramHeaders .broadcast (i.subnet.broadcast.getD .broadcast) sourcePort
      i.port data.length ++ data).length = udpHeadersLen + data.length := by
    rw [List.length_append, hheaders]
    rfl
  refine ⟨_, _, hsent.bind (((fills_write data).into hheaders hb).bind Writes.pure),
    hlength.trans hb.symm, .frame (Nat.le_of_eq hlength.symm) ?_⟩
  dsimp only [id]
  rw [List.take_of_length_le (Nat.le_of_eq hlength)]
  exact ⟨rfl, isDatagram_datagramHeaders hshort rfl, List.drop_left' hheaders⟩

theorem sendUdp_spec (i : Interface) (destination : Ipv4.Address) (port : Udp.Port) (data : Bytes)
    (hr : r.Sound) : ∃ result r', (i.sendUdp destination port data).run.on r = (.ok result, r') ∧
      Frames r (udpHeadersLen + data.length) result r' :=
  exists_frames hr (i.sendUdp_settles destination port data hr)

theorem sendSntpRequest_spec (i : Interface) (server : Ipv4.Address) (hr : r.Sound) :
    ∃ result r', (i.sendSntpRequest server).run.on r = (.ok result, r') ∧
      Frames r (udpHeadersLen + Sntp.Packet.len) result r' :=
  exists_frames hr (i.sendSntpRequest_settles server hr)

theorem broadcastUdp_spec (i : Interface) (sourcePort : Udp.Port) (data : Bytes) (hr : r.Sound) :
    ∃ result r', (i.broadcastUdp sourcePort data).run.on r = (.ok result, r') ∧
      Frames r (udpHeadersLen + data.length) result r' :=
  exists_frames hr (i.broadcastUdp_settles sourcePort data hr)

/-- Whatever the state of the ring is, and also if a call is refused halfway, it queues all of a
frame or nothing. -/
theorem queues_whole (i : Interface) (r : Ring) (h : r.Reachable) :
    (∀ (destination : Ipv4.Address) (port : Udp.Port) (data : Bytes), ∃ result r',
      (i.sendUdp destination port data).run.on r = (.ok result, r') ∧ r'.Reachable ∧
        Settles r (udpHeadersLen + data.length) (i.Strands destination)
          (i.Unicast destination port data) result r') ∧
    (∀ (sourcePort : Udp.Port) (data : Bytes), ∃ result r',
      (i.broadcastUdp sourcePort data).run.on r = (.ok result, r') ∧ r'.Reachable ∧
        Settles r (udpHeadersLen + data.length) (fun _ => False) (i.Broadcast sourcePort data)
          result r') ∧
    ∀ server : Ipv4.Address, ∃ result r',
      (i.sendSntpRequest server).run.on r = (.ok result, r') ∧ r'.Reachable ∧
        Settles r (udpHeadersLen + Sntp.Packet.len) (i.Strands server)
          (i.Unicast server Sntp.Packet.serverPort Sntp.request) result r' := by
  have hr := h.sound
  refine ⟨fun destination port data => ?_, fun sourcePort data => ?_, fun server => ?_⟩
  · obtain ⟨result, r', hon, hleads, hsettles⟩ := i.sendUdp_settles destination port data hr
    exact ⟨result, r', hon, hleads.reachable h, hsettles⟩
  · obtain ⟨result, r', hon, hleads, hsettles⟩ := i.broadcastUdp_settles sourcePort data hr
    exact ⟨result, r', hon, hleads.reachable h, hsettles⟩
  · obtain ⟨result, r', hon, hleads, hsettles⟩ := i.sendSntpRequest_settles server hr
    exact ⟨result, r', hon, hleads.reachable h, hsettles⟩

set_option maxRecDepth 2000 in
/-- The standard device asks for its router, and nothing but the request is queued. -/
theorem queues_whole_gateway :
    let i := new .standard [none]
    let r : Ring := ⟨List.replicate 64 0, 60, 0, 0, 0⟩
    r.Reachable ∧ ∃ h frame r', (i.sendUdp (.ofOctets 10 0 0 1) 69 [1, 2, 3]).run.on r =
        (.ok (.ok (.deferred 42)), r') ∧ r'.Reachable ∧ r'.records = [⟨h, .output, frame⟩] ∧
      i.IsEnquiry gateway.subnet.address frame := by
  intro i r
  have hnew : Ring.new (List.replicate 64 0) = .ok r := rfl
  have hreachable : r.Reachable := ⟨_, _, _, _, hnew, .start⟩
  have hhop : i.nextHop (.ofOctets 10 0 0 1) = some gateway.subnet.address := by decide
  have hasked : (((new .standard [none]).sendUdp (.ofOctets 10 0 0 1) 69 [1, 2, 3]).run.on
      ⟨List.replicate 64 0, 60, 0, 0, 0⟩).1 = .ok (.ok (.deferred 42)) := by rfl
  obtain ⟨result, r', hon, hreachable', hsettles⟩ :=
    (queues_whole i r hreachable).1 (.ofOctets 10 0 0 1) 69 [1, 2, 3]
  cases (congrArg Prod.fst hon).symm.trans hasked
  cases hsettles with
  | queued _ hframe hrecs =>
    cases hframe with
    | deferred hforwards _ henquiry =>
      obtain rfl := Option.some.inj ((nextHop_eq_some_iff.2 hforwards).symm.trans hhop)
      exact ⟨hreachable, _, _, r', hon, hreachable', hrecs, henquiry⟩

end Interface

end Reflector
