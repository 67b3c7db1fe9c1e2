import Reflector.Interface.Send
import Reflector.Proofs.Packets.RoundTrip
/-!
The frames that a device sends of its own accord, byte for byte. What the buffer held is left behind
the headers.
-/
namespace Reflector

variable {α β : Type} {b b' b'' pre data rest : Bytes} {n len : Nat}

namespace Emit

def Writes (m : Emit α) (b : Bytes) (a : α) (b' : Bytes) : Prop := m.run.on b = (.ok (.ok a), b')

variable {m : Emit α} {f : α → Emit β} {a : α} {c : β}

theorem Writes.pure : Writes (pure a) b a b := rfl

theorem Writes.bind (hm : Writes m b a b') (hf : Writes (f a) b' c b'') :
    Writes (m >>= f) b c b'' := (Op.on_bind_ok hm).trans hf

theorem Writes.read {x : Except Fault α} (hx : x = .ok a) (hf : Writes (f a) b c b') :
    Writes (liftM x >>= f) b c b' := by
  subst hx
  exact hf

theorem Writes.get {f : Bytes → Emit β} (hf : Writes (f b) b c b') :
    Writes (MonadState.get >>= f) b c b' := hf

theorem writes_guard {p : Prop} [Decidable p] {e : SendError} {k : PUnit → Emit β} (hp : ¬p)
    (h : Writes (k ⟨⟩) b c b') :
    Writes (if p then (do let r ← throw e; k r) else k ⟨⟩) b c b' := by
  rwa [if_neg hp]

theorem Writes.header {m : Edit Unit} (hm : Edit.Appends [] data m) (h : data.length ≤ b.length) :
    Writes (liftM m) b () (data ++ b.drop data.length) := Op.on_bind_ok (hm.on h)

theorem Writes.into {room : Room} {part part' : Bytes} (hm : Writes m part a part')
    (hstart : room.start = pre.length) (hlen : room.len = part.length) (behind : Bytes) :
    Writes (Emit.into room m) (pre ++ part ++ behind) a (pre ++ part' ++ behind) := by
  obtain ⟨_, _⟩ := room
  obtain rfl := hstart
  obtain rfl := hlen
  have hpart : ((pre ++ part ++ behind).drop pre.length).take part.length = part := by
    rw [List.append_assoc, List.drop_left, List.take_left]
  have hpre : (pre ++ part ++ behind).take pre.length = pre := by
    rw [List.append_assoc, List.take_left]
  have hbehind : (pre ++ part ++ behind).drop (pre.length + part.length) = behind := by
    rw [← List.length_append, List.drop_left]
  rw [Writes] at hm
  show (Edit.within pre.length part.length m.run).on (pre ++ part ++ behind) = _
  rw [Edit.within, Op.on_focus, hpart, hm, hpre, hbehind]

theorem Writes.into_room {room : Room} (hdata : data.length ≤ room.len)
    (hroom : room.len ≤ rest.length) (hstart : room.start = pre.length)
    (hm : ∀ part : Bytes, part.length = room.len →
      Writes m part a (data ++ part.drop data.length)) :
    Writes (Emit.into room m) (pre ++ rest) a (pre ++ data ++ rest.drop data.length) := by
  have hlen : (rest.take room.len).length = room.len := List.length_take_of_le hroom
  have hinto := (hm _ hlen).into hstart hlen.symm (rest.drop room.len)
  have hjoin : (rest.take room.len).drop data.length ++ rest.drop room.len =
      rest.drop data.length := by
    rw [← List.drop_append_of_le_length (by rwa [hlen]), List.take_append_drop]
  rwa [List.append_assoc pre, List.take_append_drop, ← List.append_assoc, List.append_assoc _ _
    (rest.drop room.len), hjoin] at hinto

end Emit

open Emit (Writes)

theorem Ethernet.Station.emit_writes (st : Station) (destination : Address) (etherType : EtherType)
    (h : Frame.headerLen ≤ b.length) : Writes (st.emit destination etherType) b
      ⟨Frame.headerLen, b.length - Frame.headerLen⟩
      (Header.bytes ⟨st.address, destination, etherType⟩ ++ b.drop Frame.headerLen) := by
  apply Writes.get
  apply Emit.writes_guard (Nat.not_lt.2 h)
  apply (Writes.header (Header.emit_appends _) h).bind
  exact Writes.pure

theorem Arp.Resolver.emitRequest_writes (r : Resolver) (target : Ipv4.Address)
    (h : Packet.plainLen ≤ b.length) : Writes (r.emitRequest target) b Packet.plainLen
      (Message.bytes ⟨.request, r.hardware, r.subnet.address, .zero, target⟩ ++
        b.drop Packet.plainLen) := by
  apply Writes.get
  apply Emit.writes_guard (Nat.not_lt.2 h)
  apply (Writes.header (Message.emit_appends _) h).bind
  exact Writes.pure

theorem Ipv4.Host.emit_writes (host : Host) (destination : Address) (protocol : Protocol)
    (hshort : Packet.plainHeaderLen + n ≤ 0xffff) (h : Packet.plainHeaderLen + n ≤ b.length) :
    Writes (host.emit destination protocol n) b ⟨Packet.plainHeaderLen, n⟩
      (Header.bytes ⟨host.subnet.address, destination, protocol, n, host.hopLimit⟩ host.checksum ++
        b.drop Packet.plainHeaderLen) := by
  have hlen : Packet.plainHeaderLen + n < Length.limit := Nat.lt_of_le_of_lt hshort (by decide)
  apply Writes.read (Length.add_of_lt hlen)
  apply Writes.get
  apply Emit.writes_guard (by omega)
  apply (Writes.header (Header.emit_appends _ _ hlen) (Nat.le_of_add_right_le h)).bind
  exact Writes.pure

theorem Udp.Service.emit_writes (source destination : Port)
    (hshort : Packet.headerLen + n ≤ 0xffff) (h : Packet.headerLen + n ≤ b.length) :
    Writes (emit source destination n) b ⟨Packet.headerLen, n⟩
      (Header.bytes ⟨source, destination, n⟩ ++ b.drop Packet.headerLen) := by
  have hlen : Packet.headerLen + n < Length.limit := Nat.lt_of_le_of_lt hshort (by decide)
  apply Writes.read (Length.add_of_lt hlen)
  apply Writes.get
  apply Emit.writes_guard (by omega)
  apply (Writes.header (Header.emit_appends _ hlen) (Nat.le_of_add_right_le h)).bind
  exact Writes.pure

namespace Interface

variable (i : Interface) (hardware : Ethernet.Address) (destination hop : Ipv4.Address)
  (sourcePort destinationPort : Udp.Port)

def enquiryFor : Bytes :=
  Ethernet.Header.bytes ⟨i.hardware, .broadcast, .arp⟩ ++
    Arp.Message.bytes ⟨.request, i.hardware, i.subnet.address, .zero, hop⟩

@[simp] theorem length_enquiryFor : (i.enquiryFor hop).length = 42 := rfl

def networkHeader (payloadLen : Nat) : Ipv4.Header :=
  ⟨i.subnet.address, destination, .udp, Udp.Packet.headerLen + payloadLen, i.hopLimit⟩

def packetHeaders (payloadLen : Nat) : Bytes :=
  (i.networkHeader destination payloadLen).bytes i.checksum ++
    Udp.Header.bytes ⟨sourcePort, destinationPort, payloadLen⟩

def datagramHeaders (payloadLen : Nat) : Bytes :=
  Ethernet.Header.bytes ⟨i.hardware, hardware, .ipv4⟩ ++
    i.packetHeaders destination sourcePort destinationPort payloadLen

@[simp] theorem length_datagramHeaders (payloadLen : Nat) : (i.datagramHeaders hardware destination
    sourcePort destinationPort payloadLen).length = 42 := rfl

theorem packet_writes (hshort : n ≤ 65507) (h : 28 + n ≤ b.length) :
    Writes (do
      let datagram ← i.host.emit destination .udp (Udp.Packet.headerLen + n)
      Emit.into datagram do
        let _ ← Udp.Service.emit sourcePort destinationPort n) b ()
      (i.packetHeaders destination sourcePort destinationPort n ++ b.drop 28) := by
  have hhost := i.host.emit_writes destination .udp (n := Udp.Packet.headerLen + n) (b := b)
    (by simp only [Ipv4.Packet.plainHeaderLen, Udp.Packet.headerLen]; omega)
    (by simp only [Ipv4.Packet.plainHeaderLen, Udp.Packet.headerLen]; omega)
  have hbehind : (b.drop 20).drop 8 = b.drop 28 := List.drop_drop
  rw [← hbehind]
  refine hhost.bind (Writes.into_room (Nat.le_add_right _ _) ?_ rfl fun part hpart => ?_)
  · simp only [Ipv4.Packet.plainHeaderLen, Udp.Packet.headerLen, List.length_drop]
    omega
  · have hservice := Udp.Service.emit_writes sourcePort destinationPort (n := n) (b := part)
      (by simp only [Udp.Packet.headerLen]; omega) (Nat.le_of_eq hpart.symm)
    exact hservice.bind Writes.pure

theorem emitUdp_writes (hshort : n ≤ 65507) (h : 42 + n ≤ b.length) :
    Writes (i.emitUdp hardware destination sourcePort destinationPort n) b ()
      (i.datagramHeaders hardware destination sourcePort destinationPort n ++ b.drop 42) := by
  have hrest : (b.drop 14).length = b.length - 14 := List.length_drop
  have hbehind : (b.drop 14).drop 28 = b.drop 42 := List.drop_drop
  have hroom : 14 ≤ b.length := by omega
  have hpacket : 28 + n ≤ b.length - 14 := by omega
  rw [← hbehind]
  refine (i.station.emit_writes hardware .ipv4 hroom).bind
    (Writes.into_room ?_ (Nat.le_of_eq hrest.symm) rfl fun part hpart => ?_)
  · exact Nat.le_of_add_right_le hpacket
  · exact i.packet_writes destination sourcePort destinationPort hshort (hpart ▸ hpacket)

theorem emitArpRequest_writes (h : 42 ≤ b.length) :
    Writes (i.emitArpRequest hop) b 42 (i.enquiryFor hop ++ b.drop 42) := by
  have hrest : (b.drop 14).length = b.length - 14 := List.length_drop
  have hbehind : (b.drop 14).drop 28 = b.drop 42 := List.drop_drop
  have hroom : 14 ≤ b.length := by omega
  have hpacket : 28 ≤ b.length - 14 := by omega
  rw [← hbehind]
  have hrequest : Writes (Emit.into ⟨14, b.length - 14⟩ (i.resolver.emitRequest hop))
      (Ethernet.Header.bytes ⟨i.hardware, .broadcast, .arp⟩ ++ b.drop 14) 28
      (i.enquiryFor hop ++ (b.drop 14).drop 28) :=
    Writes.into_room hpacket (Nat.le_of_eq hrest.symm) rfl
      fun part hpart => i.resolver.emitRequest_writes hop (hpart ▸ hpacket)
  exact (i.station.emit_writes .broadcast .arp hroom).bind (hrequest.bind Writes.pure)

theorem drop_datagramHeaders (payloadLen : Nat) (rest : Bytes) :
    (i.datagramHeaders hardware destination sourcePort destinationPort payloadLen ++ rest).drop 14 =
      i.packetHeaders destination sourcePort destinationPort payloadLen ++ rest := rfl

theorem datagramHeaders_link (payloadLen : Nat) (rest : Bytes) :
    Ethernet.Header.Heads ⟨i.hardware, hardware, .ipv4⟩
      (i.datagramHeaders hardware destination sourcePort destinationPort payloadLen ++ rest) :=
  Ethernet.Header.bytes_heads _ _ rfl

theorem packetHeaders_heads (hshort : n ≤ 65507) (hrest : n ≤ rest.length) :
    (i.networkHeader destination n).Heads
      (i.packetHeaders destination sourcePort destinationPort n ++ rest) := by
  rw [packetHeaders, List.append_assoc]
  refine Ipv4.Header.bytes_heads _ rfl ?_ ?_
  · simp only [networkHeader, Ipv4.Packet.plainHeaderLen, Udp.Packet.headerLen]
    omega
  · rw [List.length_append, Udp.Header.length_bytes]
    exact Nat.add_le_add_left hrest _

variable {i destination hop hardware}

theorem frame_short (h : n ≤ 65507) : udpHeadersLen + n < Length.limit := by
  simp only [udpHeadersLen, Ethernet.Frame.headerLen, Ipv4.Packet.plainHeaderLen,
    Udp.Packet.headerLen, Length.limit]
  omega

theorem emitUnicastUdp_sent (hhop : i.nextHop destination = some hop)
    (hknown : i.neighbors.lookup hop = some hardware) (port : Udp.Port) (hshort : n ≤ 65507)
    (h : udpHeadersLen + n ≤ b.length) :
    Writes (i.emitUnicastUdp destination port n) b (.sent 42)
      (i.datagramHeaders hardware destination i.port port n ++ b.drop 42) := by
  apply Writes.read (Length.add_of_lt (frame_short hshort))
  apply Writes.get
  apply Emit.writes_guard (Nat.not_lt.2 h)
  rw [hhop]
  dsimp only
  rw [hknown]
  exact (i.emitUdp_writes hardware destination i.port port hshort h).bind Writes.pure

/-- The next hop has to be asked for first, however long the datagram is. -/
theorem emitUnicastUdp_deferred (hhop : i.nextHop destination = some hop)
    (hunknown : i.neighbors.lookup hop = none) (port : Udp.Port)
    (hlen : udpHeadersLen + n < Length.limit) (h : udpHeadersLen + n ≤ b.length) :
    Writes (i.emitUnicastUdp destination port n) b (.deferred 42)
      (i.enquiryFor hop ++ b.drop 42) := by
  apply Writes.read (Length.add_of_lt hlen)
  apply Writes.get
  apply Emit.writes_guard (Nat.not_lt.2 h)
  rw [hhop]
  dsimp only
  rw [hunknown]
  exact (i.emitArpRequest_writes hop (Nat.le_of_add_right_le h)).bind Writes.pure

theorem emitBroadcastUdp_writes (i : Interface) (sourcePort : Udp.Port) (hshort : n ≤ 65507)
    (h : udpHeadersLen + n ≤ b.length) : Writes (i.emitBroadcastUdp sourcePort n) b 42
      (i.datagramHeaders .broadcast (i.subnet.broadcast.getD .broadcast) sourcePort i.port n ++
        b.drop 42) := by
  apply Writes.read (Length.add_of_lt (frame_short hshort))
  apply Writes.get
  apply Emit.writes_guard (Nat.not_lt.2 h)
  exact (i.emitUdp_writes .broadcast _ sourcePort i.port hshort h).bind Writes.pure

def gateway : Interface :=
  new { Config.standard with
    hardware := ⟨2, 0, 0, 0, 0, 3⟩
    subnet := { Config.standard.subnet with address := .ofOctets 192 168 200 3 } } []

end Interface

end Reflector
