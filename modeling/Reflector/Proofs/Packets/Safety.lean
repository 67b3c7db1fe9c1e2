import Reflector.Dissection
import Reflector.Proofs.Packets.Seals
/-!
Safety of packets. Once a packet has passed the check of its length, whatever is read of it is
there, and whatever is written to it has its place.
-/
namespace Reflector

variable {b data : Bytes} {i k n : Nat}

def Edit.Keeps (m : Edit Unit) (b : Bytes) : Prop :=
  ∃ b', m.on b = (.ok (), b') ∧ b'.length = b.length

namespace Edit

theorem keeps_write (hn : n ≤ b.length) (h : i + data.length ≤ n) : (write i data).Keeps b :=
  ⟨_, on_write (Nat.le_trans h hn), Bytes.length_put (Nat.le_trans h hn)⟩

theorem keeps_overlay {read : Bytes → Except Fault Bytes} {Q : Bytes → Prop}
    (hread : Succeeds (read b) Q) (h : n ≤ b.length) :
    Keeps (do discard (Op.view read); overlay n data) b := by
  obtain ⟨part, hpart, -⟩ := hread
  have hview : (Op.view read).on b = (.ok part, b) := congrArg (·, b) hpart
  exact ⟨b.overlay n data, (Op.on_bind_ok (Op.on_discard hview)).trans (Op.on_modify _ _),
    Bytes.length_overlay data h⟩

end Edit

namespace Ethernet.Frame

theorem fields_succeeds (h : headerLen ≤ b.length) :
    Succeeds (Dissection.ethernetFrame b) fun _ => True := by
  refine (Bytes.rest_succeeds h).next fun _ => ?_
  refine (source_succeeds h).next fun _ => ?_
  refine (destination_succeeds h).next fun _ => ?_
  refine (etherType_succeeds h).next fun _ => ?_
  exact Succeeds.pure trivial

end Ethernet.Frame

namespace Arp.Packet

/-- Each address of a packet is as long as the packet announces and is all there. -/
theorem Announces.fields_succeeds (h : Announces b n k) :
    Succeeds (Dissection.arpPacket b) fun _ => True := by
  have hfixed := h.fixedLen_le
  have hinside := h.inside
  refine (hardwareType_succeeds hfixed).next fun _ => ?_
  refine (protocolType_succeeds hfixed).next fun _ => ?_
  refine (hardwareLen_succeeds hfixed).next fun _ => ?_
  refine (protocolLen_succeeds hfixed).next fun _ => ?_
  refine (operation_succeeds hfixed).next fun _ => ?_
  refine (address_succeeds h.senderHardwarePlace (by omega)).next fun _ => ?_
  refine (address_succeeds h.senderProtocolPlace (by omega)).next fun _ => ?_
  refine (address_succeeds h.targetHardwarePlace (by omega)).next fun _ => ?_
  refine (address_succeeds h.targetProtocolPlace (by omega)).next fun _ => ?_
  exact Succeeds.pure trivial

theorem keeps_setAddress {place : Bytes → Except Fault Place} {start : Nat}
    (hp : place b = .ok ⟨start, data.length⟩) (hend : start + data.length ≤ b.length) :
    (setAddress place data).Keeps b := by
  refine ⟨b.put start data, (Op.on_view_bind hp).trans ?_, Bytes.length_put hend⟩
  rw [if_pos rfl]
  exact Edit.on_write hend

end Arp.Packet

namespace Ipv4.Packet

/-- A header may be shorter than its fixed part: it is counted on no further than the packet
reaches. -/
theorem fields_succeeds (hplain : plainHeaderLen ≤ b.length) (hn : headerLen b = .ok n)
    (hk : totalLen b = .ok k) (hle : n ≤ k) (hin : k ≤ b.length) :
    Succeeds (Dissection.ipv4Packet b) fun _ => True := by
  have hword : Succeeds (fragmentWord b) fun _ => True :=
    (Bytes.half_succeeds hplain (by decide)).field _
  have hpayload : Succeeds (payload b) fun _ => True := by
    unfold payload
    rw [hn, hk]
    exact (Bytes.slice_succeeds hle hin).weaken fun _ _ => trivial
  refine (version_succeeds hplain).next fun _ => ?_
  refine (headerLen_succeeds hplain).next fun _ => ?_
  refine ((Bytes.octet_succeeds hplain (by decide)).field _).next fun _ => ?_
  refine (totalLen_succeeds hplain).next fun _ => ?_
  refine (Bytes.half_succeeds hplain (by decide)).next fun _ => ?_
  refine (hword.field _).next fun _ => ?_
  refine (hword.field _).next fun _ => ?_
  refine (hword.field _).next fun _ => ?_
  refine (hword.field _).next fun _ => ?_
  refine (hopLimit_succeeds hplain).next fun _ => ?_
  refine (protocol_succeeds hplain).next fun _ => ?_
  refine (Bytes.half_succeeds hplain (by decide)).next fun _ => ?_
  refine (source_succeeds hplain).next fun _ => ?_
  refine (destination_succeeds hplain).next fun _ => ?_
  refine (verifyChecksum_succeeds hn (Nat.le_trans hle hin)).next fun _ => ?_
  refine hpayload.next fun _ => ?_
  exact Succeeds.pure trivial

theorem keeps_fillChecksum (hplain : plainHeaderLen ≤ b.length) (hn : headerLen b = .ok n)
    (hin : n ≤ b.length) : fillChecksum.Keeps b := by
  have hroom : 10 + 2 ≤ b.length := Nat.le_trans (by decide) hplain
  exact ⟨_, on_fillChecksum hn hroom hin, Bytes.length_put hroom⟩

theorem keeps_setPayload (hn : headerLen b = .ok n) (hin : n ≤ b.length) :
    (setPayload data).Keeps b := by
  have hroom : room b = .ok (b.drop n) := by
    unfold room
    rw [hn]
    exact Bytes.rest_of_le hin
  refine ⟨b.overlay n data, ?_, Bytes.length_overlay data hin⟩
  refine (Op.on_bind_ok (Op.on_get b)).trans ?_
  refine (Op.on_bind_ok (Op.on_discard (congrArg (·, b) hroom))).trans ?_
  refine (Op.on_lift_bind hn).trans ?_
  exact Op.on_modify _ _

end Ipv4.Packet

namespace Icmp.Packet

theorem fields_succeeds (h : headerLen ≤ b.length) (hlen : b.length ≤ 131074) :
    Succeeds (Dissection.icmpPacket b) fun _ => True := by
  refine ((Bytes.octet_succeeds h (by decide)).field _).next fun _ => ?_
  refine (Bytes.octet_succeeds h (by decide)).next fun _ => ?_
  refine (Bytes.half_succeeds h (by decide)).next fun _ => ?_
  refine (Bytes.half_succeeds h (by decide)).next fun _ => ?_
  refine (Bytes.half_succeeds h (by decide)).next fun _ => ?_
  refine ((Checksum.data_succeeds hlen).field _).next fun _ => ?_
  refine (Bytes.rest_succeeds h).next fun _ => ?_
  exact Succeeds.pure trivial

end Icmp.Packet

namespace Udp.Packet

theorem Holds.fields_succeeds (h : Holds b n) (source destination : Ipv4.Address) :
    Succeeds (Dissection.udpPacket source destination b) fun _ => True := by
  have hmin := h.headerLen_le
  have hpayload : Succeeds (payload b) fun _ => True := by
    unfold payload
    rw [h.totalLen]
    exact (Bytes.slice_succeeds h.header h.inside).weaken fun _ _ => trivial
  refine (Bytes.half_succeeds hmin (by decide)).next fun _ => ?_
  refine (Bytes.half_succeeds hmin (by decide)).next fun _ => ?_
  refine (totalLen_succeeds hmin).next fun _ => ?_
  refine (Bytes.half_succeeds hmin (by decide)).next fun _ => ?_
  refine (verifyChecksum_succeeds source destination h).next fun _ => ?_
  refine hpayload.next fun _ => ?_
  exact Succeeds.pure trivial

end Udp.Packet

namespace Sntp

theorem Timestamp.ofBytes_succeeds (h : b.length = 8) :
    Succeeds (Timestamp.ofBytes b) fun _ => True := by
  refine (Bytes.word_succeeds (Nat.le_of_eq h.symm) (by decide)).next fun _ => ?_
  refine (Bytes.word_succeeds (Nat.le_of_eq h.symm) (by decide)).next fun _ => ?_
  exact Succeeds.pure trivial

namespace Packet

theorem timestamp_succeeds (h : i + 8 ≤ b.length) :
    Succeeds (do Timestamp.ofBytes (← b.slice i (i + 8))) fun _ => True :=
  (Bytes.slice_succeeds (Nat.le_add_right _ _) h).bind fun _ _ hpart =>
    Timestamp.ofBytes_succeeds (hpart.trans (Nat.add_sub_cancel_left _ _))

theorem checkLen_total (b : Bytes) : Parse.Total (checkLen b) fun _ => len ≤ b.length := by
  unfold checkLen
  split
  · exact Parse.Total.throw
  · next h => exact Parse.Total.pure (Nat.not_lt.1 h)

theorem fields_succeeds (h : len ≤ b.length) :
    Succeeds (Dissection.sntpPacket b) fun _ => True := by
  have inside {stop : Nat} (hstop : stop ≤ len) : stop ≤ b.length := Nat.le_trans hstop h
  have hfirst : Succeeds (leapVersionMode b) fun _ => True := Bytes.octet_succeeds h (by decide)
  refine hfirst.next fun _ => ?_
  refine (hfirst.field _).next fun _ => ?_
  refine (hfirst.field _).next fun _ => ?_
  refine (hfirst.field _).next fun _ => ?_
  refine (Bytes.octet_succeeds h (by decide)).next fun _ => ?_
  refine ((Bytes.octet_succeeds h (by decide)).field _).next fun _ => ?_
  refine ((Bytes.octet_succeeds h (by decide)).field _).next fun _ => ?_
  refine (Bytes.word_succeeds h (by decide)).next fun _ => ?_
  refine (Bytes.word_succeeds h (by decide)).next fun _ => ?_
  refine (Bytes.word_succeeds h (by decide)).next fun _ => ?_
  refine (timestamp_succeeds (inside (by decide))).next fun _ => ?_
  refine (timestamp_succeeds (inside (by decide))).next fun _ => ?_
  refine (timestamp_succeeds (inside (by decide))).next fun _ => ?_
  refine (timestamp_succeeds (inside (by decide))).next fun _ => ?_
  exact Succeeds.pure trivial

end Packet

end Sntp

namespace Format

variable {c : Context} {m : Edit Unit}

/-- What writes to a packet: to a field of it, to its checksum, or behind its header. An address is
written in the length that the packet announces. -/
inductive Writes (c : Context) (b : Bytes) : Format → Edit Unit → Prop
  | ethernetDestination (a) : Writes c b .ethernet (Ethernet.Frame.setDestination a)
  | ethernetSource (a) : Writes c b .ethernet (Ethernet.Frame.setSource a)
  | etherType (t) : Writes c b .ethernet (Ethernet.Frame.setEtherType t)
  | ethernetPayload (data : Bytes) : Writes c b .ethernet (Ethernet.Frame.setPayload data)
  | hardwareType (t) : Writes c b .arp (Arp.Packet.setHardwareType t)
  | protocolType (t) : Writes c b .arp (Arp.Packet.setProtocolType t)
  | hardwareLen (n : UInt8) : Writes c b .arp (Arp.Packet.setHardwareLen n)
  | protocolLen (n : UInt8) : Writes c b .arp (Arp.Packet.setProtocolLen n)
  | operation (o) : Writes c b .arp (Arp.Packet.setOperation o)
  | senderHardware {data : Bytes} : Arp.Packet.hardwareLen b = .ok data.length →
      Writes c b .arp (Arp.Packet.setSenderHardware data)
  | senderProtocol {data : Bytes} : Arp.Packet.protocolLen b = .ok data.length →
      Writes c b .arp (Arp.Packet.setSenderProtocol data)
  | targetHardware {data : Bytes} : Arp.Packet.hardwareLen b = .ok data.length →
      Writes c b .arp (Arp.Packet.setTargetHardware data)
  | targetProtocol {data : Bytes} : Arp.Packet.protocolLen b = .ok data.length →
      Writes c b .arp (Arp.Packet.setTargetProtocol data)
  | versionAndHeaderLen (version len) :
      Writes c b .ipv4 (Ipv4.Packet.setVersionAndHeaderLen version len)
  | serviceType (n : UInt8) : Writes c b .ipv4 (Ipv4.Packet.setServiceType n)
  | ipv4TotalLen (n : Nat) : Writes c b .ipv4 (Ipv4.Packet.setTotalLen n)
  | ident (n : UInt16) : Writes c b .ipv4 (Ipv4.Packet.setIdent n)
  | unfragmented (whole) : Writes c b .ipv4 (Ipv4.Packet.setUnfragmented whole)
  | hopLimit (n : UInt8) : Writes c b .ipv4 (Ipv4.Packet.setHopLimit n)
  | protocol (p) : Writes c b .ipv4 (Ipv4.Packet.setProtocol p)
  | ipv4Checksum (n : UInt16) : Writes c b .ipv4 (Ipv4.Packet.setChecksum n)
  | ipv4Source (a) : Writes c b .ipv4 (Ipv4.Packet.setSource a)
  | ipv4Destination (a) : Writes c b .ipv4 (Ipv4.Packet.setDestination a)
  | ipv4Fill : Writes c b .ipv4 Ipv4.Packet.fillChecksum
  | ipv4Payload (data : Bytes) : Writes c b .ipv4 (Ipv4.Packet.setPayload data)
  | messageType (t) : Writes c b .icmp (Icmp.Packet.setMessageType t)
  | messageCode (n : UInt8) : Writes c b .icmp (Icmp.Packet.setMessageCode n)
  | icmpChecksum (n : UInt16) : Writes c b .icmp (Icmp.Packet.setChecksum n)
  | echoIdent (n : UInt16) : Writes c b .icmp (Icmp.Packet.setEchoIdent n)
  | echoSeqNo (n : UInt16) : Writes c b .icmp (Icmp.Packet.setEchoSeqNo n)
  | icmpFill : Writes c b .icmp Icmp.Packet.fillChecksum
  | icmpPayload (data : Bytes) : Writes c b .icmp (Icmp.Packet.setPayload data)
  | udpSource (p) : Writes c b .udp (Udp.Packet.setSource p)
  | udpDestination (p) : Writes c b .udp (Udp.Packet.setDestination p)
  | udpTotalLen (n : Nat) : Writes c b .udp (Udp.Packet.setTotalLen n)
  | udpChecksum (n : UInt16) : Writes c b .udp (Udp.Packet.setChecksum n)
  | udpFill : Writes c b .udp (Udp.Packet.fillChecksum c.source c.destination)
  | udpPayload (data : Bytes) : Writes c b .udp (Udp.Packet.setPayload data)
  | leapVersionMode (leap version mode) :
      Writes c b .sntp (Sntp.Packet.setLeapVersionMode leap version mode)
  | stratum (n : UInt8) : Writes c b .sntp (Sntp.Packet.setStratum n)
  | transmit (t) : Writes c b .sntp (Sntp.Packet.setTransmit t)

theorem Writes.ethernet (h : Ethernet.Frame.headerLen ≤ b.length) (hw : Writes c b .ethernet m) :
    m.Keeps b := by
  cases hw
  case ethernetPayload data => exact Edit.keeps_overlay (Bytes.rest_succeeds h) h
  all_goals exact Edit.keeps_write h (Nat.le_of_ble_eq_true rfl)

theorem Writes.arp (h : Arp.Packet.Announces b n k) (hw : Writes c b .arp m) : m.Keeps b := by
  have hinside := h.inside
  cases hw
  case senderHardware data hlen =>
    cases hlen.symm.trans h.hardwareLen
    exact Arp.Packet.keeps_setAddress h.senderHardwarePlace (by omega)
  case senderProtocol data hlen =>
    cases hlen.symm.trans h.protocolLen
    exact Arp.Packet.keeps_setAddress h.senderProtocolPlace (by omega)
  case targetHardware data hlen =>
    cases hlen.symm.trans h.hardwareLen
    exact Arp.Packet.keeps_setAddress h.targetHardwarePlace (by omega)
  case targetProtocol data hlen =>
    cases hlen.symm.trans h.protocolLen
    exact Arp.Packet.keeps_setAddress h.targetProtocolPlace (by omega)
  all_goals exact Edit.keeps_write h.fixedLen_le (Nat.le_of_ble_eq_true rfl)

theorem Writes.ipv4 (hplain : Ipv4.Packet.plainHeaderLen ≤ b.length)
    (hn : Ipv4.Packet.headerLen b = .ok n) (hin : n ≤ b.length) (hw : Writes c b .ipv4 m) :
    m.Keeps b := by
  cases hw
  case ipv4Fill => exact Ipv4.Packet.keeps_fillChecksum hplain hn hin
  case ipv4Payload data => exact Ipv4.Packet.keeps_setPayload hn hin
  all_goals exact Edit.keeps_write hplain (Nat.le_of_ble_eq_true rfl)

theorem Writes.icmp (h : Icmp.Packet.headerLen ≤ b.length) (hlen : b.length ≤ 131074)
    (hw : Writes c b .icmp m) : m.Keeps b := by
  cases hw
  case icmpFill =>
    have hroom : 2 + 2 ≤ b.length := Nat.le_trans (by decide) h
    exact ⟨_, Icmp.Packet.on_fillChecksum h hlen, Bytes.length_put hroom⟩
  case icmpPayload data => exact Edit.keeps_overlay (Bytes.rest_succeeds h) h
  all_goals exact Edit.keeps_write h (Nat.le_of_ble_eq_true rfl)

theorem Writes.udp (h : Udp.Packet.Holds b n) (hw : Writes c b .udp m) : m.Keeps b := by
  have hmin := h.headerLen_le
  cases hw
  case udpFill =>
    obtain ⟨pseudo, hpseudo, -⟩ := Checksum.pseudoHeader_succeeds c.source c.destination
      Ipv4.Protocol.udp.code n
    exact ⟨_, Udp.Packet.on_fillChecksum h hpseudo, Bytes.length_put hmin⟩
  case udpPayload data => exact Edit.keeps_overlay (Bytes.rest_succeeds hmin) hmin
  all_goals exact Edit.keeps_write hmin (Nat.le_of_ble_eq_true rfl)

theorem Writes.sntp (h : Sntp.Packet.len ≤ b.length) (hw : Writes c b .sntp m) : m.Keeps b := by
  cases hw
  all_goals exact Edit.keeps_write h (Nat.le_of_ble_eq_true rfl)

/-- A packet is found good or bad, but never runs into a fault. -/
theorem parse_succeeds (f : Format) (c : Context) (hlen : b.length ≤ 131074)
    (h : Parse.Reads (f.checkLen b) ()) : ∃ parsed, (f.parse c b).run = .ok parsed := by
  have total : Parse.Total (f.parse c b) fun _ => True := by
    cases f with
    | ethernet => exact (Ethernet.Header.parse_total b).bind fun _ _ => Parse.Total.pure trivial
    | arp => exact (Arp.Message.parse_total b).bind fun _ _ => Parse.Total.pure trivial
    | ipv4 =>
      exact (Ipv4.Header.parse_total c.checksum b).bind fun _ _ => Parse.Total.pure trivial
    | icmp =>
      refine (Icmp.Echo.parse_total c.checksum hlen).bind fun e ⟨he, _⟩ => ?_
      have hsum := he.length
      have hadd : Icmp.Packet.headerLen + e.payloadLen < Length.limit := by
        simp only [Length.limit]
        omega
      exact Parse.Total.lift ((Length.add_succeeds hadd).next fun _ => Succeeds.pure trivial)
    | udp =>
      exact (Udp.Header.parse_total c.checksum c.source c.destination b).bind fun _ _ =>
        Parse.Total.pure trivial
    | sntp =>
      have hmin : Sntp.Packet.len ≤ b.length := (Sntp.Packet.checkLen_total b).of_reads h
      obtain ⟨message, hmessage⟩ := Sntp.Message.exists_parse hmin
      exact Parse.Total.bind ⟨_, hmessage, fun _ _ => trivial⟩ fun _ _ => Parse.Total.pure trivial
  obtain ⟨parsed, hparsed, -⟩ := total
  exact ⟨parsed, hparsed⟩

/-- Where the check of the length succeeds, nothing that reads or writes the packet runs into a
fault: all of its fields with its payload and the verdict on its checksum are read, the packet is
parsed, and each write finds its place. That is so for IPv4 headers shorter than their fixed part,
for ARP addresses of any length, and whatever stands behind a datagram. -/
theorem checked_safe (f : Format) (c : Context) (b : Bytes) (hlen : b.length ≤ 131074)
    (h : Parse.Reads (f.checkLen b) ()) :
    (∃ fields, f.fields c b = .ok fields) ∧ (∃ parsed, (f.parse c b).run = .ok parsed) ∧
      ∀ m, f.Writes c b m → ∃ b', m.on b = (.ok (), b') ∧ b'.length = b.length := by
  have safe : Succeeds (f.fields c b) (fun _ => True) ∧ ∀ m, Writes c b f m → m.Keeps b := by
    cases f with
    | ethernet =>
      have hmin := (Ethernet.Frame.checkLen_total b).of_reads h
      exact ⟨Ethernet.Frame.fields_succeeds hmin, fun m hw => hw.ethernet hmin⟩
    | arp =>
      obtain ⟨n, k, announces⟩ := (Arp.Packet.checkLen_total b).of_reads h
      exact ⟨announces.fields_succeeds, fun m hw => hw.arp announces⟩
    | ipv4 =>
      obtain ⟨hplain, hends⟩ := (Ipv4.Packet.checkLen_total b).of_reads h
      obtain ⟨n, hn, -⟩ := Ipv4.Packet.headerLen_succeeds hplain
      obtain ⟨k, hk, -⟩ := Ipv4.Packet.totalLen_succeeds hplain
      obtain ⟨hle, hin⟩ := hends n k hn hk
      exact ⟨Ipv4.Packet.fields_succeeds hplain hn hk hle hin,
        fun m hw => hw.ipv4 hplain hn (Nat.le_trans hle hin)⟩
    | icmp =>
      have hmin := (Icmp.Packet.checkLen_total b).of_reads h
      exact ⟨Icmp.Packet.fields_succeeds hmin hlen, fun m hw => hw.icmp hmin hlen⟩
    | udp =>
      obtain ⟨n, holds⟩ := (Udp.Packet.checkLen_total b).of_reads h
      exact ⟨holds.fields_succeeds c.source c.destination, fun m hw => hw.udp holds⟩
    | sntp =>
      have hmin := (Sntp.Packet.checkLen_total b).of_reads h
      exact ⟨Sntp.Packet.fields_succeeds hmin, fun m hw => hw.sntp hmin⟩
  obtain ⟨⟨fields, hfields, -⟩, hwrites⟩ := safe
  exact ⟨⟨fields, hfields⟩, f.parse_succeeds c hlen h, hwrites⟩

/-- The header announces one word only, and so leaves its own addresses out. -/
theorem checked_safe_short :
    let b : Bytes := [0x41, 0, 0, 4, 0, 0, 0, 0, 64, 17, 0, 0, 10, 0, 0, 1, 10, 0, 0, 2]
    let c : Context := ⟨.manual, ⟨1⟩, ⟨2⟩⟩
    (∃ fields, Format.fields c .ipv4 b = .ok fields) ∧
      (∃ parsed, (Format.parse c .ipv4 b).run = .ok parsed) ∧
      ∃ b', Ipv4.Packet.fillChecksum.on b = (.ok (), b') ∧ b'.length = 20 := by
  intro b c
  obtain ⟨hfields, hparsed, hwrites⟩ := checked_safe .ipv4 c b (by decide) rfl
  exact ⟨hfields, hparsed, hwrites _ .ipv4Fill⟩

end Format

end Reflector
