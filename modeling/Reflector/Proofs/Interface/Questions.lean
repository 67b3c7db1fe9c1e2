import Reflector.Proofs.Interface.Handling
import Reflector.Proofs.Packets.Fields
/-!
The questions that are answered, told by the bytes of a frame: requests for the own address, and
pings.
-/
namespace Reflector.Interface

open Ethernet (EtherType)

variable {σ : Type} {i : Interface} {frame : Bytes}

structure Reaches (i : Interface) (frame : Bytes) (etherType : UInt16) : Prop where
  long : 42 ≤ frame.length
  addressed : frame.slice 0 6 = .ok i.hardware.toBytes ∨
    frame.slice 0 6 = .ok Ethernet.Address.broadcast.toBytes
  etherType : frame.half 12 = .ok etherType

theorem reaches_iff {t : EtherType} (ht : ∀ code, t ≠ .unknown code) :
    i.Reaches frame t.code ↔ ∃ link, i.station.Takes link frame ∧ link.etherType = t := by
  have haccepts (a : Ethernet.Address) : i.station.accepts a = true ↔
      a = i.hardware ∨ a = .broadcast := by
    simp only [Ethernet.Station.accepts, station, Ethernet.Address.isBroadcast, Bool.or_eq_true,
      beq_iff_eq, eq_comm (a := a) (b := i.hardware)]
  constructor
  · rintro ⟨hlong, hdestination, htype⟩
    obtain ⟨source, hsource, -⟩ :=
      Ethernet.Frame.source_succeeds (b := frame) (Nat.le_trans (by decide) hlong)
    obtain ⟨destination, hslice, haccepted⟩ : ∃ destination : Ethernet.Address,
        frame.slice 0 6 = .ok destination.toBytes ∧ i.station.accepts destination = true := by
      rcases hdestination with hown | hall
      · exact ⟨_, hown, (haccepts _).2 (.inl rfl)⟩
      · exact ⟨_, hall, (haccepts _).2 (.inr rfl)⟩
    have heads : Ethernet.Header.Heads ⟨source, destination, t⟩ frame :=
      Ethernet.Header.heads_iff.2 ⟨Nat.le_trans (by decide) hlong, hslice,
        Ethernet.address_iff.1 hsource, _, htype, (EtherType.ofCode_iff ht).2 rfl⟩
    exact ⟨_, ⟨hlong, heads, haccepted, ht⟩, rfl⟩
  · rintro ⟨link, takes, rfl⟩
    obtain ⟨-, hdestination, -, code, hcode, htype⟩ := Ethernet.Header.heads_iff.1 takes.heads
    rw [EtherType.ofCode_iff ht] at htype
    refine ⟨takes.long, ?_, htype ▸ hcode⟩
    rcases (haccepts _).1 takes.accepted with hown | hall
    · exact .inl (hown ▸ hdestination)
    · exact .inr (hall ▸ hdestination)

structure Tells (i : Interface) (frame : Bytes) (m : Arp.Message) : Prop
    extends Reaches i frame 0x0806 where
  hardwareType : frame.half 14 = .ok 1
  protocolType : frame.half 16 = .ok 0x0800
  hardwareLen : frame.octet 18 = .ok 6
  protocolLen : frame.octet 19 = .ok 4
  operation : frame.half 20 = .ok m.operation.code
  known : m.operation = .request ∨ m.operation = .reply
  senderHardware : frame.slice 22 28 = .ok m.senderHardware.toBytes
  senderProtocol : frame.slice 28 32 = .ok m.senderProtocol.toBytes
  targetHardware : frame.slice 32 38 = .ok m.targetHardware.toBytes
  targetProtocol : frame.slice 38 42 = .ok m.targetProtocol.toBytes

theorem tells_iff {m : Arp.Message} :
    i.Tells frame m ↔ ∃ link, i.Hears frame link (.message m) := by
  have harp : ∀ code, EtherType.arp ≠ .unknown code := fun _ => EtherType.noConfusion
  have hheads := Arp.Message.heads_iff (m := m) (b := frame.drop 14)
  simp only [Bytes.half_drop, Bytes.octet_drop, List.length_drop, Nat.reduceAdd] at hheads
  constructor
  · intro htells
    have hlong := htells.long
    obtain ⟨link, takes, type⟩ := (reaches_iff harp).1 htells.toReaches
    have hknown := Arp.Operation.known_iff.1 htells.known
    have heads : m.Heads (frame.drop 14) := by
      simp only [hheads, Bytes.slice_drop (Nat.le_trans (by decide : 14 ≤ 42) hlong)]
      exact ⟨by omega, htells.hardwareType, htells.protocolType, htells.hardwareLen,
        htells.protocolLen, ⟨_, htells.operation, (Arp.Operation.ofCode_iff hknown).2 rfl⟩, hknown,
        htells.senderHardware, htells.senderProtocol, htells.targetHardware, htells.targetProtocol⟩
    exact ⟨link, .message takes type heads⟩
  · rintro ⟨link, hears⟩
    cases hears with
    | message takes type heads =>
      have hlong : 42 ≤ frame.length := takes.long
      simp only [hheads, Bytes.slice_drop (Nat.le_trans (by decide : 14 ≤ 42) hlong)] at heads
      obtain ⟨-, hhardware, hprotocol, hhardwareLen, hprotocolLen, ⟨code, hcode, hoperation⟩,
        hknown, hslices⟩ := heads
      rw [Arp.Operation.ofCode_iff hknown] at hoperation
      exact ⟨(reaches_iff harp).2 ⟨link, takes, type⟩, hhardware, hprotocol, hhardwareLen,
        hprotocolLen, hoperation ▸ hcode, Arp.Operation.known_iff.2 hknown, hslices.1, hslices.2.1,
        hslices.2.2.1, hslices.2.2.2⟩

structure AsksAddress (i : Interface) (frame : Bytes) : Prop extends Reaches i frame 0x0806 where
  hardwareType : frame.half 14 = .ok 1
  protocolType : frame.half 16 = .ok 0x0800
  hardwareLen : frame.octet 18 = .ok 6
  protocolLen : frame.octet 19 = .ok 4
  operation : frame.half 20 = .ok 1
  target : frame.slice 38 42 = .ok i.subnet.address.toBytes

theorem asksAddress_iff : i.AsksAddress frame ↔ ∃ link m, i.Hears frame link (.message m) ∧
    m.operation = .request ∧ m.targetProtocol = i.subnet.address := by
  constructor
  · intro hasks
    have hlong := hasks.long
    obtain ⟨senderHardware, hsenderHardware⟩ :=
      Ethernet.exists_address frame 22 (by omega)
    obtain ⟨senderProtocol, hsenderProtocol⟩ :=
      Ipv4.exists_address frame 28 (by omega)
    obtain ⟨targetHardware, htargetHardware⟩ :=
      Ethernet.exists_address frame 32 (by omega)
    have htells : i.Tells frame
        ⟨.request, senderHardware, senderProtocol, targetHardware, i.subnet.address⟩ :=
      ⟨hasks.toReaches, hasks.hardwareType, hasks.protocolType, hasks.hardwareLen,
        hasks.protocolLen, hasks.operation, .inl rfl, hsenderHardware, hsenderProtocol,
        htargetHardware, hasks.target⟩
    obtain ⟨link, hears⟩ := tells_iff.1 htells
    exact ⟨link, _, hears, rfl, rfl⟩
  · rintro ⟨link, m, hears, hrequest, htarget⟩
    have htells := tells_iff.2 ⟨link, hears⟩
    have hoperation := htells.operation
    have hlast := htells.targetProtocol
    rw [hrequest] at hoperation
    rw [htarget] at hlast
    exact ⟨htells.toReaches, htells.hardwareType, htells.protocolType, htells.hardwareLen,
      htells.protocolLen, hoperation, hlast⟩

/-- A datagram for the device or for all, with a plain header and all there of its `total` bytes. -/
structure ReachesHost (i : Interface) (frame : Bytes) (source destination : Ipv4.Address)
    (protocol : UInt8) (total : UInt16) : Prop extends Reaches i frame 0x0800 where
  version : frame.octet 14 = .ok 0x45
  totalLen : frame.half 16 = .ok total
  header : 20 ≤ total.toNat
  inside : 14 + total.toNat ≤ frame.length
  /-- Nothing but the two highest flags may be set. -/
  unfragmented : ∃ word, frame.half 20 = .ok word ∧ word.toNat % 0x4000 = 0
  protocolCode : frame.octet 23 = .ok protocol
  verified : i.checksum = .manual →
    Checksum.data ((frame.drop 14).take 20) = .ok Checksum.ones
  sourceAddress : frame.slice 26 30 = .ok source.toBytes
  unicast : source.isUnicast = true
  destinationAddress : frame.slice 30 34 = .ok destination.toBytes
  accepted : destination = i.subnet.address ∨ i.subnet.broadcast = some destination ∨
    destination = .broadcast

theorem reachesHost_iff {source destination : Ipv4.Address} {p : Ipv4.Protocol} {total : UInt16}
    (hp : p = .icmp ∨ p = .udp) : i.ReachesHost frame source destination p.code total ↔
      ∃ link ip, i.station.Takes link frame ∧ link.etherType = .ipv4 ∧
        i.host.Takes ip (frame.drop 14) ∧ ip.source = source ∧ ip.destination = destination ∧
        ip.protocol = p ∧ total.toNat = 20 + ip.payloadLen := by
  have hipv4 : ∀ code, EtherType.ipv4 ≠ .unknown code := fun _ => EtherType.noConfusion
  have hknown : ∀ code, p ≠ .unknown code := by
    rcases hp with rfl | rfl
    · exact fun _ => Ipv4.Protocol.noConfusion
    · exact fun _ => Ipv4.Protocol.noConfusion
  have haccepts (a : Ipv4.Address) : i.host.subnet.accepts a = true ↔
      a = i.subnet.address ∨ i.subnet.broadcast = some a ∨ a = .broadcast := by
    simp only [Ipv4.Subnet.accepts, host, Ipv4.Address.isBroadcast, Bool.or_eq_true, beq_iff_eq,
      or_assoc, eq_comm (a := a) (b := i.subnet.address)]
  have hheads (ip : Ipv4.Header) := Ipv4.Header.heads_iff (h := ip) (b := frame.drop 14)
  simp only [Bytes.half_drop, Bytes.octet_drop, List.length_drop, Nat.reduceAdd] at hheads
  constructor
  · intro hreaches
    have hlong := hreaches.long
    have hinside := hreaches.inside
    have hheader := hreaches.header
    obtain ⟨link, takes, type⟩ := (reaches_iff hipv4).1 hreaches.toReaches
    have hslice {start stop : Nat} : Bytes.slice (frame.drop 14) start stop =
        frame.slice (14 + start) (14 + stop) := Bytes.slice_drop (by omega)
    obtain ⟨hop, hhop, -⟩ := Bytes.octet_succeeds (i := 22) hlong (by decide)
    let ip : Ipv4.Header := ⟨source, destination, p, total.toNat - 20, hop⟩
    have htotal : total.toNat = 20 + ip.payloadLen := (Nat.add_sub_cancel' hheader).symm
    have heads : ip.Heads (frame.drop 14) := by
      rw [hheads]
      exact ⟨by omega, hreaches.version, ⟨total, hreaches.totalLen, htotal⟩, hreaches.unfragmented,
        hhop, ⟨_, hreaches.protocolCode, (Ipv4.Protocol.ofCode_iff hknown).2 rfl⟩,
        hslice.trans hreaches.sourceAddress, hslice.trans hreaches.destinationAddress⟩
    have passes : i.checksum.Passes (Ipv4.Packet.verifyChecksum (frame.drop 14)) :=
      fun hmode => heads.plain.verifyChecksum_iff.2 (hreaches.verified hmode)
    exact ⟨link, ip, takes, type, ⟨heads, passes, (haccepts _).2 hreaches.accepted,
      hreaches.unicast, hp⟩, rfl, rfl, rfl, htotal⟩
  · rintro ⟨link, ip, takes, type, host, rfl, rfl, rfl, htotal⟩
    have hlong : 42 ≤ frame.length := takes.long
    obtain ⟨hinside, hfirst, ⟨total', htotal', hsum⟩, hword, -, ⟨code, hcode, hprotocol⟩, hsource,
      hdestination⟩ := (hheads ip).1 host.heads
    obtain rfl : total' = total := UInt16.toNat_inj.1 (hsum.trans htotal.symm)
    rw [Ipv4.Protocol.ofCode_iff hknown] at hprotocol
    rw [Bytes.slice_drop (by omega)] at hsource hdestination
    exact ⟨(reaches_iff hipv4).2 ⟨link, takes, type⟩, hfirst, htotal', by omega, by omega, hword,
      hprotocol ▸ hcode, fun hmode => host.heads.plain.verifyChecksum_iff.1 (host.passes hmode),
      hsource, host.unicast, hdestination, (haccepts _).1 host.accepted⟩

/-- A ping in a datagram of `total` bytes, which may be answered. -/
structure AsksEcho (i : Interface) (frame : Bytes) (total : UInt16) : Prop where
  datagram : ∃ source destination, i.ReachesHost frame source destination 1 total
  room : 28 ≤ total.toNat
  messageType : frame.octet 34 = .ok 8
  messageCode : frame.octet 35 = .ok 0
  verified : i.echoChecksum = .manual →
    Checksum.data ((frame.drop 34).take (total.toNat - 20)) = .ok Checksum.ones
  allowed : i.denyEcho = false

theorem asksEcho_iff {total : UInt16} : i.AsksEcho frame total ↔ ∃ link ip e,
    i.Hears frame link (.echo ip e) ∧ e.kind = .request ∧ i.denyEcho = false ∧
      total.toNat = 20 + ip.payloadLen := by
  have hmessage (len : Nat) (hlen : 8 ≤ len) (hin : 34 + len ≤ frame.length) :
      (∃ e : Icmp.Echo, e.Heads (((frame.drop 14).drop 20).take len) ∧ e.kind = .request) ↔
        frame.octet 34 = .ok 8 ∧ frame.octet 35 = .ok 0 := by
    have hroom : 8 ≤ (((frame.drop 14).drop 20).take len).length := by
      simp only [List.length_take, List.length_drop]
      omega
    rw [Icmp.Echo.exists_request_iff, Bytes.octet_take (by omega), Bytes.octet_take (by omega)]
    simp only [Bytes.octet_drop, Nat.reduceAdd, hroom, true_and]
  constructor
  · intro hasks
    obtain ⟨source, destination, hreaches⟩ := hasks.datagram
    obtain ⟨link, ip, takes, type, host, rfl, rfl, protocol, htotal⟩ :=
      (reachesHost_iff (.inl rfl)).1 hreaches
    have hinside := hreaches.inside
    have hroom := hasks.room
    obtain ⟨e, heads, hkind⟩ := (hmessage ip.payloadLen (by omega) (by omega)).2
      ⟨hasks.messageType, hasks.messageCode⟩
    have hverified := hasks.verified
    rw [htotal, Nat.add_sub_cancel_left, ← List.drop_drop (i := 20) (j := 14)] at hverified
    have echo : i.responder.Takes e (((frame.drop 14).drop 20).take ip.payloadLen) :=
      ⟨heads, fun hmode => Icmp.Packet.verifyChecksum_iff.2 (hverified hmode)⟩
    exact ⟨link, ip, e, .echo takes type host protocol echo, hkind, hasks.allowed, htotal⟩
  · rintro ⟨link, ip, e, hears, hkind, hallowed, htotal⟩
    cases hears with
    | echo takes type host protocol echo =>
      have hreaches := (reachesHost_iff (.inl rfl)).2
        ⟨link, ip, takes, type, host, rfl, rfl, protocol, htotal⟩
      have hinside := hreaches.inside
      have hlen := echo.heads.length
      simp only [List.length_take, List.length_drop, Icmp.Packet.headerLen] at hlen
      obtain ⟨htype, hcode⟩ :=
        (hmessage ip.payloadLen (by omega) (by omega)).1 ⟨e, echo.heads, hkind⟩
      have hverified (hmode : i.echoChecksum = .manual) :=
        Icmp.Packet.verifyChecksum_iff.1 (echo.passes hmode)
      rw [List.drop_drop] at hverified
      refine ⟨⟨_, _, hreaches⟩, by omega, htype, hcode, ?_, hallowed⟩
      rwa [htotal, Nat.add_sub_cancel_left]

def IsUdp (frame : Bytes) : Prop := frame.half 12 = .ok 0x0800 ∧ frame.octet 23 = .ok 17

theorem Hears.isUdp {link : Ethernet.Header} {ip : Ipv4.Header} {udp : Udp.Header}
    (h : i.Hears frame link (.datagram ip udp)) : IsUdp frame := by
  cases h with
  | datagram takes type host protocol service =>
    have htotal := UInt16.toNat_ofNat_of_lt host.heads.short
    have hreaches := (reachesHost_iff (.inr rfl)).2
      ⟨link, ip, takes, type, host, rfl, rfl, protocol, htotal⟩
    exact ⟨hreaches.etherType, hreaches.protocolCode⟩

theorem message_reflects {link : Ethernet.Header} {m : Arp.Message} (app : Udp.Application σ)
    (s : σ) (h : frame.length < Length.limit) (hm : i.Hears frame link (.message m)) :
    Succeeds (i.receive app frame s) fun handled => ∀ n, handled.outcome = .reflect n ↔
      m.operation = .request ∧ m.targetProtocol = i.subnet.address ∧ n = 42 := by
  refine ⟨_, receive_message h hm, fun n => ?_⟩
  simp only [Handled.map, handleMessage, Handled.under_outcome, Arp.Resolver.handle_outcome,
    Arp.Packet.plainLen]
  constructor
  · rintro ⟨len, ⟨hrequest, htarget, rfl⟩, rfl⟩
    exact ⟨hrequest, htarget, rfl⟩
  · rintro ⟨hrequest, htarget, rfl⟩
    exact ⟨28, ⟨hrequest, htarget, rfl⟩, rfl⟩

/-- A ping is answered unless that is denied. -/
theorem echo_reflects {link : Ethernet.Header} {ip : Ipv4.Header} {e : Icmp.Echo}
    (app : Udp.Application σ) (s : σ) (h : frame.length < Length.limit)
    (he : i.Hears frame link (.echo ip e)) :
    Succeeds (i.receive app frame s) fun handled => ∀ n, handled.outcome = .reflect n ↔
      e.kind = .request ∧ i.denyEcho = false ∧ n = 34 + ip.payloadLen := by
  have hears := he
  cases he with
  | echo takes type host protocol echo =>
    obtain ⟨⟨outcome, message⟩, hmessage, -, houtcome⟩ := Icmp.Responder.receive_taken echo
    have hinside := host.heads.inside
    rw [List.length_drop, Ipv4.Packet.plainHeaderLen] at hinside
    have hlen : (((frame.drop 14).drop 20).take ip.payloadLen).length = ip.payloadLen := by
      simp only [List.length_take, List.length_drop]
      omega
    refine ⟨_, receive_echo h hears hmessage, fun n => ?_⟩
    simp only [Handled.map, handleEcho, Handled.under_outcome, houtcome, hlen]
    constructor
    · rintro ⟨_, ⟨_, ⟨hkind, hallowed, rfl⟩, rfl⟩, rfl⟩
      exact ⟨hkind, hallowed, by omega⟩
    · rintro ⟨hkind, hallowed, rfl⟩
      exact ⟨_, ⟨_, ⟨hkind, hallowed, rfl⟩, rfl⟩, by omega⟩

/-- Of all frames but those with UDP, exactly requests for the own address and pings are answered. -/
theorem reflects_iff (i : Interface) (app : Udp.Application σ) (s : σ)
    (h : frame.length < Length.limit) (hudp : ¬IsUdp frame) :
    ∃ handled, i.receive app frame s = .ok handled ∧ ∀ n, handled.outcome = .reflect n ↔
      i.AsksAddress frame ∧ n = 42 ∨ ∃ total, i.AsksEcho frame total ∧ n = 14 + total.toNat := by
  obtain ⟨handled, hreceive, -⟩ := i.receive_total app s h
  have haddress {link m} (hm : i.Hears frame link (.message m)) (n : Nat) :
      handled.outcome = .reflect n ↔
        m.operation = .request ∧ m.targetProtocol = i.subnet.address ∧ n = 42 := by
    obtain ⟨_, hsame, houtcome⟩ := message_reflects app s h hm
    cases hsame.symm.trans hreceive
    exact houtcome n
  have hecho {link ip e} (he : i.Hears frame link (.echo ip e)) (n : Nat) :
      handled.outcome = .reflect n ↔
        e.kind = .request ∧ i.denyEcho = false ∧ n = 34 + ip.payloadLen := by
    obtain ⟨_, hsame, houtcome⟩ := echo_reflects app s h he
    cases hsame.symm.trans hreceive
    exact houtcome n
  refine ⟨handled, hreceive, fun n => ⟨fun hn => ?_, ?_⟩⟩
  · by_cases hnothing : ∀ link content, ¬i.Hears frame link content
    · rw [receive_unheard h hnothing] at hreceive
      cases hreceive
      cases hn
    obtain ⟨link, content, hears⟩ : ∃ link content, i.Hears frame link content := by
      simpa using hnothing
    cases content with
    | message m =>
      obtain ⟨hrequest, htarget, rfl⟩ := (haddress hears n).1 hn
      exact .inl ⟨asksAddress_iff.2 ⟨link, m, hears, hrequest, htarget⟩, rfl⟩
    | echo ip e =>
      obtain ⟨hkind, hallowed, rfl⟩ := (hecho hears n).1 hn
      have hshort : (UInt16.ofNat (20 + ip.payloadLen)).toNat = 20 + ip.payloadLen := by
        cases hears with
        | echo takes type host => exact UInt16.toNat_ofNat_of_lt host.heads.short
      exact .inr ⟨_, asksEcho_iff.2 ⟨link, ip, e, hears, hkind, hallowed, hshort⟩, by omega⟩
    | datagram ip udp => exact absurd hears.isUdp hudp
  · rintro (⟨hasks, rfl⟩ | ⟨total, hasks, rfl⟩)
    · obtain ⟨link, m, hears, hrequest, htarget⟩ := asksAddress_iff.1 hasks
      exact (haddress hears _).2 ⟨hrequest, htarget, rfl⟩
    · obtain ⟨link, ip, e, hears, hkind, hallowed, htotal⟩ := asksEcho_iff.1 hasks
      exact (hecho hears _).2 ⟨hkind, hallowed, by omega⟩

theorem reflects_iff_ping : (ping (.ofOctets 192 168 200 9)).length < Length.limit ∧
    ¬IsUdp (ping (.ofOctets 192 168 200 9)) ∧
    (new .standard []).AsksEcho (ping (.ofOctets 192 168 200 9)) 28 ∧
    ∃ handled, (new .standard []).receive .none (ping (.ofOctets 192 168 200 9)) () = .ok handled ∧
      handled.outcome = .reflect 42 := by
  have hheader : Checksum.data (((ping (.ofOctets 192 168 200 9)).drop 14).take 20) =
      .ok Checksum.ones := (Checksum.data_of_length_le (by decide)).trans (congrArg _ (by decide))
  have hmessage : Checksum.data (((ping (.ofOctets 192 168 200 9)).drop 34).take 8) =
      .ok Checksum.ones := (Checksum.data_of_length_le (by decide)).trans (congrArg _ (by decide))
  have hudp : ¬IsUdp (ping (.ofOctets 192 168 200 9)) := fun h => nomatch h.2
  have hreaches : (new .standard []).ReachesHost (ping (.ofOctets 192 168 200 9))
      (.ofOctets 192 168 200 9) Config.standard.subnet.address 1 28 :=
    ⟨⟨by decide, .inl rfl, rfl⟩, rfl, rfl, by decide, by decide, ⟨0x4000, rfl, rfl⟩, rfl,
      fun _ => hheader, rfl, rfl, rfl, .inl rfl⟩
  have hasks : (new .standard []).AsksEcho (ping (.ofOctets 192 168 200 9)) 28 :=
    ⟨⟨_, _, hreaches⟩, by decide, rfl, rfl, fun _ => hmessage, rfl⟩
  obtain ⟨handled, hreceive, houtcome⟩ := reflects_iff (new .standard []) .none ()
    (by decide : (ping (.ofOctets 192 168 200 9)).length < Length.limit) hudp
  exact ⟨by decide, hudp, hasks, handled, hreceive, (houtcome 42).2 (.inr ⟨28, hasks, rfl⟩)⟩

end Reflector.Interface
