import Reflector.Proofs.Interface.Datagrams
/-!
Bytes behind the packet in a frame, such as padding, make no difference: with or without them the
same is heard, and the same becomes of it. Only the room that an application has for an answer is
that of the whole buffer.
-/
namespace Reflector

variable {σ : Type} {n k : Nat}

namespace Handled

def cut (n : Nat) (h : Handled σ) : Handled σ := { h with bytes := h.bytes.take n }

theorem cut_under (up : Handled σ) (packet : Bytes) (header : Nat → Bytes) (n : Nat)
    (hheader : ∀ len, (header len).length = k) (hk : k ≤ packet.length) :
    (up.under packet k header).cut (k + n) = (up.cut n).under (packet.take (k + n)) k header := by
  obtain ⟨outcome, bytes, s⟩ := up
  cases outcome with
  | drop =>
    have hkept : (packet.take k).length = k := List.length_take_of_le hk
    have hbytes : (packet.take k ++ bytes).take (k + n) =
        (packet.take (k + n)).take k ++ bytes.take n := calc
      _ = (packet.take k).take (k + n) ++ bytes.take n := by
        rw [List.take_append, hkept, Nat.add_sub_cancel_left]
      _ = packet.take k ++ bytes.take n := by
        rw [List.take_take, Nat.min_eq_right (Nat.le_add_right _ _)]
      _ = (packet.take (k + n)).take k ++ bytes.take n := by
        rw [List.take_take, Nat.min_eq_left (Nat.le_add_right _ _)]
    exact congrArg (Handled.mk .drop · s) hbytes
  | reflect len =>
    have hbytes : (header len ++ bytes).take (k + n) = header len ++ bytes.take n := by
      rw [← hheader len, List.take_length_add_append]
    exact congrArg (Handled.mk (.reflect (k + len)) · s) hbytes

end Handled

namespace Ethernet.Station

variable {st : Station} {header : Header} {frame : Bytes}

theorem takes_take (hn : 42 ≤ n) : st.Takes header (frame.take n) ↔ st.Takes header frame := by
  have hheads := Header.heads_take (h := header) (b := frame) (Nat.le_trans (by decide) hn)
  constructor
  · intro ht
    exact ⟨(le_length_take hn).1 ht.long, hheads.1 ht.heads, ht.accepted, ht.known⟩
  · intro ht
    exact ⟨(le_length_take hn).2 ht.long, hheads.2 ht.heads, ht.accepted, ht.known⟩

end Ethernet.Station

namespace Ipv4.Host

variable {host : Host} {header : Header} {packet : Bytes}

theorem takes_take (hn : 20 + header.payloadLen ≤ n) :
    host.Takes header (packet.take n) ↔ host.Takes header packet := by
  have hheads := Header.heads_take (b := packet) hn
  have hverify (hp : header.Heads packet) : Packet.verifyChecksum (packet.take n) = .ok true ↔
      Packet.verifyChecksum packet = .ok true := by
    rw [(hheads.2 hp).plain.verifyChecksum_iff, hp.plain.verifyChecksum_iff, List.take_take,
      Nat.min_eq_left (Nat.le_trans (Nat.le_add_right _ _) hn)]
  constructor
  · intro ht
    have hp := hheads.1 ht.heads
    exact ⟨hp, fun hmode => (hverify hp).1 (ht.passes hmode), ht.accepted, ht.unicast, ht.known⟩
  · intro ht
    have hp := ht.heads
    exact ⟨hheads.2 hp, fun hmode => (hverify hp).2 (ht.passes hmode), ht.accepted, ht.unicast,
      ht.known⟩

end Ipv4.Host

namespace Udp.Service

variable {svc : Service} {ip : Ipv4.Header} {header : Header} {packet : Bytes}

theorem takes_take (hn : 8 + header.payloadLen ≤ n) :
    svc.Takes ip header (packet.take n) ↔ svc.Takes ip header packet := by
  have hheads := Header.heads_take (b := packet) hn
  have hverify (hp : header.Heads packet) :
      Packet.verifyChecksum ip.source ip.destination (packet.take n) =
        Packet.verifyChecksum ip.source ip.destination packet :=
    Packet.verifyChecksum_take hp.holds.totalLen hp.holds.header hn
  constructor
  · intro ht
    have hp := hheads.1 ht.heads
    exact ⟨hp, hverify hp ▸ ht.passes, ht.within, ht.port⟩
  · intro ht
    exact ⟨hheads.2 ht.heads, (hverify ht.heads).symm ▸ ht.passes, ht.within, ht.port⟩

end Udp.Service

namespace Arp.Resolver

theorem handle_take {r : Resolver} {m : Message} {packet : Bytes} (hn : 28 ≤ n) :
    r.handle m (packet.take n) = (r.handle m packet).cut n := by
  unfold handle
  split
  · rfl
  cases m.operation with
  | request =>
    have hbytes : ((r.back m).bytes ++ packet.drop Packet.plainLen).take n =
        (r.back m).bytes ++ (packet.take n).drop Packet.plainLen := by
      rw [List.take_append, List.drop_take, Message.length_bytes, List.take_of_length_le hn]
    exact congrArg (Handled.mk (.reflect Packet.plainLen) · r) hbytes.symm
  | reply => rfl
  | unknown code => rfl

end Arp.Resolver

/-- The part of a call that the device vouches for: behind a request there is only room. -/
def Udp.Call.seen : Call → Call
  | .request buffer source port len => .request (buffer.take len) source port len
  | .reply buffer source port len => .reply buffer source port len

namespace Interface

def Content.len : Content → Nat
  | .message _ => 42
  | .echo ip _ | .datagram ip _ => 34 + ip.payloadLen

variable {i : Interface} {frame : Bytes} {link : Ethernet.Header} {content : Content}

theorem Hears.len_bounds (h : i.Hears frame link content) :
    42 ≤ content.len ∧ content.len ≤ frame.length := by
  cases h with
  | message takes type heads => exact ⟨Nat.le_refl _, takes.long⟩
  | @echo ip e takes type host protocol echo =>
    have hinside := host.heads.inside
    have hlen := echo.heads.length
    simp only [List.length_take, List.length_drop, Ipv4.Packet.plainHeaderLen,
      Icmp.Packet.headerLen] at hinside hlen
    simp only [Content.len]
    omega
  | @datagram ip udp takes type host protocol service =>
    have hinside := host.heads.inside
    have hwithin := service.within
    simp only [List.length_drop, Ipv4.Packet.plainHeaderLen, Udp.Packet.headerLen] at hinside hwithin
    simp only [Content.len]
    omega

theorem take_message {len : Nat} (hn : 34 + len ≤ n) :
    (((frame.take n).drop 14).drop 20).take len = ((frame.drop 14).drop 20).take len := by
  rw [drop_headers, drop_headers, List.drop_take, List.take_take, Nat.min_eq_left (by omega)]

theorem hears_take (hlong : 42 ≤ n) (hn : content.len ≤ n) :
    i.Hears (frame.take n) link content ↔ i.Hears frame link content := by
  have hpacket : (frame.take n).drop 14 = (frame.drop 14).take (n - 14) := List.drop_take
  have hsegment : ((frame.take n).drop 14).drop 20 =
      ((frame.drop 14).drop 20).take (n - 34) := by
    rw [hpacket, List.drop_take, Nat.sub_sub]
  cases content with
  | message m =>
    rw [hears_message_iff, hears_message_iff, Ethernet.Station.takes_take hlong, hpacket,
      Arp.Message.heads_take (by omega)]
  | echo ip e =>
    have hlen : 34 + ip.payloadLen ≤ n := hn
    rw [hears_echo_iff, hears_echo_iff, Ethernet.Station.takes_take hlong, take_message hn,
      hpacket, Ipv4.Host.takes_take (by omega)]
  | datagram ip udp =>
    have hlen : 34 + ip.payloadLen ≤ n := hn
    have hwithin {packet : Bytes} (ht : i.service.Takes ip udp packet) :
        8 + udp.payloadLen ≤ n - 34 := by
      have hle := ht.within
      rw [Udp.Packet.headerLen] at hle
      omega
    have hservice : i.service.Takes ip udp (((frame.drop 14).drop 20).take (n - 34)) ↔
        i.service.Takes ip udp ((frame.drop 14).drop 20) :=
      ⟨fun ht => (Udp.Service.takes_take (hwithin ht)).1 ht,
        fun ht => (Udp.Service.takes_take (hwithin ht)).2 ht⟩
    rw [hears_datagram_iff, hears_datagram_iff, Ethernet.Station.takes_take hlong, hsegment,
      hservice, hpacket, Ipv4.Host.takes_take (by omega)]

theorem Hears.of_take (h : i.Hears (frame.take n) link content) :
    i.Hears frame link content ∧ content.len ≤ n := by
  obtain ⟨hlong, hlen⟩ := h.len_bounds
  rw [List.length_take] at hlen
  have hn : content.len ≤ n := by omega
  exact ⟨(hears_take (by omega) hn).1 h, hn⟩

theorem handleMessage_take {m : Arp.Message} (hn : 42 ≤ n) (hlong : 14 ≤ frame.length) :
    i.handleMessage link m (frame.take n) = (i.handleMessage link m frame).cut n := by
  obtain ⟨k, rfl⟩ := Nat.exists_eq_add_of_le (Nat.le_trans (by decide : 14 ≤ 42) hn)
  have hcut := Handled.cut_under (i.resolver.handle m (frame.drop 14)) frame
    (fun _ => (i.station.back link).bytes) k (fun _ => Ethernet.Header.length_bytes _) hlong
  unfold handleMessage
  rw [List.drop_take, Nat.add_sub_cancel_left, Arp.Resolver.handle_take (by omega)]
  exact congrArg (Handled.map fun r => { i with resolver := r }) hcut.symm

theorem handleEcho_take {ip : Ipv4.Header} {outcome : Outcome} {message : Bytes}
    (hn : 34 + ip.payloadLen ≤ n) (hlong : 34 ≤ frame.length)
    (hmessage : message.length = ip.payloadLen) :
    i.handleEcho link ip outcome message (frame.take n) =
      (i.handleEcho link ip outcome message frame).cut n := by
  obtain ⟨k, rfl⟩ : ∃ k, n = 14 + (20 + k) := ⟨n - 34, by omega⟩
  have hall : message.take k = message := List.take_of_length_le (by omega)
  have hbytes : message ++ (((frame.drop 14).drop 20).take k).drop ip.payloadLen =
      (message ++ ((frame.drop 14).drop 20).drop ip.payloadLen).take k := by
    rw [List.take_append, hall, hmessage, List.drop_take]
  have hroom : 20 ≤ (frame.drop 14).length := by
    rw [List.length_drop]
    omega
  have hinner := Handled.cut_under
    ⟨outcome, message ++ ((frame.drop 14).drop 20).drop ip.payloadLen, i⟩ (frame.drop 14)
    (fun len => (i.host.back ip len).bytes i.checksum) k (fun _ => Ipv4.Header.length_bytes _ _)
    hroom
  have houter (up : Handled Interface) := Handled.cut_under up frame
    (fun _ => (i.station.back link).bytes) (20 + k) (fun _ => Ethernet.Header.length_bytes _)
    (Nat.le_trans (by decide) hlong)
  have hdrop {b : Bytes} {j m : Nat} : (b.take (j + m)).drop j = (b.drop j).take m := by
    rw [List.drop_take, Nat.add_sub_cancel_left]
  unfold handleEcho
  rw [hdrop, hdrop, hbytes]
  refine Eq.trans ?_ (houter _).symm
  exact congrArg (Handled.under (frame.take (14 + (20 + k))) 14 _) hinner.symm

theorem Carries.take {d : Datagram} (hd : i.Carries frame d) (hn : 14 + d.total.toNat ≤ n) :
    i.Carries (frame.take n) d := by
  obtain ⟨link, ip, udp, hears, hsource, hdestination, htotal, hrest⟩ := carries_iff.1 hd
  have hlen : (Content.datagram ip udp).len ≤ n := by
    simp only [Content.len]
    omega
  have hlong := Nat.le_trans hears.len_bounds.1 hlen
  exact carries_iff.2 ⟨link, ip, udp, (hears_take hlong hlen).2 hears, hsource, hdestination,
    htotal, hrest⟩

theorem Carries.call_take {d : Datagram} (hd : i.Carries frame d)
    (hn : 14 + d.total.toNat ≤ n) :
    (i.call (frame.take n) d).seen = (i.call frame d).seen := by
  have hinside := hd.inside
  have hheader := hd.header
  have hrequest : ((frame.take n).drop 42).take (d.len.toNat - 8) =
      (frame.drop 42).take (d.len.toNat - 8) := by
    rw [List.drop_take, List.take_take, Nat.min_eq_left (by omega)]
  have hreply : (frame.take n).take (34 + d.len.toNat) = frame.take (34 + d.len.toNat) := by
    rw [List.take_take, Nat.min_eq_left (by omega)]
  unfold call
  split
  · simp only [Udp.Call.seen, hrequest]
  · rw [hreply]

/-- What is heard and is not for the application is handled by its first bytes. -/
theorem Hears.take_alone (h : frame.length < Length.limit) (hears : i.Hears frame link content)
    (hcontent : ∀ ip udp, content ≠ .datagram ip udp) (hn : content.len ≤ n) :
    ∃ alone : Handled Interface, ∀ {σ : Type} (app : Udp.Application σ) (s : σ),
      i.receive app frame s = .ok (alone.map fun j => (j, s)) ∧
        i.receive app (frame.take n) s = .ok ((alone.cut n).map fun j => (j, s)) := by
  obtain ⟨hlong, hlen⟩ := hears.len_bounds
  have h' : (frame.take n).length < Length.limit :=
    Nat.lt_of_le_of_lt (List.length_take_le' _ _) h
  have hears' := (hears_take (Nat.le_trans hlong hn) hn).2 hears
  cases content with
  | message m =>
    refine ⟨_, fun app s => ⟨receive_message h hears, ?_⟩⟩
    rw [receive_message h' hears', handleMessage_take hn (Nat.le_trans (by decide : 14 ≤ 42) hlen)]
  | echo ip e =>
    have htaken := (hears_echo_iff.1 hears).2.2.2.2
    have hinside := (hears_echo_iff.1 hears).2.2.1.heads.inside
    obtain ⟨⟨outcome, message⟩, hmessage, hfits, -⟩ := Icmp.Responder.receive_taken htaken
    have hpayload : message.length = ip.payloadLen := by
      have hkept := hfits.length
      simp only [List.length_take, List.length_drop, Ipv4.Packet.plainHeaderLen] at hkept hinside
      omega
    have hroom : 34 ≤ frame.length := Nat.le_trans (Nat.le_add_right 34 _) hlen
    have hmessage' := hmessage
    rw [← take_message hn] at hmessage'
    refine ⟨_, fun app s => ⟨receive_echo h hears hmessage, ?_⟩⟩
    rw [receive_echo h' hears' hmessage', handleEcho_take hn hroom hpayload]
  | datagram ip udp => exact absurd rfl (hcontent ip udp)

theorem receive_take (app : Udp.Application σ) (s : σ) (h : frame.length < Length.limit)
    (hn : ∀ link content, i.Hears frame link content → content.len ≤ n) :
    ∃ whole cut, i.receive app.noting frame (s, []) = .ok whole ∧
      i.receive app.noting (frame.take n) (s, []) = .ok cut ∧ cut.state.1 = whole.state.1 ∧
      cut.state.2.2.map Udp.Call.seen = whole.state.2.2.map Udp.Call.seen ∧
      (¬IsUdp frame ∨ whole.state.2.2 = [] → cut = whole.cut n) := by
  have h' : (frame.take n).length < Length.limit :=
    Nat.lt_of_le_of_lt (List.length_take_le' _ _) h
  by_cases hnothing : ∀ link content, ¬i.Hears frame link content
  · have hnothing' (link : Ethernet.Header) (content : Content) :
        ¬i.Hears (frame.take n) link content := fun hears => hnothing link content hears.of_take.1
    exact ⟨_, _, receive_unheard h hnothing, receive_unheard h' hnothing', rfl, rfl, fun _ => rfl⟩
  obtain ⟨link, content, hears⟩ : ∃ link content, i.Hears frame link content := by
    simpa using hnothing
  have hlen := hn link content hears
  by_cases hcontent : ∀ ip udp, content ≠ .datagram ip udp
  · obtain ⟨alone, halone⟩ := hears.take_alone h hcontent hlen
    obtain ⟨hwhole, hcut⟩ := halone app.noting (s, [])
    exact ⟨_, _, hwhole, hcut, rfl, rfl, fun _ => rfl⟩
  -- for a request the room is shorter in the cut frame, so only what is seen of the call agrees
  obtain ⟨ip, udp, rfl⟩ : ∃ ip udp, content = .datagram ip udp := by
    simpa using hcontent
  obtain ⟨d, hd, htotal⟩ := hears.carries
  have hshort : 14 + d.total.toNat ≤ n := by
    simp only [Content.len] at hlen
    omega
  obtain ⟨_, whole, -, hwhole, -, hstate⟩ := hd.noted app s h
  obtain ⟨_, cut, -, hcut, -, hstate'⟩ := (hd.take hshort).noted app s h'
  refine ⟨whole, cut, hwhole, hcut, by rw [hstate, hstate'], ?_, ?_⟩
  · rw [hstate, hstate']
    exact congrArg (fun c => [c]) (hd.call_take hshort)
  · rintro (hudp | hcalls)
    · exact absurd hears.isUdp hudp
    · rw [hstate] at hcalls
      cases hcalls

end Interface

end Reflector
