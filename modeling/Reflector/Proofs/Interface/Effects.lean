import Reflector.Proofs.Interface.Datagrams
/-!
What receiving a frame may change. A frame that is dropped is left alone, and so is all behind an
answer, but for what the application writes into the room behind the headers. Of the device only the
neighbors change, and they only by a reply from one of them.
-/
namespace Reflector

variable {σ τ : Type} {n : Nat}

/-- But for an answer, a layer left these bytes. -/
structure Handled.Spares (h : Handled σ) (left : Bytes) : Prop where
  dropped : h.outcome = .drop → h.bytes = left
  behind : ∀ n, h.outcome = .reflect n → h.bytes.drop n = left.drop n

namespace Handled.Spares

variable {h up : Handled σ} {left answer packet : Bytes} {k : Nat} {header : Nat → Bytes} {s : σ}

theorem of_dropped : (Handled.dropped left s).Spares left := ⟨fun _ => rfl, nofun⟩

theorem of_answered (hanswer : answer.length = n) :
    (⟨.reflect n, answer ++ left.drop n, s⟩ : Handled σ).Spares left := by
  refine ⟨nofun, fun m hm => ?_⟩
  obtain rfl := Outcome.reflect.inj hm
  exact List.drop_left' hanswer

theorem map (f : σ → τ) (hs : h.Spares left) : (h.map f).Spares left := ⟨hs.dropped, hs.behind⟩

/-- A header is written for an answer only, and the answer stands behind it. -/
theorem under (hs : up.Spares left) (hheader : ∀ len, (header len).length = k)
    (hk : k ≤ packet.length) :
    (up.under packet k header).Spares (packet.take k ++ left) := by
  have hbehind {front rest : Bytes} (hfront : front.length = k) (len : Nat) :
      (front ++ rest).drop (k + len) = rest.drop len := by
    rw [← hfront, List.drop_length_add_append]
  obtain ⟨outcome, bytes, s⟩ := up
  cases outcome with
  | drop => exact ⟨fun _ => congrArg (packet.take k ++ ·) (hs.dropped rfl), nofun⟩
  | reflect len =>
    refine ⟨nofun, fun n hn => ?_⟩
    obtain rfl := Outcome.reflect.inj hn
    rw [hbehind (List.length_take_of_le hk), ← hs.behind len rfl]
    exact hbehind (hheader len) len

end Handled.Spares

theorem Bytes.take_append_overlay (b data : Bytes) (k i : Nat) :
    b.take k ++ Bytes.overlay (b.drop k) i data = b.overlay (k + i) data := by
  calc b.take k ++ overlay (b.drop k) i data
    _ = b.take k ++ ((b.drop k).take i ++ overlay ((b.drop k).drop i) 0 data) := by
      rw [overlay_eq (b.drop k)]
    _ = b.take (k + i) ++ overlay (b.drop (k + i)) 0 data := by
      rw [← List.append_assoc, ← List.take_add, List.drop_drop]
    _ = b.overlay (k + i) data := (overlay_eq b data (k + i)).symm

theorem Arp.Resolver.handle_spares {r : Resolver} {m : Message} {packet : Bytes} :
    (r.handle m packet).Spares packet := by
  unfold handle
  split
  · exact .of_dropped
  split
  · exact .of_answered rfl
  · exact .of_dropped
  · exact .of_dropped

/-- Behind the message nothing changes. -/
theorem Icmp.Responder.receive_spares {r : Responder} {e : Echo} {packet : Bytes} {len : Nat}
    (ht : r.Takes e (packet.take len)) : Succeeds (r.receive (packet.take len)) fun p =>
      ∀ {σ : Type} (s : σ), (⟨p.1, p.2 ++ packet.drop len, s⟩ : Handled σ).Spares packet := by
  by_cases hasked : e.kind = .request ∧ r.denyEcho = false
  · obtain ⟨sum, -, hreceive⟩ := receive_ping ht hasked.1 hasked.2
    have hroom : 4 ≤ (packet.take len).length :=
      ht.heads.length ▸ Nat.le_trans (by decide) (Nat.le_add_right Packet.headerLen _)
    have hbehind : packet.drop (packet.take len).length = packet.drop len := by
      rw [List.length_take, ← List.drop_eq_drop_min]
    refine ⟨_, hreceive, fun s => ?_⟩
    rw [← hbehind]
    exact .of_answered (length_replied hroom)
  · refine ⟨_, receive_ignored ht hasked, fun s => ?_⟩
    rw [List.take_append_drop]
    exact .of_dropped

/-- What the application wrote stays in the room, whether it answers or not. -/
theorem Udp.Service.handle_spares {app : Application σ} {ip : Ipv4.Header} {header : Header}
    {packet : Bytes} {s : σ} (hroom : Packet.headerLen ≤ packet.length) :
    (handle app ip header packet s).Spares (packet.overlay Packet.headerLen
      (app.serve ip header (packet.drop Packet.headerLen) s).written) := by
  unfold handle
  dsimp only
  split
  · exact .of_dropped
  split
  · exact .of_dropped
  next len _ _ =>
    have hleft : (⟨.reflect len, app.left ip header (packet.drop Packet.headerLen) s, s⟩ :
        Handled σ).Spares (app.left ip header (packet.drop Packet.headerLen) s) :=
      ⟨nofun, fun _ _ => rfl⟩
    have hunder := hleft.under (fun len => (header.back len).length_bytes) hroom
    rw [Bytes.overlay_eq]
    exact ⟨nofun, hunder.behind⟩

namespace Interface

variable {i : Interface} {app : Udp.Application σ} {s : σ} {frame : Bytes} {m : Arp.Message}

/-- What is left of a frame, but for an answer: the frame itself, or what the application made of
it that was called for a request. It can write behind the headers only. -/
inductive Leaves (i : Interface) (app : Udp.Application σ) (s : σ) (frame : Bytes) : Bytes → Prop
  | request {d : Datagram} (carries : i.Carries frame d) (request : d.sourcePort = i.port) :
      i.Leaves app s frame (frame.overlay 42 (app.request (frame.drop 42) d.source
        d.destinationPort (d.len.toNat - 8) s).written)
  | untouched (unasked : ∀ d, i.Carries frame d → d.sourcePort ≠ i.port) :
      i.Leaves app s frame frame

/-- A reply to us, with the hardware address of a neighbor on the link. -/
structure Announces (i : Interface) (frame : Bytes) (m : Arp.Message) : Prop
    extends Tells i frame m where
  reply : m.operation = .reply
  own : m.targetProtocol = i.subnet.address
  neighbor : i.subnet.contains m.senderProtocol = true

theorem Announces.learns (hm : i.Announces frame m) (app : Udp.Application σ) (s : σ)
    (h : frame.length < Length.limit) : Succeeds (i.receive app frame s) fun handled =>
      handled.state.1 =
        { i with resolver := i.resolver.learn m.senderProtocol m.senderHardware } := by
  obtain ⟨link, hears⟩ := tells_iff.1 hm.toTells
  refine ⟨_, receive_message h hears, ?_⟩
  simp only [Handled.map, handleMessage, Handled.under_state, Arp.Resolver.handle_state]
  rw [if_pos ⟨hm.reply, hm.own, hm.neighbor⟩]

theorem receive_keeps (app : Udp.Application σ) (s : σ) (h : frame.length < Length.limit)
    (hnone : ∀ m, ¬i.Announces frame m) :
    Succeeds (i.receive app frame s) fun handled => handled.state.1 = i := by
  by_cases hnothing : ∀ link content, ¬i.Hears frame link content
  · exact ⟨_, receive_unheard h hnothing, rfl⟩
  obtain ⟨link, content, hears⟩ : ∃ link content, i.Hears frame link content := by
    simpa using hnothing
  cases content with
  | message m =>
    refine ⟨_, receive_message h hears, ?_⟩
    simp only [Handled.map, handleMessage, Handled.under_state, Arp.Resolver.handle_state]
    rw [if_neg fun hm => hnone m ⟨tells_iff.2 ⟨link, hears⟩, hm.1, hm.2.1, hm.2.2⟩]
  | echo ip e =>
    obtain ⟨⟨outcome, message⟩, hmessage, -⟩ :=
      Icmp.Responder.receive_taken (hears_echo_iff.1 hears).2.2.2.2
    refine ⟨_, receive_echo h hears hmessage, ?_⟩
    simp only [Handled.map, handleEcho, Handled.under_state]
  | datagram ip udp => exact (receive_datagram app s h hears).weaken fun _ hd => hd.1

theorem spares_under_headers (i : Interface) {up : Handled σ} {left : Bytes}
    (hs : up.Spares left) (hlong : 42 ≤ frame.length) (link : Ethernet.Header) (ip : Ipv4.Header) :
    ((up.under (frame.drop 14) 20 fun len => (i.host.back ip len).bytes i.checksum).under frame 14
      fun _ => (i.station.back link).bytes).Spares (frame.take (14 + 20) ++ left) := by
  have hpacket : 20 ≤ (frame.drop 14).length := by
    rw [List.length_drop]
    omega
  have hinner := hs.under (fun len => (i.host.back ip len).length_bytes i.checksum) hpacket
  have houter := hinner.under (fun _ => (i.station.back link).length_bytes)
    (Nat.le_trans (by decide : 14 ≤ 42) hlong)
  have htake : frame.take (14 + 20) = frame.take 14 ++ (frame.drop 14).take 20 := List.take_add
  rw [htake, List.append_assoc]
  exact houter

/-- A frame that the application is not called for is left alone. -/
theorem receive_spares (app : Udp.Application σ) (s : σ) (h : frame.length < Length.limit)
    (hnone : ∀ d, ¬i.Carries frame d) :
    Succeeds (i.receive app frame s) fun handled => handled.Spares frame := by
  by_cases hnothing : ∀ link content, ¬i.Hears frame link content
  · exact ⟨_, receive_unheard h hnothing, .of_dropped⟩
  obtain ⟨link, content, hears⟩ : ∃ link content, i.Hears frame link content := by
    simpa using hnothing
  cases content with
  | message m =>
    have hlong : 42 ≤ frame.length := (hears_message_iff.1 hears).1.long
    have hspares : (i.resolver.handle m (frame.drop 14)).Spares (frame.drop 14) :=
      Arp.Resolver.handle_spares
    have hunder := hspares.under (fun _ => (i.station.back link).length_bytes)
      (Nat.le_trans (by decide : 14 ≤ 42) hlong)
    have hwhole : frame.take 14 ++ frame.drop 14 = frame := List.take_append_drop 14 frame
    rw [Ethernet.Frame.headerLen, hwhole] at hunder
    exact ⟨_, receive_message h hears, (hunder.map _).map _⟩
  | echo ip e =>
    obtain ⟨takes, -, -, -, echo⟩ := hears_echo_iff.1 hears
    obtain ⟨⟨outcome, message⟩, hmessage, hspares⟩ := Icmp.Responder.receive_spares echo
    have hunder := i.spares_under_headers (hspares i) takes.long link ip
    have hwhole : frame.take 34 ++ (frame.drop 14).drop 20 = frame := by
      rw [drop_headers, List.take_append_drop]
    rw [hwhole] at hunder
    exact ⟨_, receive_echo h hears hmessage, hunder.map _⟩
  | datagram ip udp =>
    obtain ⟨d, hd, -⟩ := hears.carries
    exact absurd hd (hnone d)

/-- Where the application is called, it is the only one to change the frame beyond an answer. -/
theorem Carries.spares {d : Datagram} (hd : i.Carries frame d) (app : Udp.Application σ) (s : σ)
    (h : frame.length < Length.limit) : Succeeds (i.receive app frame s) fun handled =>
      ∃ left, i.Leaves app s frame left ∧ handled.Spares left := by
  obtain ⟨link, ip, udp, hears, hsource, -, -, hport, hport', hlen⟩ := carries_iff.1 hd
  obtain ⟨takes, type, host, protocol, service⟩ := hears_datagram_iff.1 hears
  have hsegment : ((frame.drop 14).drop 20).length < Length.limit := by
    rw [List.length_drop, List.length_drop]
    omega
  by_cases hrequest : udp.source = i.port
  · have hup : i.receiveTransport app ip ((frame.drop 14).drop 20) s =
        .ok (Udp.Service.handle app ip udp ((frame.drop 14).drop 20) s) := by
      rw [receiveTransport, protocol]
      exact Udp.Service.receive_request service hsegment hrequest
    have hserve : app.serve ip udp (((frame.drop 14).drop 20).drop 8) s = app.request
        (frame.drop 42) d.source d.destinationPort (d.len.toNat - 8) s := by
      have hpayload : udp.payloadLen = d.len.toNat - 8 := by omega
      rw [drop_headers, List.drop_drop, Udp.Application.serve, hsource, hport', hpayload]
    have hspares : (Udp.Service.handle app ip udp ((frame.drop 14).drop 20) s).Spares _ :=
      Udp.Service.handle_spares service.heads.holds.headerLen_le
    have hunder := i.spares_under_headers hspares takes.long link ip
    have hwhole (data : Bytes) : frame.take (14 + 20) ++
        Bytes.overlay ((frame.drop 14).drop 20) 8 data = frame.overlay 42 data := by
      rw [drop_headers]
      exact frame.take_append_overlay data 34 8
    rw [Udp.Packet.headerLen, hserve, hwhole] at hunder
    exact ⟨_, receive_transport h takes type host hup, _, .request hd (hport ▸ hrequest),
      hunder.map _⟩
  · obtain ⟨_, -, -, hrun⟩ := hd.receive_call app s h
    refine ⟨_, hd.receive_reply (hport ▸ hrequest) h hrun, _, .untouched fun d' hd' => ?_,
      .of_dropped⟩
    rw [Except.ok.inj (hd'.source.symm.trans hd.source), ← hport]
    exact hrequest

/-- Of a frame only the answer and what the application writes is changed, and of the device only
what it knows about a neighbor that announced itself. -/
theorem receive_changes (i : Interface) (app : Udp.Application σ) (s : σ)
    (h : frame.length < Length.limit) :
    ∃ handled left, i.receive app frame s = .ok handled ∧ i.Leaves app s frame left ∧
      handled.bytes.length = frame.length ∧
      (handled.outcome = .drop → handled.bytes = left) ∧
      (∀ n, handled.outcome = .reflect n → handled.bytes.drop n = left.drop n) ∧
      (∀ m, i.Announces frame m → handled.state.1 =
        { i with resolver := i.resolver.learn m.senderProtocol m.senderHardware }) ∧
      ((∀ m, ¬i.Announces frame m) → handled.state.1 = i) := by
  obtain ⟨handled, hreceive, hfits⟩ := i.receive_total app s h
  obtain ⟨left, hleaves, hspares⟩ : ∃ left, i.Leaves app s frame left ∧ handled.Spares left := by
    by_cases hnone : ∀ d, ¬i.Carries frame d
    · exact ⟨frame, .untouched fun d hd => absurd hd (hnone d),
        (receive_spares app s h hnone).holds hreceive⟩
    · obtain ⟨d, hd⟩ := Classical.not_forall_not.1 hnone
      exact (hd.spares app s h).holds hreceive
  exact ⟨handled, left, hreceive, hleaves, hfits.length, hspares.dropped, hspares.behind,
    fun m hm => (hm.learns app s h).holds hreceive,
    fun hnone => (receive_keeps app s h hnone).holds hreceive⟩

/-- A host on the link tells the standard device its hardware address. -/
def introduction : Bytes :=
  Ethernet.Header.bytes ⟨⟨2, 0, 0, 0, 0, 9⟩, Config.standard.hardware, .arp⟩ ++
    Arp.Message.bytes ⟨.reply, ⟨2, 0, 0, 0, 0, 9⟩, .ofOctets 192 168 200 9,
      Config.standard.hardware, Config.standard.subnet.address⟩

theorem receive_changes_introduction : introduction.length < Length.limit ∧
    ∃ handled, (new .standard [none]).receive .none introduction () = .ok handled ∧
      handled.outcome = .drop ∧ handled.bytes = introduction ∧
      handled.state.1 = new .standard [some ⟨9, ⟨2, 0, 0, 0, 0, 9⟩⟩] := by
  have hannounces : (new .standard [none]).Announces introduction
      ⟨.reply, ⟨2, 0, 0, 0, 0, 9⟩, .ofOctets 192 168 200 9, Config.standard.hardware,
        Config.standard.subnet.address⟩ :=
    ⟨⟨⟨by decide, .inl rfl, rfl⟩, rfl, rfl, rfl, rfl, rfl, .inr rfl, rfl, rfl, rfl, rfl⟩, rfl, rfl,
      by decide⟩
  obtain ⟨handled, left, hreceive, hleaves, -, hdropped, -, hlearned, -⟩ :=
    receive_changes (new .standard [none]) .none () (by decide : introduction.length < Length.limit)
  have houtcome : handled.outcome = .drop := by
    cases Except.ok.inj (hreceive.symm.trans rfl)
    rfl
  have hleft : left = introduction := by
    cases hleaves with
    | request carries => exact nomatch carries.datagram.etherType
    | untouched => rfl
  exact ⟨by decide, handled, hreceive, houtcome, (hdropped houtcome).trans hleft,
    hlearned _ hannounces⟩

end Interface

end Reflector
