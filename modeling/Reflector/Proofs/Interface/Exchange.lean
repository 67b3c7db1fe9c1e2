import Reflector.Proofs.Interface.Datagrams
import Reflector.Proofs.Interface.Emission
/-!
A request and its answer between two devices: what one of them sends is what the application of the
other one is called with, and what that answers comes back to the application of the first.
-/
namespace Reflector

variable {σ τ : Type}

namespace Interface

variable {i j : Interface} {payload : Bytes} {sourcePort destinationPort : Udp.Port}

def datagram (i j : Interface) (sourcePort destinationPort : Udp.Port) (payload : Bytes) : Bytes :=
  i.datagramHeaders j.hardware j.subnet.address sourcePort destinationPort payload.length ++ payload

theorem length_datagram :
    (i.datagram j sourcePort destinationPort payload).length = 42 + payload.length := by
  rw [datagram, List.length_append, length_datagramHeaders]

/-- The payload is filled in behind the headers, what else the buffer holds is cut off. -/
theorem take_put_payload (b : Bytes) :
    ((i.datagramHeaders j.hardware j.subnet.address sourcePort destinationPort payload.length ++
      b).put 42 payload).take (42 + payload.length) =
        i.datagram j sourcePort destinationPort payload := by
  rw [Bytes.put, List.take_left' (length_datagramHeaders ..)]
  exact List.take_left' length_datagram

theorem drop_datagram : ((i.datagram j sourcePort destinationPort payload).drop 14).drop 20 =
    Udp.Header.bytes ⟨sourcePort, destinationPort, payload.length⟩ ++ payload := rfl

section Sent

variable (hunicast : i.subnet.address.isUnicast = true) (hmode : i.checksum = j.checksum)
  (hport : sourcePort = j.port ∨ destinationPort = j.port) (hshort : payload.length ≤ 65507)

include hport hshort in
theorem service_takes : j.service.Takes (i.networkHeader j.subnet.address payload.length)
    ⟨sourcePort, destinationPort, payload.length⟩
    (((i.datagram j sourcePort destinationPort payload).drop 14).drop 20) := by
  have htotal : Udp.Packet.headerLen + payload.length < 0x10000 := by
    rw [Udp.Packet.headerLen]
    omega
  exact ⟨Udp.Header.bytes_heads _ htotal (Nat.le_refl _), Udp.Header.bytes_passes _ htotal
    (Nat.le_refl _), Nat.le_refl _, hport⟩

theorem station_takes : j.station.Takes ⟨i.hardware, j.hardware, .ipv4⟩
    (i.datagram j sourcePort destinationPort payload) where
  long := length_datagram ▸ Nat.le_add_right _ _
  heads := i.datagramHeaders_link _ _ _ _ _ _
  accepted := by simp [Ethernet.Station.accepts, station]
  known _ := Ethernet.EtherType.noConfusion

include hunicast hmode hshort in
theorem host_takes : j.host.Takes (i.networkHeader j.subnet.address payload.length)
    ((i.datagram j sourcePort destinationPort payload).drop 14) where
  heads := i.packetHeaders_heads _ _ _ hshort (Nat.le_refl _)
  passes := by
    rw [datagram, drop_datagramHeaders, packetHeaders, List.append_assoc, hmode]
    exact Ipv4.Header.bytes_passes _
  accepted := by simp [networkHeader, Ipv4.Subnet.accepts, host]
  unicast := hunicast
  known := .inr rfl

include hunicast hmode hport hshort in
theorem hears_datagram : j.Hears (i.datagram j sourcePort destinationPort payload)
    ⟨i.hardware, j.hardware, .ipv4⟩ (.datagram (i.networkHeader j.subnet.address payload.length)
      ⟨sourcePort, destinationPort, payload.length⟩) :=
  .datagram station_takes rfl (host_takes hunicast hmode hshort) rfl (service_takes hport hshort)

end Sent

theorem call_datagram (i j : Interface) (sourcePort destinationPort : Udp.Port) (payload : Bytes) :
    j.service.call (i.networkHeader j.subnet.address payload.length)
      ⟨sourcePort, destinationPort, payload.length⟩
      (((i.datagram j sourcePort destinationPort payload).drop 14).drop 20) =
    if sourcePort = j.port then .request payload i.subnet.address destinationPort payload.length
    else .reply payload i.subnet.address sourcePort payload.length := by
  have hlen : (Udp.Header.bytes ⟨sourcePort, destinationPort, payload.length⟩ ++ payload).length =
      Udp.Packet.headerLen + payload.length := by
    rw [List.length_append, Udp.Header.length_bytes]
  have hall : (Udp.Header.bytes ⟨sourcePort, destinationPort, payload.length⟩ ++ payload).take
      (Udp.Packet.headerLen + payload.length) =
        Udp.Header.bytes ⟨sourcePort, destinationPort, payload.length⟩ ++ payload :=
    List.take_of_length_le (Nat.le_of_eq hlen)
  rw [drop_datagram, Udp.Service.call, hall]
  rfl

theorem datagram_short (hshort : payload.length ≤ 65507) :
    (i.datagram j sourcePort destinationPort payload).length < Length.limit := by
  rw [length_datagram]
  exact Nat.lt_of_le_of_lt (Nat.add_le_add_left hshort 42) (by decide)

/-- What is answered to a request goes back to its sender, under headers like those of a request. -/
theorem receive_request (hunicast : i.subnet.address.isUnicast = true)
    (hmode : i.checksum = j.checksum) (hport : i.port = j.port) (hshort : payload.length ≤ 65507)
    {app : Udp.Application σ} {s : σ} {answer : Udp.Answer σ} {len : Nat}
    (hserve : app.request payload i.subnet.address destinationPort payload.length s = answer)
    (hanswer : answer.len = some len) (hfits : len ≤ payload.length) :
    j.receive app (i.datagram j i.port destinationPort payload) s = .ok ⟨.reflect (42 + len),
      j.datagramHeaders i.hardware i.subnet.address destinationPort i.port len ++
        payload.overlay 0 answer.written, (j, answer.state)⟩ := by
  subst hserve
  have hframe : (i.datagram j i.port destinationPort payload).length < Length.limit :=
    datagram_short hshort
  have hsegment : (((i.datagram j i.port destinationPort payload).drop 14).drop 20).length <
      Length.limit := by
    simp only [List.length_drop]
    omega
  have hrequest : j.service.receive app _ _ s = _ :=
    Udp.Service.receive_request (service_takes (.inl hport) hshort) hsegment hport
  have hup := hrequest.trans (congrArg Except.ok (Udp.Service.handle_answered hanswer hfits))
  have hsum : 14 + (20 + (8 + len)) = 42 + len := by omega
  rw [← hsum]
  exact receive_transport hframe station_takes rfl (host_takes hunicast hmode hshort) hup

theorem receive_reply (hunicast : i.subnet.address.isUnicast = true)
    (hmode : i.checksum = j.checksum) (hport : destinationPort = j.port)
    (hother : sourcePort ≠ j.port) (hshort : payload.length ≤ 65507) (app : Udp.Application σ)
    (s : σ) : ∃ t, j.receive app (i.datagram j sourcePort destinationPort payload) s =
      .ok (.dropped (i.datagram j sourcePort destinationPort payload) (j, t)) := by
  obtain ⟨t, ht⟩ := app.reply_ok payload i.subnet.address sourcePort payload.length s
    (Nat.le_refl _)
  have hrun : (j.service.call (i.networkHeader j.subnet.address payload.length)
      ⟨sourcePort, destinationPort, payload.length⟩
      (((i.datagram j sourcePort destinationPort payload).drop 14).drop 20)).run app s = .ok t := by
    rw [call_datagram, if_neg hother]
    exact ht
  have hup := Udp.Service.receive_reply (service_takes (.inr hport) hshort) hother hrun
  have hreceive := receive_transport (datagram_short hshort) station_takes rfl
    (host_takes hunicast hmode hshort) hup
  rw [Handled.under_dropped, Handled.under_dropped] at hreceive
  exact ⟨t, hreceive⟩

/-- A request to a port of another device, whose application is called with it once. What that
answers, if no longer than the request, is sent back, and the application here is called with it
once. -/
theorem emitUnicastUdp_received_and_answered (i j : Interface) (hport : i.port = j.port)
    (hi : i.subnet.address.isUnicast = true) (hj : j.subnet.address.isUnicast = true)
    (hmode : i.checksum = j.checksum) {hop : Ipv4.Address}
    (hhop : i.nextHop j.subnet.address = some hop)
    (hknown : i.neighbors.lookup hop = some j.hardware) {port : Udp.Port} (hother : port ≠ i.port)
    (payload : Bytes) (hshort : payload.length ≤ 65507) (frame : Bytes)
    (hroom : udpHeadersLen + payload.length ≤ frame.length)
    (app : Udp.Application σ) (s : σ) (app' : Udp.Application τ) (t : τ) :
    ∃ written handled noted,
      (i.emitUnicastUdp j.subnet.address port payload.length).run.on frame =
        (.ok (.ok (.sent 42)), written) ∧
      j.receive app ((written.put 42 payload).take (42 + payload.length)) s = .ok handled ∧
      j.receive app.noting ((written.put 42 payload).take (42 + payload.length)) (s, []) =
        .ok noted ∧
      noted.state = (j, handled.state.2,
        [.request payload i.subnet.address port payload.length]) ∧
      ∀ answer len, app.request payload i.subnet.address port payload.length s = answer →
        answer.len = some len → len ≤ payload.length →
        handled.outcome = .reflect (42 + len) ∧ ∃ handled' noted',
          i.receive app' (handled.bytes.take (42 + len)) t = .ok handled' ∧
          i.receive app'.noting (handled.bytes.take (42 + len)) (t, []) = .ok noted' ∧
          noted'.state = (i, handled'.state.2,
            [.reply ((payload.overlay 0 answer.written).take len) j.subnet.address port len]) ∧
          handled'.outcome = .drop := by
  have hwritten := emitUnicastUdp_sent hhop hknown port hshort hroom
  have hears : j.Hears (i.datagram j i.port port payload) _ _ :=
    hears_datagram hi hmode (.inl hport) hshort
  obtain ⟨handled, noted, hreceive, hnoted, hkept, hstate⟩ :=
    hears.noted app s (datagram_short hshort)
  rw [call_datagram, if_pos hport] at hstate
  refine ⟨_, handled, noted, hwritten, ?_, ?_, hstate, ?_⟩
  · rw [take_put_payload]
    exact hreceive
  · rw [take_put_payload]
    exact hnoted
  intro answer len hserve hanswer hfits
  cases hreceive.symm.trans (receive_request hi hmode hport hshort hserve hanswer hfits)
  -- the answer is a datagram of its own
  have hlen : ((payload.overlay 0 answer.written).take len).length = len := by
    rw [List.length_take, Bytes.length_overlay _ (Nat.zero_le _)]
    exact Nat.min_eq_left hfits
  have hback : (j.datagramHeaders i.hardware i.subnet.address port i.port len ++
      payload.overlay 0 answer.written).take (42 + len) =
        j.datagram i port i.port ((payload.overlay 0 answer.written).take len) := by
    rw [datagram, hlen]
    show List.take
      ((j.datagramHeaders i.hardware i.subnet.address port i.port len).length + len) _ = _
    exact List.take_length_add_append len
  have hshort' : ((payload.overlay 0 answer.written).take len).length ≤ 65507 := by
    rw [hlen]
    exact Nat.le_trans hfits hshort
  have hears' : i.Hears (j.datagram i port i.port _) _ _ :=
    hears_datagram hj hmode.symm (.inr rfl) hshort'
  obtain ⟨handled', noted', hreceive', hnoted', -, hstate'⟩ :=
    hears'.noted app' t (datagram_short hshort')
  obtain ⟨t', hdropped⟩ := receive_reply hj hmode.symm rfl hother hshort' app' t
  rw [call_datagram, if_neg hother, hlen] at hstate'
  refine ⟨rfl, handled', noted', ?_, ?_, hstate', ?_⟩
  · rw [hback]
    exact hreceive'
  · rw [hback]
    exact hnoted'
  · rw [Except.ok.inj (hreceive'.symm.trans hdropped)]
    rfl

/-- The standard device, which knows its router, and the router, which answers two bytes. -/
theorem emitUnicastUdp_received_and_answered_gateway :
    let i := new .standard [some ⟨3, gateway.hardware⟩]
    let app : Udp.Application Unit := .ofRequest fun _ _ _ _ s => ⟨[9, 8], some 2, s⟩
    i.nextHop gateway.subnet.address = some gateway.subnet.address ∧
    i.neighbors.lookup gateway.subnet.address = some gateway.hardware ∧
    ∃ written handled noted handled' noted',
      (i.emitUnicastUdp gateway.subnet.address 69 3).run.on (List.replicate 60 0) =
        (.ok (.ok (.sent 42)), written) ∧
      gateway.receive app ((written.put 42 [1, 2, 3]).take 45) () = .ok handled ∧
      gateway.receive app.noting ((written.put 42 [1, 2, 3]).take 45) ((), []) = .ok noted ∧
      noted.state.2.2 = [.request [1, 2, 3] i.subnet.address 69 3] ∧
      handled.outcome = .reflect 44 ∧
      i.receive .none (handled.bytes.take 44) () = .ok handled' ∧
      i.receive (Udp.Application.noting .none) (handled.bytes.take 44) ((), []) = .ok noted' ∧
      noted'.state.2.2 = [.reply [9, 8] gateway.subnet.address 69 2] ∧
      handled'.outcome = .drop := by
  intro i app
  have hhop : i.nextHop gateway.subnet.address = some gateway.subnet.address := by decide
  have hknown : i.neighbors.lookup gateway.subnet.address = some gateway.hardware := by decide
  obtain ⟨written, handled, noted, hwritten, hreceive, hnoted, hstate, hanswers⟩ :=
    emitUnicastUdp_received_and_answered i gateway rfl (by decide) (by decide) rfl hhop hknown
      (by decide : (69 : UInt16) ≠ _) [1, 2, 3] (by decide) (List.replicate 60 0) (by decide) app ()
      .none ()
  obtain ⟨houtcome, handled', noted', hreceive', hnoted', hstate', hdrop⟩ :=
    hanswers _ 2 rfl rfl (by decide)
  exact ⟨hhop, hknown, written, handled, noted, handled', noted', hwritten, hreceive, hnoted,
    congrArg (·.2.2) hstate, houtcome, hreceive', hnoted', congrArg (·.2.2) hstate', hdrop⟩

end Interface

end Reflector
