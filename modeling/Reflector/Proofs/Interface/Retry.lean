import Reflector.Proofs.Interface.Lengths
import Reflector.Proofs.Interface.Resolution
/-!
A datagram that was put off is sent when it is tried again after the reply of its next hop. That has
to be on the link, where replies are remembered, and the datagram has to fit into IPv4.
-/
namespace Reflector

open Emit (Writes Refuses)

variable {σ α β : Type} {b b' : Bytes} {n len : Nat} {e : SendError}

namespace Emit

def Fails (m : Emit α) (b : Bytes) (e : SendError) : Prop :=
  ∃ b', m.run.on b = (.ok (.error e), b')

variable {m : Emit α} {f : α → Emit β} {a : α}

theorem Fails.read {x : Except Fault α} (hx : x = .ok a) (hf : Fails (f a) b e) :
    Fails (liftM x >>= f) b e := by
  subst hx
  exact hf

theorem Fails.get {f : Bytes → Emit β} (hf : Fails (f b) b e) :
    Fails (MonadState.get >>= f) b e := hf

theorem Fails.behind_guard {p : Prop} [Decidable p] {e' : SendError} {k : PUnit → Emit β}
    (hp : ¬p) (h : Fails (k ⟨⟩) b e) :
    Fails (if p then (do let r ← throw e'; k r) else k ⟨⟩) b e := by
  rwa [if_neg hp]

theorem Fails.bind (hm : Fails m b e) : Fails (m >>= f) b e := by
  obtain ⟨b', hm⟩ := hm
  exact ⟨b', Op.on_bind_ok hm⟩

theorem Writes.fails (hm : Writes m b a b') (hf : Fails (f a) b' e) : Fails (m >>= f) b e := by
  obtain ⟨b'', hf⟩ := hf
  exact ⟨b'', (Op.on_bind_ok hm).trans hf⟩

theorem Fails.into {room : Room} (hm : Fails m ((b.drop room.start).take room.len) e) :
    Fails (Emit.into room m) b e := by
  obtain ⟨part, hm⟩ := hm
  refine ⟨b.take room.start ++ part ++ b.drop (room.start + room.len), ?_⟩
  show (Edit.within room.start room.len m.run).on b = _
  rw [Edit.within, Op.on_focus, hm]

end Emit

open Emit (Fails)

namespace Interface

variable {i : Interface} {destination hop : Ipv4.Address} {hardware : Ethernet.Address}
  {port : Udp.Port} {frame frame' reply : Bytes} {m : Arp.Message}

/-- A datagram beyond the lengths of IPv4 is refused, once its next hop is known. -/
theorem emitUnicastUdp_long (hhop : i.nextHop destination = some hop)
    (hknown : i.neighbors.lookup hop = some hardware) (port : Udp.Port) (hlong : 65507 < n)
    (hlen : udpHeadersLen + n < Length.limit) (h : udpHeadersLen + n ≤ b.length) :
    Fails (i.emitUnicastUdp destination port n) b .badSize := by
  have hheaders : udpHeadersLen = 42 := rfl
  have hroom : Ethernet.Frame.headerLen ≤ b.length := by
    rw [Ethernet.Frame.headerLen]
    omega
  have hpacket (part : Bytes) :
      Fails (i.host.emit destination .udp (Udp.Packet.headerLen + n)) part .badSize := by
    refine ⟨part, i.host.emit_long destination .udp part ?_ ?_⟩
    · simp only [Ipv4.Packet.plainHeaderLen, Udp.Packet.headerLen]
      omega
    · simp only [Ipv4.Packet.plainHeaderLen, Udp.Packet.headerLen]
      omega
  apply Fails.read (Length.add_of_lt hlen)
  apply Fails.get
  apply Fails.behind_guard (Nat.not_lt.2 h)
  rw [hhop]
  dsimp only
  rw [hknown]
  exact ((i.station.emit_writes hardware .ipv4 hroom).fails (hpacket _).bind.into).bind

theorem Tells.sender_eq {m' : Arp.Message} (h : i.Tells reply m) (h' : i.Tells reply m') :
    m'.senderProtocol = m.senderProtocol := by
  have hbytes := Except.ok.inj (h'.senderProtocol.symm.trans h.senderProtocol)
  have hread := Ipv4.Address.ofBytes_toBytes m'.senderProtocol
  rw [hbytes, Ipv4.Address.ofBytes_toBytes] at hread
  exact (Except.ok.inj hread).symm

/-- A datagram is put off for a request that asks for its next hop. After the reply to that it is
sent when it is tried again, if the next hop is on the link; else the reply is ignored. -/
theorem deferred_retries (i : Interface) (h : i.Reachable) (hslots : 0 < i.neighbors.capacity)
    (destination : Ipv4.Address) (port : Udp.Port) (hshort : n ≤ 65507)
    (hdeferred : (i.emitUnicastUdp destination port n).run.on frame =
      (.ok (.ok (.deferred len)), frame')) :
    ∃ hop, i.Forwards destination hop ∧ i.IsEnquiry hop (frame'.take len) ∧
      ∀ (reply : Bytes) (m : Arp.Message), reply.length < Length.limit → i.Tells reply m →
        m.operation = .reply → m.senderProtocol = hop → m.targetProtocol = i.subnet.address →
        ∀ {σ : Type} (app : Udp.Application σ) (s : σ),
          ∃ handled, i.receive app reply s = .ok handled ∧
            ∀ b : Bytes, b.length = frame.length → ∃ result b',
              (handled.state.1.emitUnicastUdp destination port n).run.on b =
                (.ok (.ok result), b') ∧
              (i.subnet.contains hop = true → result = .sent 42) ∧
              (i.subnet.contains hop = false → handled.state.1 = i ∧ result = .deferred 42) := by
  obtain ⟨result, b', hon, hroutes⟩ : ∃ result b',
      (i.emitUnicastUdp destination port n).run.on frame = (.ok result, b') ∧
        i.Routes destination port n frame result b' := emitUnicastUdp_routes hshort frame
  cases hon.symm.trans hdeferred
  cases hroutes with
  | @deferred hop _ hroom hforwards hunknown henquiry =>
    have hhop := nextHop_eq_some_iff.2 hforwards
    refine ⟨hop, hforwards, henquiry, ?_⟩
    rintro reply m hlen htells hreply rfl hown σ app s
    cases hlink : i.subnet.contains m.senderProtocol with
    | true =>
      -- the reply is remembered, so that the lookup of the next hop succeeds
      have hannounces : i.Announces reply m := ⟨htells, hreply, hown, hlink⟩
      obtain ⟨c, hfill⟩ := h.inside.fill_ok hslots hlink m.senderHardware
      obtain ⟨handled, hreceive, hstate⟩ := hannounces.learns app s hlen
      refine ⟨handled, hreceive, fun b hb => ?_⟩
      rw [hstate, learn_of_fill hfill]
      have hsent := setNeighbors_sent hhop hfill port hshort (hb ▸ hroom)
      exact ⟨_, _, hsent, fun _ => rfl, nofun⟩
    | false =>
      -- nothing is learned from a reply for an address off the link
      have hnone (m' : Arp.Message) : ¬i.Announces reply m' := by
        intro hannounces
        have hneighbor := hannounces.neighbor
        rw [htells.sender_eq hannounces.toTells, hlink] at hneighbor
        cases hneighbor
      obtain ⟨handled, hreceive, hstate⟩ := receive_keeps app s hlen hnone
      refine ⟨handled, hreceive, fun b hb => ?_⟩
      rw [hstate]
      have hagain := emitUnicastUdp_deferred hhop hunknown port (frame_short hshort) (hb ▸ hroom)
      exact ⟨_, _, hagain, nofun, fun _ => ⟨rfl, rfl⟩⟩

theorem deferred_retries_gateway :
    let i := new .standard [none]
    i.Reachable ∧ 0 < i.neighbors.capacity ∧ 18 ≤ 65507 ∧ ∃ asked handled sent,
      (i.emitUnicastUdp (.ofOctets 10 0 0 1) 69 18).run.on (List.replicate 60 0) =
        (.ok (.ok (.deferred 42)), asked) ∧
      i.Forwards (.ofOctets 10 0 0 1) gateway.subnet.address ∧
      i.IsEnquiry gateway.subnet.address (asked.take 42) ∧
      i.receive .none (gateway.replyTo i) () = .ok handled ∧
      (handled.state.1.emitUnicastUdp (.ofOctets 10 0 0 1) 69 18).run.on asked =
        (.ok (.ok (.sent 42)), sent) := by
  intro i
  have hhop : i.nextHop (.ofOctets 10 0 0 1) = some gateway.subnet.address := by decide
  have hasked : (i.emitUnicastUdp (.ofOctets 10 0 0 1) 69 18).run.on (List.replicate 60 0) =
      (.ok (.ok (.deferred 42)), i.enquiryFor gateway.subnet.address ++ List.replicate 18 0) :=
    emitUnicastUdp_deferred hhop (by decide) 69 (by decide) (by decide)
  obtain ⟨hop, hforwards, henquiry, hretries⟩ := deferred_retries i (.new _ _) (by decide)
    (.ofOctets 10 0 0 1) 69 (by decide : 18 ≤ 65507) hasked
  obtain rfl : hop = gateway.subnet.address :=
    Option.some.inj ((nextHop_eq_some_iff.2 hforwards).symm.trans hhop)
  obtain ⟨handled, hreceive, hagain⟩ := hretries (gateway.replyTo i) _ (by decide)
    (tells_iff.2 ⟨_, hears_replyTo i gateway⟩) rfl rfl rfl .none ()
  obtain ⟨result, sent, hsent, hresult, -⟩ :=
    hagain (i.enquiryFor gateway.subnet.address ++ List.replicate 18 0) rfl
  rw [hresult (by decide)] at hsent
  exact ⟨.new _ _, by decide, by decide, _, handled, sent, hasked, hforwards, henquiry, hreceive,
    hsent⟩

/-- A router that is not on the link, whose reply is ignored; and a host on the link, to which the
datagram turns out to be too long. -/
theorem deferred_unsent :
    (∃ asked handled again,
      let i : Interface := { new .standard [none] with router := some (.ofOctets 10 0 0 1) }
      let j := gateway.setSubnet ⟨.ofOctets 10 0 0 1, 24, by decide⟩
      i.Reachable ∧ 0 < i.neighbors.capacity ∧
      (i.emitUnicastUdp (.ofOctets 10 0 0 2) 69 0).run.on (List.replicate 42 0) =
        (.ok (.ok (.deferred 42)), asked) ∧
      asked.take 42 = i.enquiryFor j.subnet.address ∧
      i.receive .none (j.replyTo i) () = .ok handled ∧
      (handled.state.1.emitUnicastUdp (.ofOctets 10 0 0 2) 69 0).run.on asked =
        (.ok (.ok (.deferred 42)), again)) ∧
    ∃ asked handled again,
      let i := new .standard [none]
      i.Reachable ∧ 0 < i.neighbors.capacity ∧
      (i.emitUnicastUdp gateway.subnet.address 69 65508).run.on (List.replicate 65550 0) =
        (.ok (.ok (.deferred 42)), asked) ∧
      asked.take 42 = i.enquiryFor gateway.subnet.address ∧
      i.receive .none (gateway.replyTo i) () = .ok handled ∧
      (handled.state.1.emitUnicastUdp gateway.subnet.address 69 65508).run.on asked =
        (.ok (.error .badSize), again) := by
  refine ⟨⟨_, _, _, .setRouter (.new _ _) _, by decide, rfl, rfl, rfl, rfl⟩, ?_⟩
  let i := new .standard [none]
  let j := new .standard [some ⟨3, gateway.hardware⟩]
  have hhop : i.nextHop gateway.subnet.address = some gateway.subnet.address := by decide
  have hhop' : j.nextHop gateway.subnet.address = some gateway.subnet.address := by decide
  have hknown : j.neighbors.lookup gateway.subnet.address = some gateway.hardware := by decide
  have hroom : udpHeadersLen + 65508 ≤ (List.replicate 65550 (0 : UInt8)).length :=
    Nat.le_of_eq List.length_replicate.symm
  have hroom' : udpHeadersLen + 65508 ≤ (i.enquiryFor gateway.subnet.address ++
      (List.replicate 65550 (0 : UInt8)).drop 42).length := by
    rw [List.length_append, List.length_drop, List.length_replicate]
    exact Nat.le_refl _
  have hasked := emitUnicastUdp_deferred hhop (by decide) 69 (by decide) hroom
  obtain ⟨again, hagain⟩ := emitUnicastUdp_long hhop' hknown 69 (by decide) (by decide) hroom'
  exact ⟨_, _, again, .new _ _, by decide, hasked, List.take_left' rfl, rfl, hagain⟩

end Interface

end Reflector
