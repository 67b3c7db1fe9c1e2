import Reflector.Proofs.Arp.Neighbors
import Reflector.Proofs.Interface.Effects
import Reflector.Proofs.Interface.Emission
import Reflector.Proofs.Packets.RoundTrip
/-!
Address resolution between two devices: a datagram for a neighbor that is not known yet is put off
for a single request and its reply, and goes out then.
-/
namespace Reflector

open Emit (Writes)

theorem Arp.Resolver.learn_inside {r : Resolver} (h : r.neighbors.Inside) (a : Ipv4.Address)
    (hardware : Ethernet.Address) : (r.learn a hardware).neighbors.Inside := by
  unfold learn
  split
  · next hfill => exact h.fill hfill
  · exact h

namespace Interface

variable {σ τ : Type} {i j : Interface} {frame : Bytes} {link : Ethernet.Header} {m : Arp.Message}

/-- The interfaces there are: made from a configuration and storage for the neighbors, with other
settings since, neighbors filled in by hand, and frames received. -/
inductive Reachable : Interface → Prop
  | new (config : Config) (slots : List (Option Arp.Neighbor)) : Reachable (new config slots)
  | setSubnet {i : Interface} (h : Reachable i) (subnet : Ipv4.Subnet) :
      Reachable (i.setSubnet subnet)
  | setRouter {i : Interface} (h : Reachable i) (router : Option Ipv4.Address) :
      Reachable { i with router }
  | setEcho {i : Interface} (h : Reachable i) (denyEcho : Bool) (echoChecksum : Checksum.Mode) :
      Reachable { i with denyEcho, echoChecksum }
  | clear {i : Interface} (h : Reachable i) : Reachable (i.setNeighbors i.neighbors.clear)
  | fill {i : Interface} (h : Reachable i) {a : Ipv4.Address} {hardware : Ethernet.Address}
      {c : Arp.NeighborCache} (hfill : i.neighbors.fill a hardware = .ok c) :
      Reachable (i.setNeighbors c)
  | receive {i : Interface} (h : Reachable i) {σ : Type} {app : Udp.Application σ} {frame : Bytes}
      {s : σ} {handled : Handled (Interface × σ)} (hlen : frame.length < Length.limit)
      (hreceive : i.receive app frame s = .ok handled) : Reachable handled.state.1

theorem Reachable.inside (h : i.Reachable) : i.neighbors.Inside := by
  induction h with
  | new config slots => exact Arp.NeighborCache.new_inside _ _
  | @setSubnet i _ subnet _ => exact i.neighbors.setSubnet_inside subnet
  | setRouter _ _ ih => exact ih
  | setEcho _ _ _ ih => exact ih
  | @clear i _ _ => exact i.neighbors.clear_inside
  | fill _ hfill ih => exact ih.fill hfill
  | @receive i _ _ app frame s _ hlen hreceive ih =>
    by_cases hnone : ∀ m, ¬i.Announces frame m
    · rw [(receive_keeps app s hlen hnone).holds hreceive]
      exact ih
    · obtain ⟨m, hm⟩ := Classical.not_forall_not.1 hnone
      rw [(hm.learns app s hlen).holds hreceive]
      exact Arp.Resolver.learn_inside ih _ _

theorem hears_message (i : Interface) (link : Ethernet.Header) (m : Arp.Message)
    (type : link.etherType = .arp) (accepted : i.station.accepts link.destination = true)
    (hcode : .ofCode m.operation.code = m.operation)
    (hknown : ∀ code, m.operation ≠ .unknown code) :
    i.Hears (link.bytes ++ m.bytes) link (.message m) := by
  have htype : .ofCode link.etherType.code = link.etherType := by rw [type]; rfl
  have heads := m.bytes_heads [] hcode hknown
  rw [List.append_nil] at heads
  refine .message ⟨Nat.le_refl _, link.bytes_heads m.bytes htype, accepted, ?_⟩ type heads
  rw [type]
  exact fun _ => Ethernet.EtherType.noConfusion

theorem handleMessage_request (link : Ethernet.Header) (hrequest : m.operation = .request)
    (htarget : m.targetProtocol = i.subnet.address) :
    i.handleMessage link m (link.bytes ++ m.bytes) =
      ⟨.reflect 42, (i.station.back link).bytes ++ (i.resolver.back m).bytes, i⟩ := by
  have hpacket : (link.bytes ++ m.bytes).drop 14 = m.bytes := rfl
  have hbehind : m.bytes.drop Arp.Packet.plainLen = [] := rfl
  have htarget' : m.targetProtocol = i.resolver.subnet.address := htarget
  rw [handleMessage, hpacket, Arp.Resolver.handle, if_neg (not_not_intro htarget'), hrequest]
  dsimp only
  rw [hbehind, List.append_nil]
  rfl

theorem learn_of_fill {a : Ipv4.Address} {hardware : Ethernet.Address} {c : Arp.NeighborCache}
    (hfill : i.neighbors.fill a hardware = .ok c) :
    { i with resolver := i.resolver.learn a hardware } = i.setNeighbors c := by
  have hfill' : i.resolver.neighbors.fill a hardware = .ok c := hfill
  rw [Arp.Resolver.learn, hfill']
  rfl

theorem handleMessage_reply (link : Ethernet.Header) (hreply : m.operation = .reply)
    (htarget : m.targetProtocol = i.subnet.address)
    (hlink : i.subnet.contains m.senderProtocol = true) {c : Arp.NeighborCache}
    (hfill : i.neighbors.fill m.senderProtocol m.senderHardware = .ok c) :
    i.handleMessage link m (link.bytes ++ m.bytes) =
      .dropped (link.bytes ++ m.bytes) (i.setNeighbors c) := by
  have hpacket : (link.bytes ++ m.bytes).drop 14 = m.bytes := rfl
  have htarget' : m.targetProtocol = i.resolver.subnet.address := htarget
  have hlink' : i.resolver.subnet.contains m.senderProtocol = true := hlink
  rw [handleMessage, hpacket, Arp.Resolver.handle, if_neg (not_not_intro htarget'), hreply]
  dsimp only
  rw [if_pos hlink', ← learn_of_fill hfill]
  rfl

def replyTo (j i : Interface) : Bytes :=
  Ethernet.Header.bytes ⟨j.hardware, i.hardware, .arp⟩ ++
    Arp.Message.bytes ⟨.reply, j.hardware, j.subnet.address, i.hardware, i.subnet.address⟩

@[simp] theorem length_replyTo (j i : Interface) : (j.replyTo i).length = 42 := rfl

theorem receive_enquiryFor (i j : Interface) (app : Udp.Application σ) (s : σ) :
    j.receive app (i.enquiryFor j.subnet.address) s = .ok ⟨.reflect 42, j.replyTo i, (j, s)⟩ := by
  have hall : j.station.accepts .broadcast = true := by
    simp [Ethernet.Station.accepts, Ethernet.Address.isBroadcast]
  have hears := hears_message j ⟨i.hardware, .broadcast, .arp⟩
    ⟨.request, i.hardware, i.subnet.address, .zero, j.subnet.address⟩ rfl hall rfl
    fun _ => Arp.Operation.noConfusion
  have hshort : (i.enquiryFor j.subnet.address).length < Length.limit := by
    rw [length_enquiryFor]
    decide
  have hhandle := handleMessage_request (i := j) ⟨i.hardware, .broadcast, .arp⟩
    (m := ⟨.request, i.hardware, i.subnet.address, .zero, j.subnet.address⟩) rfl rfl
  exact (receive_message hshort hears).trans (congrArg _ (congrArg _ hhandle))

theorem hears_replyTo (i j : Interface) : i.Hears (j.replyTo i) ⟨j.hardware, i.hardware, .arp⟩
    (.message ⟨.reply, j.hardware, j.subnet.address, i.hardware, i.subnet.address⟩) := by
  have hown : i.station.accepts i.hardware = true := by
    simp [Ethernet.Station.accepts, station]
  exact hears_message i _ _ rfl hown rfl fun _ => Arp.Operation.noConfusion

theorem receive_replyTo {app : Udp.Application σ} {s : σ} {c : Arp.NeighborCache}
    (hlink : i.subnet.contains j.subnet.address = true)
    (hfill : i.neighbors.fill j.subnet.address j.hardware = .ok c) :
    i.receive app (j.replyTo i) s = .ok (.dropped (j.replyTo i) (i.setNeighbors c, s)) := by
  have hshort : (j.replyTo i).length < Length.limit := by
    rw [length_replyTo]
    decide
  have hhandle := handleMessage_reply (i := i) ⟨j.hardware, i.hardware, .arp⟩
    (m := ⟨.reply, j.hardware, j.subnet.address, i.hardware, i.subnet.address⟩) rfl rfl hlink hfill
  exact (receive_message hshort (hears_replyTo i j)).trans (congrArg _ (congrArg _ hhandle))

theorem setNeighbors_sent {destination hop : Ipv4.Address} {hardware : Ethernet.Address}
    {c : Arp.NeighborCache} (hhop : i.nextHop destination = some hop)
    (hfill : i.neighbors.fill hop hardware = .ok c) (port : Udp.Port) {payloadLen : Nat}
    (hshort : payloadLen ≤ 65507) {b : Bytes} (hroom : udpHeadersLen + payloadLen ≤ b.length) :
    Writes ((i.setNeighbors c).emitUnicastUdp destination port payloadLen) b (.sent 42)
      ((i.setNeighbors c).datagramHeaders hardware destination (i.setNeighbors c).port port
        payloadLen ++ b.drop 42) := by
  -- the subnet is the same, and with it the next hop
  have hsubnet : (i.setNeighbors c).subnet = i.subnet := Arp.NeighborCache.fill_subnet hfill
  have hhop' : (i.setNeighbors c).nextHop destination = some hop := by
    rw [← hhop, nextHop, hsubnet]
    rfl
  have hknown : (i.setNeighbors c).neighbors.lookup hop = some hardware :=
    Arp.NeighborCache.lookup_fill hfill
  exact emitUnicastUdp_sent hhop' hknown port hshort hroom

/-- A datagram whose next hop is not known yet is put off for one request, which the neighbor
answers in place. The reply is dropped after the neighbor was remembered, and then the datagram goes
out to it. -/
theorem emitUnicastUdp_sent_once_resolved (i j : Interface) (h : i.Reachable)
    (hslots : 0 < i.neighbors.capacity) {destination : Ipv4.Address}
    (hhop : i.nextHop destination = some j.subnet.address)
    (hlink : i.subnet.contains j.subnet.address = true)
    (hunknown : i.neighbors.lookup j.subnet.address = none) (port : Udp.Port) {payloadLen : Nat}
    (hshort : payloadLen ≤ 65507) (frame : Bytes)
    (hroom : udpHeadersLen + payloadLen ≤ frame.length) (app : Udp.Application σ) (s : σ)
    (app' : Udp.Application τ) (t : τ) :
    ∃ asked replied dropped i',
      (i.emitUnicastUdp destination port payloadLen).run.on frame =
        (.ok (.ok (.deferred 42)), asked) ∧
      j.receive app (asked.take 42) s = .ok ⟨.reflect 42, replied, (j, s)⟩ ∧
      i.receive app' (replied.take 42) t = .ok ⟨.drop, dropped, (i', t)⟩ ∧
      ∀ frame' : Bytes, udpHeadersLen + payloadLen ≤ frame'.length → ∃ sent,
        (i'.emitUnicastUdp destination port payloadLen).run.on frame' =
          (.ok (.ok (.sent 42)), sent) ∧
        Ethernet.Frame.destination sent = .ok j.hardware ∧
        Ipv4.Packet.destination (sent.drop Ethernet.Frame.headerLen) = .ok destination := by
  obtain ⟨c, hfill⟩ := h.inside.fill_ok hslots hlink j.hardware
  have hasked := emitUnicastUdp_deferred hhop hunknown port (frame_short hshort) hroom
  have hrequest : (i.enquiryFor j.subnet.address ++ frame.drop 42).take 42 =
      i.enquiryFor j.subnet.address := List.take_left' rfl
  have hreply : (j.replyTo i).take 42 = j.replyTo i := rfl
  refine ⟨_, j.replyTo i, j.replyTo i, i.setNeighbors c, hasked, ?_, ?_, fun frame' hroom' => ?_⟩
  · rw [hrequest]
    exact i.receive_enquiryFor j app s
  · rw [hreply]
    exact receive_replyTo hlink hfill
  have hsent := setNeighbors_sent hhop hfill port hshort hroom'
  have hrest : payloadLen ≤ (frame'.drop 42).length := by
    rw [List.length_drop]
    exact Nat.le_sub_of_add_le' hroom'
  refine ⟨_, hsent, ?_, ?_⟩
  · exact (datagramHeaders_link (i.setNeighbors c) j.hardware destination _ port _ _).destination
  · exact (packetHeaders_heads (i.setNeighbors c) destination _ port hshort hrest).destination

theorem emitUnicastUdp_sent_once_resolved_gateway : (new .standard [none]).Reachable ∧
    (new .standard [none]).nextHop (.ofOctets 10 0 0 1) = some gateway.subnet.address ∧
    ∃ asked replied dropped i',
      ((new .standard [none]).emitUnicastUdp (.ofOctets 10 0 0 1) 69 18).run.on
        (List.replicate 60 0) = (.ok (.ok (.deferred 42)), asked) ∧
      gateway.receive .none (asked.take 42) () = .ok ⟨.reflect 42, replied, (gateway, ())⟩ ∧
      (new .standard [none]).receive .none (replied.take 42) () =
        .ok ⟨.drop, dropped, (i', ())⟩ ∧
      ∃ sent, (i'.emitUnicastUdp (.ofOctets 10 0 0 1) 69 18).run.on (List.replicate 60 0) =
          (.ok (.ok (.sent 42)), sent) ∧
        Ethernet.Frame.destination sent = .ok gateway.hardware := by
  have hhop : (new .standard [none]).nextHop (.ofOctets 10 0 0 1) =
      some gateway.subnet.address := by decide
  obtain ⟨asked, replied, dropped, i', hasked, hreplied, hdropped, hsent⟩ :=
    emitUnicastUdp_sent_once_resolved (new .standard [none]) gateway (.new _ _) (by decide) hhop
      (by decide) (by decide) 69 (by decide : 18 ≤ 65507) (List.replicate 60 0) (by decide) .none ()
      .none ()
  obtain ⟨sent, hwritten, haddressed, -⟩ := hsent (List.replicate 60 0) (by decide)
  exact ⟨.new _ _, hhop, asked, replied, dropped, i', hasked, hreplied, hdropped, sent, hwritten,
    haddressed⟩

end Interface

end Reflector
