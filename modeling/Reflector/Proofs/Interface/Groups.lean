import Reflector.Proofs.Interface.Receive
import Reflector.Proofs.Packets.RoundTrip
/-!
To which addresses the answers in IPv4 go. The sender of the question is never a group, unless it
claims the broadcast address of the subnet for itself.
-/
namespace Reflector

variable {σ : Type} {frame : Bytes}

namespace Ipv4

/-- An address that stands for all hosts, all hosts of the subnet, those of a multicast group, or
for none. -/
inductive Subnet.IsGroup (s : Subnet) (a : Address) : Prop
  | limited (h : a = .broadcast)
  | directed (h : s.broadcast = some a)
  | multicast (h : 0xe0000000 ≤ a.value.toNat) (h' : a.value.toNat < 0xf0000000)
  | unspecified (h : a.value.toNat < 0x1000000)

/-- Of the groups, only the broadcast address of the subnet passes for a single host. -/
theorem Subnet.isGroup_iff {s : Subnet} {a : Address} (ha : a.isUnicast = true) :
    s.IsGroup a ↔ s.broadcast = some a := by
  simp only [Address.isUnicast, Address.isBroadcast, Address.isMulticast, Address.isUnspecified,
    Bool.not_eq_true', Bool.or_eq_false_iff, beq_eq_false_iff_ne] at ha
  obtain ⟨⟨hlimited, hmulticast⟩, hunspecified⟩ := ha
  refine ⟨fun h => ?_, .directed⟩
  cases h with
  | limited h => exact absurd h hlimited
  | directed h => exact h
  | multicast h h' => exact absurd (by omega) hmulticast
  | unspecified h => exact absurd (by omega) hunspecified

end Ipv4

namespace Interface

variable {i : Interface} {app : Udp.Application σ} {s : σ} {a : Bytes}

/-- An answer in IPv4 goes back to where the question came from, which passed for a single host. -/
theorem Answers.destination (h : i.Answers app s frame a)
    (htype : Ethernet.Frame.etherType a = .ok .ipv4) :
    ∃ peer, Ipv4.Packet.destination (a.drop 14) = .ok peer ∧
      Ipv4.Packet.source (frame.drop 14) = .ok peer ∧ peer.isUnicast = true := by
  cases h with
  | @under header a long heads accepted above =>
    have hanswer := (i.station.back header).bytes_etherType a
    rw [htype, Except.ok.injEq] at hanswer
    have hback : (i.station.back header).etherType = header.etherType := rfl
    rw [hback] at hanswer
    generalize header.etherType = etherType at hanswer above
    cases above with
    | arp => cases hanswer
    | ipv4 answer =>
      cases answer with
      | @under ip a heads passes accepted unicast above =>
        exact ⟨ip.source, (i.host.back ip a.length).bytes_destination _ _, heads.source, unicast⟩

/-- No answer goes to a group, but for those to the broadcast address of the own subnet, which go
back to a frame that claims to come from there. -/
theorem answers_ungrouped (i : Interface) (app : Udp.Application σ) (s : σ)
    (h : frame.length < Length.limit) :
    ∃ handled, i.receive app frame s = .ok handled ∧ ∀ n, handled.outcome = .reflect n →
      Ethernet.Frame.etherType (handled.bytes.take n) = .ok .ipv4 →
      ∃ peer, Ipv4.Packet.destination ((handled.bytes.take n).drop 14) = .ok peer ∧
        Ipv4.Packet.source (frame.drop 14) = .ok peer ∧
        (i.subnet.IsGroup peer ↔ i.subnet.broadcast = some peer) := by
  obtain ⟨handled, hreceive, hfits⟩ := i.receive_total app s h
  refine ⟨handled, hreceive, fun n hn htype => ?_⟩
  obtain ⟨peer, hdestination, hsource, hunicast⟩ := (hfits.answer n hn).2.destination htype
  exact ⟨peer, hdestination, hsource, Ipv4.Subnet.isGroup_iff hunicast⟩

theorem answers_ungrouped_ping : (ping (.ofOctets 192 168 200 9)).length < Length.limit ∧
    ∃ handled, (new .standard []).receive .none (ping (.ofOctets 192 168 200 9)) () = .ok handled ∧
      handled.outcome = .reflect 42 ∧
      Ethernet.Frame.etherType (handled.bytes.take 42) = .ok .ipv4 ∧
      Ipv4.Packet.destination ((handled.bytes.take 42).drop 14) =
        .ok (.ofOctets 192 168 200 9) ∧
      ¬Config.standard.subnet.IsGroup (.ofOctets 192 168 200 9) := by
  obtain ⟨handled, hreceive, hanswer⟩ := answers_ungrouped (new .standard []) .none ()
    (by decide : (ping (.ofOctets 192 168 200 9)).length < Length.limit)
  obtain ⟨houtcome, htype⟩ : handled.outcome = .reflect 42 ∧
      Ethernet.Frame.etherType (handled.bytes.take 42) = .ok .ipv4 := by
    cases Except.ok.inj (hreceive.symm.trans rfl)
    exact ⟨rfl, rfl⟩
  obtain ⟨peer, hdestination, hsource, hgroup⟩ := hanswer 42 houtcome htype
  obtain rfl : .ofOctets 192 168 200 9 = peer := Except.ok.inj hsource
  exact ⟨by decide, handled, hreceive, houtcome, htype, hdestination,
    fun h => absurd (hgroup.1 h) (by decide)⟩

/-- A ping from the broadcast address of the subnet is answered to all of it. -/
theorem ping_broadcast : ∃ handled peer,
    (new .standard []).receive .none (ping (.ofOctets 192 168 200 255)) () = .ok handled ∧
      handled.outcome = .reflect 42 ∧
      Ethernet.Frame.etherType (handled.bytes.take 42) = .ok .ipv4 ∧
      Ipv4.Packet.destination ((handled.bytes.take 42).drop 14) = .ok peer ∧
      (new .standard []).subnet.broadcast = some peer :=
  ⟨_, _, rfl, rfl, rfl, rfl, rfl⟩

end Interface

end Reflector
