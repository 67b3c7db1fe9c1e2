import Reflector.Link.Filter
import Reflector.Proofs.Packets.Fields
/-!
The filter of the receiver: it decides about every frame by its first bytes, and how.
-/
namespace Reflector.Link.Filter

open Ethernet (EtherType)

variable {f : Filter} {start packet : Bytes} {k : Nat} {t : EtherType}
  {destination : Ethernet.Address} {len : Option Nat}

theorem datagramLen_succeeds {packet : Bytes} (h : 10 ≤ packet.length) :
    Succeeds (datagramLen packet) fun _ => True := by
  have hversion : Succeeds (Ipv4.Packet.version packet) fun _ => True :=
    (Bytes.octet_succeeds h (by decide)).field _
  have hheader : Succeeds (Ipv4.Packet.headerLen packet) fun _ => True :=
    (Bytes.octet_succeeds h (by decide)).field _
  have hfragment : Succeeds (Ipv4.Packet.isFragment packet) fun _ => True :=
    ((Bytes.half_succeeds h (by decide)).field _).field _
  have hprotocol : Succeeds (Ipv4.Packet.protocol packet) fun _ => True :=
    (Bytes.octet_succeeds h (by decide)).field _
  have htotal : Succeeds (Ipv4.Packet.totalLen packet) fun _ => True :=
    (Bytes.half_succeeds h (by decide)).field _
  apply hversion.bind
  intro _ _ _
  apply hheader.bind
  intro _ _ _
  split
  · exact Succeeds.pure trivial
  apply hfragment.bind
  intro _ _ _
  split
  · exact Succeeds.pure trivial
  apply hprotocol.bind
  intro _ _ _
  split
  · exact htotal.field _
  · exact htotal.field _
  · exact Succeeds.pure trivial
  · exact Succeeds.pure trivial

theorem arpLen_succeeds {packet : Bytes} (h : Arp.Packet.fixedLen ≤ packet.length) :
    Succeeds (arpLen packet) fun _ => True := by
  apply (Arp.Packet.hardwareType_succeeds h).bind
  intro _ _ _
  split
  · exact Succeeds.pure trivial
  apply (Arp.Packet.protocolType_succeeds h).bind
  intro _ _ _
  split
  · exact Succeeds.pure trivial
  apply (Arp.Packet.hardwareLen_succeeds h).bind
  intro _ _ _
  apply (Arp.Packet.protocolLen_succeeds h).bind
  intro _ _ _
  split
  · exact Succeeds.pure trivial
  · exact Succeeds.pure trivial

theorem datagramLen_take (hk : 10 ≤ k) : datagramLen (packet.take k) = datagramLen packet := by
  simp (disch := omega) only [datagramLen, Ipv4.Packet.version, Ipv4.Packet.headerLen,
    Ipv4.Packet.isFragment, Ipv4.Packet.fragmentWord, Ipv4.Packet.protocol, Ipv4.Packet.totalLen,
    Bytes.octet_take, Bytes.half_take]

theorem arpLen_take (hk : 8 ≤ k) : arpLen (packet.take k) = arpLen packet := by
  simp (disch := omega) only [arpLen, Arp.Packet.hardwareType, Arp.Packet.protocolType,
    Arp.Packet.hardwareLen, Arp.Packet.protocolLen, Bytes.octet_take, Bytes.half_take]

def packetLen (t : EtherType) (packet : Bytes) : Except Fault (Option Nat) :=
  match t with
  | .ipv4 => datagramLen packet
  | .arp => arpLen packet
  | .unknown _ => .ok none

theorem packetLen_succeeds (t : EtherType) (h : 10 ≤ packet.length) :
    Succeeds (packetLen t packet) fun _ => True := by
  cases t with
  | ipv4 => exact datagramLen_succeeds h
  | arp => exact arpLen_succeeds (Nat.le_trans (by decide) h)
  | unknown code => exact Succeeds.pure trivial

theorem packetLen_take (hk : 10 ≤ k) : packetLen t (packet.take k) = packetLen t packet := by
  cases t with
  | ipv4 => exact datagramLen_take hk
  | arp => exact arpLen_take (Nat.le_trans (by decide) hk)
  | unknown code => rfl

def judge (f : Filter) (destination : Ethernet.Address) (len : Option Nat) : Option Nat :=
  if destination == f.hardware || destination.isBroadcast then
    (len.map (Ethernet.Frame.headerLen + ·)).filter fun len => f.minLen ≤ len && len ≤ f.maxLen
  else none

theorem frameLen_eq (h : headerLen ≤ start.length)
    (hdestination : Ethernet.Frame.destination start = .ok destination)
    (ht : Ethernet.Frame.etherType start = .ok t) (hlen : packetLen t (start.drop 14) = .ok len) :
    f.frameLen start = .ok (f.judge destination len) := by
  have hpayload : Ethernet.Frame.payload start = .ok (start.drop 14) :=
    Bytes.rest_of_le (Nat.le_trans (by decide) h)
  apply Succeeds.eq
  unfold frameLen judge
  rw [if_neg (Nat.not_lt.2 h)]
  apply Succeeds.read hdestination
  cases destination == f.hardware || destination.isBroadcast with
  | false => exact Succeeds.pure rfl
  | true =>
    apply Succeeds.read hpayload
    apply Succeeds.read ht
    cases t with
    | ipv4 | arp =>
      apply Succeeds.read hlen
      exact Succeeds.pure rfl
    | unknown code =>
      cases hlen
      exact Succeeds.pure rfl

theorem frameLen_judges (f : Filter) (start : Bytes) (h : headerLen ≤ start.length) :
    ∃ destination t len, Ethernet.Frame.destination start = .ok destination ∧
      Ethernet.Frame.etherType start = .ok t ∧ packetLen t (start.drop 14) = .ok len ∧
      f.frameLen start = .ok (f.judge destination len) := by
  have hframe : Ethernet.Frame.headerLen ≤ start.length := Nat.le_trans (by decide) h
  have hpacket : 10 ≤ (start.drop 14).length := by
    rw [List.length_drop]
    exact Nat.le_sub_of_add_le h
  obtain ⟨destination, hdestination, -⟩ := Ethernet.Frame.destination_succeeds hframe
  obtain ⟨t, ht, -⟩ := Ethernet.Frame.etherType_succeeds hframe
  obtain ⟨len, hlen, -⟩ := packetLen_succeeds t hpacket
  exact ⟨destination, t, len, hdestination, ht, hlen, frameLen_eq h hdestination ht hlen⟩

theorem frameLen_short (h : start.length < headerLen) : f.frameLen start = .ok none := if_pos h

theorem frameLen_succeeds (f : Filter) (start : Bytes) :
    Succeeds (f.frameLen start) fun _ => True := by
  by_cases h : start.length < headerLen
  · exact ⟨_, frameLen_short h, trivial⟩
  · obtain ⟨_, _, _, -, -, -, hlen⟩ := f.frameLen_judges start (Nat.not_lt.1 h)
    exact ⟨_, hlen, trivial⟩

theorem frameLen_take (hk : headerLen ≤ k) : f.frameLen (start.take k) = f.frameLen start := by
  by_cases h : start.length < headerLen
  · rw [List.take_of_length_le (Nat.le_trans (Nat.le_of_lt h) hk)]
  have hlong := Nat.not_lt.1 h
  have hk' : 24 ≤ k := hk
  obtain ⟨destination, t, len, hdestination, ht, hlen, hjudge⟩ := f.frameLen_judges start hlong
  have hdestination' : Ethernet.Frame.destination (start.take k) = .ok destination := by
    rw [← hdestination, Ethernet.Frame.destination, Bytes.slice_take (by omega),
      Ethernet.Frame.destination]
  have ht' : Ethernet.Frame.etherType (start.take k) = .ok t := by
    rw [← ht, Ethernet.Frame.etherType, Bytes.half_take (by omega), Ethernet.Frame.etherType]
  have hlen' : packetLen t ((start.take k).drop 14) = .ok len := by
    rw [← hlen, List.drop_take, packetLen_take (by omega)]
  rw [hjudge, frameLen_eq ((le_length_take hk).2 hlong) hdestination' ht' hlen']

end Reflector.Link.Filter
