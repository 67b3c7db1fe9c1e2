import Reflector.Proofs.Interface.Padding
import Reflector.Proofs.Link.Filter
/-!
The filter of the receiver and the stack behind it agree: no frame is refused of which anything
would be heard, and none is cut that would be handled otherwise as a whole.
-/
namespace Reflector

open Link (Filter)

variable {σ : Type} {f : Filter} {i : Interface} {frame packet : Bytes} {link : Ethernet.Header}
  {content : Interface.Content}

theorem Arp.Message.Heads.arpLen {m : Message} (h : m.Heads packet) :
    Filter.arpLen packet = .ok (some 28) := by
  apply Succeeds.eq
  apply Succeeds.read h.hardwareType
  rw [if_neg (by decide)]
  apply Succeeds.read h.protocolType
  rw [if_neg (by decide)]
  apply Succeeds.read h.plain.hardwareLen
  apply Succeeds.read h.plain.protocolLen
  rw [if_neg (by decide)]
  exact Succeeds.pure rfl

theorem Ipv4.Header.Heads.datagramLen {ip : Header} (h : ip.Heads packet)
    (hknown : ip.protocol = .icmp ∨ ip.protocol = .udp) :
    Filter.datagramLen packet = .ok (some (20 + ip.payloadLen)) := by
  apply Succeeds.eq
  apply Succeeds.read h.version
  apply Succeeds.read h.plain.headerLen
  rw [if_neg (by decide)]
  apply Succeeds.read h.unfragmented
  rw [if_neg (by decide)]
  apply Succeeds.read h.protocol
  rcases hknown with hicmp | hudp
  · rw [hicmp]
    apply Succeeds.read h.totalLen
    exact Succeeds.pure rfl
  · rw [hudp]
    apply Succeeds.read h.totalLen
    exact Succeeds.pure rfl

namespace Interface.Hears

theorem packetLen (h : i.Hears frame link content) : ∃ n, content.len = 14 + n ∧
    Filter.packetLen link.etherType (frame.drop 14) = .ok (some n) := by
  cases h with
  | message takes type heads =>
    rw [type]
    exact ⟨28, rfl, heads.arpLen⟩
  | @echo ip e takes type host protocol echo =>
    rw [type]
    exact ⟨20 + ip.payloadLen, by rw [Content.len]; omega, host.heads.datagramLen host.known⟩
  | @datagram ip udp takes type host protocol service =>
    rw [type]
    exact ⟨20 + ip.payloadLen, by rw [Content.len]; omega, host.heads.datagramLen host.known⟩

theorem takes (h : i.Hears frame link content) : i.station.Takes link frame := by
  cases h with
  | message takes | echo takes | datagram takes => exact takes

/-- Of what is heard the filter refuses nothing but lengths beyond its limits. -/
theorem frameLen (h : i.Hears frame link content) (hhardware : f.hardware = i.hardware) :
    f.frameLen frame =
      .ok ((some content.len).filter fun len => f.minLen ≤ len && len ≤ f.maxLen) := by
  obtain ⟨n, hn, hpacket⟩ := h.packetLen
  have haccepted : (link.destination == f.hardware || link.destination.isBroadcast) = true := by
    have haccepts := h.takes.accepted
    rwa [hhardware, BEq.comm]
  rw [Filter.frameLen_eq (Nat.le_trans (by decide) h.takes.long) h.takes.heads.destination
    h.takes.heads.etherType hpacket, Filter.judge, haccepted, hn]
  rfl

end Interface.Hears

namespace Link.Filter

def Refuses (f : Filter) (frame : Bytes) : Prop :=
  ∀ maxLen, { f with maxLen }.frameLen frame = .ok none

/-- Nothing would be heard of a frame that is refused. -/
theorem Refuses.unheard (h : f.Refuses frame) (hhardware : f.hardware = i.hardware)
    (hmin : f.minLen ≤ 42) : ¬i.Hears frame link content := by
  intro hears
  have hlen := hears.len_bounds.1
  have hframe := hears.frameLen (f := { f with maxLen := content.len }) hhardware
  rw [h content.len, Option.filter_some, if_pos (by simp; omega)] at hframe
  cases hframe

theorem len_eq {n : Nat} (hlen : f.frameLen frame = .ok (some n))
    (hhardware : f.hardware = i.hardware) (hears : i.Hears frame link content) :
    content.len = n := by
  have hframe := hlen.symm.trans (hears.frameLen hhardware)
  rw [Option.filter_some] at hframe
  split at hframe
  · cases hframe
    rfl
  · cases hframe

/-- The first bytes of a frame decide. A frame that is refused, or that ends before its length,
would be dropped without a trace. Of any other it makes no difference to cut it at its length, but
for the room behind a request. -/
theorem frameLen_agrees (f : Filter) (i : Interface) (app : Udp.Application σ) (s : σ)
    (hhardware : f.hardware = i.hardware) (hmin : f.minLen ≤ 42) (h : frame.length < Length.limit) :
    (∀ k, 24 ≤ k → f.frameLen (frame.take k) = f.frameLen frame) ∧
    (f.Refuses frame → i.receive app.noting frame (s, []) = .ok (.dropped frame (i, s, []))) ∧
    ∀ n, f.frameLen frame = .ok (some n) →
      (frame.length < n →
        i.receive app.noting frame (s, []) = .ok (.dropped frame (i, s, []))) ∧
      (n ≤ frame.length → ∃ whole cut, i.receive app.noting frame (s, []) = .ok whole ∧
        i.receive app.noting (frame.take n) (s, []) = .ok cut ∧ cut.state.1 = whole.state.1 ∧
        cut.state.2.2.map Udp.Call.seen = whole.state.2.2.map Udp.Call.seen ∧
        (¬Interface.IsUdp frame ∨ whole.state.2.2 = [] → cut = whole.cut n)) := by
  refine ⟨fun k hk => frameLen_take hk, fun hrefuses => ?_, fun n hn => ⟨fun hshort => ?_,
    fun _ => ?_⟩⟩
  · exact Interface.receive_unheard h fun _ _ => hrefuses.unheard hhardware hmin
  · refine Interface.receive_unheard h fun _ _ hears => ?_
    have hlen := hears.len_bounds.2
    rw [len_eq hn hhardware hears] at hlen
    omega
  · exact Interface.receive_take app s h fun _ _ hears => Nat.le_of_eq (len_eq hn hhardware hears)

/-- A request for the address of the standard device with the padding of an Ethernet frame. -/
theorem frameLen_agrees_padded :
    (Filter.new Config.standard.hardware).hardware = (Interface.new .standard []).hardware ∧
    (Filter.new Config.standard.hardware).minLen ≤ 42 ∧
    (Interface.question ++ List.replicate 18 0).length < Length.limit ∧
    (Filter.new Config.standard.hardware).frameLen (Interface.question ++ List.replicate 18 0) =
      .ok (some 42) ∧
    ∃ whole cut : Handled (Interface × Unit × List Udp.Call),
      (Interface.new .standard []).receive (Udp.Application.noting .none)
        (Interface.question ++ List.replicate 18 0) ((), []) = .ok whole ∧
      (Interface.new .standard []).receive (Udp.Application.noting .none) Interface.question
        ((), []) = .ok cut ∧ cut = whole.cut 42 := by
  have hlen : (Interface.question ++ List.replicate 18 0).length < Length.limit := by decide
  obtain ⟨-, -, hcut⟩ := frameLen_agrees (.new Config.standard.hardware) (.new .standard []) .none
    () rfl (by decide) hlen
  obtain ⟨whole, cut, hwhole, hreceive, -, -, hsame⟩ := (hcut 42 rfl).2 (by decide)
  exact ⟨rfl, by decide, hlen, rfl, whole, cut, hwhole, hreceive,
    hsame (.inl fun hudp => nomatch hudp.1)⟩

end Link.Filter

end Reflector
