import Reflector.Proofs.Interface.Receive
import Reflector.Proofs.Interface.Routing
/-!
The length fields of UDP and IPv4, of 16 bits each. A new datagram that is too long for them is
refused, an answer is not: the field has the low 16 bits of its length.
-/
namespace Reflector

variable {σ τ : Type} {n : Nat}

open Emit (Refuses)

/-- A layer answers whenever the layer above does, with its header in front, and the field tells the
length of the answer modulo 2 ^ 16. -/
structure Handled.Measures (h : Handled σ) (headerLen : Nat)
    (totalLen : Bytes → Except Fault Nat) (above : Nat → Prop) : Prop where
  outcome : ∀ n, h.outcome = .reflect n ↔ ∃ len, above len ∧ n = headerLen + len
  field : ∀ n, h.outcome = .reflect n → totalLen h.bytes = .ok (n % 0x10000)

namespace Udp.Service

variable {svc : Service} {app : Application σ} {ip : Ipv4.Header} {packet : Bytes} {s : σ}

def Above (svc : Service) (app : Application σ) (ip : Ipv4.Header) (packet : Bytes) (s : σ)
    (len : Nat) : Prop :=
  ∃ header, svc.Takes ip header packet ∧ header.source = svc.port ∧
    (app.serve ip header (packet.drop Packet.headerLen) s).len = some len ∧
    len ≤ (packet.drop Packet.headerLen).length

theorem Answers.takes {a : Bytes} (h : svc.Answers app ip packet s a) :
    ∃ header, svc.Takes ip header packet ∧ header.source = svc.port := by
  cases h with
  | datagram heads passes within request =>
    exact ⟨_, ⟨heads, passes, within, .inl request⟩, request⟩

theorem receive_measures (svc : Service) (app : Application σ) (ip : Ipv4.Header) (s : σ)
    (h : packet.length < Length.limit) : Succeeds (svc.receive app ip packet s) fun up =>
      up.Measures Packet.headerLen Packet.totalLen (svc.Above app ip packet s) := by
  obtain ⟨up, hreceive, hfits⟩ := svc.receive_total app ip h s
  have hhandle {header : Header} (ht : svc.Takes ip header packet)
      (hrequest : header.source = svc.port) : up = handle app ip header packet s :=
    Except.ok.inj (hreceive.symm.trans (receive_request ht h hrequest))
  have hasked (n : Nat) (hn : up.outcome = .reflect n) : ∃ header len,
      up = handle app ip header packet s ∧ svc.Takes ip header packet ∧
        header.source = svc.port ∧
        (app.serve ip header (packet.drop Packet.headerLen) s).len = some len ∧
        len ≤ (packet.drop Packet.headerLen).length ∧ n = Packet.headerLen + len := by
    obtain ⟨header, ht, hrequest⟩ := (hfits.answer n hn).2.takes
    rw [hhandle ht hrequest] at hn
    obtain ⟨len, hlen⟩ := handle_outcome.1 hn
    exact ⟨header, len, hhandle ht hrequest, ht, hrequest, hlen⟩
  refine ⟨up, hreceive, fun n => ⟨fun hn => ?_, ?_⟩, fun n hn => ?_⟩
  · obtain ⟨header, len, -, ht, hrequest, hlen, hroom, rfl⟩ := hasked n hn
    exact ⟨len, ⟨header, ht, hrequest, hlen, hroom⟩, rfl⟩
  · rintro ⟨len, ⟨header, ht, hrequest, hlen, hroom⟩, rfl⟩
    rw [hhandle ht hrequest]
    exact handle_outcome.2 ⟨len, hlen, hroom, rfl⟩
  · obtain ⟨header, len, rfl, -, -, hlen, hroom, rfl⟩ := hasked n hn
    rw [handle_answered hlen hroom]
    exact (header.back len).bytes_totalLen _

theorem emit_long (source destination : Port) (b : Bytes) (hlong : 0xffff < Packet.headerLen + n)
    (hlen : Packet.headerLen + n < Length.limit) :
    Refuses (emit source destination n) b .badSize := by
  apply Refuses.read (Length.add_of_lt hlen)
  apply Refuses.get
  exact Emit.refuses_guard (.inr hlong)

end Udp.Service

namespace Ipv4.Host

variable {host : Host} {upper : Upper Header σ} {packet : Bytes} {s : σ}

def Above (host : Host) (upper : Upper Header σ) (packet : Bytes) (s : σ) (len : Nat) : Prop :=
  ∃ header up, host.Takes header packet ∧
    upper header (packet.drop Packet.plainHeaderLen) s = .ok up ∧ up.outcome = .reflect len

/-- The layer above leaves as many bytes as it was handed, and its answer is among them. -/
def Suits (host : Host) (upper : Upper Header σ) (packet : Bytes) (s : σ) : Prop :=
  ∀ header, host.Takes header packet →
    Succeeds (upper header (packet.drop Packet.plainHeaderLen) s) fun up =>
      up.Fits (packet.drop Packet.plainHeaderLen).length fun _ => True

theorem receive_measures (h : packet.length < Length.limit) (hsuits : host.Suits upper packet s) :
    Succeeds (host.receive upper packet s) fun handled =>
      handled.Measures Packet.plainHeaderLen Packet.totalLen (host.Above upper packet s) := by
  have hunder {header : Header} {up : Handled σ} (ht : host.Takes header packet)
      (hup : upper header (packet.drop Packet.plainHeaderLen) s = .ok up) :=
    receive_taken ht h ((hsuits header ht).holds hup) hup
  by_cases hnone : ∀ header, ¬host.Takes header packet
  · refine ⟨_, receive_untaken hnone, fun n => ⟨nofun, ?_⟩, nofun⟩
    rintro ⟨_, ⟨header, _, ht, -⟩, -⟩
    exact absurd ht (hnone header)
  obtain ⟨header, ht⟩ := Classical.not_forall_not.1 hnone
  obtain ⟨up, hup, hfits⟩ := hsuits header ht
  refine ⟨_, hunder ht hup, fun n => ⟨fun hn => ?_, ?_⟩, fun n hn => ?_⟩
  · obtain ⟨len, hlen, rfl⟩ := Handled.under_outcome.1 hn
    exact ⟨len, ⟨header, up, ht, hup, hlen⟩, rfl⟩
  · rintro ⟨len, ⟨header', up', ht', hup', hlen⟩, rfl⟩
    rw [Except.ok.inj ((hunder ht hup).symm.trans (hunder ht' hup'))]
    exact Handled.under_outcome.2 ⟨len, hlen, rfl⟩
  · obtain ⟨len, hlen, rfl⟩ := Handled.under_outcome.1 hn
    rw [Handled.under, hlen]
    exact (host.back header len).bytes_totalLen _ _

theorem emit_long (host : Host) (destination : Address) (protocol : Protocol) (b : Bytes)
    (hlong : 0xffff < Packet.plainHeaderLen + n) (hlen : Packet.plainHeaderLen + n < Length.limit) :
    Refuses (host.emit destination protocol n) b .badSize := by
  apply Refuses.read (Length.add_of_lt hlen)
  apply Refuses.get
  exact Emit.refuses_guard (.inr hlong)

end Ipv4.Host

/-- On both layers nothing is dropped for the length of its answer, and the length field is that
length modulo 2 ^ 16; what is sent anew is refused if the field cannot hold its length. -/
theorem answers_measured (svc : Udp.Service) (app : Udp.Application σ) (ip : Ipv4.Header)
    (datagram : Bytes) (s : σ) (host : Ipv4.Host) (upper : Upper Ipv4.Header τ) (packet : Bytes)
    (t : τ) (hdatagram : datagram.length < Length.limit) (hpacket : packet.length < Length.limit)
    (hsuits : host.Suits upper packet t) :
    (∃ up, svc.receive app ip datagram s = .ok up ∧
      up.Measures Udp.Packet.headerLen Udp.Packet.totalLen (svc.Above app ip datagram s)) ∧
    (∃ handled, host.receive upper packet t = .ok handled ∧ handled.Measures
      Ipv4.Packet.plainHeaderLen Ipv4.Packet.totalLen (host.Above upper packet t)) ∧
    (∀ source destination n b, 0xffff < Udp.Packet.headerLen + n →
      Udp.Packet.headerLen + n < Length.limit →
      Refuses (Udp.Service.emit source destination n) b .badSize) ∧
    ∀ destination protocol n b, 0xffff < Ipv4.Packet.plainHeaderLen + n →
      Ipv4.Packet.plainHeaderLen + n < Length.limit →
      Refuses (host.emit destination protocol n) b .badSize :=
  ⟨svc.receive_measures app ip s hdatagram, Ipv4.Host.receive_measures hpacket hsuits,
    fun source destination _ b => Udp.Service.emit_long source destination b,
    fun destination protocol _ b => host.emit_long destination protocol b⟩

def Ipv4.Header.ofPeer (payloadLen : Nat) : Header :=
  ⟨.ofOctets 192 168 200 9, Config.standard.subnet.address, .udp, payloadLen, 64⟩

namespace Udp

def request (room : Nat) : Bytes :=
  Header.bytes ⟨Service.automatonPort, 2000, 0⟩ ++ List.replicate room 0

def fillRoom : Application Unit := .ofRequest fun room _ _ _ s => ⟨[], some room.length, s⟩

theorem length_request (room : Nat) : (request room).length = 8 + room := by
  rw [request, List.length_append, Header.length_bytes, List.length_replicate, Packet.headerLen]

theorem request_above (room : Nat) : Service.Above ⟨Service.automatonPort, .manual⟩ fillRoom
    (.ofPeer 8) (request room) () room := by
  have hroom : ((request room).drop Packet.headerLen).length = room := by
    rw [List.length_drop, length_request, Packet.headerLen, Nat.add_sub_cancel_left]
  refine ⟨⟨Service.automatonPort, 2000, 0⟩, ⟨?_, ?_, Nat.le_refl _, .inl rfl⟩, rfl, ?_, ?_⟩
  · exact Header.bytes_heads _ (by decide) (Nat.zero_le _)
  · exact Header.bytes_passes _ (by decide) (Nat.zero_le _)
  · exact congrArg some hroom
  · exact Nat.le_of_eq hroom.symm

end Udp

namespace Ipv4

def request (room : Nat) : Bytes := (Header.ofPeer 0).bytes .manual ++ List.replicate room 0

def reflectAll : Upper Header Unit := fun _ payload s => .ok ⟨.reflect payload.length, payload, s⟩

theorem length_request (room : Nat) : (request room).length = 20 + room := by
  rw [request, List.length_append, Header.length_bytes, List.length_replicate,
    Packet.plainHeaderLen]

theorem suits_reflectAll (host : Host) (packet : Bytes) : host.Suits reflectAll packet () :=
  fun _ _ => ⟨_, rfl, .reflect rfl (Nat.le_refl _) trivial⟩

theorem request_above (room : Nat) :
    (Host.ofSubnet Config.standard.subnet).Above reflectAll (request room) () room := by
  have hroom : ((request room).drop Packet.plainHeaderLen).length = room := by
    rw [List.length_drop, length_request, Packet.plainHeaderLen, Nat.add_sub_cancel_left]
  refine ⟨.ofPeer 0, _, ⟨?_, ?_, by decide, by decide, .inr rfl⟩, rfl, congrArg _ hroom⟩
  · exact Header.bytes_heads _ rfl (by decide) (Nat.zero_le _)
  · exact Header.bytes_passes _

end Ipv4

theorem answers_measured_request : (Udp.request 4).length < Length.limit ∧
    (Ipv4.request 4).length < Length.limit ∧
    (Ipv4.Host.ofSubnet Config.standard.subnet).Suits Ipv4.reflectAll (Ipv4.request 4) () ∧
    ∃ up handled, Udp.Service.receive ⟨Udp.Service.automatonPort, .manual⟩ Udp.fillRoom (.ofPeer 8)
        (Udp.request 4) () = .ok up ∧
      up.outcome = .reflect 12 ∧ Udp.Packet.totalLen up.bytes = .ok 12 ∧
      (Ipv4.Host.ofSubnet Config.standard.subnet).receive Ipv4.reflectAll (Ipv4.request 4) () =
        .ok handled ∧
      handled.outcome = .reflect 24 ∧ Ipv4.Packet.totalLen handled.bytes = .ok 24 := by
  have hsuits := Ipv4.suits_reflectAll (.ofSubnet Config.standard.subnet) (Ipv4.request 4)
  obtain ⟨⟨up, hreceive, hup⟩, ⟨handled, hreceive', hhandled⟩, -⟩ :=
    answers_measured ⟨Udp.Service.automatonPort, .manual⟩ Udp.fillRoom (.ofPeer 8) (Udp.request 4) ()
      (.ofSubnet Config.standard.subnet) Ipv4.reflectAll (Ipv4.request 4) () (by decide) (by decide)
      hsuits
  have houtcome := (hup.outcome 12).2 ⟨4, Udp.request_above 4, rfl⟩
  have houtcome' := (hhandled.outcome 24).2 ⟨4, Ipv4.request_above 4, rfl⟩
  exact ⟨by decide, by decide, hsuits, up, handled, hreceive, houtcome, hup.field 12 houtcome,
    hreceive', houtcome', hhandled.field 24 houtcome'⟩

/-- An answer of 2 ^ 16 bytes goes out with a length of zero. -/
theorem answers_wrapped :
    (∃ up, Udp.Service.receive ⟨Udp.Service.automatonPort, .manual⟩ Udp.fillRoom (.ofPeer 8)
        (Udp.request 65528) () = .ok up ∧
      up.outcome = .reflect 65536 ∧ Udp.Packet.totalLen up.bytes = .ok 0) ∧
    ∃ handled, (Ipv4.Host.ofSubnet Config.standard.subnet).receive Ipv4.reflectAll
        (Ipv4.request 65516) () = .ok handled ∧
      handled.outcome = .reflect 65536 ∧ Ipv4.Packet.totalLen handled.bytes = .ok 0 := by
  have hdatagram : (Udp.request 65528).length < Length.limit := by
    rw [Udp.length_request]
    decide
  have hpacket : (Ipv4.request 65516).length < Length.limit := by
    rw [Ipv4.length_request]
    decide
  obtain ⟨up, hreceive, hup⟩ := Udp.Service.receive_measures
    ⟨Udp.Service.automatonPort, .manual⟩ Udp.fillRoom (.ofPeer 8) () hdatagram
  obtain ⟨handled, hreceive', hhandled⟩ := Ipv4.Host.receive_measures hpacket
    (Ipv4.suits_reflectAll (.ofSubnet Config.standard.subnet) _)
  have houtcome := (hup.outcome 65536).2 ⟨_, Udp.request_above 65528, rfl⟩
  have houtcome' := (hhandled.outcome 65536).2 ⟨_, Ipv4.request_above 65516, rfl⟩
  exact ⟨⟨up, hreceive, houtcome, hup.field _ houtcome⟩,
    handled, hreceive', houtcome', hhandled.field _ houtcome'⟩

end Reflector
