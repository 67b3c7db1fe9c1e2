import Reflector.Proofs.Interface.Receive
import Reflector.Proofs.Packets.RoundTrip
/-!
What the receiver of an answer reads in it. Every answer is well formed and goes back to the asker.
-/
namespace Reflector

variable {σ : Type} {app : Udp.Application σ} {s : σ} {packet message frame a : Bytes}

structure Arp.Resolver.Replies (r : Resolver) (packet answer : Bytes) : Prop where
  length : answer.length = Packet.plainLen
  reads : ∃ m, Parse.Reads (Message.parse packet) m ∧ Parse.Reads (Message.parse answer)
    ⟨.reply, r.hardware, r.subnet.address, m.senderHardware, m.senderProtocol⟩

/-- The message comes back as it is, but for its type and its checksum. -/
structure Icmp.Replies (message answer : Bytes) : Prop where
  length : answer.length = message.length
  messageType : answer.octet 0 = .ok 0
  same : ∀ i, i ≠ 0 → i ≠ 2 → i ≠ 3 → answer[i]? = message[i]?

/-- The answer of the application goes from the port asked to the port of the request. -/
structure Udp.Service.Replies (svc : Service) (app : Application σ) (s : σ) (ip : Ipv4.Header)
    (packet answer : Bytes) : Prop where
  reads : ∃ header, Parse.Reads (Header.parse svc.checksum ip.source ip.destination packet) header ∧
    Packet.source answer = .ok header.destination ∧ Packet.destination answer = .ok header.source ∧
    (app.serve ip header (packet.drop Packet.headerLen) s).len =
      some (answer.length - Packet.headerLen) ∧
    answer.drop Packet.headerLen = (app.left ip header (packet.drop Packet.headerLen) s).take
      (answer.length - Packet.headerLen)
  totalLen : Packet.totalLen answer = .ok answer.length
  checksum : Packet.checksum answer = .ok 0

/-- The datagram goes from our address to the sender, without options and not to be fragmented. -/
structure Ipv4.Host.Replies (host : Host) (above : Header → Bytes → Bytes → Prop)
    (packet answer : Bytes) : Prop where
  reads : ∃ header, Parse.Reads (Header.parse host.checksum packet) header ∧
    Parse.Reads (Header.parse host.checksum answer) ⟨host.subnet.address, header.source,
      header.protocol, answer.length - Packet.plainHeaderLen, host.hopLimit⟩ ∧
    above header (packet.drop Packet.plainHeaderLen) (answer.drop Packet.plainHeaderLen)
  version : answer.octet 0 = .ok 0x45
  serviceType : answer.octet 1 = .ok 0
  ident : Packet.ident answer = .ok 0
  dontFragment : Packet.fragmentWord answer = .ok 0x4000

namespace Interface

def RepliesTransport (i : Interface) (app : Udp.Application σ) (s : σ) (ip : Ipv4.Header)
    (payload answer : Bytes) : Prop :=
  match ip.protocol with
  | .icmp => Icmp.Replies (payload.take ip.payloadLen) answer
  | .udp => i.service.Replies app s ip payload answer
  | .tcp | .unknown _ => False

def RepliesNetwork (i : Interface) (app : Udp.Application σ) (s : σ)
    (etherType : Ethernet.EtherType) (payload answer : Bytes) : Prop :=
  match etherType with
  | .arp => i.resolver.Replies payload answer
  | .ipv4 => i.host.Replies (i.RepliesTransport app s) payload answer
  | .unknown _ => False

/-- The frame goes from our hardware address to the sender, with an answer of the same protocol. -/
def Replies (i : Interface) (app : Udp.Application σ) (s : σ) (frame answer : Bytes) : Prop :=
  ∃ header, Parse.Reads (Ethernet.Header.parse frame) header ∧
    Parse.Reads (Ethernet.Header.parse answer) ⟨i.hardware, header.source, header.etherType⟩ ∧
    i.RepliesNetwork app s header.etherType (frame.drop Ethernet.Frame.headerLen)
      (answer.drop Ethernet.Frame.headerLen)

end Interface

theorem Arp.Resolver.Answers.replies {r : Resolver} (h : r.Answers packet a) :
    r.Replies packet a := by
  cases h with
  | @reply m heads operation target =>
    have hback : (r.back m).Heads ((r.back m).bytes ++ []) :=
      (r.back m).bytes_heads [] rfl fun _ => Operation.noConfusion
    rw [List.append_nil] at hback
    exact ⟨rfl, m, heads.reads, hback.reads⟩

theorem Icmp.Responder.Answers.replies {r : Responder} (h : r.Answers message a) :
    Replies message a := by
  cases h with
  | @echo e sum heads =>
    have hlen : 4 ≤ message.length :=
      heads.length ▸ Nat.le_trans (by decide) (Nat.le_add_right Packet.headerLen e.payloadLen)
    refine ⟨length_replied hlen, rfl, ?_⟩
    match message, hlen with
    | x :: y :: z :: w :: rest, _ =>
      obtain ⟨hi, lo, hbytes⟩ : ∃ hi lo,
        replied (x :: y :: z :: w :: rest) sum = 0 :: y :: hi :: lo :: rest := ⟨_, _, rfl⟩
      rw [hbytes]
      intro i h₀ h₂ h₃
      match i with
      | 0 => exact absurd rfl h₀
      | 1 => rfl
      | 2 => exact absurd rfl h₂
      | 3 => exact absurd rfl h₃
      | i + 4 => rfl

theorem Udp.Service.Answers.replies {svc : Service} {ip : Ipv4.Header}
    (h : svc.Answers app ip packet s a) (hlen : a.length < 0x10000) :
    svc.Replies app s ip packet a := by
  cases h with
  | @datagram header len heads passes within request decided fits =>
    have hleft : ((app.left ip header (packet.drop Packet.headerLen) s).take len).length = len := by
      refine List.length_take_of_le ?_
      rw [app.length_left, List.length_drop]
      omega
    generalize hpayload : (app.left ip header (packet.drop Packet.headerLen) s).take len = payload
      at hleft hlen ⊢
    subst hleft
    have htotal : ((header.back payload.length).bytes ++ payload).length =
        Packet.headerLen + payload.length := by rw [List.length_append, Header.length_bytes]
    have hsub : ((header.back payload.length).bytes ++ payload).length - Packet.headerLen =
        payload.length := by rw [htotal, Nat.add_sub_cancel_left]
    refine ⟨⟨header, heads.reads passes, (header.back _).bytes_source _,
      (header.back _).bytes_destination _, ?_, ?_⟩, ?_, rfl⟩
    · rw [hsub]
      exact decided
    · rw [hsub, hpayload]
      rfl
    · rw [htotal] at hlen ⊢
      rw [(header.back payload.length).bytes_totalLen payload]
      exact congrArg Except.ok (Nat.mod_eq_of_lt hlen)

theorem Ipv4.Host.Answers.replies {host : Host} {answers replies : Header → Bytes → Bytes → Prop}
    (h : host.Answers answers packet a) (hlen : a.length < 0x10000)
    (habove : ∀ header payload a, answers header payload a → a.length < 0x10000 →
      replies header payload a) : host.Replies replies packet a := by
  cases h with
  | @under header a heads passes accepted unicast above =>
    rw [List.length_append, Header.length_bytes] at hlen
    have hsub : ((host.back header a.length).bytes host.checksum ++ a).length -
        Packet.plainHeaderLen = a.length := by
      rw [List.length_append, Header.length_bytes, Nat.add_sub_cancel_left]
    refine ⟨⟨header, heads.reads passes, ?_, ?_⟩, rfl, rfl, rfl, rfl⟩
    · rw [hsub]
      exact (host.back header a.length).reads_bytes heads.protocol_known hlen (Nat.le_refl _)
    · exact habove _ _ _ above (Nat.lt_of_le_of_lt (Nat.le_add_left _ _) hlen)

namespace Interface

variable {i : Interface}

theorem AnswersTransport.replies {ip : Ipv4.Header} {payload : Bytes}
    (h : i.AnswersTransport app s ip payload a) (hlen : a.length < 0x10000) :
    i.RepliesTransport app s ip payload a := by
  unfold RepliesTransport
  cases h with
  | icmp protocol answer =>
    rw [protocol]
    exact answer.replies
  | udp protocol answer =>
    rw [protocol]
    exact answer.replies hlen

theorem AnswersNetwork.replies {etherType : Ethernet.EtherType} {payload : Bytes}
    (h : i.AnswersNetwork app s payload etherType a) (hlen : a.length < 0x10000) :
    i.RepliesNetwork app s etherType payload a ∧ .ofCode etherType.code = etherType := by
  cases h with
  | arp answer => exact ⟨answer.replies, rfl⟩
  | ipv4 answer => exact ⟨answer.replies hlen fun _ _ _ h hlen => h.replies hlen, rfl⟩

/-- The bound is that of the length field of a datagram. -/
theorem Answers.replies (h : i.Answers app s frame a) (hlen : a.length ≤ 65549) :
    i.Replies app s frame a := by
  cases h with
  | @under header a long heads accepted above =>
    rw [List.length_append, Ethernet.Header.length_bytes] at hlen
    obtain ⟨hreplies, htype⟩ :=
      AnswersNetwork.replies above (by simp only [Ethernet.Frame.headerLen] at hlen; omega)
    exact ⟨header, heads.reads, ((i.station.back header).bytes_heads a htype).reads, hreplies⟩

/-- Whatever is answered: the answer is well formed and goes back to the asker. -/
theorem receive_replies (i : Interface) (app : Udp.Application σ) (s : σ)
    (h : frame.length ≤ 65549) :
    ∃ handled, i.receive app frame s = .ok handled ∧ ∀ n, handled.outcome = .reflect n →
      (handled.bytes.take n).length = n ∧ i.Replies app s frame (handled.bytes.take n) := by
  obtain ⟨handled, hreceive, hfits⟩ :=
    i.receive_total app s (Nat.lt_of_le_of_lt h (by decide : 65549 < Length.limit))
  refine ⟨handled, hreceive, fun n hn => ?_⟩
  obtain ⟨hin, hanswer⟩ := hfits.answer n hn
  have hlen : (handled.bytes.take n).length = n := List.length_take_of_le (hfits.length ▸ hin)
  exact ⟨hlen, hanswer.replies (Nat.le_trans (Nat.le_of_eq hlen) (Nat.le_trans hin h))⟩

/-- The application answers a request of two bytes with two others. -/
theorem receive_replies_enquiry :
    let app : Udp.Application Unit := .ofRequest fun _ _ _ _ s => ⟨[9, 8], some 2, s⟩
    enquiry.length ≤ 65549 ∧ ∃ handled,
      (new .standard []).receive app enquiry () = .ok handled ∧ handled.outcome = .reflect 44 ∧
        (new .standard []).Replies app () enquiry (handled.bytes.take 44) := by
  intro app
  refine ⟨by decide, ?_⟩
  obtain ⟨handled, hreceive, hreplies⟩ :=
    (new .standard []).receive_replies app () (by decide : enquiry.length ≤ 65549)
  have hmap := congrArg (fun r => r.toOption.map Handled.outcome) hreceive
  have houtcome : handled.outcome = .reflect 44 :=
    Option.some.inj (hmap.symm.trans (by decide +kernel))
  exact ⟨handled, hreceive, houtcome, (hreplies 44 houtcome).2⟩

end Interface

end Reflector
