import Reflector.Proofs.Interface.Receive
/-!
What a device hears: the packets of all layers that a frame has to carry, and what becomes of it
then. Any other frame is given back as it is.
-/
namespace Reflector

variable {σ : Type} {s : σ}

namespace Interface

inductive Content where
  | message (m : Arp.Message)
  | echo (ip : Ipv4.Header) (e : Icmp.Echo)
  | datagram (ip : Ipv4.Header) (udp : Udp.Header)

/-- The frames that the device heeds: behind an Ethernet header for it there is an ARP message, or
a ping or its answer, or a datagram for the application. -/
inductive Hears (i : Interface) (frame : Bytes) (link : Ethernet.Header) : Content → Prop
  | message {m : Arp.Message} (takes : i.station.Takes link frame) (type : link.etherType = .arp)
      (heads : m.Heads (frame.drop 14)) : i.Hears frame link (.message m)
  | echo {ip : Ipv4.Header} {e : Icmp.Echo} (takes : i.station.Takes link frame)
      (type : link.etherType = .ipv4) (host : i.host.Takes ip (frame.drop 14))
      (protocol : ip.protocol = .icmp)
      (echo : i.responder.Takes e (((frame.drop 14).drop 20).take ip.payloadLen)) :
      i.Hears frame link (.echo ip e)
  | datagram {ip : Ipv4.Header} {udp : Udp.Header} (takes : i.station.Takes link frame)
      (type : link.etherType = .ipv4) (host : i.host.Takes ip (frame.drop 14))
      (protocol : ip.protocol = .udp)
      (service : i.service.Takes ip udp ((frame.drop 14).drop 20)) :
      i.Hears frame link (.datagram ip udp)

variable {i : Interface} {app : Udp.Application σ} {frame : Bytes} {link : Ethernet.Header}
  {ip : Ipv4.Header} {up : Handled σ}

theorem hears_message_iff {m : Arp.Message} : i.Hears frame link (.message m) ↔
    i.station.Takes link frame ∧ link.etherType = .arp ∧ m.Heads (frame.drop 14) := by
  constructor
  · rintro ⟨takes, type, heads⟩
    exact ⟨takes, type, heads⟩
  · rintro ⟨takes, type, heads⟩
    exact .message takes type heads

theorem hears_echo_iff {e : Icmp.Echo} : i.Hears frame link (.echo ip e) ↔
    i.station.Takes link frame ∧ link.etherType = .ipv4 ∧ i.host.Takes ip (frame.drop 14) ∧
      ip.protocol = .icmp ∧
      i.responder.Takes e (((frame.drop 14).drop 20).take ip.payloadLen) := by
  constructor
  · rintro ⟨⟩
    exact ⟨‹_›, ‹_›, ‹_›, ‹_›, ‹_›⟩
  · rintro ⟨takes, type, host, protocol, echo⟩
    exact .echo takes type host protocol echo

theorem hears_datagram_iff {udp : Udp.Header} :
    i.Hears frame link (.datagram ip udp) ↔
      i.station.Takes link frame ∧ link.etherType = .ipv4 ∧ i.host.Takes ip (frame.drop 14) ∧
        ip.protocol = .udp ∧ i.service.Takes ip udp ((frame.drop 14).drop 20) := by
  constructor
  · rintro ⟨⟩
    exact ⟨‹_›, ‹_›, ‹_›, ‹_›, ‹_›⟩
  · rintro ⟨takes, type, host, protocol, service⟩
    exact .datagram takes type host protocol service

theorem receive_network {net : Handled (Arp.Resolver × σ)} (h : frame.length < Length.limit)
    (takes : i.station.Takes link frame)
    (hnet : i.receiveNetwork app link.etherType (frame.drop 14) (i.resolver, s) = .ok net) :
    i.receive app frame s = .ok ((net.under frame 14 fun _ => (i.station.back link).bytes).map
      fun t => ({ i with resolver := t.1 }, t.2)) := by
  have hpacket : (frame.drop 14).length < Length.limit := by
    rw [List.length_drop]
    omega
  have hfits := (i.receiveNetwork_total app hpacket).holds hnet
  exact (congrArg (· >>= _) (Ethernet.Station.receive_taken takes h hfits hnet)).trans rfl

theorem receive_arp {up : Handled Arp.Resolver} (h : frame.length < Length.limit)
    (takes : i.station.Takes link frame) (type : link.etherType = .arp)
    (hup : i.resolver.receive (frame.drop 14) = .ok up) :
    i.receive app frame s = .ok ((up.under frame 14 fun _ => (i.station.back link).bytes).map
      fun r => ({ i with resolver := r }, s)) := by
  have hnet : i.receiveNetwork app link.etherType (frame.drop 14) (i.resolver, s) =
      .ok (up.map fun r => (r, s)) := by
    rw [type]
    exact (congrArg (· >>= _) hup).trans rfl
  rw [receive_network h takes hnet, Handled.under_map]
  rfl

theorem receive_host {up : Handled σ} (h : frame.length < Length.limit)
    (takes : i.station.Takes link frame) (type : link.etherType = .ipv4)
    (hup : i.host.receive (i.receiveTransport app) (frame.drop 14) s = .ok up) :
    i.receive app frame s = .ok ((up.under frame 14 fun _ => (i.station.back link).bytes).map
      fun s => (i, s)) := by
  have hnet : i.receiveNetwork app link.etherType (frame.drop 14) (i.resolver, s) =
      .ok (up.map fun s => (i.resolver, s)) := by
    rw [type]
    exact (congrArg (· >>= _) hup).trans rfl
  rw [receive_network h takes hnet, Handled.under_map]
  rfl

theorem receive_transport (h : frame.length < Length.limit) (takes : i.station.Takes link frame)
    (type : link.etherType = .ipv4) (host : i.host.Takes ip (frame.drop 14))
    (hup : i.receiveTransport app ip ((frame.drop 14).drop 20) s = .ok up) :
    i.receive app frame s = .ok (((up.under (frame.drop 14) 20 fun len =>
      (i.host.back ip len).bytes i.checksum).under frame 14 fun _ =>
        (i.station.back link).bytes).map fun s => (i, s)) := by
  have hpacket : (frame.drop 14).length < Length.limit := by
    rw [List.length_drop]
    omega
  have hsegment : ((frame.drop 14).drop 20).length < Length.limit := by
    rw [List.length_drop]
    omega
  have hshort : ip.payloadLen < 0x10000 :=
    Nat.lt_of_le_of_lt (Nat.le_add_left _ _) host.heads.short
  have hfits := (i.receiveTransport_total app hshort hsegment).holds hup
  exact receive_host h takes type (Ipv4.Host.receive_taken host hpacket hfits hup)

def handleMessage (i : Interface) (link : Ethernet.Header) (m : Arp.Message) (frame : Bytes) :
    Handled Interface :=
  ((i.resolver.handle m (frame.drop 14)).under frame 14 fun _ => (i.station.back link).bytes).map
    fun r => { i with resolver := r }

theorem receive_message {m : Arp.Message} (h : frame.length < Length.limit)
    (hm : i.Hears frame link (.message m)) :
    i.receive app frame s = .ok ((i.handleMessage link m frame).map fun j => (j, s)) := by
  cases hm with
  | message takes type heads =>
    exact receive_arp h takes type (Arp.Resolver.receive_taken heads)

/-- What becomes of a frame with an ICMP message for which there is an outcome. What follows the
message stays. -/
def handleEcho (i : Interface) (link : Ethernet.Header) (ip : Ipv4.Header) (outcome : Outcome)
    (message frame : Bytes) : Handled Interface :=
  ((⟨outcome, message ++ ((frame.drop 14).drop 20).drop ip.payloadLen, i⟩ : Handled Interface).under
    (frame.drop 14) 20 fun len => (i.host.back ip len).bytes i.checksum).under frame 14
      fun _ => (i.station.back link).bytes

theorem receive_echo {e : Icmp.Echo} {outcome : Outcome} {message : Bytes}
    (h : frame.length < Length.limit) (he : i.Hears frame link (.echo ip e))
    (hmessage : i.responder.receive (((frame.drop 14).drop 20).take ip.payloadLen) =
      .ok (outcome, message)) :
    i.receive app frame s = .ok ((i.handleEcho link ip outcome message frame).map
      fun j => (j, s)) := by
  cases he with
  | echo takes type host protocol echo =>
    have hup : i.receiveTransport app ip ((frame.drop 14).drop 20) s =
        .ok ⟨outcome, message ++ ((frame.drop 14).drop 20).drop ip.payloadLen, s⟩ := by
      rw [receiveTransport, protocol]
      exact (congrArg (· >>= _) hmessage).trans rfl
    rw [receive_transport h takes type host hup, handleEcho]
    cases outcome with
    | drop => rfl
    | reflect len => rfl

theorem receive_datagram {udp : Udp.Header} (app : Udp.Application σ) (s : σ)
    (h : frame.length < Length.limit) (hd : i.Hears frame link (.datagram ip udp)) :
    Succeeds (i.receive app frame s) fun handled => handled.state.1 = i ∧
      (i.service.call ip udp ((frame.drop 14).drop 20)).run app s = .ok handled.state.2 := by
  cases hd with
  | datagram takes type host protocol service =>
    have hsegment : ((frame.drop 14).drop 20).length < Length.limit := by
      rw [List.length_drop, List.length_drop]
      omega
    obtain ⟨up, hreceive, -, hrun⟩ := Udp.Service.receive_taken app s service hsegment
    have hup : i.receiveTransport app ip ((frame.drop 14).drop 20) s = .ok up := by
      rw [receiveTransport, protocol]
      exact hreceive
    refine ⟨_, receive_transport h takes type host hup, rfl, ?_⟩
    simpa [Handled.map] using hrun

/-- All other frames are given back as they are, and nothing else changes. -/
theorem receive_unheard (h : frame.length < Length.limit)
    (hn : ∀ link content, ¬i.Hears frame link content) :
    i.receive app frame s = .ok (.dropped frame (i, s)) := by
  by_cases hstation : ∀ link, ¬i.station.Takes link frame
  · have hdropped : i.station.receive (i.receiveNetwork app) frame (i.resolver, s) = _ :=
      Ethernet.Station.receive_untaken hstation
    exact (congrArg (· >>= _) hdropped).trans rfl
  obtain ⟨link, takes⟩ := Classical.not_forall_not.1 hstation
  cases type : link.etherType with
  | unknown code => exact absurd type (takes.known code)
  | arp =>
    have hup : i.resolver.receive (frame.drop 14) = _ :=
      Arp.Resolver.receive_untaken fun m heads => hn link _ (.message takes type heads)
    rw [receive_arp h takes type hup, Handled.under_dropped]
    rfl
  | ipv4 =>
    by_cases hhost : ∀ ip, ¬i.host.Takes ip (frame.drop 14)
    · have hdropped : i.host.receive (i.receiveTransport app) (frame.drop 14) s = _ :=
        Ipv4.Host.receive_untaken hhost
      rw [receive_host h takes type hdropped, Handled.under_dropped]
      rfl
    obtain ⟨ip, host⟩ := Classical.not_forall_not.1 hhost
    have hup : i.receiveTransport app ip ((frame.drop 14).drop 20) s =
        .ok (.dropped ((frame.drop 14).drop 20) s) := by
      unfold receiveTransport
      rcases host.known with protocol | protocol
      · rw [protocol]
        have hshort := host.heads.short
        have hlen : (((frame.drop 14).drop 20).take ip.payloadLen).length ≤ 131074 := by
          rw [List.length_take]
          omega
        have hreceive : i.responder.receive (((frame.drop 14).drop 20).take ip.payloadLen) = _ :=
          Icmp.Responder.receive_untaken hlen
            fun e echo => hn link _ (.echo takes type host protocol echo)
        refine (congrArg (· >>= _) hreceive).trans ?_
        exact congrArg (fun bytes => Except.ok (Handled.dropped bytes s)) (List.take_append_drop _ _)
      · rw [protocol]
        exact Udp.Service.receive_untaken
          fun udp service => hn link _ (.datagram takes type host protocol service)
    rw [receive_transport h takes type host hup, Handled.under_dropped, Handled.under_dropped]
    rfl

end Interface

end Reflector
