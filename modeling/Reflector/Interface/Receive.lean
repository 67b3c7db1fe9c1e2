import Reflector.Interface.Basic
/-!
The way of a received frame: through Ethernet to ARP or IPv4, from there to ICMP or UDP, and to the
application. An answer goes the same way back in the same bytes.
-/
namespace Reflector.Interface

open Ethernet (EtherType)

variable {σ : Type}

/-- ICMP sees exactly its message, UDP all up to the end of the buffer. -/
def receiveTransport (i : Interface) (app : Udp.Application σ) : Upper Ipv4.Header σ :=
  fun header payload s =>
    match header.protocol with
    | .icmp => do
      let (outcome, message) ← i.responder.receive (payload.take header.payloadLen)
      return ⟨outcome, message ++ payload.drop header.payloadLen, s⟩
    | .udp => i.service.receive app header payload s
    | .tcp | .unknown _ => return .dropped payload s

def receiveNetwork (i : Interface) (app : Udp.Application σ) :
    Upper EtherType (Arp.Resolver × σ) :=
  fun etherType payload (resolver, s) =>
    match etherType with
    | .arp => do
      let h ← resolver.receive payload
      return ⟨h.outcome, h.bytes, (h.state, s)⟩
    | .ipv4 => do
      let h ← i.host.receive (i.receiveTransport app) payload s
      return ⟨h.outcome, h.bytes, (resolver, h.state)⟩
    | .unknown _ => return .dropped payload (resolver, s)

/-- Process a received frame. If it is answered, the frame is overwritten with the answer. -/
def receive (i : Interface) (app : Udp.Application σ) (frame : Bytes) (s : σ) :
    Except Fault (Handled (Interface × σ)) := do
  let h ← i.station.receive (i.receiveNetwork app) frame (i.resolver, s)
  return ⟨h.outcome, h.bytes, ({ i with resolver := h.state.1 }, h.state.2)⟩

end Reflector.Interface
