import Reflector.Udp.Application
/-!
The UDP side of a device. It speaks with a single port, the automaton port: a datagram from that
port is a request and may be answered in place, a datagram to it is the reply to a request of ours
and is never answered.
-/
namespace Reflector.Udp

structure Service where
  port : Port
  checksum : Checksum.Mode
  deriving DecidableEq, Repr

namespace Service

variable {σ : Type}

/-- The port of all devices of the network. -/
def automatonPort : Port := 65432

def receive (svc : Service) (app : Application σ) (ip : Ipv4.Header) (packet : Bytes) (s : σ) :
    Except Fault (Handled σ) := do
  match ← (Packet.checkLen packet).run with
  | .error _ => return .dropped packet s
  | .ok () =>
    if ip.payloadLen < (← Packet.totalLen packet) then return .dropped packet s
    match ← (Header.parse svc.checksum ip.source ip.destination packet).run with
    | .error _ => return .dropped packet s
    | .ok header =>
      if header.source = svc.port then
        let room ← Packet.room packet
        let answer := app.request room ip.source header.destination header.payloadLen s
        let packet := packet.overlay Packet.headerLen answer.written
        match answer.len with
        | none => return .dropped packet answer.state
        | some len =>
          if room.length < len then return .dropped packet answer.state
          return ⟨.reflect (Packet.headerLen + len), ← (header.back len).emit.apply packet,
            answer.state⟩
      else if header.destination = svc.port then
        let payload ← Packet.payload packet
        return .dropped packet (← app.reply payload ip.source header.source header.payloadLen s)
      else return .dropped packet s

def emit (source destination : Port) (payloadLen : Nat) : Emit Room := do
  let len ← Length.add Packet.headerLen payloadLen
  if (← get).length < len ∨ 0xffff < len then throw .badSize
  Header.emit ⟨source, destination, payloadLen⟩
  return ⟨Packet.headerLen, payloadLen⟩

end Service

end Reflector.Udp
