import Reflector.Ipv4.Packet
import Reflector.Ipv4.Subnet
/-!
The IPv4 side of a device: which datagrams are taken, and how an answer goes back.
-/
namespace Reflector.Ipv4

structure Host where
  subnet : Subnet
  hopLimit : UInt8
  checksum : Checksum.Mode
  deriving DecidableEq, Repr

namespace Host

variable {σ : Type}

def ofSubnet (subnet : Subnet) : Host := ⟨subnet, Header.defaultHopLimit, .manual⟩

def back (host : Host) (header : Header) (len : Nat) : Header :=
  ⟨host.subnet.address, header.source, header.protocol, len, host.hopLimit⟩

/-- Hand the payload of a datagram, up to the end of the buffer, to the layer above. Its answer goes
back to the sender from our own address, under a header that is written anew. -/
def deliver (host : Host) (upper : Upper Header σ) (header : Header) (packet : Bytes) (s : σ) :
    Except Fault (Handled σ) := do
  let up ← upper header (← Packet.room packet) s
  let packet := packet.take (← Packet.headerLen packet) ++ up.bytes
  match up.outcome with
  | .drop => return .dropped packet up.state
  | .reflect len =>
    return ⟨← (Outcome.reflect len).withHeader Packet.plainHeaderLen,
      ← ((host.back header len).emit host.checksum).apply packet, up.state⟩

def receive (host : Host) (upper : Upper Header σ) (packet : Bytes) (s : σ) :
    Except Fault (Handled σ) := do
  match ← (Header.parse host.checksum packet).run with
  | .error _ => return .dropped packet s
  | .ok header =>
    if !host.subnet.accepts header.destination then return .dropped packet s
    if !header.source.isUnicast then return .dropped packet s
    match header.protocol with
    | .tcp | .unknown _ => return .dropped packet s
    | .icmp | .udp => host.deliver upper header packet s

def emit (host : Host) (destination : Address) (protocol : Protocol) (payloadLen : Nat) :
    Emit Room := do
  let len ← Length.add Packet.plainHeaderLen payloadLen
  if (← get).length < len ∨ 0xffff < len then throw .badSize
  Header.emit ⟨host.subnet.address, destination, protocol, payloadLen, host.hopLimit⟩ host.checksum
  return ⟨Packet.plainHeaderLen, payloadLen⟩

end Host

end Reflector.Ipv4
