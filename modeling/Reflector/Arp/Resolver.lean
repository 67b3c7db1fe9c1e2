import Reflector.Arp.NeighborCache
import Reflector.Arp.Packet
/-!
Address resolution: requests for the own address are answered, replies to it are remembered.
-/
namespace Reflector.Arp

structure Resolver where
  hardware : Ethernet.Address
  neighbors : NeighborCache
  deriving DecidableEq, Repr

namespace Resolver

def subnet (r : Resolver) : Ipv4.Subnet := r.neighbors.subnet

def learn (r : Resolver) (a : Ipv4.Address) (hardware : Ethernet.Address) : Resolver :=
  match r.neighbors.fill a hardware with
  | .ok neighbors => { r with neighbors }
  | .error _ => r

def back (r : Resolver) (m : Message) : Message :=
  ⟨.reply, r.hardware, r.subnet.address, m.senderHardware, m.senderProtocol⟩

/-- A request for our address is turned into the reply; a reply from a neighbor on the link is
remembered. Everything else is dropped. -/
def receive (r : Resolver) (packet : Bytes) : Except Fault (Handled Resolver) := do
  match ← (Message.parse packet).run with
  | .error _ => return .dropped packet r
  | .ok m =>
    if m.targetProtocol ≠ r.subnet.address then return .dropped packet r
    match m.operation with
    | .request => return ⟨.reflect Packet.plainLen, ← (r.back m).emit.apply packet, r⟩
    | .reply =>
      if r.subnet.contains m.senderProtocol then
        return .dropped packet (r.learn m.senderProtocol m.senderHardware)
      else return .dropped packet r
    | .unknown _ => return .dropped packet r

def emitRequest (r : Resolver) (target : Ipv4.Address) : Emit Nat := do
  if (← get).length < Packet.plainLen then throw .badSize
  Message.emit ⟨.request, r.hardware, r.subnet.address, .zero, target⟩
  return Packet.plainLen

end Resolver

end Reflector.Arp
