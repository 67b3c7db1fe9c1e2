import Reflector.Interface.Basic
import Reflector.Ring.Basic
/-!
New datagrams, written into a buffer or queued in the ring.
-/
namespace Reflector.Interface

def udpHeadersLen : Nat :=
  Ethernet.Frame.headerLen + Ipv4.Packet.plainHeaderLen + Udp.Packet.headerLen

/-- A unicast datagram was written, its payload starting at some offset; or the hardware address
of the next hop is unknown and an ARP request of some length was written instead. -/
inductive Generated where
  | sent (offset : Nat)
  | deferred (len : Nat)
  deriving DecidableEq, Repr

def nextHop (i : Interface) (destination : Ipv4.Address) : Option Ipv4.Address :=
  if i.subnet.contains destination then some destination else i.router

def emitUdp (i : Interface) (hardware : Ethernet.Address) (destination : Ipv4.Address)
    (sourcePort destinationPort : Udp.Port) (payloadLen : Nat) : Emit Unit := do
  let packet ← i.station.emit hardware .ipv4
  Emit.into packet do
    let datagram ← i.host.emit destination .udp (Udp.Packet.headerLen + payloadLen)
    Emit.into datagram do
      let _ ← Udp.Service.emit sourcePort destinationPort payloadLen

def emitArpRequest (i : Interface) (target : Ipv4.Address) : Emit Nat := do
  let packet ← i.station.emit .broadcast .arp
  return Ethernet.Frame.headerLen + (← Emit.into packet (i.resolver.emitRequest target))

/-- Write a datagram from the automaton port to some host, up to its payload, or a request for the
hardware address of the next hop. -/
def emitUnicastUdp (i : Interface) (destination : Ipv4.Address) (port : Udp.Port)
    (payloadLen : Nat) : Emit Generated := do
  let len ← Length.add udpHeadersLen payloadLen
  if (← get).length < len then throw .badSize
  match i.nextHop destination with
  | none => throw .unreachable
  | some hop =>
    match i.neighbors.lookup hop with
    | some hardware =>
      i.emitUdp hardware destination i.port port payloadLen
      return .sent udpHeadersLen
    | none => return .deferred (← i.emitArpRequest hop)

/-- Write a datagram to the automaton port of all hosts on the link, up to its payload, whose
offset is returned. -/
def emitBroadcastUdp (i : Interface) (sourcePort : Udp.Port) (payloadLen : Nat) : Emit Nat := do
  let len ← Length.add udpHeadersLen payloadLen
  if (← get).length < len then throw .badSize
  let destination := i.subnet.broadcast.getD .broadcast
  i.emitUdp .broadcast destination sourcePort i.port payloadLen
  return udpHeadersLen

abbrev Queue := ExceptT SendError (Op Ring)

/-- Write a frame into a record of its own and queue it with the length that the writer tells, or
give the record back if the writer refuses. -/
def queueFrame {α : Type} (len : Nat) (m : Emit α) (finalLen : α → Nat) : Queue α := ExceptT.mk do
  match ← Ring.allocate len with
  | none => return .error .exhausted
  | some h =>
    match ← Ring.editPayload h m.run with
    | .ok a =>
      Ring.shrink h (finalLen a)
      Ring.putOutput h
      return .ok a
    | .error e =>
      Ring.discard h
      return .error e

/-- Queue a unicast datagram whose payload `fill` writes, or only the ARP request for it. -/
def queueUnicast (i : Interface) (destination : Ipv4.Address) (port : Udp.Port) (payloadLen : Nat)
    (fill : Emit Unit) : Queue Generated :=
  let len := udpHeadersLen + payloadLen
  let write : Emit Generated := do
    match ← i.emitUnicastUdp destination port payloadLen with
    | .sent offset =>
      Emit.into ⟨offset, payloadLen⟩ fill
      return .sent offset
    | .deferred requestLen => return .deferred requestLen
  queueFrame len write fun
    | .sent _ => len
    | .deferred requestLen => requestLen

def sendUdp (i : Interface) (destination : Ipv4.Address) (port : Udp.Port) (payload : Bytes) :
    Queue Generated :=
  i.queueUnicast destination port payload.length (Edit.write 0 payload)

def sendSntpRequest (i : Interface) (server : Ipv4.Address) : Queue Generated :=
  i.queueUnicast server Sntp.Packet.serverPort Sntp.Packet.len do
    let _ ← Sntp.Settings.emitRequest

def broadcastUdp (i : Interface) (sourcePort : Udp.Port) (payload : Bytes) : Queue Nat :=
  let len := udpHeadersLen + payload.length
  let write : Emit Nat := do
    let offset ← i.emitBroadcastUdp sourcePort payload.length
    Emit.into ⟨offset, payload.length⟩ (Edit.write 0 payload)
    return len
  queueFrame len write id

end Reflector.Interface
