import Reflector.Arp.Packet
import Reflector.Ethernet.Station
import Reflector.Ipv4.Packet
/-!
Judging a received frame by its first bytes: whether it is worth storing, and how long it is. They
cover the Ethernet header and the fixed part of an ARP packet or the IPv4 header up to the protocol.
-/
namespace Reflector.Link

structure Filter where
  hardware : Ethernet.Address
  minLen : Nat
  maxLen : Nat
  deriving DecidableEq, Repr

namespace Filter

/-- The number of leading bytes that decide about a frame. -/
def headerLen : Nat := 24

def minFrameLen : Nat := Ethernet.Frame.headerLen + Arp.Packet.plainLen

/-- The longest frame accepted by default: every host must take datagrams of 576 bytes. -/
def maxFrameLen : Nat := Ethernet.Frame.headerLen + 576

def new (hardware : Ethernet.Address) : Filter := ⟨hardware, minFrameLen, maxFrameLen⟩

def datagramLen (packet : Bytes) : Except Fault (Option Nat) := do
  if (← Ipv4.Packet.version packet) ≠ 4 ∨ (← Ipv4.Packet.headerLen packet) ≠ 20 then return none
  if ← Ipv4.Packet.isFragment packet then return none
  match ← Ipv4.Packet.protocol packet with
  | .icmp | .udp => return some (← Ipv4.Packet.totalLen packet)
  | .tcp | .unknown _ => return none

def arpLen (packet : Bytes) : Except Fault (Option Nat) := do
  if (← Arp.Packet.hardwareType packet) ≠ .ethernet then return none
  if (← Arp.Packet.protocolType packet) ≠ .ipv4 then return none
  if (← Arp.Packet.hardwareLen packet) ≠ 6 ∨ (← Arp.Packet.protocolLen packet) ≠ 4 then return none
  return some Arp.Packet.plainLen

def frameLen (f : Filter) (start : Bytes) : Except Fault (Option Nat) := do
  if start.length < headerLen then return none
  let destination ← Ethernet.Frame.destination start
  if !(destination == f.hardware || destination.isBroadcast) then return none
  let payload ← Ethernet.Frame.payload start
  let payloadLen ← match ← Ethernet.Frame.etherType start with
    | .ipv4 => datagramLen payload
    | .arp => arpLen payload
    | .unknown _ => pure none
  return (payloadLen.map (Ethernet.Frame.headerLen + ·)).filter fun len =>
    f.minLen ≤ len && len ≤ f.maxLen

end Filter

end Reflector.Link
