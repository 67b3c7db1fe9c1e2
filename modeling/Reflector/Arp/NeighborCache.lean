import Reflector.Ethernet.Address
import Reflector.Ipv4.Subnet
/-!
A bounded cache of the hardware addresses of neighbors on the link, keyed by the host part of
their address. A known address is updated in place, a new one takes the slot that was filled the
longest time ago.
-/
namespace Reflector.Arp

structure Neighbor where
  hostPart : UInt32
  hardware : Ethernet.Address
  deriving DecidableEq, Repr

structure NeighborCache where
  subnet : Ipv4.Subnet
  slots : List (Option Neighbor)
  next : Nat
  deriving DecidableEq, Repr

inductive NeighborError where
  | noSpace
  | notOnLink
  deriving DecidableEq, Repr

namespace NeighborCache

/-- Neighbors that the slots already hold are kept. -/
def new (subnet : Ipv4.Subnet) (slots : List (Option Neighbor)) : NeighborCache := ⟨subnet, slots, 0⟩

def clear (c : NeighborCache) : NeighborCache :=
  { c with slots := List.replicate c.slots.length none, next := 0 }

def setSubnet (c : NeighborCache) (subnet : Ipv4.Subnet) : NeighborCache :=
  { c.clear with subnet }

def capacity (c : NeighborCache) : Nat := c.slots.length

def neighbors (c : NeighborCache) : List Neighbor := c.slots.filterMap id

def length (c : NeighborCache) : Nat := c.neighbors.length

def isEmpty (c : NeighborCache) : Bool := c.length == 0

def holds (hostPart : UInt32) : Option Neighbor → Bool
  | some n => n.hostPart == hostPart
  | none => false

def lookup (c : NeighborCache) (a : Ipv4.Address) : Option Ethernet.Address :=
  if c.subnet.contains a then
    (c.neighbors.find? fun n => n.hostPart == c.subnet.hostPart a).map (·.hardware)
  else none

def fill (c : NeighborCache) (a : Ipv4.Address) (hardware : Ethernet.Address) :
    Except NeighborError NeighborCache :=
  if c.subnet.contains a then
    let entry : Neighbor := ⟨c.subnet.hostPart a, hardware⟩
    match c.slots.findIdx? (holds entry.hostPart) with
    | some i => .ok { c with slots := c.slots.set i (some entry) }
    | none =>
      if c.next < c.slots.length then
        .ok { c with
          slots := c.slots.set c.next (some entry)
          next := (c.next + 1) % c.slots.length }
      else .error .noSpace
  else .error .notOnLink

def toList (c : NeighborCache) : List (Ipv4.Address × Ethernet.Address) :=
  c.neighbors.map fun n => (⟨c.subnet.network c.subnet.address ||| n.hostPart⟩, n.hardware)

end NeighborCache

end Reflector.Arp
