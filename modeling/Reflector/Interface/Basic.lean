import Reflector.Arp.Resolver
import Reflector.Icmp.Responder
import Reflector.Ipv4.Host
import Reflector.Ethernet.Station
import Reflector.Sntp.Client
import Reflector.Udp.Service
/-!
A network interface: the settings of all protocols and the neighbors it knows.
-/
namespace Reflector

structure Config where
  hardware : Ethernet.Address
  subnet : Ipv4.Subnet
  /-- The next hop for all destinations off the link. -/
  router : Option Ipv4.Address
  port : Udp.Port
  hopLimit : UInt8
  checksum : Checksum.Mode
  denyEcho : Bool
  epoch : Sntp.Epoch
  deriving DecidableEq, Repr

def Config.standard : Config where
  hardware := ⟨0x02, 0, 0, 0, 0, 0x40⟩
  subnet := ⟨.ofOctets 192 168 200 40, 24, by decide⟩
  router := some (.ofOctets 192 168 200 3)
  port := Udp.Service.automatonPort
  hopLimit := Ipv4.Header.defaultHopLimit
  checksum := .manual
  denyEcho := false
  epoch := .unix

/-- The own hardware address, address and subnet are those of the resolver: the subnet of the
neighbor cache is never set apart from that of the device. Pings have a checksum mode of their own,
which starts as that of the other protocols. -/
structure Interface where
  resolver : Arp.Resolver
  router : Option Ipv4.Address
  port : Udp.Port
  hopLimit : UInt8
  checksum : Checksum.Mode
  denyEcho : Bool
  echoChecksum : Checksum.Mode
  epoch : Sntp.Epoch
  deriving DecidableEq, Repr

namespace Interface

def new (config : Config) (slots : List (Option Arp.Neighbor)) : Interface where
  resolver := ⟨config.hardware, .new config.subnet slots⟩
  router := config.router
  port := config.port
  hopLimit := config.hopLimit
  checksum := config.checksum
  denyEcho := config.denyEcho
  echoChecksum := config.checksum
  epoch := config.epoch

def hardware (i : Interface) : Ethernet.Address := i.resolver.hardware

def neighbors (i : Interface) : Arp.NeighborCache := i.resolver.neighbors

def subnet (i : Interface) : Ipv4.Subnet := i.resolver.subnet

def setNeighbors (i : Interface) (neighbors : Arp.NeighborCache) : Interface :=
  { i with resolver := { i.resolver with neighbors } }

def setSubnet (i : Interface) (subnet : Ipv4.Subnet) : Interface :=
  i.setNeighbors (i.neighbors.setSubnet subnet)

def station (i : Interface) : Ethernet.Station := ⟨i.hardware⟩

def host (i : Interface) : Ipv4.Host := ⟨i.subnet, i.hopLimit, i.checksum⟩

def responder (i : Interface) : Icmp.Responder := ⟨i.denyEcho, i.echoChecksum⟩

def service (i : Interface) : Udp.Service := ⟨i.port, i.checksum⟩

def clock (i : Interface) : Sntp.Settings := ⟨i.epoch⟩

end Interface

end Reflector
