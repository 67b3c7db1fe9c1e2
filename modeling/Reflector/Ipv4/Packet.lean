import Reflector.Checksum
/-!
IPv4 packets. Only headers without options are understood, and no fragments.
-/
namespace Reflector.Ipv4

inductive Protocol where
  | icmp
  | tcp
  | udp
  | unknown (code : UInt8)
  deriving DecidableEq, Repr

namespace Protocol

def ofCode (code : UInt8) : Protocol :=
  if code = 1 then .icmp else if code = 6 then .tcp else if code = 17 then .udp else .unknown code

def code : Protocol → UInt8
  | .icmp => 1
  | .tcp => 6
  | .udp => 17
  | .unknown code => code

def rank : Protocol → Nat
  | .icmp => 0
  | .tcp => 1
  | .udp => 2
  | .unknown code => 3 + code.toNat

instance : Ord Protocol := ⟨fun a b => compare a.rank b.rank⟩

def name : Protocol → String
  | .icmp => "Icmp"
  | .tcp => "Tcp"
  | .udp => "Udp"
  | .unknown code => Text.unknown code.toNat

def text : Protocol → String
  | .icmp => "ICMP"
  | .tcp => "TCP"
  | .udp => "UDP"
  | .unknown code => "0x" ++ String.ofList (Text.hex 2 code.toNat)

end Protocol

namespace Packet

def plainHeaderLen : Nat := 20

def version (b : Bytes) : Except Fault Nat := do pure ((← b.octet 0).toNat / 16)

def headerLen (b : Bytes) : Except Fault Nat := do pure ((← b.octet 0).toNat % 16 * 4)

def dscp (b : Bytes) : Except Fault Nat := do pure ((← b.octet 1).toNat / 4)

def totalLen (b : Bytes) : Except Fault Nat := do pure (← b.half 2).toNat

def ident (b : Bytes) : Except Fault UInt16 := b.half 4

/-- The flags in the high three bits and the fragment offset in units of eight. -/
def fragmentWord (b : Bytes) : Except Fault Nat := do pure (← b.half 6).toNat

def dontFragment (b : Bytes) : Except Fault Bool := do pure ((← fragmentWord b) / 0x4000 % 2 == 1)

def moreFragments (b : Bytes) : Except Fault Bool := do pure ((← fragmentWord b) / 0x2000 % 2 == 1)

def fragmentOffset (b : Bytes) : Except Fault Nat := do pure ((← fragmentWord b) % 0x2000 * 8)

/-- Anything but the two high flags marks a piece of a larger datagram. -/
def isFragment (b : Bytes) : Except Fault Bool := do pure ((← fragmentWord b) % 0x4000 != 0)

def hopLimit (b : Bytes) : Except Fault UInt8 := b.octet 8

def protocol (b : Bytes) : Except Fault Protocol := do pure (.ofCode (← b.octet 9))

def checksum (b : Bytes) : Except Fault UInt16 := b.half 10

def source (b : Bytes) : Except Fault Address := do Address.ofBytes (← b.slice 12 16)

def destination (b : Bytes) : Except Fault Address := do Address.ofBytes (← b.slice 16 20)

/-- Bytes behind the total length, such as the padding of a frame, are allowed. -/
def checkLen (b : Bytes) : Parse Unit := do
  if b.length < plainHeaderLen then throw .truncated
  if b.length < (← headerLen b) then throw .truncated
  if (← totalLen b) < (← headerLen b) then throw .malformed
  if b.length < (← totalLen b) then throw .truncated

def payload (b : Bytes) : Except Fault Bytes := do b.slice (← headerLen b) (← totalLen b)

/-- Everything behind the header, so that an answer may be longer than its request. -/
def room (b : Bytes) : Except Fault Bytes := do b.rest (← headerLen b)

def verifyChecksum (b : Bytes) : Except Fault Bool := do
  pure ((← Checksum.data (← b.slice 0 (← headerLen b))) == Checksum.ones)

def setVersionAndHeaderLen (version len : Nat) : Edit Unit :=
  Edit.write 0 [UInt8.ofNat (version * 16 + len / 4 % 16)]

def setServiceType (n : UInt8) : Edit Unit := Edit.write 1 [n]

def setTotalLen (n : Nat) : Edit Unit := Edit.write 2 (Bytes.ofHalf n)

def setIdent (n : UInt16) : Edit Unit := Edit.write 4 (Bytes.ofHalf n.toNat)

def setUnfragmented (dontFragment : Bool) : Edit Unit :=
  Edit.write 6 (Bytes.ofHalf (if dontFragment then 0x4000 else 0))

def setHopLimit (n : UInt8) : Edit Unit := Edit.write 8 [n]

def setProtocol (p : Protocol) : Edit Unit := Edit.write 9 [p.code]

def setChecksum (n : UInt16) : Edit Unit := Edit.write 10 (Bytes.ofHalf n.toNat)

def setSource (a : Address) : Edit Unit := Edit.write 12 a.toBytes

def setDestination (a : Address) : Edit Unit := Edit.write 16 a.toBytes

def fillChecksum : Edit Unit := do
  setChecksum 0
  let b ← get
  let sum ← Checksum.data (← b.slice 0 (← headerLen b))
  setChecksum (~~~sum)

def setPayload (data : Bytes) : Edit Unit := do
  let b ← get
  discard (room b : Except Fault Bytes)
  Edit.overlay (← headerLen b) data

end Packet

structure Header where
  source : Address
  destination : Address
  protocol : Protocol
  payloadLen : Nat
  hopLimit : UInt8
  deriving DecidableEq, Repr

namespace Header

def defaultHopLimit : UInt8 := 64

def parse (mode : Checksum.Mode) (b : Bytes) : Parse Header := do
  Packet.checkLen b
  if (← Packet.version b) ≠ 4 then throw .unrecognized
  if (← Packet.headerLen b) ≠ Packet.plainHeaderLen then throw .unsupported
  if ← Packet.isFragment b then throw .unsupported
  mode.check (Packet.verifyChecksum b)
  pure {
    source := ← Packet.source b
    destination := ← Packet.destination b
    protocol := ← Packet.protocol b
    payloadLen := ← Length.sub (← Packet.totalLen b) Packet.plainHeaderLen
    hopLimit := ← Packet.hopLimit b }

/-- Write the whole header: no options, type of service and identification zero, not to be
fragmented. Of the length the packet holds the low 16 bits. -/
def emit (h : Header) (mode : Checksum.Mode) : Edit Unit := do
  Packet.setVersionAndHeaderLen 4 Packet.plainHeaderLen
  Packet.setServiceType 0
  Packet.setTotalLen (← Length.add Packet.plainHeaderLen h.payloadLen)
  Packet.setIdent 0
  Packet.setUnfragmented true
  Packet.setHopLimit h.hopLimit
  Packet.setProtocol h.protocol
  Packet.setSource h.source
  Packet.setDestination h.destination
  match mode with
  | .manual => Packet.fillChecksum
  | .ignored => Packet.setChecksum 0

def text (h : Header) : String :=
  "IPv4 src=" ++ h.source.text ++ " dst=" ++ h.destination.text ++ " proto=" ++ h.protocol.text ++
    s!" len={h.payloadLen}"

end Header

end Reflector.Ipv4
