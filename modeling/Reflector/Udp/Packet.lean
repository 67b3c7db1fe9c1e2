import Reflector.Checksum
import Reflector.Ipv4.Packet
/-!
UDP headers. A checksum field of zero stands for no checksum.
-/
namespace Reflector.Udp

abbrev Port := UInt16

namespace Packet

def headerLen : Nat := 8

def source (b : Bytes) : Except Fault Port := b.half 0

def destination (b : Bytes) : Except Fault Port := b.half 2

def totalLen (b : Bytes) : Except Fault Nat := do pure (← b.half 4).toNat

def checksum (b : Bytes) : Except Fault UInt16 := b.half 6

/-- Bytes behind the length of the datagram are allowed. -/
def checkLen (b : Bytes) : Parse Unit := do
  if b.length < headerLen then throw .truncated
  let len ← totalLen b
  if b.length < len then throw .truncated
  if len < headerLen then throw .malformed

def payload (b : Bytes) : Except Fault Bytes := do b.slice headerLen (← totalLen b)

def room (b : Bytes) : Except Fault Bytes := b.rest headerLen

def sum (source destination : Ipv4.Address) (b : Bytes) : Except Fault UInt16 := do
  let len ← totalLen b
  Checksum.combine [← Checksum.pseudoHeader source destination Ipv4.Protocol.udp.code len,
    ← Checksum.data (← b.slice 0 len)]

def verifyChecksum (source destination : Ipv4.Address) (b : Bytes) : Except Fault Bool := do
  if (← checksum b) = 0 then return true
  return (← sum source destination b) == Checksum.ones

def setSource (p : Port) : Edit Unit := Edit.write 0 (Bytes.ofHalf p.toNat)

def setDestination (p : Port) : Edit Unit := Edit.write 2 (Bytes.ofHalf p.toNat)

def setTotalLen (n : Nat) : Edit Unit := Edit.write 4 (Bytes.ofHalf n)

def setChecksum (n : UInt16) : Edit Unit := Edit.write 6 (Bytes.ofHalf n.toNat)

/-- A checksum that comes out as zero is written as all ones, which sums up alike. -/
def fillChecksum (source destination : Ipv4.Address) : Edit Unit := do
  setChecksum 0
  let sum ← Op.view (sum source destination)
  setChecksum (if ~~~sum = 0 then Checksum.ones else ~~~sum)

def setPayload (data : Bytes) : Edit Unit := do
  discard (Op.view room)
  Edit.overlay headerLen data

end Packet

structure Header where
  source : Port
  destination : Port
  payloadLen : Nat
  deriving DecidableEq, Repr

namespace Header

def parse (mode : Checksum.Mode) (source destination : Ipv4.Address) (b : Bytes) : Parse Header := do
  Packet.checkLen b
  mode.check (Packet.verifyChecksum source destination b)
  pure ⟨← Packet.source b, ← Packet.destination b,
    ← Length.sub (← Packet.totalLen b) Packet.headerLen⟩

def back (h : Header) (len : Nat) : Header := ⟨h.destination, h.source, len⟩

/-- Write the header, without a checksum: the link has a check sequence of its own. Of the length
the packet holds the low 16 bits. -/
def emit (h : Header) : Edit Unit := do
  Packet.setSource h.source
  Packet.setDestination h.destination
  Packet.setTotalLen (← Length.add Packet.headerLen h.payloadLen)
  Packet.setChecksum 0

def text (h : Header) : String := s!"UDP src={h.source} dst={h.destination} len={h.payloadLen}"

end Header

end Reflector.Udp
