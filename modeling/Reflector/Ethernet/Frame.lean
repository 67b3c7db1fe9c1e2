import Reflector.Ethernet.Address
import Reflector.Outcome
/-!
Ethernet II frames: two addresses and the type of the payload.
-/
namespace Reflector.Ethernet

inductive EtherType where
  | ipv4
  | arp
  | unknown (code : UInt16)
  deriving DecidableEq, Repr

namespace EtherType

def ofCode (code : UInt16) : EtherType :=
  if code = 0x0800 then .ipv4 else if code = 0x0806 then .arp else .unknown code

def code : EtherType → UInt16
  | .ipv4 => 0x0800
  | .arp => 0x0806
  | .unknown code => code

def rank : EtherType → Nat
  | .ipv4 => 0
  | .arp => 1
  | .unknown code => 2 + code.toNat

instance : Ord EtherType := ⟨fun a b => compare a.rank b.rank⟩

def name : EtherType → String
  | .ipv4 => "Ipv4"
  | .arp => "Arp"
  | .unknown code => Text.unknown code.toNat

def text : EtherType → String
  | .ipv4 => "IPv4"
  | .arp => "ARP"
  | .unknown code => "0x" ++ String.ofList (Text.hex 4 code.toNat)

end EtherType

namespace Frame

def headerLen : Nat := 14

def checkLen (b : Bytes) : Parse Unit := if b.length < headerLen then throw .truncated else pure ()

def destination (b : Bytes) : Except Fault Address := do Address.ofBytes (← b.slice 0 6)

def source (b : Bytes) : Except Fault Address := do Address.ofBytes (← b.slice 6 12)

def etherType (b : Bytes) : Except Fault EtherType := do pure (.ofCode (← b.half 12))

def payload (b : Bytes) : Except Fault Bytes := b.rest headerLen

def setDestination (a : Address) : Edit Unit := Edit.write 0 a.toBytes

def setSource (a : Address) : Edit Unit := Edit.write 6 a.toBytes

def setEtherType (t : EtherType) : Edit Unit := Edit.write 12 (Bytes.ofHalf t.code.toNat)

def setPayload (data : Bytes) : Edit Unit := do
  discard (Op.view payload)
  Edit.overlay headerLen data

end Frame

structure Header where
  source : Address
  destination : Address
  etherType : EtherType
  deriving DecidableEq, Repr

namespace Header

def parse (b : Bytes) : Parse Header := do
  Frame.checkLen b
  pure ⟨← Frame.source b, ← Frame.destination b, ← Frame.etherType b⟩

def emit (h : Header) : Edit Unit := do
  Frame.setSource h.source
  Frame.setDestination h.destination
  Frame.setEtherType h.etherType

def text (h : Header) : String :=
  "EthernetII src=" ++ h.source.text ++ " dst=" ++ h.destination.text ++ " type=" ++
    h.etherType.text

end Header

end Reflector.Ethernet
