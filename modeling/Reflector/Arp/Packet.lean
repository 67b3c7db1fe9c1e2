import Reflector.Ethernet.Frame
import Reflector.Ipv4.Address
/-!
ARP packets. The fixed part tells how long the four addresses behind it are; only Ethernet and IPv4
addresses are understood.
-/
namespace Reflector.Arp

open Ethernet (EtherType)

inductive HardwareType where
  | ethernet
  | unknown (code : UInt16)
  deriving DecidableEq, Repr

namespace HardwareType

def ofCode (code : UInt16) : HardwareType := if code = 1 then .ethernet else .unknown code

def code : HardwareType → UInt16
  | .ethernet => 1
  | .unknown code => code

def rank : HardwareType → Nat
  | .ethernet => 0
  | .unknown code => 1 + code.toNat

instance : Ord HardwareType := ⟨fun a b => compare a.rank b.rank⟩

def name : HardwareType → String
  | .ethernet => "Ethernet"
  | .unknown code => Text.unknown code.toNat

end HardwareType

inductive Operation where
  | request
  | reply
  | unknown (code : UInt16)
  deriving DecidableEq, Repr

namespace Operation

def ofCode (code : UInt16) : Operation :=
  if code = 1 then .request else if code = 2 then .reply else .unknown code

def code : Operation → UInt16
  | .request => 1
  | .reply => 2
  | .unknown code => code

def rank : Operation → Nat
  | .request => 0
  | .reply => 1
  | .unknown code => 2 + code.toNat

instance : Ord Operation := ⟨fun a b => compare a.rank b.rank⟩

def name : Operation → String
  | .request => "Request"
  | .reply => "Reply"
  | .unknown code => Text.unknown code.toNat

end Operation

namespace Packet

def fixedLen : Nat := 8

/-- The length of a packet with Ethernet and IPv4 addresses. -/
def plainLen : Nat := 28

def hardwareType (b : Bytes) : Except Fault HardwareType := do pure (.ofCode (← b.half 0))

def protocolType (b : Bytes) : Except Fault EtherType := do pure (.ofCode (← b.half 2))

def hardwareLen (b : Bytes) : Except Fault Nat := do pure (← b.octet 4).toNat

def protocolLen (b : Bytes) : Except Fault Nat := do pure (← b.octet 5).toNat

def operation (b : Bytes) : Except Fault Operation := do pure (.ofCode (← b.half 6))

/-- Where an address lies: behind so many hardware and protocol addresses, and how long it is. -/
structure Place where
  start : Nat
  len : Nat

def senderHardwarePlace (b : Bytes) : Except Fault Place := do
  pure ⟨fixedLen, ← hardwareLen b⟩

def senderProtocolPlace (b : Bytes) : Except Fault Place := do
  pure ⟨fixedLen + (← hardwareLen b), ← protocolLen b⟩

def targetHardwarePlace (b : Bytes) : Except Fault Place := do
  pure ⟨fixedLen + (← hardwareLen b) + (← protocolLen b), ← hardwareLen b⟩

def targetProtocolPlace (b : Bytes) : Except Fault Place := do
  pure ⟨fixedLen + 2 * (← hardwareLen b) + (← protocolLen b), ← protocolLen b⟩

def address (place : Bytes → Except Fault Place) (b : Bytes) : Except Fault Bytes := do
  let p ← place b
  b.slice p.start (p.start + p.len)

def senderHardware : Bytes → Except Fault Bytes := address senderHardwarePlace

def senderProtocol : Bytes → Except Fault Bytes := address senderProtocolPlace

def targetHardware : Bytes → Except Fault Bytes := address targetHardwarePlace

def targetProtocol : Bytes → Except Fault Bytes := address targetProtocolPlace

def checkLen (b : Bytes) : Parse Unit := do
  if b.length < fixedLen then throw .truncated
  let last ← targetProtocolPlace b
  if b.length < last.start + last.len then throw .truncated

def checkFormat (b : Bytes) : Parse Unit := do
  match ← hardwareType b, ← protocolType b with
  | .ethernet, .ipv4 => if (← hardwareLen b) ≠ 6 ∨ (← protocolLen b) ≠ 4 then throw .malformed
  | _, _ => throw .unrecognized

def setHardwareType (t : HardwareType) : Edit Unit := Edit.write 0 (Bytes.ofHalf t.code.toNat)

def setProtocolType (t : EtherType) : Edit Unit := Edit.write 2 (Bytes.ofHalf t.code.toNat)

def setHardwareLen (n : UInt8) : Edit Unit := Edit.write 4 [n]

def setProtocolLen (n : UInt8) : Edit Unit := Edit.write 5 [n]

def setOperation (o : Operation) : Edit Unit := Edit.write 6 (Bytes.ofHalf o.code.toNat)

/-- The new address has to be as long as the packet announces. -/
def setAddress (place : Bytes → Except Fault Place) (data : Bytes) : Edit Unit := do
  let p ← Op.view place
  if data.length = p.len then Edit.write p.start data else throw .outOfBounds

def setSenderHardware : Bytes → Edit Unit := setAddress senderHardwarePlace

def setSenderProtocol : Bytes → Edit Unit := setAddress senderProtocolPlace

def setTargetHardware : Bytes → Edit Unit := setAddress targetHardwarePlace

def setTargetProtocol : Bytes → Edit Unit := setAddress targetProtocolPlace

end Packet

/-- A question for, or the announcement of, the hardware address that belongs to an IPv4 address. -/
structure Message where
  operation : Operation
  senderHardware : Ethernet.Address
  senderProtocol : Ipv4.Address
  targetHardware : Ethernet.Address
  targetProtocol : Ipv4.Address
  deriving DecidableEq, Repr

namespace Message

def parse (b : Bytes) : Parse Message := do
  Packet.checkLen b
  Packet.checkFormat b
  match ← Packet.operation b with
  | .unknown _ => throw .unrecognized
  | operation => pure {
      operation
      senderHardware := ← Ethernet.Address.ofBytes (← Packet.senderHardware b)
      senderProtocol := ← Ipv4.Address.ofBytes (← Packet.senderProtocol b)
      targetHardware := ← Ethernet.Address.ofBytes (← Packet.targetHardware b)
      targetProtocol := ← Ipv4.Address.ofBytes (← Packet.targetProtocol b) }

def emit (m : Message) : Edit Unit := do
  Packet.setHardwareType .ethernet
  Packet.setProtocolType .ipv4
  Packet.setHardwareLen 6
  Packet.setProtocolLen 4
  Packet.setOperation m.operation
  Packet.setSenderHardware m.senderHardware.toBytes
  Packet.setSenderProtocol m.senderProtocol.toBytes
  Packet.setTargetHardware m.targetHardware.toBytes
  Packet.setTargetProtocol m.targetProtocol.toBytes

def text (m : Message) : String :=
  "ARP type=Ethernet+IPv4 src=" ++ m.senderHardware.text ++ "/" ++ m.senderProtocol.text ++
    " tgt=" ++ m.targetHardware.text ++ "/" ++ m.targetProtocol.text ++ " op=" ++ m.operation.name

end Message

end Reflector.Arp
