import Reflector.Bytes
import Reflector.Text
/-!
IPv4 addresses.
-/
namespace Reflector.Ipv4

/-- An address is a 32 bit number, its first octet the most significant one. -/
structure Address where
  value : UInt32
  deriving DecidableEq, Repr

namespace Address

def ofOctets (a b c d : UInt8) : Address :=
  ⟨UInt32.ofNat (((a.toNat * 0x100 + b.toNat) * 0x100 + c.toNat) * 0x100 + d.toNat)⟩

def unspecified : Address := ⟨0⟩

def broadcast : Address := ⟨0xffffffff⟩

def toBytes (a : Address) : Bytes := Bytes.ofWord a.value.toNat

def ofBytes : Bytes → Except Fault Address
  | [a, b, c, d] => .ok (ofOctets a b c d)
  | _ => .error .outOfBounds

def isBroadcast (a : Address) : Bool := a == broadcast

def isMulticast (a : Address) : Bool := a.value.toNat / 0x10000000 == 14

/-- The whole of 0.0.0.0/8. -/
def isUnspecified (a : Address) : Bool := a.value.toNat / 0x1000000 == 0

def isUnicast (a : Address) : Bool := !(a.isBroadcast || a.isMulticast || a.isUnspecified)

def chars (a : Address) : List Char :=
  List.intercalate ['.'] (a.toBytes.map fun o => Text.decimal o.toNat)

def text (a : Address) : String := String.ofList a.chars

inductive TextError where
  | noSubnet
  | address
  | prefixLen
  deriving DecidableEq, Repr

def TextError.message : TextError → String
  | .noSubnet => "missing subnet prefix separator"
  | .address => "invalid address"
  | .prefixLen => "invalid cidr prefix"

def ofChars (cs : List Char) : Except TextError Address :=
  match (cs.splitOn '.').mapM (Text.octet? 10) with
  | some [a, b, c, d] => .ok (ofOctets a b c d)
  | _ => .error .address

def ofText (s : String) : Except TextError Address := ofChars s.toList

end Address

end Reflector.Ipv4
