import Reflector.Bytes
import Reflector.Text
/-!
Ethernet hardware addresses.
-/
namespace Reflector.Ethernet

structure Address where
  o0 : UInt8
  o1 : UInt8
  o2 : UInt8
  o3 : UInt8
  o4 : UInt8
  o5 : UInt8
  deriving DecidableEq, Repr

namespace Address

def zero : Address := ⟨0, 0, 0, 0, 0, 0⟩

def broadcast : Address := ⟨0xff, 0xff, 0xff, 0xff, 0xff, 0xff⟩

def toBytes (a : Address) : Bytes := [a.o0, a.o1, a.o2, a.o3, a.o4, a.o5]

def ofBytes : Bytes → Except Fault Address
  | [o0, o1, o2, o3, o4, o5] => .ok ⟨o0, o1, o2, o3, o4, o5⟩
  | _ => .error .outOfBounds

def isBroadcast (a : Address) : Bool := a == broadcast

/-- The lowest bit of the first octet tells groups from stations. -/
def isMulticast (a : Address) : Bool := a.o0.toNat % 2 == 1

def isUnicast (a : Address) : Bool := !(a.isBroadcast || a.isMulticast)

def isLocal (a : Address) : Bool := a.o0.toNat / 2 % 2 == 1

def chars (a : Address) : List Char :=
  List.intercalate [':'] (a.toBytes.map fun o => Text.hex 2 o.toNat)

def text (a : Address) : String := String.ofList a.chars

inductive TextError where
  | component
  | separator
  deriving DecidableEq, Repr

def TextError.message : TextError → String
  | .component => "invalid ethernet component"
  | .separator => "unexpected number of ethernet address components (should be 6)"

def isSeparator (c : Char) : Bool := c == ':' || c == '-'

/-- Six hexadecimal octets between colons or dashes. A bad octet among the first six is reported
before a wrong number of them. -/
def ofChars (cs : List Char) : Except TextError Address :=
  let parts := cs.splitOnP isSeparator
  match (parts.take 6).mapM (Text.octet? 16) with
  | none => .error .component
  | some octets =>
    match octets, parts.drop 6 with
    | [o0, o1, o2, o3, o4, o5], [] => .ok ⟨o0, o1, o2, o3, o4, o5⟩
    | _, _ => .error .separator

def ofText (s : String) : Except TextError Address := ofChars s.toList

end Address

end Reflector.Ethernet
