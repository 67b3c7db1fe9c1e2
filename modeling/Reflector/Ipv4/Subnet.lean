import Reflector.Ipv4.Address
/-!
An own address together with the subnet that is reachable on the link. Masks are 32 bit numbers
with the network bits set.
-/
namespace Reflector.Ipv4

/-- The network mask of a prefix: all ones without the host bits. A word has no host bits left when
it is shifted by its whole width, which a shift does not do. -/
def maskOfPrefix (len : Nat) : UInt32 :=
  ~~~(if len < 32 then 0xffffffff >>> UInt32.ofNat len else 0)

def Address.mask (a : Address) (len : Nat) : Except Fault Address :=
  if len ≤ 32 then .ok ⟨a.value &&& maskOfPrefix len⟩ else .error .prefixTooLong

structure Subnet where
  address : Address
  prefixLen : Nat
  prefixLen_le : prefixLen ≤ 32 := by decide
  deriving DecidableEq, Repr

namespace Subnet

def new (address : Address) (len : Nat) : Except Fault Subnet :=
  if h : len ≤ 32 then .ok ⟨address, len, h⟩ else .error .prefixTooLong

def netmask (s : Subnet) : Address := ⟨maskOfPrefix s.prefixLen⟩

/-- A mask begins with a network bit and has no zeros but those at its end. -/
def ofNetmask (address netmask : Address) : Option Subnet :=
  let mask := netmask.value.toBitVec
  if mask.clz = 0 ∧ mask.ctz = (~~~mask).cpop then
    some ⟨address, mask.cpop.toNat, mask.toNat_cpop_le⟩
  else none

/-- Subnets of one or two addresses have none to spare for the network and the broadcast. -/
def hasBroadcast (s : Subnet) : Bool := s.prefixLen < 31

def broadcast (s : Subnet) : Option Address :=
  if s.hasBroadcast then some ⟨s.address.value ||| ~~~s.netmask.value⟩ else none

def network (s : Subnet) (a : Address) : UInt32 := a.value &&& s.netmask.value

def contains (s : Subnet) (a : Address) : Bool := s.network s.address == s.network a

def hostPart (s : Subnet) (a : Address) : UInt32 := a.value &&& ~~~s.netmask.value

/-- Packets for the own address, the directed broadcast and the limited broadcast are ours. -/
def accepts (s : Subnet) (a : Address) : Bool :=
  s.address == a || s.broadcast == some a || a.isBroadcast

def chars (s : Subnet) : List Char := s.address.chars ++ '/' :: Text.decimal s.prefixLen

def text (s : Subnet) : String := String.ofList s.chars

/-- An address, a slash and a decimal number of at most 32. The first slash counts. -/
def ofChars (cs : List Char) : Except Address.TextError Subnet :=
  match cs.dropWhile (· != '/') with
  | [] => .error .noSubnet
  | _ :: rest => do
    let address ← Address.ofChars (cs.takeWhile (· != '/'))
    match Text.octet? 10 rest with
    | some len =>
      if h : len.toNat ≤ 32 then .ok ⟨address, len.toNat, h⟩ else .error .prefixLen
    | none => .error .prefixLen

def ofText (s : String) : Except Address.TextError Subnet := ofChars s.toList

end Subnet

end Reflector.Ipv4
