/-!
Numbers in the text of addresses, over lists of characters.
-/
namespace Reflector.Text

/-- The value of a digit, letters of either case counting on from ten. -/
def digit? (base : Nat) (c : Char) : Option Nat :=
  let value :=
    if '0' ≤ c ∧ c ≤ '9' then c.toNat - '0'.toNat
    else if 'a' ≤ c ∧ c ≤ 'f' then c.toNat - 'a'.toNat + 10
    else if 'A' ≤ c ∧ c ≤ 'F' then c.toNat - 'A'.toNat + 10
    else base
  if value < base then some value else none

def value (base : Nat) (digits : List Nat) : Nat := digits.foldl (fun n d => n * base + d) 0

/-- A plus sign may stand in front of a number. -/
def unsigned : List Char → List Char
  | '+' :: cs => cs
  | cs => cs

def octet? (base : Nat) (cs : List Char) : Option UInt8 :=
  match unsigned cs with
  | [] => none
  | digits =>
    match digits.mapM (digit? base) with
    | some ds => if value base ds < 256 then some (UInt8.ofNat (value base ds)) else none
    | none => none

def decimal (n : Nat) : List Char := Nat.toDigits 10 n

def hex (width n : Nat) : List Char := (Nat.toDigits 16 n).leftpad width '0'

def unknown (n : Nat) : String := s!"Unknown({n})"

end Reflector.Text
