/-!
The tag in front of every record of the ring: a 16 bit word with the length of the payload in its
low 14 bits and the queue of the record in its high two bits. The all ones word sends readers back
to the start of the arena.
-/
namespace Reflector.Ring

inductive Tag where
  | endOfRing
  | pending (len : Nat)
  | input (len : Nat)
  | output (len : Nat)
  | skip (len : Nat)
  | startOver
  deriving DecidableEq, Repr

namespace Tag

def width : Nat := 2

/-- The largest payload length that a tag can hold next to the reserved all ones word. -/
def maxLen : Nat := 0x3ffe

def startOverWord : Nat := 0xffff

/-- A pending record of length zero reads as the end of the ring; readers stop at both. -/
def ofWord (w : Nat) : Tag :=
  if w = startOverWord then .startOver
  else match w / 0x4000 with
    | 0 => if w = 0 then .endOfRing else .pending w
    | 1 => .input (w % 0x4000)
    | 2 => .output (w % 0x4000)
    | _ => .skip (w % 0x4000)

def toWord : Tag → Nat
  | .endOfRing => 0
  | .startOver => startOverWord
  | .pending len => len
  | .input len => 0x4000 + len
  | .output len => 0x8000 + len
  | .skip len => 0xc000 + len

def len : Tag → Nat
  | .endOfRing | .startOver => 0
  | .pending len | .input len | .output len | .skip len => len

def text : Tag → String
  | .endOfRing => "EndOfRing"
  | .startOver => "StartOver"
  | .pending len => s!"Pending({len})"
  | .input len => s!"Input({len})"
  | .output len => s!"Output({len})"
  | .skip len => s!"Skip({len})"

end Tag

end Reflector.Ring
