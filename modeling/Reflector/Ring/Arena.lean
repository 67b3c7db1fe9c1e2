import Reflector.Bytes
import Reflector.Length
/-!
Records in the arena. A record is its tag word, low byte first, and the payload behind it, padded so
that the next record starts aligned.
-/
namespace Reflector.Ring

def align : Nat := 4

def span (len : Nat) : Nat := (len + Tag.width + (align - 1)) / align * align

/-- The span of a length that need not be one of a record. Rounding up starts a whole unit above. -/
def checkedSpan (len : Nat) : Except Fault Nat := do
  let _ ← Length.add len (Tag.width + align)
  return span len

def nextRecord (offset len : Nat) : Nat := offset + span len

namespace Tag

def encode (t : Tag) : Except Fault Nat :=
  if t.len ≤ maxLen then .ok t.toWord else .error (.recordLength t.len)

def read (b : Bytes) (offset : Nat) : Except Fault Tag := do
  let lo ← b.octet offset
  let hi ← b.octet (offset + 1)
  pure (ofWord (hi.toNat * 0x100 + lo.toNat))

def write (offset : Nat) (t : Tag) : Edit Unit := do
  Edit.write offset (Bytes.ofHalf (← t.encode)).reverse

def successor (offset : Nat) : Tag → Nat
  | .startOver => 0
  | t => nextRecord offset t.len

end Tag

end Reflector.Ring
