import Reflector.Fault
/-!
Sums and differences of lengths. A length is a number of 64 bits, and a caller may name any of them
for a payload that is not there yet; a sum or difference that is not a length is a fault.
-/
namespace Reflector.Length

def limit : Nat := 0x10000000000000000

def add (a b : Nat) : Except Fault Nat :=
  if a + b < limit then .ok (a + b) else .error .overflow

def sub (a b : Nat) : Except Fault Nat := if b ≤ a then .ok (a - b) else .error .overflow

theorem add_of_lt {a b : Nat} (h : a + b < limit) : add a b = .ok (a + b) := by simp [add, h]

theorem sub_of_le {a b : Nat} (h : b ≤ a) : sub a b = .ok (a - b) := by simp [sub, h]

end Reflector.Length
