import Reflector.Operation
/-!
Exclusive use of a value that several contexts share. Who holds it cannot enter it again.
-/
namespace Reflector

structure Exclusive (σ : Type) where
  value : σ
  held : Bool
  deriving DecidableEq, Repr

namespace Exclusive

variable {σ α : Type}

def new (value : σ) : Exclusive σ := ⟨value, false⟩

def onValue (m : Op σ α) : Op (Exclusive σ) α :=
  Op.focus value (fun value e => { e with value }) m

/-- Hold the value for the time of an operation. It is let go also when the operation faults. -/
def hold (m : Op (Exclusive σ) α) : Op (Exclusive σ) α := do
  if (← get).held then throw .reentered
  modify fun e => { e with held := true }
  Op.focus id (fun e _ => { e with held := false }) m

end Exclusive

end Reflector
