import Reflector.Ring.Basic
/-!
Splitting records of the output queue into fragments.
-/
namespace Reflector.Link

structure Transmitter where
  fragmentSize : Nat
  current : Option (Handle × Nat)
  deriving DecidableEq, Repr

namespace Transmitter

variable {α : Type}

def new (fragmentSize : Nat) : Except Fault Transmitter :=
  if fragmentSize = 0 then .error .fragmentEmpty else .ok ⟨fragmentSize, none⟩

def isSending (tx : Transmitter) : Bool := tx.current.isSome

abbrev Step := Op (Transmitter × Ring)

def onRing (m : Op Ring α) : Step α := Op.focus (·.2) (fun ring s => (s.1, ring)) m

def setCurrent (current : Option (Handle × Nat)) : Step Unit :=
  modify fun (tx, ring) => ({ tx with current }, ring)

def takeCurrent : Step (Option (Handle × Nat)) := do
  let (tx, _) ← get
  setCurrent none
  match tx.current with
  | some current => return some current
  | none => return (← onRing Ring.getOutput).map fun record => (record, 0)

/-- The next fragment, for a buffer of `outLen` bytes, if any frame is queued. With the last
fragment of a frame, which may be empty, its record is released. -/
def send (outLen : Nat) : Step (Option Bytes) := do
  let (tx, _) ← get
  match ← takeCurrent with
  | none => return none
  | some (record, sent) =>
    let payload ← Op.view fun s => s.2.payload record
    if payload.length < sent then throw .outOfBounds
    let fragment := (payload.drop sent).take tx.fragmentSize
    if outLen < fragment.length then throw .outOfBounds
    if fragment.length < tx.fragmentSize then onRing (Ring.releaseOutput record)
    else setCurrent (some (record, sent + fragment.length))
    return some fragment

def sendUpTo (outLen : Nat) : Nat → Step (List Bytes)
  | 0 => return []
  | count + 1 => do
    match ← send outLen with
    | none => return []
    | some fragment => return fragment :: (← sendUpTo outLen count)

/-- More fragments than there can be. After the current record the queue holds fewer records than
the arena has bytes, and none has more fragments than the arena has bytes, for its last fragment is
the only one that may be empty. Records that overlap count in full. -/
def maxFragments (r : Ring) : Nat := (r.arena.length + 1) * (r.arena.length + 1)

def sendAll : Step (List Bytes) := do
  let (tx, ring) ← get
  sendUpTo tx.fragmentSize (maxFragments ring)

end Transmitter

end Reflector.Link
