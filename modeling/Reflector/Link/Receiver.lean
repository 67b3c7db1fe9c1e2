import Reflector.Link.Filter
import Reflector.Ring.Basic
/-!
Reassembling received fragments into records of the input queue.
-/
namespace Reflector.Link

inductive Received where
  | stored
  | complete
  | dropped
  /-- The ring has no room: nothing was consumed, the same fragment is to be offered again. -/
  | stalled
  deriving DecidableEq, Repr

def Received.name : Received → String
  | .stored => "Partial"
  | .complete => "Complete"
  | .dropped => "Dropped"
  | .stalled => "Stalled"

/-- Waiting for the first fragment of a frame, storing a frame of some length of which some part is
there, or passing over the rest of a dropped frame. -/
inductive Progress where
  | waiting
  | reading (record : Handle) (len written : Nat)
  | skipping
  deriving DecidableEq, Repr

structure Receiver where
  filter : Filter
  fragmentSize : Nat
  progress : Progress
  deriving DecidableEq, Repr

namespace Receiver

variable {α : Type}

/-- The first fragment of a frame must be able to hold what the filter inspects. -/
def new (filter : Filter) (fragmentSize : Nat) : Except Fault Receiver :=
  if fragmentSize < Filter.headerLen then .error (.fragmentTooShort fragmentSize)
  else .ok ⟨filter, fragmentSize, .waiting⟩

def isReceiving (rx : Receiver) : Bool :=
  match rx.progress with
  | .reading .. => true
  | .waiting | .skipping => false

abbrev Step := Op (Receiver × Ring)

def onRing (m : Op Ring α) : Step α := Op.focus (·.2) (fun ring s => (s.1, ring)) m

def setProgress (progress : Progress) : Step Unit :=
  modify fun (rx, ring) => ({ rx with progress }, ring)

def skip (last : Bool) : Step Received := do
  setProgress (if last then .waiting else .skipping)
  return .dropped

/-- Store a fragment, ignoring what is beyond the end of the frame. A frame that ends too early is
given up. -/
def store (record : Handle) (len written : Nat) (fragment : Bytes) (last : Bool) :
    Step Received := do
  let data := fragment.take (len - written)
  onRing (Ring.editPayload record (Edit.write written data))
  let written := written + data.length
  if !last then
    setProgress (.reading record len written)
    return .stored
  else if written < len then
    onRing (Ring.discard record)
    return .dropped
  else
    onRing (Ring.putInput record)
    return .complete

/-- Take the next fragment. The first one of a frame decides about all of it and allocates the
record. -/
def receive (fragment : Bytes) : Step Received := do
  let (rx, _) ← get
  let last := fragment.length < rx.fragmentSize
  setProgress .waiting
  match rx.progress with
  | .reading record len written => store record len written fragment last
  | .skipping => skip last
  | .waiting =>
    match ← rx.filter.frameLen fragment with
    | none => skip last
    | some len =>
      if last ∧ fragment.length < len then return .dropped
      match ← onRing (Ring.allocate len) with
      | some record => store record len 0 fragment last
      | none => return .stalled

def receiveAll : List Bytes → Step (List Received)
  | [] => return []
  | fragment :: rest => do
    let r ← receive fragment
    if r = .stalled then return [r]
    return r :: (← receiveAll rest)

def reset : Step Unit := do
  let (rx, _) ← get
  setProgress .waiting
  match rx.progress with
  | .reading record _ _ => onRing (Ring.discard record)
  | .waiting | .skipping => return

end Receiver

end Reflector.Link
