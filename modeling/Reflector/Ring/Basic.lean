import Reflector.Ring.Arena
/-!
A ring of packet records for both directions. One writer appends records; once finished they wait
for the protocols or for transmission. The input reader hands out received records, which are
released or turned into answers in place; the output reader hands out records to transmit. The
output reader never passes a record that still waits for the protocols, so it is always the slowest
cursor and answers keep the order of their requests. Records released away from a cursor are marked
and reclaimed once both readers have passed.
-/
namespace Reflector

/-- The last alignment unit of the arena, from `limit` on, is reserved for the end marker behind a
record that reaches the very end. -/
structure Ring where
  arena : Bytes
  limit : Nat
  writer : Nat
  inputReader : Nat
  outputReader : Nat
  deriving DecidableEq, Repr

structure Handle where
  offset : Nat
  deriving DecidableEq, Repr

namespace Ring

variable {α : Type}

def new (storage : Bytes) : Except Fault Ring :=
  let units := storage.length / align
  if units < 2 then .error .arenaTooSmall
  else .ok ⟨storage.put 0 (Bytes.ofHalf Tag.endOfRing.toWord), (units - 1) * align, 0, 0, 0⟩

def zeroed (size : Nat) : Except Fault Ring := new (List.replicate size 0)

def capacity (r : Ring) : Nat := r.limit

/-- Both queues are drained and nothing is being written. Released records count until a reader
has passed them. -/
def isIdle (r : Ring) : Bool := r.outputReader == r.writer && r.inputReader == r.writer

def tagAt (r : Ring) (offset : Nat) : Except Fault Tag := Tag.read r.arena offset

def editArena (m : Edit α) : Op Ring α := Op.focus arena (fun arena r => { r with arena }) m

def setTag (offset : Nat) (t : Tag) : Op Ring Unit := editArena (Tag.write offset t)

def lenFits (r : Ring) (len : Nat) : Bool := len ≤ Tag.maxLen && span len ≤ r.limit

/-- The places for a new record: at the writer, at the front of an empty ring, where all cursors
start again, or at the front behind the other records, which readers are sent to. -/
inductive Place where
  | next
  | restart
  | wrap
  deriving DecidableEq, Repr

/-- A record must end before the output reader if that is ahead, so that a full ring is never
taken for an empty one. -/
def place (r : Ring) (len : Nat) : Option Place :=
  if r.outputReader ≤ r.writer then
    if nextRecord r.writer len ≤ r.limit then some .next
    else if r.writer = r.outputReader then some .restart
    else if nextRecord 0 len < r.outputReader then some .wrap
    else none
  else if nextRecord r.writer len < r.outputReader then some .next
  else none

def startOf (r : Ring) : Place → Nat
  | .next => r.writer
  | .restart | .wrap => 0

/-- Make way to a place: the readers of an empty ring start again at the front, those of another one
are sent there from the writer. -/
def enter : Place → Op Ring Unit
  | .next => pure ()
  | .restart => modify fun r => { r with inputReader := 0, outputReader := 0 }
  | .wrap => do setTag (← get).writer .startOver

def movePayload (old oldLen new : Nat) : Op Ring Unit := do
  setTag old (.skip oldLen)
  let start := old + Tag.width
  let payload ← Op.view (·.arena.slice start (start + oldLen))
  editArena (Edit.write (new + Tag.width) payload)

def appendAt (place : Place) (len : Nat) (moved : Option (Nat × Nat)) : Op Ring Handle := do
  let offset := (← get).startOf place
  enter place
  setTag offset (.pending len)
  moved.forM fun (old, oldLen) => movePayload old oldLen offset
  let next := nextRecord offset len
  setTag next .endOfRing
  modify fun r => { r with writer := next }
  return ⟨offset⟩

def append (len : Nat) (moved : Option (Nat × Nat)) : Op Ring (Option Handle) := do
  match (← get).place len with
  | none => return none
  | some place => return some (← appendAt place len moved)

/-- A new record, invisible to the readers until it is finished. Without room there is none. -/
def allocate (len : Nat) : Op Ring (Option Handle) := do
  if (← get).lenFits len then append len none else return none

/-- The length of a record that is still being written. A record of length zero looks like the end
of the ring. -/
def unfinishedLen (h : Handle) (otherwise : Tag → Fault) : Op Ring Nat := do
  match ← (← get).tagAt h.offset with
  | .endOfRing => return 0
  | .pending len => return len
  | found => throw (otherwise found)

def giveBack (offset oldLen len : Nat) : Op Ring Unit := do
  let next := nextRecord offset len
  let oldNext := nextRecord offset oldLen
  if next = oldNext then return
  if (← get).writer = oldNext then
    modify fun r => { r with writer := next }
    setTag next .endOfRing
  else setTag next (.skip (oldNext - next - Tag.width))

/-- Change the length of a record that is still being written. It shrinks in place, and grows in
place if nothing was allocated behind it and there is room; otherwise it moves. On failure the old
handle comes back. -/
def resize (h : Handle) (len : Nat) : Op Ring (Except Handle Handle) := do
  let oldLen ← unfinishedLen h .resizeFinished
  let r ← get
  if !r.lenFits len then return .error h
  let next := nextRecord h.offset len
  let oldNext := nextRecord h.offset oldLen
  if next ≤ oldNext then
    giveBack h.offset oldLen len
    setTag h.offset (.pending len)
    return .ok h
  let bounded := if h.offset < r.outputReader then next < r.outputReader else next ≤ r.limit
  if oldNext = r.writer ∧ bounded then
    setTag next .endOfRing
    setTag h.offset (.pending len)
    modify fun r => { r with writer := next }
    return .ok h
  match ← append len (some (h.offset, oldLen)) with
  | some new => return .ok new
  | none => return .error h

def shrink (h : Handle) (len : Nat) : Op Ring Unit := do
  let tag ← (← get).tagAt h.offset
  if tag.len < len then throw (.shrinkBeyond tag.len len)
  let new ← match tag with
    | .endOfRing | .pending _ => pure (Tag.pending len)
    | .input _ => pure (Tag.input len)
    | found => throw (.shrinkForeign found)
  giveBack h.offset tag.len len
  setTag h.offset new

def discard (h : Handle) : Op Ring Unit := do
  let len ← unfinishedLen h .discardFinished
  if (← get).writer = nextRecord h.offset len then
    modify fun r => { r with writer := h.offset }
    setTag h.offset .endOfRing
  else setTag h.offset (.skip len)

def putInput (h : Handle) : Op Ring Unit := do
  setTag h.offset (.input (← unfinishedLen h .finishedTwice))

def putOutput (h : Handle) : Op Ring Unit := do
  setTag h.offset (.output (← unfinishedLen h .finishedTwice))

structure Walk where
  passed : List (Nat × Tag)
  stop : Nat
  tag : Except Fault Tag

def walkUpTo (r : Ring) (passes : Tag → Bool) : Nat → Nat → Walk
  | 0, offset => ⟨[], offset, r.tagAt offset⟩
  | steps + 1, offset =>
    match r.tagAt offset with
    | .ok tag =>
      if passes tag then
        let walk := r.walkUpTo passes steps (tag.successor offset)
        { walk with passed := (offset, tag) :: walk.passed }
      else ⟨[], offset, .ok tag⟩
    | .error e => ⟨[], offset, .error e⟩

/-- Walk on from a record as long as the tags found may be passed. A walk that does not go in
circles has fewer steps than the arena has bytes. -/
def walk (r : Ring) (passes : Tag → Bool) (offset : Nat) : Walk :=
  r.walkUpTo passes r.arena.length offset

def passedByInput : Tag → Bool
  | .output _ | .skip _ | .startOver => true
  | _ => false

def passedByOutput : Tag → Bool
  | .skip _ | .startOver => true
  | _ => false

def isOutput : Tag → Bool
  | .output _ => true
  | _ => false

/-- The oldest record that waits for the protocols. An output reader at the same place is pulled
along, but not over a record that waits for transmission. -/
def getInput : Op Ring (Option Handle) := do
  let r ← get
  let walk := r.walk passedByInput r.inputReader
  let first := (walk.passed.find? fun (_, tag) => isOutput tag).map (·.1)
  let dragged := r.outputReader == r.inputReader
  set { r with outputReader := if dragged then first.getD r.outputReader else r.outputReader }
  let tag ← walk.tag
  modify fun r => { r with
    inputReader := walk.stop
    outputReader := if dragged && first.isNone then walk.stop else r.outputReader }
  match tag with
  | .input _ => return some ⟨walk.stop⟩
  | _ => return none

/-- The oldest record that waits for transmission, if no older one waits for the protocols. An
input reader that is met on the way is pulled along. -/
def getOutput : Op Ring (Option Handle) := do
  let r ← get
  let walk := r.walk passedByOutput r.outputReader
  let dragged := walk.passed.any fun (offset, _) => offset == r.inputReader
  let tag ← walk.tag
  set { r with
    outputReader := walk.stop
    inputReader := if dragged then walk.stop else r.inputReader }
  match tag with
  | .output _ => return some ⟨walk.stop⟩
  | _ => return none

def inputLen (h : Handle) (otherwise : Tag → Fault) : Op Ring Nat := do
  match ← (← get).tagAt h.offset with
  | .input len => return len
  | found => throw (otherwise found)

def releaseInput (h : Handle) : Op Ring Unit := do
  let len ← inputLen h .releaseNotInput
  let next := nextRecord h.offset len
  let r ← get
  if r.inputReader = h.offset ∧ r.outputReader = h.offset then
    set { r with inputReader := next, outputReader := next }
  else
    set { r with inputReader := if r.inputReader = h.offset then next else r.inputReader }
    setTag h.offset (.skip len)

def releaseOutput (h : Handle) : Op Ring Unit := do
  let r ← get
  match ← r.tagAt h.offset with
  | .output len =>
    let next := nextRecord h.offset len
    if r.outputReader = h.offset then
      set { r with
        outputReader := next
        inputReader := if r.inputReader = h.offset then next else r.inputReader }
    else setTag h.offset (.skip len)
  | found => throw (.releaseNotOutput found)

def reattachOutput (h : Handle) : Op Ring Unit := do
  let len ← inputLen h .reattachNotInput
  setTag h.offset (.output len)
  if (← get).inputReader = h.offset then
    modify fun r => { r with inputReader := nextRecord h.offset len }

def len (r : Ring) (h : Handle) : Except Fault Nat := do pure (← r.tagAt h.offset).len

def payload (r : Ring) (h : Handle) : Except Fault Bytes := do
  let start := h.offset + Tag.width
  r.arena.slice start (start + (← r.len h))

def editPayload (h : Handle) (m : Edit α) : Op Ring α := do
  let payload ← Op.view (·.payload h)
  editArena (Edit.within (h.offset + Tag.width) payload.length m)

def pushInput (data : Bytes) : Op Ring (Option Handle) := do
  match ← allocate data.length with
  | none => return none
  | some h =>
    editPayload h (Edit.write 0 data)
    putInput h
    return some h

def popOutputs : Nat → Op Ring (List (Handle × Bytes))
  | 0 => return []
  | count + 1 => do
    match ← getOutput with
    | none => return []
    | some h =>
      let payload ← Op.view (·.payload h)
      releaseOutput h
      return (h, payload) :: (← popOutputs count)

/-- Empty the output queue, as far as no record waits for the protocols. There are fewer records
than bytes in the arena. -/
def drainOutput : Op Ring (List (Handle × Bytes)) := do popOutputs (← get).arena.length

def text (r : Ring) : String :=
  "PacketBuffer \x7b capacity: " ++ toString r.capacity ++ ", next_writer: " ++ toString r.writer ++
    ", input_reader: " ++ toString r.inputReader ++ ", output_reader: " ++
    toString r.outputReader ++ " \x7d"

end Ring

end Reflector
