import Reflector.Link.Receiver
import Reflector.Ring.Records
/-!
The ring as a line of frames. Each frame keeps its slot from the allocation of its record: it is
being stored, then waits for the protocols, and its answer takes its place.
-/
namespace Reflector.Link

open Reflector.Ring (Record Stage)

inductive Slot where
  | begun
  | received (frame : Bytes)
  | queued (frame : Bytes)
  deriving DecidableEq, Repr

def slotOf (rec : Record) : Slot :=
  match rec.stage with
  | .unfinished => .begun
  | .input => .received rec.payload
  | .output => .queued rec.payload

def slots (r : Ring) : List Slot := r.records.map slotOf

theorem slots_congr {r r' : Ring} (h : r'.records = r.records) : slots r' = slots r :=
  congrArg (List.map slotOf) h

theorem stage_of_queued {rec : Record} {frame : Bytes} (h : slotOf rec = .queued frame) :
    rec.stage = .output := by
  unfold slotOf at h
  split at h
  · cases h
  · cases h
  · assumption

namespace Slot

def waiting (l : List Slot) : List Bytes := l.filterMap fun
  | .received frame => some frame
  | .begun | .queued _ => none

def complete (frame : Bytes) (l : List Slot) : List Slot :=
  l.map fun s => if s = .begun then .received frame else s

def giveUp (l : List Slot) : List Slot := l.filter (· ≠ .begun)

def answer (reply : Option Bytes) : List Slot → List Slot
  | [] => []
  | .received _ :: rest => (reply.map Slot.queued).toList ++ rest
  | s :: rest => s :: answer reply rest

variable {l l' : List Slot} {frame : Bytes}

theorem waiting_append : waiting (l ++ l') = waiting l ++ waiting l' := List.filterMap_append

theorem waiting_queued (frames : List Bytes) : waiting (frames.map .queued) = [] := by
  induction frames with
  | nil => rfl
  | cons frame frames ih => exact ih

theorem complete_append : complete frame (l ++ l') = complete frame l ++ complete frame l' :=
  List.map_append

theorem complete_of_closed (h : .begun ∉ l) : complete frame l = l := by
  refine (List.map_congr_left fun s hs => if_neg fun heq => h ?_).trans (List.map_id l)
  rwa [← heq]

theorem complete_split (h : .begun ∉ l) (h' : .begun ∉ l') :
    complete frame (l ++ .begun :: l') = l ++ .received frame :: l' := by
  calc complete frame (l ++ .begun :: l')
    _ = complete frame l ++ .received frame :: complete frame l' := complete_append
    _ = l ++ .received frame :: l' := by rw [complete_of_closed h, complete_of_closed h']

theorem giveUp_append : giveUp (l ++ l') = giveUp l ++ giveUp l' := List.filter_append ..

theorem giveUp_of_closed (h : .begun ∉ l) : giveUp l = l := by
  refine List.filter_eq_self.2 fun s hs => decide_eq_true fun heq => h ?_
  rwa [← heq]

theorem giveUp_split (h : .begun ∉ l) (h' : .begun ∉ l') : giveUp (l ++ .begun :: l') = l ++ l' := by
  calc giveUp (l ++ .begun :: l')
    _ = giveUp l ++ giveUp l' := giveUp_append
    _ = l ++ l' := by rw [giveUp_of_closed h, giveUp_of_closed h']

theorem waiting_giveUp (l : List Slot) : waiting (giveUp l) = waiting l := by
  induction l with
  | nil => rfl
  | cons s l ih =>
    cases s with
    | begun => exact ih
    | received frame => exact congrArg (frame :: ·) ih
    | queued frame => exact ih

theorem queued_closed (frames : List Bytes) : Slot.begun ∉ frames.map Slot.queued := by simp

theorem answer_queued (reply : Option Bytes) (frames : List Bytes) :
    answer reply (frames.map .queued ++ l) = frames.map .queued ++ answer reply l := by
  induction frames with
  | nil => rfl
  | cons frame frames ih => exact congrArg (Slot.queued frame :: ·) ih

end Slot

theorem waiting_slots {r : Ring} (h : ∀ e ∈ r.records, e.stage ≠ .input) :
    Slot.waiting (slots r) = [] := by
  refine List.filterMap_eq_nil_iff.2 fun s hs => ?_
  obtain ⟨e, he, rfl⟩ := List.mem_map.1 hs
  cases hstage : e.stage with
  | unfinished => rw [slotOf, hstage]
  | input => exact absurd hstage (h e he)
  | output => rw [slotOf, hstage]

namespace Filter

def expected (f : Filter) (fragments : List Bytes) : Nat :=
  match fragments.head?.map f.frameLen with
  | some (.ok (some len)) => len
  | _ => 0

def assemble (f : Filter) (fragments : List Bytes) : Bytes :=
  fragments.flatten.take (f.expected fragments)

theorem expected_single {f : Filter} {fragment : Bytes} {len : Nat}
    (h : f.frameLen fragment = .ok (some len)) : f.expected [fragment] = len := by
  simp [expected, h]

theorem expected_append {f : Filter} {fragments rest : List Bytes} (h : fragments ≠ []) :
    f.expected (fragments ++ rest) = f.expected fragments := by
  cases fragments with
  | nil => exact absurd rfl h
  | cons fragment fragments => rfl

end Filter

/-- What is known of the receiving side from outside: the fragments of the frame being stored, and
the slots. -/
structure Line where
  arrived : List Bytes
  slots : List Slot

namespace Line

def opened (line : Line) : List Slot :=
  if line.arrived = [] then line.slots ++ [.begun] else line.slots

theorem giveUp_opened (line : Line) : Slot.giveUp line.opened = Slot.giveUp line.slots := by
  unfold opened
  split
  · rw [Slot.giveUp_append]
    exact List.append_nil _
  · rfl

def next (f : Filter) (line : Line) (fragment : Bytes) : Received → Line
  | .stored => ⟨line.arrived ++ [fragment], line.opened⟩
  | .complete => ⟨[], Slot.complete (f.assemble (line.arrived ++ [fragment])) line.opened⟩
  | .dropped => ⟨[], Slot.giveUp line.slots⟩
  | .stalled => line

theorem next_queued (f : Filter) (arrived : List Bytes) (frames : List Bytes) (l : List Slot)
    (fragment : Bytes) (reply : Received) :
    next f ⟨arrived, frames.map .queued ++ l⟩ fragment reply =
      ⟨(next f ⟨arrived, l⟩ fragment reply).arrived,
        frames.map .queued ++ (next f ⟨arrived, l⟩ fragment reply).slots⟩ := by
  have hopened : opened ⟨arrived, frames.map .queued ++ l⟩ =
      frames.map .queued ++ opened ⟨arrived, l⟩ := by
    simp only [opened]
    split <;> simp
  have hclosed := Slot.queued_closed frames
  cases reply with
  | stored => simp only [next, hopened]
  | complete => simp only [next, hopened, Slot.complete_append, Slot.complete_of_closed hclosed]
  | dropped => simp only [next, Slot.giveUp_append, Slot.giveUp_of_closed hclosed]
  | stalled => rfl

end Line

end Reflector.Link
