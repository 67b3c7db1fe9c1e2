import Reflector.Ring.Basic
/-!
What is in a ring: the records from the output reader up to the writer, in the order in which the
readers meet them. Released records are left out.
-/
namespace Reflector.Ring

/-- What a record waits for: its writer, the protocols or transmission. -/
inductive Stage where
  | unfinished
  | input
  | output
  deriving DecidableEq, Repr

structure Record where
  handle : Handle
  stage : Stage
  payload : Bytes
  deriving DecidableEq, Repr

/-- A pending record of length zero has the tag of the end of the ring. -/
def Tag.stage? : Tag → Option Stage
  | .endOfRing | .pending _ => some .unfinished
  | .input _ => some .input
  | .output _ => some .output
  | .skip _ | .startOver => none

def recordsAt (r : Ring) (offset : Nat) (tag : Tag) : List Record :=
  tag.stage?.toList.map fun stage =>
    ⟨⟨offset⟩, stage, (r.arena.drop (offset + Tag.width)).take tag.len⟩

def recordsFrom (r : Ring) : Nat → Nat → List Record
  | 0, _ => []
  | steps + 1, offset =>
    if offset = r.writer then []
    else match r.tagAt offset with
      | .ok tag => r.recordsAt offset tag ++ r.recordsFrom steps (tag.successor offset)
      | .error _ => []

def records (r : Ring) : List Record := r.recordsFrom r.arena.length r.outputReader

theorem recordsFrom_writer (r : Ring) (steps : Nat) : r.recordsFrom steps r.writer = [] := by
  cases steps with
  | zero => rfl
  | succ steps => simp [recordsFrom]

theorem records_eq_nil_of_isIdle {r : Ring} (h : r.isIdle = true) : r.records = [] := by
  have h : r.outputReader = r.writer := by simp [isIdle] at h; exact h.1
  rw [records, h, recordsFrom_writer]

theorem records_new {storage : Bytes} {r : Ring} (h : new storage = .ok r) : r.records = [] := by
  simp only [new] at h
  split at h
  · cases h
  · cases h
    exact records_eq_nil_of_isIdle (by simp [isIdle])

end Reflector.Ring
