import Reflector.Bytes
/-!
Frames as fragments of a fixed size. The first shorter fragment, which may be empty, ends a frame.
-/
namespace Reflector.Link

/-- The transfer size of a full speed endpoint. -/
def fragmentSize : Nat := 64

def fragments (size : Nat) (frame : Bytes) : List Bytes :=
  if 0 < size ∧ size ≤ frame.length then frame.take size :: fragments size (frame.drop size)
  else [frame]
termination_by frame.length
decreasing_by simp; omega

/-- The frames that fragments make up behind those of `begun`, and what is left of an unfinished
frame. -/
def joinFragments (size : Nat) (begun : Bytes) : List Bytes → List Bytes × Bytes
  | [] => ([], begun)
  | fragment :: rest =>
    if fragment.length < size then
      let (frames, unfinished) := joinFragments size [] rest
      ((begun ++ fragment) :: frames, unfinished)
    else joinFragments size (begun ++ fragment) rest

end Reflector.Link
