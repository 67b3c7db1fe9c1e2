import Reflector.Ring.Tag
/-!
Faults: a caller broke the rule of an operation. A fault is not an answer to bad input from the
network, which is what the error types of the protocols are for.
-/
namespace Reflector

open Reflector.Ring (Tag)

inductive Fault where
  /-- Bytes beyond the buffer at hand were asked for, or a value does not fit its place. -/
  | outOfBounds
  /-- A sum beyond the width of the number it is kept in, or a difference below zero. -/
  | overflow
  | prefixTooLong
  | recordLength (len : Nat)
  | arenaTooSmall
  | resizeFinished (found : Tag)
  | shrinkBeyond (old new : Nat)
  | shrinkForeign (found : Tag)
  | discardFinished (found : Tag)
  | finishedTwice (found : Tag)
  | releaseNotInput (found : Tag)
  | releaseNotOutput (found : Tag)
  | reattachNotInput (found : Tag)
  | fragmentTooShort (size : Nat)
  | fragmentEmpty
  | reentered
  deriving DecidableEq, Repr

def Fault.message : Fault → Option String
  | .outOfBounds | .overflow | .prefixTooLong | .fragmentEmpty | .reentered => none
  | .recordLength len => some s!"record length {len} out of range"
  | .arenaTooSmall => some "packet buffer too small"
  | .resizeFinished found => some ("resize of a finished record: " ++ found.text)
  | .shrinkBeyond old new => some s!"shrink from {old} to {new}"
  | .shrinkForeign found => some ("shrink of a record not owned: " ++ found.text)
  | .discardFinished found => some ("discard of a finished record: " ++ found.text)
  | .finishedTwice found => some ("record finished twice: " ++ found.text)
  | .releaseNotInput found => some ("release of a record not queued for input: " ++ found.text)
  | .releaseNotOutput found => some ("release of a record not queued for output: " ++ found.text)
  | .reattachNotInput found => some ("reattach of a record not queued for input: " ++ found.text)
  | .fragmentTooShort size => some s!"fragments of {size} bytes"

end Reflector
