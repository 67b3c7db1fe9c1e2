import Reflector.Bytes
import Reflector.Length
/-!
What becomes of a received packet, and the errors of packets and of sending.
-/
namespace Reflector

/-- A received packet is given back, or was overwritten by an answer of some length from the start
of the buffer that the layer was handed. -/
inductive Outcome where
  | drop
  | reflect (len : Nat)
  deriving DecidableEq, Repr

/-- The outcome one layer further down, whose header stands in front of the answer. -/
def Outcome.withHeader (headerLen : Nat) : Outcome → Except Fault Outcome
  | .drop => return .drop
  | .reflect len => return .reflect (← Length.add headerLen len)

structure Handled (σ : Type) where
  outcome : Outcome
  bytes : Bytes
  state : σ

/-- The layer above: it sees what the headers said and its own payload, which it may change. -/
abbrev Upper (ρ σ : Type) := ρ → Bytes → σ → Except Fault (Handled σ)

def Handled.dropped {σ : Type} (bytes : Bytes) (state : σ) : Handled σ := ⟨.drop, bytes, state⟩

inductive PacketError where
  | truncated
  | wrongChecksum
  | unrecognized
  | malformed
  | unsupported
  deriving DecidableEq, Repr

def PacketError.name : PacketError → String
  | .truncated => "Truncated"
  | .wrongChecksum => "WrongChecksum"
  | .unrecognized => "Unrecognized"
  | .malformed => "Malformed"
  | .unsupported => "Unsupported"

def PacketError.message : PacketError → String
  | .truncated => "truncated packet"
  | .wrongChecksum => "checksum error"
  | .unrecognized => "unrecognized packet"
  | .malformed => "malformed packet"
  | .unsupported => "unsupported option"

abbrev Parse := ExceptT PacketError (Except Fault)

inductive SendError where
  | illegal
  | badSize
  | unreachable
  | exhausted
  deriving DecidableEq, Repr

def SendError.name : SendError → String
  | .illegal => "Illegal"
  | .badSize => "BadSize"
  | .unreachable => "Unreachable"
  | .exhausted => "Exhausted"

def SendError.message : SendError → String
  | .illegal => "operation not permitted"
  | .badSize => "buffer too small"
  | .unreachable => "destination unreachable"
  | .exhausted => "out of packet memory"

/-- A bad packet cannot be operated on, whatever is wrong with it. -/
def SendError.ofPacketError : PacketError → SendError := fun _ => .illegal

abbrev Emit := ExceptT SendError Edit

structure Room where
  start : Nat
  len : Nat
  deriving DecidableEq, Repr

def Emit.into {α : Type} (room : Room) (m : Emit α) : Emit α :=
  ExceptT.mk (Edit.within room.start room.len m.run)

end Reflector
