import Reflector.Ethernet.Frame
/-!
The Ethernet side of a device: which frames are taken, and how an answer goes back.
-/
namespace Reflector.Ethernet

structure Station where
  address : Address
  deriving DecidableEq, Repr

namespace Station

variable {σ : Type}

def minFrameLen : Nat := 42

def accepts (st : Station) (destination : Address) : Bool :=
  st.address == destination || destination.isBroadcast

def back (st : Station) (header : Header) : Header := ⟨st.address, header.source, header.etherType⟩

def deliver (st : Station) (upper : Upper EtherType σ) (header : Header) (frame : Bytes) (s : σ) :
    Except Fault (Handled σ) := do
  let up ← upper header.etherType (← Frame.payload frame) s
  let frame := frame.take Frame.headerLen ++ up.bytes
  match up.outcome with
  | .drop => return .dropped frame up.state
  | .reflect len =>
    return ⟨← (Outcome.reflect len).withHeader Frame.headerLen,
      ← (st.back header).emit.apply frame, up.state⟩

def receive (st : Station) (upper : Upper EtherType σ) (frame : Bytes) (s : σ) :
    Except Fault (Handled σ) := do
  if frame.length < minFrameLen then return .dropped frame s
  match ← (Header.parse frame).run with
  | .error _ => return .dropped frame s
  | .ok header =>
    if !st.accepts header.destination then return .dropped frame s
    match header.etherType with
    | .unknown _ => return .dropped frame s
    | .ipv4 | .arp => st.deliver upper header frame s

def emit (st : Station) (destination : Address) (etherType : EtherType) : Emit Room := do
  let len := (← get).length
  if len < Frame.headerLen then throw .badSize
  Header.emit ⟨st.address, destination, etherType⟩
  return ⟨Frame.headerLen, len - Frame.headerLen⟩

end Station

end Reflector.Ethernet
