import Reflector.Interface.Receive
import Reflector.Interface.Send
import Reflector.Link.Fragment
import Reflector.Link.Receiver
import Reflector.Link.Transmitter
import Reflector.Ring.Exclusive
/-!
The whole device: a ring between the link on one side and the protocols on the other. Every step is
atomic, the two sides may be interleaved in any order.
-/
namespace Reflector

structure Device (σ : Type) where
  ring : Ring
  interface : Interface
  receiver : Link.Receiver
  transmitter : Link.Transmitter
  state : σ

namespace Device

variable {σ τ α : Type}

def onRing (m : Op Ring α) : Op (Device σ) α :=
  Op.focus ring (fun ring d => { d with ring }) m

def onReceiver (m : Link.Receiver.Step α) : Op (Device σ) α :=
  Op.focus (fun d => (d.receiver, d.ring)) (fun (receiver, ring) d => { d with receiver, ring }) m

def onTransmitter (m : Link.Transmitter.Step α) : Op (Device σ) α :=
  Op.focus (fun d => (d.transmitter, d.ring))
    (fun (transmitter, ring) d => { d with transmitter, ring }) m

def receive (app : Udp.Application σ) (frame : Bytes) : Op (Device σ) (Outcome × Bytes) := do
  let d ← get
  let handled ← d.interface.receive app frame d.state
  let (interface, state) := handled.state
  set { d with interface, state }
  return (handled.outcome, handled.bytes)

/-- Process the oldest received record, if there is one. Its answer is queued in the same record,
without an answer the record is released. The frame that was processed is returned, and the
answer. -/
def handleOne (app : Udp.Application σ) : Op (Device σ) (Option (Bytes × Option Bytes)) := do
  match ← onRing Ring.getInput with
  | none => return none
  | some h =>
    let frame ← Op.view (·.ring.payload h)
    let (outcome, bytes) ← receive app frame
    onRing (Ring.editPayload h (Edit.write 0 bytes))
    match outcome with
    | .reflect len =>
      onRing do
        Ring.shrink h len
        Ring.reattachOutput h
      return some (frame, some (bytes.take len))
    | .drop =>
      onRing (Ring.releaseInput h)
      return some (frame, none)

def pollOne (app : Udp.Application σ) : Op (Device σ) Bool := do
  return (← handleOne app).isSome

/-- Repeat a step, at most so many times, until it has nothing to do; how often it had is
returned. -/
def repeatStep (step : Op τ Bool) : Nat → Op τ Nat
  | 0 => return 0
  | rounds + 1 => do
    if ← step then return (← repeatStep step rounds) + 1 else return 0

/-- Each round takes one record out of the input queue, of which there are fewer than bytes in
the arena; where records overlap, an answer may bring up further ones. -/
def maxRounds (d : Device σ) : Nat := (d.ring.arena.length + 1) * (d.ring.arena.length + 1)

def poll (app : Udp.Application σ) : Op (Device σ) Nat := do
  repeatStep (pollOne app) (← get).maxRounds

/-- Process all received records of a shared device, each one in its own critical section. -/
def pollShared (app : Udp.Application σ) : Op (Exclusive (Device σ)) Nat := do
  repeatStep (Exclusive.hold (Exclusive.onValue (pollOne app))) (← get).value.maxRounds

def queue (m : Interface → Interface.Queue α) : Op (Device σ) (Except SendError α) := do
  onRing (m (← get).interface).run

def receiveFrame (frame : Bytes) : Op (Device σ) (List Link.Received) := do
  let size := (← get).receiver.fragmentSize
  onReceiver (Link.Receiver.receiveAll (Link.fragments size frame))

/-- Send all that is queued: the frames that the fragments make up, and what is left of an
unfinished one. -/
def sendFrames : Op (Device σ) (List Bytes × Bytes) := do
  let size := (← get).transmitter.fragmentSize
  return Link.joinFragments size [] (← onTransmitter Link.Transmitter.sendAll)

end Device

end Reflector
