import Reflector.Device
import Reflector.Proofs.Link.Slots
/-!
Runs of a device and what is seen of them from outside. The history of a run is made of its events
alone, without a look into the ring.
-/
namespace Reflector.Device

open Link (Filter Line Received Slot)

variable {σ α : Type}

inductive Action where
  | receive (fragment : Bytes)
  | reset
  | poll
  | sendUdp (destination : Ipv4.Address) (port : Udp.Port) (payload : Bytes)
  | broadcastUdp (sourcePort : Udp.Port) (payload : Bytes)
  | sendSntpRequest (server : Ipv4.Address)
  | send (outLen : Nat)

inductive Event where
  | received (fragment : Bytes) (reply : Received)
  | reset
  | idle
  | handled (frame : Bytes) (reply : Option Bytes)
  | queued (frame : Bytes)
  | refused
  | sent (fragment : Bytes)
  | quiet
  deriving DecidableEq, Repr

def newest (d : Device σ) : Bytes := (d.ring.records.getLast?.map Ring.Record.payload).getD []

def queueFrame (m : Interface → Interface.Queue α) : Op (Device σ) Event := do
  match ← queue m with
  | .ok _ => return .queued (← get).newest
  | .error _ => return .refused

namespace Action

def run (app : Udp.Application σ) : Action → Op (Device σ) Event
  | receive fragment => do return .received fragment (← onReceiver (Link.Receiver.receive fragment))
  | reset => do
    onReceiver Link.Receiver.reset
    return .reset
  | poll => do
    match ← handleOne app with
    | none => return .idle
    | some (frame, reply) => return .handled frame reply
  | sendUdp destination port payload => queueFrame fun i => i.sendUdp destination port payload
  | broadcastUdp sourcePort payload => queueFrame fun i => i.broadcastUdp sourcePort payload
  | sendSntpRequest server => queueFrame fun i => i.sendSntpRequest server
  | send outLen => do
    match ← onTransmitter (Link.Transmitter.send outLen) with
    | none => return .quiet
    | some fragment => return .sent fragment

def Offers (size : Nat) : Action → Prop
  | send outLen => size ≤ outLen
  | _ => True

end Action

def runAll (app : Udp.Application σ) : List Action → Op (Device σ) (List Event)
  | [] => return []
  | action :: actions => do return (← action.run app) :: (← runAll app actions)

/-- What is known of a run: the line of frames since the start, sent ones included; the frames that
were completely received, and those that were handed to the protocols, in order. -/
structure History where
  line : Line
  completed : List Bytes
  handed : List Bytes

namespace History

def start : History := ⟨⟨[], []⟩, [], []⟩

def next (f : Filter) (history : History) : Event → History
  | .received fragment reply => {
      line := history.line.next f fragment reply
      completed := if reply = .complete then
          history.completed ++ [f.assemble (history.line.arrived ++ [fragment])]
        else history.completed
      handed := history.handed }
  | .reset => { history with line := ⟨[], Slot.giveUp history.line.slots⟩ }
  | .handled frame reply => {
      line := ⟨history.line.arrived, Slot.answer reply history.line.slots⟩
      completed := history.completed
      handed := history.handed ++ [frame] }
  | .queued frame =>
    { history with line := ⟨history.line.arrived, history.line.slots ++ [.queued frame]⟩ }
  | .idle | .refused | .sent _ | .quiet => history

end History

def history (f : Filter) (events : List Event) : History :=
  events.foldl (History.next f) History.start

def fragments (events : List Event) : List Bytes := events.filterMap fun
  | .sent fragment => some fragment
  | _ => none

def emitted (size : Nat) (events : List Event) : List Bytes :=
  (Link.joinFragments size [] (fragments events)).1

def begun (size : Nat) (events : List Event) : Bytes :=
  (Link.joinFragments size [] (fragments events)).2

/-- Every complete frame is handed to the protocols once, in order of completion and as it was
received, or waits for that, which none does once there was nothing to process. The frames sent are
the answers and the frames of our own, each once, as they were queued and in the order in which
their records were allocated; what is left of the line starts with the frame that is being sent, if
there is one, and with none to be sent once there was nothing to send. -/
structure Delivers (f : Filter) (size : Nat) (events : List Event) : Prop where
  received : (history f events).completed =
    (history f events).handed ++ Slot.waiting (history f events).line.slots
  idle : events.getLast? = some .idle → Slot.waiting (history f events).line.slots = []
  sent : ∃ rest, (history f events).line.slots = (emitted size events).map .queued ++ rest ∧
    (begun size events = [] ∨
      ∃ frame, rest.head? = some (.queued frame) ∧ begun size events <+: frame) ∧
    (events.getLast? = some .quiet →
      begun size events = [] ∧ ∀ frame, rest.head? ≠ some (.queued frame))

variable {f : Filter} {size : Nat} {events : List Event} {event : Event}

theorem history_append : history f (events ++ [event]) = (history f events).next f event :=
  List.foldl_append ..

end Reflector.Device
