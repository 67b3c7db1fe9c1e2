import Reflector.Sntp.Client
/-!
Applications that answer requests by a table of rules and record what they were handed.
-/
namespace Reflector.Udp

structure Rule where
  port : Option Port
  payload : Option Bytes
  written : Bytes
  len : Option Nat
  deriving DecidableEq, Repr

def Rule.decides (r : Rule) (port : Port) (payload : Bytes) : Bool :=
  r.port.all (· == port) && r.payload.all (· == payload)

inductive Event where
  | request (payload : Bytes) (room : Nat) (source : Ipv4.Address) (port : Port) (len : Nat)
  | reply (payload : Bytes) (source : Ipv4.Address) (port : Port) (len : Nat)
  | time (t : Sntp.Time)
  deriving DecidableEq, Repr

abbrev Record (ι : Type) := Array (ι × Event)

namespace RuleTable

variable {ι : Type}

def serve (id : ι) (rules : List Rule) (room : Bytes) (source : Ipv4.Address) (port : Port)
    (len : Nat) (events : Record ι) : Answer (Record ι) :=
  let payload := room.take len
  let events := events.push (id, .request payload room.length source port len)
  match rules.find? (·.decides port payload) with
  | some r => ⟨r.written, r.len, events⟩
  | none => ⟨[], none, events⟩

def hear (id : ι) (payload : Bytes) (source : Ipv4.Address) (port : Port) (len : Nat)
    (events : Record ι) : Record ι :=
  events.push (id, .reply payload source port len)

def requestsOnly (id : ι) (rules : List Rule) : Application (Record ι) := .ofRequest (serve id rules)

def application (id : ι) (rules : List Rule) : Application (Record ι) :=
  .ofFunctions (serve id rules) (hear id)

def recordTime (id : ι) (client : Sntp.Client) : Application (Record ι) :=
  client.application fun t events => events.push (id, .time t)

end RuleTable

end Reflector.Udp
