import Reflector.Udp.Packet
/-!
The applications behind the automaton port, as transitions of their state.
-/
namespace Reflector.Udp

/-- What an application does with a request: bytes for the start of the buffer, as many as fit, and
the length of its answer, if it answers. -/
structure Answer (σ : Type) where
  written : Bytes
  len : Option Nat
  state : σ

structure Application (σ : Type) where
  /-- A request: the buffer up to its end, who asks, the port asked, and how many bytes of the
  buffer are the request. -/
  request : Bytes → Ipv4.Address → Port → Nat → σ → Answer σ
  /-- A reply to an earlier request: the payload, who replies, from which port, and its length. -/
  reply : Bytes → Ipv4.Address → Port → Nat → σ → Except Fault σ
  /-- A reply whose length is within the payload is never a fault. -/
  reply_ok : ∀ payload source port len s, len ≤ payload.length →
    ∃ s', reply payload source port len s = .ok s'

namespace Application

variable {σ : Type}

def ignoreRequest (_ : Bytes) (_ : Ipv4.Address) (_ : Port) (_ : Nat) (s : σ) : Answer σ :=
  ⟨[], none, s⟩

def none : Application σ where
  request := ignoreRequest
  reply _ _ _ _ s := .ok s
  reply_ok _ _ _ _ s _ := ⟨s, rfl⟩

def ofFunctions (request : Bytes → Ipv4.Address → Port → Nat → σ → Answer σ)
    (reply : Bytes → Ipv4.Address → Port → Nat → σ → σ) : Application σ where
  request
  reply payload source port len s := .ok (reply payload source port len s)
  reply_ok payload source port len s _ := ⟨reply payload source port len s, rfl⟩

def ofRequest (request : Bytes → Ipv4.Address → Port → Nat → σ → Answer σ) : Application σ :=
  ofFunctions request fun _ _ _ _ s => s

/-- Requests are offered to the first application and then, unless that answers, to the second, who
sees what the first one wrote. Replies go to both. -/
def orElse (first second : Application σ) : Application σ where
  request buffer source port len s :=
    let a := first.request buffer source port len s
    match a.len with
    | some _ => a
    | Option.none =>
      let buffer := Bytes.overlay buffer 0 a.written
      let b := second.request buffer source port len a.state
      { b with written := Bytes.overlay buffer 0 b.written }
  reply payload source port len s := do
    second.reply payload source port len (← first.reply payload source port len s)
  reply_ok payload source port len s h := by
    obtain ⟨t, ht⟩ := first.reply_ok payload source port len s h
    obtain ⟨u, hu⟩ := second.reply_ok payload source port len t h
    exact ⟨u, by rw [ht]; exact hu⟩

end Application

end Reflector.Udp
