import Reflector.Sntp.Epoch
import Reflector.Sntp.Packet
import Reflector.Udp.Application
/-!
Setting a clock from the replies of a time server. The fraction of a second is given in ticks of a
62500 Hz timer.
-/
namespace Reflector.Sntp

/-- A point in time as delivered to the clock: seconds since its epoch and ticks of the timer. -/
structure Time where
  secs : UInt32
  ticks : UInt16
  deriving DecidableEq, Repr

def ticksPerSecond : Nat := 62500

/-- The bits that weigh a fraction. They are meant to be those of 62500, the ticks of a second, but
weigh 62498: the lowest one stands at 1 instead of 2. -/
def tickBits : List Nat := [15, 14, 13, 12, 10, 5, 1]

def tickPlaces : List Nat := (List.range' 1 15).reverse

/-- A fraction on the way to its ticks: what the shifts have left of it, and the sum so far. -/
structure Weighing where
  frac : UInt32
  sum : UInt32

/-- At each place the fraction counts half of what it did before. It is added if the weight has a
bit there. -/
def Weighing.step (w : Weighing) (place : Nat) : Weighing :=
  let half := w.frac >>> 1
  ⟨half, if place ∈ tickBits then w.sum + half else w.sum⟩

def weigh (frac : UInt32) (places : List Nat) : Weighing := places.foldl .step ⟨frac, 0⟩

/-- The ticks of a binary fraction by shifts and sums in words of 32 bits: the sum over all places,
rounded to 16 bits. -/
def ticksOfFraction (frac : UInt32) : UInt16 :=
  (((weigh frac tickPlaces).sum + 0x8000) >>> 16).toUInt16

def protocolVersion : UInt8 := 3

structure Settings where
  epoch : Epoch
  deriving DecidableEq, Repr

namespace Settings

/-- The time in a reply: only a server of our version that is synchronized and tells a time
counts. -/
def process (c : Settings) (payload : Bytes) : Except Fault (Option Time) := do
  if payload.length ≠ Packet.len then return none
  match ← (Message.parse payload).run with
  | .error _ => return none
  | .ok m =>
    if m.mode ≠ .server ∨ m.version ≠ protocolVersion then return none
    if m.leap = .alarm ∨ m.transmit.isUnknown then return none
    return some ⟨c.epoch.ofNetwork m.transmit.secs, ticksOfFraction m.transmit.frac⟩

theorem exists_process (c : Settings) (payload : Bytes) : ∃ t, c.process payload = .ok t := by
  unfold process
  split
  · exact ⟨none, rfl⟩
  · next h =>
    obtain ⟨m, hm⟩ := Message.exists_parse (Nat.le_of_eq (Decidable.not_not.1 h).symm)
    rw [hm]
    simp only [bind, Except.bind]
    split
    · exact ⟨none, rfl⟩
    · split <;> exact ⟨_, rfl⟩

def emitRequest : Emit Nat := do
  if (← get).length < Packet.len then throw .badSize
  (Message.clientRequest protocolVersion).emit
  return Packet.len

end Settings

structure Client where
  server : Ipv4.Address
  settings : Settings
  deriving DecidableEq, Repr

namespace Client

variable {σ : Type}

def timeOfReply (c : Client) (payload : Bytes) (source : Ipv4.Address) (port : Udp.Port)
    (len : Nat) : Except Fault (Option Time) := do
  if source ≠ c.server ∨ port ≠ Packet.serverPort then return none
  c.settings.process (← payload.slice 0 len)

theorem exists_timeOfReply (c : Client) (payload : Bytes) (source : Ipv4.Address)
    (port : Udp.Port) {len : Nat} (h : len ≤ payload.length) :
    ∃ t, c.timeOfReply payload source port len = .ok t := by
  unfold timeOfReply
  split
  · exact ⟨none, rfl⟩
  · rw [Bytes.slice_of_le (Nat.zero_le _) h]
    exact c.settings.exists_process _

def reply (c : Client) (setTime : Time → σ → σ) (payload : Bytes) (source : Ipv4.Address)
    (port : Udp.Port) (len : Nat) (s : σ) : Except Fault σ := do
  match ← c.timeOfReply payload source port len with
  | some time => return setTime time s
  | none => return s

def application (c : Client) (setTime : Time → σ → σ) : Udp.Application σ where
  request := Udp.Application.ignoreRequest
  reply := c.reply setTime
  reply_ok payload source port len s h := by
    obtain ⟨t, ht⟩ := c.exists_timeOfReply payload source port h
    unfold reply
    rw [ht]
    cases t <;> exact ⟨_, rfl⟩

end Client

end Reflector.Sntp
