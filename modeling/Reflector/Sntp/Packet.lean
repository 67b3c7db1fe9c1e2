import Reflector.Outcome
import Reflector.Text
/-!
SNTP messages. Only the fixed 48 bytes are handled.
-/
namespace Reflector.Sntp

inductive Leap where
  | noWarning
  | insert
  | delete
  | alarm
  | unknown (code : UInt8)
  deriving DecidableEq, Repr

namespace Leap

def ofCode (code : UInt8) : Leap :=
  if code = 0 then .noWarning
  else if code = 1 then .insert
  else if code = 2 then .delete
  else if code = 3 then .alarm
  else .unknown code

def code : Leap → UInt8
  | .noWarning => 0
  | .insert => 1
  | .delete => 2
  | .alarm => 3
  | .unknown code => code

def rank : Leap → Nat
  | .noWarning => 0
  | .insert => 1
  | .delete => 2
  | .alarm => 3
  | .unknown code => 4 + code.toNat

instance : Ord Leap := ⟨fun a b => compare a.rank b.rank⟩

def name : Leap → String
  | .noWarning => "NoWarning"
  | .insert => "Insert"
  | .delete => "Delete"
  | .alarm => "Alarm"
  | .unknown code => Text.unknown code.toNat

end Leap

inductive Mode where
  | reserved
  | symmetricActive
  | symmetricPassive
  | client
  | server
  | broadcast
  | unknown (code : UInt8)
  deriving DecidableEq, Repr

namespace Mode

def ofCode (code : UInt8) : Mode :=
  if code = 0 then .reserved
  else if code = 1 then .symmetricActive
  else if code = 2 then .symmetricPassive
  else if code = 3 then .client
  else if code = 4 then .server
  else if code = 5 then .broadcast
  else .unknown code

def code : Mode → UInt8
  | .reserved => 0
  | .symmetricActive => 1
  | .symmetricPassive => 2
  | .client => 3
  | .server => 4
  | .broadcast => 5
  | .unknown code => code

def rank : Mode → Nat
  | .reserved => 0
  | .symmetricActive => 1
  | .symmetricPassive => 2
  | .client => 3
  | .server => 4
  | .broadcast => 5
  | .unknown code => 6 + code.toNat

instance : Ord Mode := ⟨fun a b => compare a.rank b.rank⟩

def name : Mode → String
  | .reserved => "Reserved"
  | .symmetricActive => "SymmetricActive"
  | .symmetricPassive => "SymmetricPassive"
  | .client => "Client"
  | .server => "Server"
  | .broadcast => "Broadcast"
  | .unknown code => Text.unknown code.toNat

end Mode

/-- Seconds since 1900-01-01 and a fraction of a second in units of 2 ^ -32. -/
structure Timestamp where
  secs : UInt32
  frac : UInt32
  deriving DecidableEq, Repr

namespace Timestamp

/-- All zeros stand for an unknown time. -/
def unknown : Timestamp := ⟨0, 0⟩

def isUnknown (t : Timestamp) : Bool := t == unknown

def ofBytes (b : Bytes) : Except Fault Timestamp := do pure ⟨← b.word 0, ← b.word 4⟩

def toBytes (t : Timestamp) : Bytes := Bytes.ofWord t.secs.toNat ++ Bytes.ofWord t.frac.toNat

end Timestamp

namespace Packet

def len : Nat := 48

def serverPort : UInt16 := 123

def checkLen (b : Bytes) : Parse Unit := if b.length < len then throw .truncated else pure ()

/-- Two bits of leap warning, three of version and three of mode. -/
def leapVersionMode (b : Bytes) : Except Fault UInt8 := b.octet 0

def leap (b : Bytes) : Except Fault Leap := do
  pure (.ofCode (UInt8.ofNat ((← leapVersionMode b).toNat / 64)))

def version (b : Bytes) : Except Fault UInt8 := do
  pure (UInt8.ofNat ((← leapVersionMode b).toNat / 8 % 8))

def mode (b : Bytes) : Except Fault Mode := do
  pure (.ofCode (UInt8.ofNat ((← leapVersionMode b).toNat % 8)))

def stratum (b : Bytes) : Except Fault UInt8 := b.octet 1

def poll (b : Bytes) : Except Fault Int8 := do pure (← b.octet 2).toInt8

def precision (b : Bytes) : Except Fault Int8 := do pure (← b.octet 3).toInt8

def rootDelay (b : Bytes) : Except Fault UInt32 := b.word 4

def rootDispersion (b : Bytes) : Except Fault UInt32 := b.word 8

def referenceId (b : Bytes) : Except Fault UInt32 := b.word 12

def reference (b : Bytes) : Except Fault Timestamp := do Timestamp.ofBytes (← b.slice 16 24)

def originate (b : Bytes) : Except Fault Timestamp := do Timestamp.ofBytes (← b.slice 24 32)

def receive (b : Bytes) : Except Fault Timestamp := do Timestamp.ofBytes (← b.slice 32 40)

def transmit (b : Bytes) : Except Fault Timestamp := do Timestamp.ofBytes (← b.slice 40 48)

def setLeapVersionMode (leap : Leap) (version : UInt8) (mode : Mode) : Edit Unit :=
  Edit.write 0
    [UInt8.ofNat (leap.code.toNat * 64 + version.toNat % 8 * 8 + mode.code.toNat % 8)]

def setStratum (n : UInt8) : Edit Unit := Edit.write 1 [n]

def setTransmit (t : Timestamp) : Edit Unit := Edit.write 40 t.toBytes

def clear : Edit Unit := Edit.write 0 (List.replicate len 0)

end Packet

structure Message where
  leap : Leap
  version : UInt8
  mode : Mode
  stratum : UInt8
  transmit : Timestamp
  deriving DecidableEq, Repr

namespace Message

def clientRequest (version : UInt8) : Message := ⟨.noWarning, version, .client, 0, .unknown⟩

def parse (b : Bytes) : Parse Message := do
  Packet.checkLen b
  pure ⟨← Packet.leap b, ← Packet.version b, ← Packet.mode b, ← Packet.stratum b,
    ← Packet.transmit b⟩

/-- All other fields are zeroed. -/
def emit (m : Message) : Edit Unit := do
  Packet.clear
  Packet.setLeapVersionMode m.leap m.version m.mode
  Packet.setStratum m.stratum
  Packet.setTransmit m.transmit

theorem exists_parse {b : Bytes} (h : Packet.len ≤ b.length) :
    ∃ m, (parse b).run = .ok (.ok m) := by
  have h48 : 48 ≤ b.length := h
  have h0 : 0 < b.length := by omega
  have h1 : 1 < b.length := by omega
  have hlen : ((b.take 48).drop 40).length = 8 := by simp; omega
  obtain ⟨secs, hsecs⟩ := Bytes.exists_word (b := (b.take 48).drop 40) (i := 0) (by omega)
  obtain ⟨frac, hfrac⟩ := Bytes.exists_word (b := (b.take 48).drop 40) (i := 4) (by omega)
  have ht : Packet.transmit b = .ok ⟨secs, frac⟩ := by
    rw [Packet.transmit, Bytes.slice_of_le (by omega) h48]
    change Timestamp.ofBytes _ = _
    rw [Timestamp.ofBytes, hsecs, hfrac]
    rfl
  have hc : Packet.checkLen b = pure () := by simp [Packet.checkLen, Nat.not_lt.2 h]
  have hl : Packet.leap b = .ok (.ofCode (UInt8.ofNat (b[0].toNat / 64))) := by
    rw [Packet.leap, Packet.leapVersionMode, Bytes.octet_of_lt h0]; rfl
  have hv : Packet.version b = .ok (UInt8.ofNat (b[0].toNat / 8 % 8)) := by
    rw [Packet.version, Packet.leapVersionMode, Bytes.octet_of_lt h0]; rfl
  have hm : Packet.mode b = .ok (.ofCode (UInt8.ofNat (b[0].toNat % 8))) := by
    rw [Packet.mode, Packet.leapVersionMode, Bytes.octet_of_lt h0]; rfl
  have hs : Packet.stratum b = .ok b[1] := Bytes.octet_of_lt h1
  rw [parse, hc, hl, hv, hm, hs, ht]
  exact ⟨_, rfl⟩

def text (m : Message) : String :=
  s!"SNTP v{m.version} mode=" ++ m.mode.name ++ s!" stratum={m.stratum} xmit={m.transmit.secs}." ++
    String.ofList (Text.hex 8 m.transmit.frac.toNat)

end Message

end Reflector.Sntp
