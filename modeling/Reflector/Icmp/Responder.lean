import Reflector.Icmp.Packet
/-!
Answering pings in place.
-/
namespace Reflector.Icmp

structure Responder where
  denyEcho : Bool
  checksum : Checksum.Mode
  deriving DecidableEq, Repr

namespace Responder

/-- By how much the type and code word of a request exceeds that of its reply. -/
def echoTypeDelta : UInt16 := 0x0800

/-- A ping becomes its reply by a change of the type; the checksum is patched for that change and
not taken again over the whole payload. -/
def reply : Edit Unit := do
  Packet.setMessageType .echoReply
  let sum ← Op.view Packet.checksum
  Packet.setChecksum (← Checksum.addWithCarry sum echoTypeDelta)

def receive (r : Responder) (packet : Bytes) : Except Fault (Outcome × Bytes) := do
  match ← (Echo.parse r.checksum packet).run with
  | .error _ => return (.drop, packet)
  | .ok echo =>
    if echo.kind = .request ∧ !r.denyEcho then
      return (.reflect packet.length, ← reply.apply packet)
    else return (.drop, packet)

end Responder

end Reflector.Icmp
