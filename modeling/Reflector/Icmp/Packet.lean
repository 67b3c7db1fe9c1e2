import Reflector.Checksum
/-!
ICMP messages, as far as echo is concerned. The checksum covers the whole buffer.
-/
namespace Reflector.Icmp

inductive MessageType where
  | echoReply
  | dstUnreachable
  | echoRequest
  | timeExceeded
  | unknown (code : UInt8)
  deriving DecidableEq, Repr

namespace MessageType

def ofCode (code : UInt8) : MessageType :=
  if code = 0 then .echoReply
  else if code = 3 then .dstUnreachable
  else if code = 8 then .echoRequest
  else if code = 11 then .timeExceeded
  else .unknown code

def code : MessageType → UInt8
  | .echoReply => 0
  | .dstUnreachable => 3
  | .echoRequest => 8
  | .timeExceeded => 11
  | .unknown code => code

def rank : MessageType → Nat
  | .echoReply => 0
  | .dstUnreachable => 1
  | .echoRequest => 2
  | .timeExceeded => 3
  | .unknown code => 4 + code.toNat

instance : Ord MessageType := ⟨fun a b => compare a.rank b.rank⟩

def name : MessageType → String
  | .echoReply => "EchoReply"
  | .dstUnreachable => "DstUnreachable"
  | .echoRequest => "EchoRequest"
  | .timeExceeded => "TimeExceeded"
  | .unknown code => Text.unknown code.toNat

def text : MessageType → String
  | .echoReply => "echo reply"
  | .dstUnreachable => "destination unreachable"
  | .echoRequest => "echo request"
  | .timeExceeded => "time exceeded"
  | .unknown code => String.ofList (Text.decimal code.toNat)

end MessageType

namespace Packet

def headerLen : Nat := 8

def checkLen (b : Bytes) : Parse Unit := if b.length < headerLen then throw .truncated else pure ()

def messageType (b : Bytes) : Except Fault MessageType := do pure (.ofCode (← b.octet 0))

def messageCode (b : Bytes) : Except Fault UInt8 := b.octet 1

def checksum (b : Bytes) : Except Fault UInt16 := b.half 2

def echoIdent (b : Bytes) : Except Fault UInt16 := b.half 4

def echoSeqNo (b : Bytes) : Except Fault UInt16 := b.half 6

def payload (b : Bytes) : Except Fault Bytes := b.rest headerLen

def verifyChecksum (b : Bytes) : Except Fault Bool := do
  pure ((← Checksum.data b) == Checksum.ones)

def setMessageType (t : MessageType) : Edit Unit := Edit.write 0 [t.code]

def setMessageCode (n : UInt8) : Edit Unit := Edit.write 1 [n]

def setChecksum (n : UInt16) : Edit Unit := Edit.write 2 (Bytes.ofHalf n.toNat)

def setEchoIdent (n : UInt16) : Edit Unit := Edit.write 4 (Bytes.ofHalf n.toNat)

def setEchoSeqNo (n : UInt16) : Edit Unit := Edit.write 6 (Bytes.ofHalf n.toNat)

def fillChecksum : Edit Unit := do
  setChecksum 0
  let sum ← Op.view Checksum.data
  setChecksum (~~~sum)

def setPayload (data : Bytes) : Edit Unit := do
  discard (Op.view payload)
  Edit.overlay headerLen data

end Packet

inductive EchoKind where
  | request
  | reply
  deriving DecidableEq, Repr

structure Echo where
  kind : EchoKind
  ident : UInt16
  seqNo : UInt16
  payloadLen : Nat
  deriving DecidableEq, Repr

namespace EchoKind

/-- Types without a name are not recognized; of the named ones only echo with code 0 is handled. -/
def ofMessage : MessageType → UInt8 → Except PacketError EchoKind
  | .echoRequest, code => if code = 0 then .ok .request else .error .unsupported
  | .echoReply, code => if code = 0 then .ok .reply else .error .unsupported
  | .unknown _, _ => .error .unrecognized
  | .dstUnreachable, _ | .timeExceeded, _ => .error .unsupported

def parse (b : Bytes) : Parse EchoKind := do
  ExceptT.mk (pure (ofMessage (← Packet.messageType b) (← Packet.messageCode b)))

def messageType : EchoKind → MessageType
  | .request => .echoRequest
  | .reply => .echoReply

end EchoKind

namespace Echo

def answer (e : Echo) : Option Echo :=
  match e.kind with
  | .request => some { e with kind := .reply }
  | .reply => none

def bufferLen (e : Echo) : Except Fault Nat := Length.add Packet.headerLen e.payloadLen

def parse (mode : Checksum.Mode) (b : Bytes) : Parse Echo := do
  Packet.checkLen b
  mode.check (Packet.verifyChecksum b)
  let kind ← EchoKind.parse b
  pure ⟨kind, ← Packet.echoIdent b, ← Packet.echoSeqNo b, (← Packet.payload b).length⟩

def emit (e : Echo) : Edit Unit := do
  Packet.setMessageType e.kind.messageType
  Packet.setMessageCode 0
  Packet.setEchoIdent e.ident
  Packet.setEchoSeqNo e.seqNo
  Packet.setChecksum 0

def text (e : Echo) : String :=
  "ICMPv4 " ++ e.kind.messageType.text ++ s!" id={e.ident} seq={e.seqNo} len={e.payloadLen}"

end Echo

end Reflector.Icmp
