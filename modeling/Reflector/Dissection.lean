import Reflector.Arp.Packet
import Reflector.Icmp.Packet
import Reflector.Sntp.Packet
import Reflector.Udp.Packet
/-!
What is in a packet, field by field under their names.
-/
namespace Reflector

inductive Value where
  | absent
  | flag (b : Bool)
  | num (n : Int)
  | text (s : String)
  | bytes (b : Bytes)
  | list (vs : List Value)

namespace Value

instance : Coe Bool Value := ⟨flag⟩
instance : Coe Nat Value := ⟨fun n => num n⟩
instance : Coe UInt8 Value := ⟨fun n => num n.toNat⟩
instance : Coe UInt16 Value := ⟨fun n => num n.toNat⟩
instance : Coe UInt32 Value := ⟨fun n => num n.toNat⟩
instance : Coe Int8 Value := ⟨fun n => num n.toInt⟩
instance : Coe String Value := ⟨text⟩
instance : Coe Bytes Value := ⟨bytes⟩
instance : Coe Ethernet.Address Value := ⟨fun a => text a.text⟩
instance : Coe Ipv4.Address Value := ⟨fun a => text a.text⟩
instance : Coe Sntp.Timestamp Value := ⟨fun t => list [t.secs, t.frac, t.isUnknown]⟩

end Value

abbrev Fields := List (String × Value)

namespace Dissection

def ethernetHeader (h : Ethernet.Header) : Fields :=
  [("dst", h.destination), ("src", h.source), ("ethertype", h.etherType.name),
    ("header_len", Ethernet.Frame.headerLen)]

def ethernetFrame (b : Bytes) : Except Fault Fields := do
  let payload ← Ethernet.Frame.payload b
  let header : Ethernet.Header :=
    ⟨← Ethernet.Frame.source b, ← Ethernet.Frame.destination b, ← Ethernet.Frame.etherType b⟩
  return [("dst", header.destination), ("src", header.source), ("ethertype", header.etherType.name),
    ("payload", payload), ("display", header.text), ("header_len", Ethernet.Frame.headerLen),
    ("buffer_len", Ethernet.Frame.headerLen + payload.length)]

def arpMessage (m : Arp.Message) : Fields :=
  [("display", m.text), ("buffer_len", Arp.Packet.plainLen)]

open Arp.Packet in
def arpPacket (b : Bytes) : Except Fault Fields := do
  return [("hardware_type", (← hardwareType b).name), ("protocol_type", (← protocolType b).name),
    ("hardware_len", ← hardwareLen b), ("protocol_len", ← protocolLen b),
    ("operation", (← operation b).name), ("sha", ← senderHardware b), ("spa", ← senderProtocol b),
    ("tha", ← targetHardware b), ("tpa", ← targetProtocol b)]

def ipv4Header (h : Ipv4.Header) : Fields :=
  [("src", h.source), ("dst", h.destination), ("protocol", h.protocol.name),
    ("payload_len", h.payloadLen), ("hop_limit", h.hopLimit), ("display", h.text),
    ("buffer_len", Ipv4.Packet.plainHeaderLen)]

open Ipv4.Packet in
def ipv4Packet (b : Bytes) : Except Fault Fields := do
  return [("version", ← version b), ("header_len", ← headerLen b), ("dscp", ← dscp b),
    ("total_len", ← totalLen b), ("ident", ← ident b), ("dont_frag", ← dontFragment b),
    ("more_frags", ← moreFragments b), ("frag_offset", ← fragmentOffset b),
    ("is_fragment", ← isFragment b), ("hop_limit", ← hopLimit b),
    ("protocol", (← protocol b).name), ("checksum", ← checksum b), ("src", ← source b),
    ("dst", ← destination b), ("verify", ← verifyChecksum b), ("payload", ← payload b)]

def icmpEcho (e : Icmp.Echo) : Except Fault Fields := do
  return [("kind", e.kind.messageType.name), ("ident", e.ident), ("seq_no", e.seqNo),
    ("payload_len", e.payloadLen), ("display", e.text), ("buffer_len", ← e.bufferLen),
    ("echo_reply", match e.answer with
      | some a => .text a.text
      | none => .absent)]

open Icmp.Packet in
def icmpPacket (b : Bytes) : Except Fault Fields := do
  return [("type", (← messageType b).name), ("code", ← messageCode b), ("checksum", ← checksum b),
    ("ident", ← echoIdent b), ("seq_no", ← echoSeqNo b), ("verify", ← verifyChecksum b),
    ("payload", ← payload b)]

def udpHeader (h : Udp.Header) : Fields :=
  [("display", h.text), ("header_len", Udp.Packet.headerLen), ("payload_len", h.payloadLen)]

open Udp.Packet in
def udpPacket (sender receiver : Ipv4.Address) (b : Bytes) : Except Fault Fields := do
  return [("src_port", ← source b), ("dst_port", ← destination b), ("len", ← totalLen b),
    ("checksum", ← checksum b), ("verify", ← verifyChecksum sender receiver b),
    ("payload", ← payload b)]

def sntpMessage (m : Sntp.Message) : Fields :=
  [("leap", m.leap.name), ("version", m.version), ("mode", m.mode.name), ("stratum", m.stratum),
    ("transmit", m.transmit), ("display", m.text), ("buffer_len", Sntp.Packet.len)]

open Sntp.Packet in
def sntpPacket (b : Bytes) : Except Fault Fields := do
  return [("li_vn_mode", ← leapVersionMode b), ("leap", (← leap b).name), ("version", ← version b),
    ("mode", (← mode b).name), ("stratum", ← stratum b), ("poll", ← poll b),
    ("precision", ← precision b), ("root_delay", ← rootDelay b),
    ("root_dispersion", ← rootDispersion b), ("ref_id", ← referenceId b),
    ("reference", ← reference b), ("originate", ← originate b), ("receive", ← receive b),
    ("transmit", ← transmit b)]

end Dissection

inductive Format where
  | ethernet
  | arp
  | ipv4
  | icmp
  | udp
  | sntp
  deriving DecidableEq, Repr

namespace Format

structure Context where
  checksum : Checksum.Mode
  source : Ipv4.Address
  destination : Ipv4.Address

def checkLen : Format → Bytes → Parse Unit
  | .ethernet => Ethernet.Frame.checkLen
  | .arp => Arp.Packet.checkLen
  | .ipv4 => Ipv4.Packet.checkLen
  | .icmp => Icmp.Packet.checkLen
  | .udp => Udp.Packet.checkLen
  | .sntp => Sntp.Packet.checkLen

def fields (c : Context) : Format → Bytes → Except Fault Fields
  | .ethernet => Dissection.ethernetFrame
  | .arp => Dissection.arpPacket
  | .ipv4 => Dissection.ipv4Packet
  | .icmp => Dissection.icmpPacket
  | .udp => Dissection.udpPacket c.source c.destination
  | .sntp => Dissection.sntpPacket

def parse (c : Context) (f : Format) (b : Bytes) : Parse Fields :=
  match f with
  | .ethernet => return Dissection.ethernetHeader (← Ethernet.Header.parse b)
  | .arp => return Dissection.arpMessage (← Arp.Message.parse b)
  | .ipv4 => return Dissection.ipv4Header (← Ipv4.Header.parse c.checksum b)
  | .icmp => do Dissection.icmpEcho (← Icmp.Echo.parse c.checksum b)
  | .udp => return Dissection.udpHeader (← Udp.Header.parse c.checksum c.source c.destination b)
  | .sntp => return Dissection.sntpMessage (← Sntp.Message.parse b)

end Format

end Reflector
