import Reflector.Interface.Receive
import Reflector.Proofs.Packets.Writing
/-!
The answers of each layer: what was asked, under which conditions it is answered, and the bytes of
the answer. A lower layer puts its own header in front of the answer of the upper one.
-/
namespace Reflector

variable {σ : Type}

inductive Arp.Resolver.Answers (r : Resolver) (packet : Bytes) : Bytes → Prop
  | reply {m : Message} (heads : m.Heads packet) (operation : m.operation = .request)
      (target : m.targetProtocol = r.subnet.address) : r.Answers packet (r.back m).bytes

inductive Icmp.Responder.Answers (r : Responder) (message : Bytes) : Bytes → Prop
  | echo {e : Echo} {sum : UInt16} (heads : e.Heads message)
      (passes : r.checksum.Passes (Packet.verifyChecksum message)) (kind : e.kind = .request)
      (allowed : r.denyEcho = false) (checksum : Packet.checksum message = .ok sum) :
      r.Answers message (Responder.replied message sum)

def Udp.Application.serve (app : Application σ) (ip : Ipv4.Header) (header : Header) (room : Bytes)
    (s : σ) : Answer σ := app.request room ip.source header.destination header.payloadLen s

def Udp.Application.left (app : Application σ) (ip : Ipv4.Header) (header : Header) (room : Bytes)
    (s : σ) : Bytes := room.overlay 0 (app.serve ip header room s).written

theorem Udp.Application.length_left (app : Application σ) (ip : Ipv4.Header) (header : Header)
    (room : Bytes) (s : σ) : (app.left ip header room s).length = room.length :=
  Bytes.length_overlay _ (Nat.zero_le _)

/-- A request is answered with the start of what the application left in the room. -/
inductive Udp.Service.Answers (svc : Service) (app : Application σ) (ip : Ipv4.Header)
    (packet : Bytes) (s : σ) : Bytes → Prop
  | datagram {header : Header} {len : Nat} (heads : header.Heads packet)
      (passes : svc.checksum.Passes (Packet.verifyChecksum ip.source ip.destination packet))
      (within : Packet.headerLen + header.payloadLen ≤ ip.payloadLen)
      (request : header.source = svc.port)
      (decided : (app.serve ip header (packet.drop Packet.headerLen) s).len = some len)
      (fits : Packet.headerLen + len ≤ packet.length) :
      svc.Answers app ip packet s ((header.back len).bytes ++
        (app.left ip header (packet.drop Packet.headerLen) s).take len)

inductive Ipv4.Host.Answers (host : Host) (upper : Header → Bytes → Bytes → Prop)
    (packet : Bytes) : Bytes → Prop
  | under {header : Header} {a : Bytes} (heads : header.Heads packet)
      (passes : host.checksum.Passes (Packet.verifyChecksum packet))
      (accepted : host.subnet.accepts header.destination = true)
      (unicast : header.source.isUnicast = true)
      (above : upper header (packet.drop Packet.plainHeaderLen) a) :
      host.Answers upper packet ((host.back header a.length).bytes host.checksum ++ a)

inductive Ethernet.Station.Answers (st : Station) (upper : EtherType → Bytes → Bytes → Prop)
    (frame : Bytes) : Bytes → Prop
  | under {header : Header} {a : Bytes} (long : minFrameLen ≤ frame.length)
      (heads : header.Heads frame) (accepted : st.accepts header.destination = true)
      (above : upper header.etherType (frame.drop Frame.headerLen) a) :
      st.Answers upper frame ((st.back header).bytes ++ a)

namespace Interface

inductive AnswersTransport (i : Interface) (app : Udp.Application σ) (s : σ) (ip : Ipv4.Header)
    (payload : Bytes) : Bytes → Prop
  | icmp {a : Bytes} (protocol : ip.protocol = .icmp)
      (answer : i.responder.Answers (payload.take ip.payloadLen) a) :
      i.AnswersTransport app s ip payload a
  | udp {a : Bytes} (protocol : ip.protocol = .udp)
      (answer : i.service.Answers app ip payload s a) : i.AnswersTransport app s ip payload a

inductive AnswersNetwork (i : Interface) (app : Udp.Application σ) (s : σ) (payload : Bytes) :
    Ethernet.EtherType → Bytes → Prop
  | arp {a : Bytes} (answer : i.resolver.Answers payload a) : i.AnswersNetwork app s payload .arp a
  | ipv4 {a : Bytes} (answer : i.host.Answers (i.AnswersTransport app s) payload a) :
      i.AnswersNetwork app s payload .ipv4 a

def Answers (i : Interface) (app : Udp.Application σ) (s : σ) (frame : Bytes) : Bytes → Prop :=
  i.station.Answers (fun etherType payload => i.AnswersNetwork app s payload etherType) frame

variable {i : Interface} {app : Udp.Application σ} {s : σ} {frame payload a : Bytes}

theorem AnswersTransport.length_le {ip : Ipv4.Header} (h : i.AnswersTransport app s ip payload a) :
    Udp.Packet.headerLen ≤ a.length := by
  cases h with
  | icmp protocol answer =>
    cases answer with
    | echo heads =>
      have hlen : Icmp.Packet.headerLen ≤ (payload.take ip.payloadLen).length :=
        heads.length ▸ Nat.le_add_right _ _
      rwa [Icmp.Responder.length_replied (Nat.le_trans (by decide) hlen)]
  | udp protocol answer =>
    cases answer with
    | datagram =>
      rw [List.length_append, Udp.Header.length_bytes]
      exact Nat.le_add_right _ _

theorem AnswersNetwork.length_le {etherType : Ethernet.EtherType}
    (h : i.AnswersNetwork app s payload etherType a) : Arp.Packet.plainLen ≤ a.length := by
  cases h with
  | arp answer =>
    cases answer with
    | reply => exact Nat.le_refl _
  | ipv4 answer =>
    cases answer with
    | under heads passes accepted unicast above =>
      rw [List.length_append, Ipv4.Header.length_bytes]
      exact Nat.add_le_add_left above.length_le Ipv4.Packet.plainHeaderLen

/-- The shortest answers are those to ARP and empty ones to ping and UDP. -/
theorem Answers.length_le (h : i.Answers app s frame a) :
    Ethernet.Station.minFrameLen ≤ a.length := by
  cases h with
  | under long heads accepted above =>
    rw [List.length_append, Ethernet.Header.length_bytes]
    exact Nat.add_le_add_left (AnswersNetwork.length_le above) Ethernet.Frame.headerLen

/-- A host on the link asks for the address of the standard device. -/
def question : Bytes :=
  Ethernet.Header.bytes ⟨⟨2, 0, 0, 0, 0, 9⟩, .broadcast, .arp⟩ ++
    Arp.Message.bytes ⟨.request, ⟨2, 0, 0, 0, 0, 9⟩, .ofOctets 192 168 200 9, .zero,
      Config.standard.subnet.address⟩

/-- Somebody pings the standard device, from an address of its choice. -/
def ping (source : Ipv4.Address) : Bytes :=
  let echo : Icmp.Echo := ⟨.request, 1, 1, 0⟩
  Ethernet.Header.bytes ⟨⟨2, 0, 0, 0, 0, 9⟩, Config.standard.hardware, .ipv4⟩ ++
    Ipv4.Header.bytes ⟨source, Config.standard.subnet.address, .icmp, 8, 64⟩ .manual ++
    echo.withChecksum (echo.checksum [])

/-- A host on the link sends a request of two bytes to the standard device. -/
def enquiry : Bytes :=
  Ethernet.Header.bytes ⟨⟨2, 0, 0, 0, 0, 9⟩, Config.standard.hardware, .ipv4⟩ ++
    Ipv4.Header.bytes ⟨.ofOctets 192 168 200 9, .ofOctets 192 168 200 40, .udp, 10, 64⟩ .manual ++
    Udp.Header.bytes ⟨Udp.Service.automatonPort, 2000, 2⟩ ++ [1, 2]

end Interface

end Reflector
