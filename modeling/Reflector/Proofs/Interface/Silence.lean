import Reflector.Proofs.Interface.Receive
import Reflector.Proofs.Packets.RoundTrip
/-!
Answers are not answered again: what each protocol sends as an answer, it does not take for a
question. The one exception are datagrams whose ports are both the automaton port.
-/
namespace Reflector

variable {σ τ : Type} {packet message payload frame a b : Bytes}

theorem Arp.Resolver.Answers.silent {r r' : Resolver} (h : r.Answers packet a) :
    ¬r'.Answers a b := by
  intro h'
  cases h with
  | @reply m =>
    cases h' with
    | @reply m' heads operation =>
      have hback := ((r.back m).bytes_heads [] rfl fun _ => Operation.noConfusion).operation
      have hrequest := heads.operation
      rw [List.append_nil] at hback
      rw [operation, hback] at hrequest
      cases hrequest

theorem Icmp.Responder.Answers.silent {r r' : Responder} (h : r.Answers message a) {k : Nat} :
    ¬r'.Answers (a.take k) b := by
  intro h'
  cases h with
  | @echo e sum =>
    cases h' with
    | @echo e' sum' heads passes kind =>
      obtain ⟨rest, hrest⟩ : ∃ rest, replied message sum = 0 :: rest := ⟨_, rfl⟩
      have hrequest := heads.messageType
      rw [hrest, kind] at hrequest
      cases k with
      | zero => cases hrequest
      | succ k => cases hrequest

/-- What answers another answer was asked from and at the automaton port. -/
theorem Udp.Service.Answers.again {svc svc' : Service} {app : Application σ}
    {app' : Application τ} {s : σ} {s' : τ} {ip ip' : Ipv4.Header} (hport : svc.port = svc'.port)
    (h : svc.Answers app ip packet s a) (h' : svc'.Answers app' ip' a s' b) :
    Packet.source packet = .ok svc.port ∧ Packet.destination packet = .ok svc.port := by
  cases h with
  | @datagram header len heads passes within request =>
    cases h' with
    | @datagram header' len' heads' passes' within' request' =>
      have hsource : header.destination = header'.source :=
        Except.ok.inj (((header.back len).bytes_source _).symm.trans heads'.source)
      rw [request', ← hport] at hsource
      exact ⟨request ▸ heads.source, hsource ▸ heads.destination⟩

theorem Ipv4.Host.Answers.again {host host' : Host} {above above' : Header → Bytes → Bytes → Prop}
    (h : host.Answers above packet a) (h' : host'.Answers above' a b) :
    ∃ header header' x y, header.Heads packet ∧ header'.protocol = header.protocol ∧
      above header (packet.drop Packet.plainHeaderLen) x ∧ above' header' x y := by
  cases h with
  | @under header x heads _ _ _ habove =>
    cases h' with
    | @under header' y heads' _ _ _ habove' =>
      have hprotocol : Packet.protocol ((host.back header x.length).bytes host.checksum ++ x) =
          .ok (.ofCode header.protocol.code) := rfl
      rw [heads'.protocol, heads.protocol_known, Except.ok.injEq] at hprotocol
      exact ⟨header, header', x, y, heads, hprotocol, habove, habove'⟩

theorem Ethernet.Station.Answers.again {st st' : Station}
    {above above' : EtherType → Bytes → Bytes → Prop} (h : st.Answers above frame a)
    (h' : st'.Answers above' a b) :
    ∃ (header : Header) (x y : Bytes), Frame.etherType frame = .ok header.etherType ∧
      above header.etherType (frame.drop Frame.headerLen) x ∧
      above' (.ofCode header.etherType.code) x y := by
  cases h with
  | @under header x _ heads _ habove =>
    cases h' with
    | @under header' y _ heads' _ habove' =>
      have htype := (st.back header).bytes_etherType x
      rw [heads'.etherType, Except.ok.injEq] at htype
      exact ⟨header, x, y, heads.etherType, habove, htype ▸ habove'⟩

namespace Interface

structure Loops (port : Udp.Port) (frame : Bytes) : Prop where
  etherType : Ethernet.Frame.etherType frame = .ok .ipv4
  protocol : Ipv4.Packet.protocol (frame.drop 14) = .ok .udp
  source : Udp.Packet.source (frame.drop 34) = .ok port
  destination : Udp.Packet.destination (frame.drop 34) = .ok port

variable {i i' : Interface} {app : Udp.Application σ} {app' : Udp.Application τ} {s : σ} {s' : τ}

theorem AnswersTransport.again {ip ip' : Ipv4.Header} (hport : i.port = i'.port)
    (h : i.AnswersTransport app s ip payload a) (h' : i'.AnswersTransport app' s' ip' a b)
    (hprotocol : ip'.protocol = ip.protocol) :
    ip.protocol = .udp ∧ Udp.Packet.source payload = .ok i.port ∧
      Udp.Packet.destination payload = .ok i.port := by
  cases h with
  | icmp protocol answer =>
    cases h' with
    | icmp _ answer' => exact absurd answer' answer.silent
    | udp protocol' _ => rw [protocol', protocol] at hprotocol; cases hprotocol
  | udp protocol answer =>
    cases h' with
    | icmp protocol' _ => rw [protocol', protocol] at hprotocol; cases hprotocol
    | udp _ answer' =>
      have hservice : i.service.port = i'.service.port := hport
      exact ⟨protocol, answer.again hservice answer'⟩

/-- An answer is answered only if it runs in a loop. -/
theorem Answers.loops (hport : i.port = i'.port) (h : i.Answers app s frame a)
    (h' : i'.Answers app' s' a b) : Loops i.port frame := by
  -- an answer is of the protocol of its question, on every layer
  obtain ⟨header, x, y, htype, hnetwork, hnetwork'⟩ := Ethernet.Station.Answers.again h h'
  generalize header.etherType = etherType at htype hnetwork hnetwork'
  cases hnetwork with
  | arp answer =>
    cases hnetwork' with
    | arp answer' => exact absurd answer' answer.silent
  | ipv4 answer =>
    cases hnetwork' with
    | ipv4 answer' =>
      obtain ⟨ip, ip', x, y, heads, hprotocol, htransport, htransport'⟩ := answer.again answer'
      obtain ⟨hudp, hsource, hdestination⟩ := htransport.again hport htransport' hprotocol
      rw [List.drop_drop] at hsource hdestination
      exact ⟨htype, hudp ▸ heads.protocol, hsource, hdestination⟩

/-- No device answers the answer of another one, unless the ports of the request are both the
automaton port. -/
theorem answer_unanswered (i i' : Interface) (app : Udp.Application σ) (app' : Udp.Application τ)
    (s : σ) (s' : τ) (hport : i.port = i'.port) (h : frame.length < Length.limit)
    (hloops : ¬Loops i.port frame) :
    ∃ handled, i.receive app frame s = .ok handled ∧ ∀ n, handled.outcome = .reflect n →
      ∃ handled', i'.receive app' (handled.bytes.take n) s' = .ok handled' ∧
        handled'.outcome = .drop := by
  obtain ⟨handled, hreceive, hfits⟩ := i.receive_total app s h
  refine ⟨handled, hreceive, fun n hn => ?_⟩
  obtain ⟨hin, hanswer⟩ := hfits.answer n hn
  have hlen : (handled.bytes.take n).length < Length.limit := by
    rw [List.length_take_of_le (hfits.length ▸ hin)]
    exact Nat.lt_of_le_of_lt hin h
  obtain ⟨handled', hreceive', hfits'⟩ := i'.receive_total app' s' hlen
  refine ⟨handled', hreceive', ?_⟩
  cases he : handled'.outcome with
  | drop => rfl
  | reflect m => exact absurd (hanswer.loops hport (hfits'.answer m he).2) hloops

def answerAll : Udp.Application Unit := .ofRequest fun _ _ _ _ s => ⟨[], some 0, s⟩

theorem answer_unanswered_question :
    (new .standard []).port = (new .standard []).port ∧ question.length < Length.limit ∧
      ¬Loops (new .standard []).port question ∧
      ∃ handled handled', (new .standard []).receive answerAll question () = .ok handled ∧
        handled.outcome = .reflect 42 ∧
        (new .standard []).receive answerAll (handled.bytes.take 42) () = .ok handled' ∧
        handled'.outcome = .drop := by
  have hloops : ¬Loops (new .standard []).port question := fun h =>
    nomatch (Ethernet.Header.bytes_etherType _ _).symm.trans h.etherType
  refine ⟨rfl, by decide, hloops, ?_⟩
  obtain ⟨handled, hreceive, hanswer⟩ := answer_unanswered (new .standard []) (new .standard [])
    answerAll answerAll () () rfl (by decide : question.length < Length.limit) hloops
  have houtcome : handled.outcome = .reflect 42 := by
    cases Except.ok.inj (hreceive.symm.trans rfl)
    rfl
  obtain ⟨handled', hreceive', hdrop⟩ := hanswer 42 houtcome
  exact ⟨handled, handled', hreceive, houtcome, hreceive', hdrop⟩

def loop : Bytes :=
  Ethernet.Header.bytes ⟨Config.standard.hardware, Config.standard.hardware, .ipv4⟩ ++
    Ipv4.Header.bytes ⟨.ofOctets 192 168 200 41, .ofOctets 192 168 200 40, .udp, 8, 64⟩ .manual ++
    Udp.Header.bytes ⟨Udp.Service.automatonPort, Udp.Service.automatonPort, 0⟩

/-- Two devices answer each other: what one of them answers is a request again. -/
theorem loop_answered : ∃ handled handled',
    (new .standard []).receive answerAll loop () = .ok handled ∧ handled.outcome = .reflect 42 ∧
    ((new .standard []).setSubnet ⟨.ofOctets 192 168 200 41, 24, by decide⟩).receive answerAll
      (handled.bytes.take 42) () = .ok handled' ∧ handled'.outcome = .reflect 42 :=
  ⟨_, _, rfl, rfl, rfl, rfl⟩

end Interface

end Reflector
