import Reflector.Proofs.Interface.Questions
/-!
Which frames the application is called for, told by their bytes, and with what. A frame without a
datagram for it never reaches the application.
-/
namespace Reflector

variable {σ : Type}

namespace Udp

def Call.buffer : Call → Bytes
  | .request buffer _ _ _ | .reply buffer _ _ _ => buffer

def Call.len : Call → Nat
  | .request _ _ _ len | .reply _ _ _ len => len

def Application.noting (app : Application σ) : Application (σ × List Call) where
  request buffer source port len s :=
    let answer := app.request buffer source port len s.1
    ⟨answer.written, answer.len, answer.state, s.2 ++ [.request buffer source port len]⟩
  reply buffer source port len s := do
    return (← app.reply buffer source port len s.1, s.2 ++ [.reply buffer source port len])
  reply_ok buffer source port len s h := by
    obtain ⟨t, ht⟩ := app.reply_ok buffer source port len s.1 h
    exact ⟨(t, _), by rw [ht]; rfl⟩

theorem Call.run_noting {app : Application σ} {c : Call} {s t : σ} (log : List Call)
    (h : c.run app s = .ok t) : c.run app.noting (s, log) = .ok (t, log ++ [c]) := by
  cases c with
  | request buffer source port len =>
    cases h
    rfl
  | reply buffer source port len => exact (congrArg (· >>= _) h).trans rfl

end Udp

namespace Interface

structure Datagram where
  source : Ipv4.Address
  destination : Ipv4.Address
  total : UInt16
  sourcePort : Udp.Port
  destinationPort : Udp.Port
  len : UInt16

/-- The frame carries a datagram from or to the automaton port, all there, whose checksum is absent,
or ignored, or right. -/
structure Carries (i : Interface) (frame : Bytes) (d : Datagram) : Prop where
  datagram : i.ReachesHost frame d.source d.destination 17 d.total
  source : frame.half 34 = .ok d.sourcePort
  destination : frame.half 36 = .ok d.destinationPort
  len : frame.half 38 = .ok d.len
  header : 8 ≤ d.len.toNat
  inside : d.len.toNat ≤ d.total.toNat - 20
  verified : i.checksum = .manual → frame.half 40 = .ok 0 ∨
    Udp.Packet.sum d.source d.destination (frame.drop 34) = .ok Checksum.ones
  port : d.sourcePort = i.port ∨ d.destinationPort = i.port

/-- The call for a datagram. A request comes with all of the buffer behind the headers. -/
def call (i : Interface) (frame : Bytes) (d : Datagram) : Udp.Call :=
  if d.sourcePort = i.port then
    .request (frame.drop 42) d.source d.destinationPort (d.len.toNat - 8)
  else
    .reply ((frame.take (34 + d.len.toNat)).drop 42) d.source d.sourcePort (d.len.toNat - 8)

variable {i : Interface} {frame : Bytes}

theorem drop_headers : (frame.drop 14).drop 20 = frame.drop 34 := List.drop_drop

theorem carries_iff {d : Datagram} : i.Carries frame d ↔ ∃ link ip udp,
    i.Hears frame link (.datagram ip udp) ∧ ip.source = d.source ∧
      ip.destination = d.destination ∧ d.total.toNat = 20 + ip.payloadLen ∧
      udp.source = d.sourcePort ∧ udp.destination = d.destinationPort ∧
      d.len.toNat = 8 + udp.payloadLen := by
  have hheads (udp : Udp.Header) := Udp.Header.heads_iff (h := udp) (b := frame.drop 34)
  simp only [Bytes.half_drop, List.length_drop, Nat.reduceAdd] at hheads
  constructor
  · intro hd
    obtain ⟨link, ip, takes, type, host, hsource, hdestination, protocol, htotal⟩ :=
      (reachesHost_iff (.inr rfl)).1 hd.datagram
    have hheader := hd.header
    have hinside := hd.inside
    have hframe := hd.datagram.inside
    let udp : Udp.Header := ⟨d.sourcePort, d.destinationPort, d.len.toNat - 8⟩
    have hlen : d.len.toNat = 8 + udp.payloadLen := (Nat.add_sub_cancel' hheader).symm
    have heads : udp.Heads (frame.drop 34) :=
      (hheads udp).2 ⟨by omega, hd.source, hd.destination, d.len, hd.len, hlen⟩
    have passes : i.checksum.Passes
        (Udp.Packet.verifyChecksum ip.source ip.destination (frame.drop 34)) := by
      intro hmode
      rw [heads.holds.verifyChecksum_iff, Bytes.half_drop, hsource, hdestination]
      exact hd.verified hmode
    have service : i.service.Takes ip udp ((frame.drop 14).drop 20) := by
      rw [drop_headers]
      exact ⟨heads, passes, by rw [Udp.Packet.headerLen]; omega, hd.port⟩
    exact ⟨link, ip, udp, .datagram takes type host protocol service, hsource, hdestination,
      htotal, rfl, rfl, hlen⟩
  · obtain ⟨source, destination, total, sourcePort, destinationPort, len⟩ := d
    rintro ⟨link, ip, udp, hears, rfl, rfl, htotal, rfl, rfl, hlen⟩
    dsimp only at htotal hlen
    cases hears with
    | datagram takes type host protocol service =>
      rw [drop_headers] at service
      have hreaches := (reachesHost_iff (.inr rfl)).2
        ⟨link, ip, takes, type, host, rfl, rfl, protocol, htotal⟩
      obtain ⟨-, hsource, hdestination, len', hhalf, hsum⟩ := (hheads udp).1 service.heads
      obtain rfl : len' = len := UInt16.toNat_inj.1 (hsum.trans hlen.symm)
      have hwithin := service.within
      rw [Udp.Packet.headerLen] at hwithin
      refine ⟨hreaches, hsource, hdestination, hhalf, hlen ▸ Nat.le_add_right _ _, ?_,
        fun hmode => ?_, service.port⟩
      · dsimp only
        omega
      · have hpasses := service.passes hmode
        rwa [service.heads.holds.verifyChecksum_iff, Bytes.half_drop] at hpasses

theorem Hears.carries {link : Ethernet.Header} {ip : Ipv4.Header} {udp : Udp.Header}
    (h : i.Hears frame link (.datagram ip udp)) :
    ∃ d, i.Carries frame d ∧ d.total.toNat = 20 + ip.payloadLen := by
  have hears := h
  cases h with
  | datagram takes type host protocol service =>
    have htotal := UInt16.toNat_ofNat_of_lt host.heads.short
    have hlen := UInt16.toNat_ofNat_of_lt service.heads.holds.short
    exact ⟨⟨ip.source, ip.destination, _, udp.source, udp.destination, _⟩,
      carries_iff.2 ⟨link, ip, udp, hears, rfl, rfl, htotal, rfl, rfl, hlen⟩, htotal⟩

theorem call_eq {ip : Ipv4.Header} {udp : Udp.Header} {d : Datagram}
    (hsource : ip.source = d.source) (hport : udp.source = d.sourcePort)
    (hport' : udp.destination = d.destinationPort) (hlen : d.len.toNat = 8 + udp.payloadLen) :
    i.service.call ip udp ((frame.drop 14).drop 20) = i.call frame d := by
  have hpayload : d.len.toNat - 8 = udp.payloadLen := by omega
  have hrequest : ((frame.drop 14).drop 20).drop 8 = frame.drop 42 := by
    rw [drop_headers, List.drop_drop]
  have hreply : (((frame.drop 14).drop 20).take (8 + udp.payloadLen)).drop 8 =
      (frame.take (34 + d.len.toNat)).drop 42 := by
    rw [drop_headers, List.take_drop, List.drop_drop, hlen]
  unfold Udp.Service.call call
  rw [hsource, hport, hport', hpayload, ← hrequest, ← hreply]
  rfl

theorem call_len_le {d : Datagram} (hd : i.Carries frame d) :
    (i.call frame d).len ≤ (i.call frame d).buffer.length := by
  have hframe := hd.datagram.inside
  have hinside := hd.inside
  have hheader := hd.header
  unfold call
  split
  · simp only [Udp.Call.len, Udp.Call.buffer, List.length_drop]
    omega
  · simp only [Udp.Call.len, Udp.Call.buffer, List.length_drop, List.length_take]
    omega

theorem Hears.noted {link : Ethernet.Header} {ip : Ipv4.Header} {udp : Udp.Header}
    (hd : i.Hears frame link (.datagram ip udp)) (app : Udp.Application σ) (s : σ)
    (h : frame.length < Length.limit) : ∃ handled noted, i.receive app frame s = .ok handled ∧
      i.receive app.noting frame (s, []) = .ok noted ∧ handled.state.1 = i ∧ noted.state =
        (i, handled.state.2, [i.service.call ip udp ((frame.drop 14).drop 20)]) := by
  obtain ⟨handled, hreceive, hkept, hrun⟩ := receive_datagram app s h hd
  obtain ⟨noted, hnoted, hkept', hrun'⟩ := receive_datagram app.noting (s, []) h hd
  have hlog := Except.ok.inj (hrun'.symm.trans (Udp.Call.run_noting [] hrun))
  exact ⟨handled, noted, hreceive, hnoted, hkept, Prod.ext hkept' hlog⟩

theorem Carries.noted {d : Datagram} (hd : i.Carries frame d) (app : Udp.Application σ) (s : σ)
    (h : frame.length < Length.limit) : ∃ handled noted, i.receive app frame s = .ok handled ∧
      i.receive app.noting frame (s, []) = .ok noted ∧ handled.state.1 = i ∧
      noted.state = (i, handled.state.2, [i.call frame d]) := by
  obtain ⟨link, ip, udp, hears, hsource, -, -, hport, hport', hlen⟩ := carries_iff.1 hd
  have hnoted := hears.noted app s h
  rwa [call_eq hsource hport hport' hlen] at hnoted

theorem Carries.receive_reply {d : Datagram} {app : Udp.Application σ} {s t : σ}
    (hd : i.Carries frame d) (hreply : d.sourcePort ≠ i.port) (h : frame.length < Length.limit)
    (hrun : (i.call frame d).run app s = .ok t) :
    i.receive app frame s = .ok (.dropped frame (i, t)) := by
  obtain ⟨link, ip, udp, hears, hsource, -, -, hport, hport', hlen⟩ := carries_iff.1 hd
  obtain ⟨takes, type, host, protocol, service⟩ := hears_datagram_iff.1 hears
  rw [← call_eq hsource hport hport' hlen] at hrun
  have hup : i.receiveTransport app ip ((frame.drop 14).drop 20) s =
      .ok (.dropped ((frame.drop 14).drop 20) t) := by
    rw [receiveTransport, protocol]
    exact Udp.Service.receive_reply service (hport ▸ hreply) hrun
  rw [receive_transport h takes type host hup, Handled.under_dropped, Handled.under_dropped]
  rfl

/-- A request goes to the application, and nothing else changes the state. -/
theorem Carries.receive_call {d : Datagram} (hd : i.Carries frame d) (app : Udp.Application σ)
    (s : σ) (h : frame.length < Length.limit) : Succeeds (i.receive app frame s) fun handled =>
      handled.state.1 = i ∧ (i.call frame d).run app s = .ok handled.state.2 := by
  obtain ⟨link, ip, udp, hears, hsource, -, -, hport, hport', hlen⟩ := carries_iff.1 hd
  rw [← call_eq hsource hport hport' hlen]
  exact receive_datagram app s h hears

theorem receive_uncalled (h : frame.length < Length.limit) (hd : ∀ d, ¬i.Carries frame d) :
    ∃ alone : Handled Interface, ∀ {σ : Type} (app : Udp.Application σ) (s : σ),
      i.receive app frame s = .ok (alone.map fun j => (j, s)) := by
  by_cases hnothing : ∀ link content, ¬i.Hears frame link content
  · exact ⟨.dropped frame i, fun app s => receive_unheard h hnothing⟩
  obtain ⟨link, content, hears⟩ : ∃ link content, i.Hears frame link content := by
    simpa using hnothing
  cases content with
  | message m => exact ⟨_, fun app s => receive_message h hears⟩
  | echo ip e =>
    have he := hears
    cases hears with
    | echo takes type host protocol echo =>
      obtain ⟨⟨outcome, message⟩, hmessage, -⟩ := Icmp.Responder.receive_taken echo
      exact ⟨_, fun app s => receive_echo h he hmessage⟩
  | datagram ip udp =>
    obtain ⟨d, hcarries, -⟩ := hears.carries
    exact absurd hcarries (hd d)

/-- The application is called exactly for the datagrams that a frame carries, once, and with a
length within its buffer. -/
theorem receive_calls (i : Interface) (app : Udp.Application σ) (s : σ)
    (h : frame.length < Length.limit) :
    ∃ handled noted calls, i.receive app frame s = .ok handled ∧
      i.receive app.noting frame (s, []) = .ok noted ∧
      noted.state = (handled.state.1, handled.state.2, calls) ∧
      (calls ≠ [] ↔ ∃ d, i.Carries frame d) ∧ (∀ d, i.Carries frame d → calls = [i.call frame d]) ∧
      calls.length ≤ 1 ∧ ∀ c ∈ calls, c.len ≤ c.buffer.length := by
  by_cases hnone : ∀ d, ¬i.Carries frame d
  · obtain ⟨alone, halone⟩ := receive_uncalled h hnone
    refine ⟨_, _, [], halone app s, halone app.noting (s, []), rfl, ?_, fun d hd => ?_, ?_⟩
    · simpa using hnone
    · exact absurd hd (hnone d)
    · simp
  obtain ⟨d, hd⟩ := Classical.not_forall_not.1 hnone
  obtain ⟨handled, noted, hreceive, hnoted, hkept, hstate⟩ := hd.noted app s h
  refine ⟨handled, noted, [i.call frame d], hreceive, hnoted, by rw [hstate, hkept],
    by simpa using ⟨d, hd⟩, fun d' hd' => ?_, Nat.le_refl _, fun c hc => ?_⟩
  · obtain ⟨_, noted', -, hnoted', -, hstate'⟩ := hd'.noted app s h
    cases hnoted'.symm.trans hnoted
    rw [hstate] at hstate'
    exact congrArg (·.2.2) hstate'
  · rw [List.mem_singleton.1 hc]
    exact call_len_le hd

theorem receive_calls_enquiry : enquiry.length < Length.limit ∧
    ∃ handled noted, (new .standard []).receive .none enquiry () = .ok handled ∧
      (new .standard []).receive (Udp.Application.noting .none) enquiry ((), []) = .ok noted ∧
      noted.state.2.2 = [.request [1, 2] (.ofOctets 192 168 200 9) 2000 2] := by
  have hsum : Checksum.data ((enquiry.drop 14).take 20) = .ok Checksum.ones :=
    (Checksum.data_of_length_le (by decide)).trans (congrArg _ (by decide))
  have hreaches : (new .standard []).ReachesHost enquiry (.ofOctets 192 168 200 9)
      (.ofOctets 192 168 200 40) 17 30 :=
    ⟨⟨by decide, .inl rfl, rfl⟩, rfl, rfl, by decide, by decide, ⟨0x4000, rfl, rfl⟩, rfl,
      fun _ => hsum, rfl, rfl, rfl, .inl rfl⟩
  have hcarries : (new .standard []).Carries enquiry
      ⟨.ofOctets 192 168 200 9, .ofOctets 192 168 200 40, 30, Udp.Service.automatonPort, 2000, 10⟩ :=
    ⟨hreaches, rfl, rfl, rfl, by decide, by decide, fun _ => .inl rfl, .inl rfl⟩
  obtain ⟨handled, noted, calls, hreceive, hnoted, hstate, -, hcall, -⟩ :=
    receive_calls (new .standard []) .none () (by decide : enquiry.length < Length.limit)
  refine ⟨by decide, handled, noted, hreceive, hnoted, ?_⟩
  rw [hstate, hcall _ hcarries]
  rfl

end Interface

end Reflector
