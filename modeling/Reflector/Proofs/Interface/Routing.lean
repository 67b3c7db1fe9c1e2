import Reflector.Proofs.Interface.Emission
/-!
Routing: which frame a datagram to some host becomes, seen from its receivers. A host off the link
is reached through the router, but the datagram stays addressed to the host.
-/
namespace Reflector

variable {α β : Type} {b b' data : Bytes} {n : Nat} {e : SendError}

namespace Emit

def Refuses (m : Emit α) (b : Bytes) (e : SendError) : Prop := m.run.on b = (.ok (.error e), b)

variable {f : α → Emit β}

theorem refuses_throw : Refuses (throw e : Emit α) b e := rfl

theorem Refuses.read {a : α} {x : Except Fault α} (hx : x = .ok a) (hf : Refuses (f a) b e) :
    Refuses (liftM x >>= f) b e := by
  subst hx
  exact hf

theorem Refuses.get {f : Bytes → Emit β} (hf : Refuses (f b) b e) :
    Refuses (MonadState.get >>= f) b e := hf

theorem Refuses.bind {m : Emit α} (hm : Refuses m b e) : Refuses (m >>= f) b e := Op.on_bind_ok hm

section Guard

variable {p : Prop} [Decidable p] {e' : SendError} {k : PUnit → Emit β}

theorem refuses_guard (hp : p) :
    Refuses (if p then (do let r ← throw e; k r) else k ⟨⟩) b e := by
  rw [if_pos hp]
  exact Emit.refuses_throw

theorem Refuses.behind_guard (hp : ¬p) (h : Refuses (k ⟨⟩) b e) :
    Refuses (if p then (do let r ← throw e'; k r) else k ⟨⟩) b e := by
  rwa [if_neg hp]

end Guard

end Emit

open Emit (Writes Refuses)

namespace Interface

variable {i : Interface} {hardware : Ethernet.Address} {destination hop : Ipv4.Address}
  {port sourcePort destinationPort : Udp.Port}

/-- The neighbor that takes a datagram: the destination if that is on the link, else the router. -/
inductive Forwards (i : Interface) (destination : Ipv4.Address) : Ipv4.Address → Prop
  | direct : i.subnet.contains destination = true → Forwards i destination destination
  | routed {router : Ipv4.Address} : i.subnet.contains destination = false →
      i.router = some router → Forwards i destination router

theorem nextHop_eq_some_iff : i.nextHop destination = some hop ↔ i.Forwards destination hop := by
  unfold nextHop
  constructor
  · split
    · next hon =>
      rintro ⟨⟩
      exact .direct hon
    · next hoff => exact .routed (Bool.eq_false_iff.2 hoff)
  · rintro (hon | ⟨hoff, hrouter⟩)
    · rw [if_pos hon]
    · rw [if_neg (Bool.eq_false_iff.1 hoff), hrouter]

theorem nextHop_eq_none_iff : i.nextHop destination = none ↔
    i.subnet.contains destination = false ∧ i.router = none := by
  unfold nextHop
  split
  · next hon => simp [hon]
  · next hoff => simp [Bool.eq_false_iff.2 hoff]

/-- The frame parses as a datagram of ours with a payload of some length, handed to some neighbor.
The checksum of its header is right, unless such checksums are none of our business. -/
structure IsDatagram (i : Interface) (hardware : Ethernet.Address) (destination : Ipv4.Address)
    (sourcePort destinationPort : Udp.Port) (n : Nat) (frame : Bytes) : Prop where
  length : frame.length = 42 + n
  link : Parse.Reads (Ethernet.Header.parse frame) ⟨i.hardware, hardware, .ipv4⟩
  network : Parse.Reads (Ipv4.Header.parse i.checksum (frame.drop 14))
    ⟨i.subnet.address, destination, .udp, 8 + n, i.hopLimit⟩
  verified : i.checksum = .manual → Ipv4.Packet.verifyChecksum (frame.drop 14) = .ok true
  transport : Parse.Reads (Udp.Header.parse i.checksum i.subnet.address destination
    ((frame.drop 14).drop 20)) ⟨sourcePort, destinationPort, n⟩

structure IsEnquiry (i : Interface) (hop : Ipv4.Address) (frame : Bytes) : Prop where
  length : frame.length = 42
  link : Parse.Reads (Ethernet.Header.parse frame) ⟨i.hardware, .broadcast, .arp⟩
  question : Parse.Reads (Arp.Message.parse (frame.drop 14))
    ⟨.request, i.hardware, i.subnet.address, .zero, hop⟩

theorem isDatagram_datagramHeaders (hshort : n ≤ 65507) (hdata : data.length = n) :
    i.IsDatagram hardware destination sourcePort destinationPort n
      (i.datagramHeaders hardware destination sourcePort destinationPort n ++ data) where
  length := by rw [List.length_append, length_datagramHeaders, hdata]
  link := (i.datagramHeaders_link _ _ _ _ _ _).reads
  network := by
    rw [drop_datagramHeaders]
    refine (i.packetHeaders_heads _ _ _ hshort (Nat.le_of_eq hdata.symm)).reads ?_
    rw [packetHeaders, List.append_assoc]
    exact Ipv4.Header.bytes_passes _
  verified := by
    rw [drop_datagramHeaders, packetHeaders, List.append_assoc]
    exact Ipv4.Header.bytes_passes _
  transport := by
    have htotal : Udp.Packet.headerLen + n < 0x10000 := by
      rw [Udp.Packet.headerLen]
      omega
    exact Udp.Header.reads_bytes ⟨sourcePort, destinationPort, n⟩ htotal (Nat.le_of_eq hdata.symm)

theorem isEnquiry_enquiryFor : i.IsEnquiry hop (i.enquiryFor hop) where
  length := i.length_enquiryFor hop
  link := (Ethernet.Header.bytes_heads _ _ rfl).reads
  question := by
    have hread := (Arp.Message.bytes_heads ⟨.request, i.hardware, i.subnet.address, .zero, hop⟩ []
      rfl fun _ => Arp.Operation.noConfusion).reads
    rwa [List.append_nil] at hread

/-- What comes of a datagram with a payload of `n` bytes that is to be written over a buffer. No two
of the cases have their conditions in common. -/
inductive Routes (i : Interface) (destination : Ipv4.Address) (port : Udp.Port) (n : Nat)
    (b : Bytes) : Except SendError Generated → Bytes → Prop
  | badSize : b.length < 42 + n → Routes i destination port n b (.error .badSize) b
  | unreachable : 42 + n ≤ b.length → i.subnet.contains destination = false → i.router = none →
      Routes i destination port n b (.error .unreachable) b
  | sent {hop : Ipv4.Address} {hardware : Ethernet.Address} {b' : Bytes} : 42 + n ≤ b.length →
      i.Forwards destination hop → i.neighbors.lookup hop = some hardware →
      i.IsDatagram hardware destination i.port port n (b'.take (42 + n)) →
      b'.drop 42 = b.drop 42 → Routes i destination port n b (.ok (.sent 42)) b'
  | deferred {hop : Ipv4.Address} {b' : Bytes} : 42 + n ≤ b.length →
      i.Forwards destination hop → i.neighbors.lookup hop = none →
      i.IsEnquiry hop (b'.take 42) → b'.drop 42 = b.drop 42 →
      Routes i destination port n b (.ok (.deferred 42)) b'

theorem emitUnicastUdp_badSize (hshort : n ≤ 65507) (h : b.length < 42 + n) :
    Refuses (i.emitUnicastUdp destination port n) b .badSize := by
  apply Refuses.read (Length.add_of_lt (frame_short hshort))
  apply Refuses.get
  exact Emit.refuses_guard h

theorem emitUnicastUdp_unreachable (hshort : n ≤ 65507) (h : 42 + n ≤ b.length)
    (hhop : i.nextHop destination = none) :
    Refuses (i.emitUnicastUdp destination port n) b .unreachable := by
  apply Refuses.read (Length.add_of_lt (frame_short hshort))
  apply Refuses.get
  apply Refuses.behind_guard (Nat.not_lt.2 h)
  rw [hhop]
  exact Emit.refuses_throw

theorem take_headers {headers : Bytes} (hheaders : headers.length = 42) (h : 42 + n ≤ b.length) :
    ∃ data, data.length = n ∧ (headers ++ b.drop 42).take (42 + n) = headers ++ data := by
  refine ⟨(b.drop 42).take n, ?_, ?_⟩
  · rw [List.length_take, List.length_drop]
    omega
  · rw [← hheaders, List.take_length_add_append]

theorem emitUnicastUdp_routes (hshort : n ≤ 65507) (b : Bytes) :
    ∃ result b', (i.emitUnicastUdp destination port n).run.on b = (.ok result, b') ∧
      i.Routes destination port n b result b' := by
  by_cases h : b.length < 42 + n
  · exact ⟨_, _, emitUnicastUdp_badSize hshort h, .badSize h⟩
  have h := Nat.not_lt.1 h
  cases hhop : i.nextHop destination with
  | none =>
    obtain ⟨hoff, hrouter⟩ := nextHop_eq_none_iff.1 hhop
    exact ⟨_, _, emitUnicastUdp_unreachable hshort h hhop, .unreachable h hoff hrouter⟩
  | some hop =>
    have hforwards := nextHop_eq_some_iff.1 hhop
    cases hlookup : i.neighbors.lookup hop with
    | none =>
      refine ⟨_, _, emitUnicastUdp_deferred hhop hlookup port (frame_short hshort) h,
        .deferred h hforwards hlookup ?_ (List.drop_left' rfl)⟩
      rw [List.take_left' (i.length_enquiryFor hop)]
      exact isEnquiry_enquiryFor
    | some hardware =>
      refine ⟨_, _, emitUnicastUdp_sent hhop hlookup port hshort h,
        .sent h hforwards hlookup ?_ (List.drop_left' rfl)⟩
      obtain ⟨data, hdata, htake⟩ := take_headers (i.length_datagramHeaders hardware destination
        i.port port n) h
      rw [htake]
      exact isDatagram_datagramHeaders hshort hdata

namespace Routes

variable {result : Except SendError Generated}

theorem badSize_iff (h : i.Routes destination port n b result b') :
    result = .error .badSize ↔ b.length < 42 + n := by
  cases h with
  | badSize h => exact iff_of_true rfl h
  | unreachable h => exact iff_of_false (by simp) (Nat.not_lt.2 h)
  | sent h | deferred h => exact iff_of_false nofun (Nat.not_lt.2 h)

theorem unreachable_iff (h : i.Routes destination port n b result b') :
    result = .error .unreachable ↔
      42 + n ≤ b.length ∧ i.subnet.contains destination = false ∧ i.router = none := by
  cases h with
  | badSize h => exact iff_of_false (by simp) fun h' => Nat.not_lt.2 h'.1 h
  | unreachable h hoff hrouter => exact iff_of_true rfl ⟨h, hoff, hrouter⟩
  | sent _ hhop | deferred _ hhop =>
    have hhop := nextHop_eq_some_iff.2 hhop
    refine iff_of_false nofun fun ⟨_, hnone⟩ => ?_
    rw [nextHop_eq_none_iff.2 hnone] at hhop
    cases hhop

end Routes

/-- Whatever the buffer holds, a datagram is refused, sent to the next hop, or put off for a request
to the next hop. -/
theorem emitUnicastUdp_forwarded_or_refused (i : Interface) (destination : Ipv4.Address)
    (port : Udp.Port) (hshort : n ≤ 65507) (b : Bytes) :
    ∃ result b', (i.emitUnicastUdp destination port n).run.on b = (.ok result, b') ∧
      (result = .error .badSize ↔ b.length < 42 + n) ∧
      (result = .error .unreachable ↔
        42 + n ≤ b.length ∧ i.subnet.contains destination = false ∧ i.router = none) ∧
      i.Routes destination port n b result b' := by
  obtain ⟨result, b', hon, hroutes⟩ := emitUnicastUdp_routes hshort b
  exact ⟨result, b', hon, hroutes.badSize_iff, hroutes.unreachable_iff, hroutes⟩

/-- The standard device sends through its router to a host off the link. -/
theorem emitUnicastUdp_forwarded_gateway :
    let i := new .standard [some ⟨3, gateway.hardware⟩]
    18 ≤ 65507 ∧ ∃ b', (i.emitUnicastUdp (.ofOctets 10 0 0 1) 69 18).run.on (List.replicate 64 7) =
        (.ok (.ok (.sent 42)), b') ∧ b'.drop 42 = List.replicate 22 7 ∧
      i.IsDatagram gateway.hardware (.ofOctets 10 0 0 1) i.port 69 18 (b'.take 60) := by
  intro i
  refine ⟨by decide, ?_⟩
  have hhop : i.nextHop (.ofOctets 10 0 0 1) = some gateway.subnet.address := by decide
  have hknown : i.neighbors.lookup gateway.subnet.address = some gateway.hardware := by decide
  obtain ⟨result, b', hon, -, -, hroutes⟩ :=
    emitUnicastUdp_forwarded_or_refused i (.ofOctets 10 0 0 1) 69 (by decide : 18 ≤ 65507)
      (List.replicate 64 7)
  cases hroutes with
  | badSize h => exact absurd h (by decide)
  | unreachable _ _ hrouter => exact absurd hrouter (by decide)
  | sent _ hforwards hlookup hframe hrest =>
    obtain rfl := Option.some.inj ((nextHop_eq_some_iff.2 hforwards).symm.trans hhop)
    obtain rfl := Option.some.inj (hlookup.symm.trans hknown)
    exact ⟨b', hon, hrest, hframe⟩
  | deferred _ hforwards hlookup =>
    obtain rfl := Option.some.inj ((nextHop_eq_some_iff.2 hforwards).symm.trans hhop)
    exact absurd (hlookup.symm.trans hknown) nofun

end Interface

end Reflector
