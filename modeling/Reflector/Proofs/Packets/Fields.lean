import Reflector.Proofs.Packets.Reading
/-!
Where the fields of a packet stand. What is cut off behind a packet leaves its fields as they are,
and a field of the payload is one of the packet further on.
-/
namespace Reflector

variable {α β : Type} {b : Bytes} {i k n start stop : Nat}

theorem read_iff {x : Except Fault α} {f : α → Except Fault β} {c : β} :
    (x >>= f) = .ok c ↔ ∃ a, x = .ok a ∧ f a = .ok c := by
  cases x with
  | ok a => exact ⟨fun h => ⟨a, rfl, h⟩, fun ⟨_, ha, h⟩ => Except.ok.inj ha ▸ h⟩
  | error e => exact ⟨(nomatch ·), fun ⟨_, ha, _⟩ => nomatch ha⟩

theorem field_iff {x : Except Fault α} {g : α → β} {c : β} :
    (x >>= fun a => pure (g a)) = .ok c ↔ ∃ a, x = .ok a ∧ g a = c := by
  rw [read_iff]
  exact exists_congr fun a => and_congr_right fun _ => ⟨Except.ok.inj, congrArg _⟩

theorem le_length_take (h : k ≤ n) : k ≤ (b.take n).length ↔ k ≤ b.length := by
  rw [List.length_take]
  omega

namespace Bytes

theorem octet_take (h : i < n) : octet (b.take n) i = b.octet i := by
  rw [octet, List.getElem?_take_of_lt h, octet]

theorem half_take (h : i + 1 < n) : half (b.take n) i = b.half i := by
  rw [half, octet_take h, octet_take (Nat.lt_of_succ_lt h), half]

theorem word_take (h : i + 3 < n) : word (b.take n) i = b.word i := by
  rw [word, half_take (Nat.lt_of_succ_lt (Nat.lt_of_succ_lt h)), half_take h, word]

theorem slice_take (h : stop ≤ n) : slice (b.take n) start stop = b.slice start stop := by
  simp only [slice, le_length_take h, List.take_take, Nat.min_eq_left h]

theorem octet_drop : octet (b.drop n) i = b.octet (n + i) := by
  rw [octet, List.getElem?_drop, octet]

theorem half_drop : half (b.drop n) i = b.half (n + i) := by
  rw [half, octet_drop, octet_drop, half, Nat.add_assoc]

theorem word_drop : word (b.drop n) i = b.word (n + i) := by
  rw [word, half_drop, half_drop, word, Nat.add_assoc]

theorem slice_drop (h : n ≤ b.length) :
    slice (b.drop n) start stop = b.slice (n + start) (n + stop) := by
  have hlen : stop ≤ (b.drop n).length ↔ n + stop ≤ b.length := by
    rw [List.length_drop]
    omega
  simp only [slice, hlen, Nat.add_le_add_iff_left, List.take_drop, List.drop_drop]

theorem drop_of_slice {part : Bytes} (h : b.slice i stop = .ok part) :
    b.drop i = part ++ b.drop stop := by
  unfold slice at h
  split at h
  case isFalse => cases h
  next hin =>
    have hle : i ≤ (b.take stop).length :=
      (le_length_take hin.1).2 (Nat.le_trans hin.1 hin.2)
    calc b.drop i
      _ = (b.take stop ++ b.drop stop).drop i := by rw [List.take_append_drop]
      _ = (b.take stop).drop i ++ b.drop stop := List.drop_append_of_le_length hle
      _ = part ++ b.drop stop := by rw [← Except.ok.inj h]

theorem getElem?_of_octet {x : UInt8} (h : b.octet i = .ok x) : b[i]? = some x := by
  unfold octet at h
  split at h
  · next y hy => rw [hy, Except.ok.inj h]
  · cases h

theorem drop_of_octet {x : UInt8} (h : b.octet i = .ok x) : b.drop i = [x] ++ b.drop (i + 1) := by
  obtain ⟨hi, rfl⟩ := List.getElem?_eq_some_iff.1 (getElem?_of_octet h)
  exact List.drop_eq_getElem_cons hi

theorem drop_of_half {w : UInt16} (h : b.half i = .ok w) :
    b.drop i = ofHalf w.toNat ++ b.drop (i + 2) := by
  obtain ⟨hi, hhi, h⟩ := read_iff.1 h
  obtain ⟨lo, hlo, h⟩ := field_iff.1 h
  have hbytes : ofHalf w.toNat = [hi, lo] := by
    have hhi' := hi.toNat_lt
    have hlo' := lo.toNat_lt
    simp only [← h, ofHalf, UInt16.toNat_ofNat', List.cons.injEq, ← UInt8.toNat_inj,
      UInt8.toNat_ofNat', and_true]
    omega
  rw [hbytes, drop_of_octet hhi, drop_of_octet hlo]
  rfl

end Bytes

namespace Ethernet

theorem EtherType.ofCode_iff {code : UInt16} {t : EtherType} (ht : ∀ code, t ≠ .unknown code) :
    ofCode code = t ↔ code = t.code := by
  cases t with
  | unknown code => exact absurd rfl (ht code)
  | ipv4 | arp => grind [ofCode, EtherType.code]

theorem address_iff {a : Address} :
    (b.slice start stop >>= Address.ofBytes) = .ok a ↔ b.slice start stop = .ok a.toBytes := by
  simp only [read_iff, Address.ofBytes_iff, exists_eq_right]

theorem exists_address (b : Bytes) (start : Nat) (h : start + 6 ≤ b.length) :
    ∃ a : Address, b.slice start (start + 6) = .ok a.toBytes := by
  obtain ⟨part, hpart, hlen⟩ := Bytes.slice_succeeds (Nat.le_add_right start 6) h
  obtain ⟨a, ha, -⟩ := Address.ofBytes_succeeds (hlen.trans (Nat.add_sub_cancel_left _ _))
  exact ⟨a, Address.ofBytes_iff.1 ha ▸ hpart⟩

theorem Header.heads_iff {h : Header} : h.Heads b ↔ 14 ≤ b.length ∧
    b.slice 0 6 = .ok h.destination.toBytes ∧ b.slice 6 12 = .ok h.source.toBytes ∧
    ∃ code, b.half 12 = .ok code ∧ .ofCode code = h.etherType := by
  constructor
  · intro hh
    exact ⟨hh.length, address_iff.1 hh.destination, address_iff.1 hh.source,
      field_iff.1 hh.etherType⟩
  · rintro ⟨hlen, hdestination, hsource, htype⟩
    exact ⟨hlen, address_iff.2 hsource, address_iff.2 hdestination, field_iff.2 htype⟩

theorem Header.heads_take {h : Header} (hn : 14 ≤ n) : h.Heads (b.take n) ↔ h.Heads b := by
  simp (disch := omega) only [heads_iff, le_length_take, Bytes.slice_take, Bytes.half_take]

end Ethernet

namespace Arp

theorem HardwareType.ofCode_eq_ethernet {code : UInt16} : ofCode code = .ethernet ↔ code = 1 := by
  grind [ofCode]

theorem Operation.ofCode_iff {code : UInt16} {o : Operation} (ho : ∀ code, o ≠ .unknown code) :
    ofCode code = o ↔ code = o.code := by
  cases o with
  | unknown code => exact absurd rfl (ho code)
  | request | reply => grind [ofCode, Operation.code]

theorem Operation.known_iff {o : Operation} :
    o = .request ∨ o = .reply ↔ ∀ code, o ≠ .unknown code := by
  cases o with
  | unknown code => simp
  | request | reply => simp

theorem Packet.len_iff (x : Except Fault UInt8) (len : UInt8) :
    (x >>= fun n => pure n.toNat) = .ok len.toNat ↔ x = .ok len := by
  simp only [field_iff, UInt8.toNat_inj, exists_eq_right]

theorem Packet.address_eq {place : Bytes → Except Fault Place} {len : Nat}
    (h : place b = .ok ⟨start, len⟩) : address place b = b.slice start (start + len) := by
  rw [address, h]
  rfl

theorem Message.heads_iff {m : Message} : m.Heads b ↔ 28 ≤ b.length ∧
    b.half 0 = .ok 1 ∧ b.half 2 = .ok 0x0800 ∧ b.octet 4 = .ok 6 ∧ b.octet 5 = .ok 4 ∧
    (∃ code, b.half 6 = .ok code ∧ .ofCode code = m.operation) ∧
    (∀ code, m.operation ≠ .unknown code) ∧
    b.slice 8 14 = .ok m.senderHardware.toBytes ∧ b.slice 14 18 = .ok m.senderProtocol.toBytes ∧
    b.slice 18 24 = .ok m.targetHardware.toBytes ∧
    b.slice 24 28 = .ok m.targetProtocol.toBytes := by
  have hhardware : Packet.hardwareType b = .ok .ethernet ↔ b.half 0 = .ok 1 := by
    simp only [Packet.hardwareType, field_iff, HardwareType.ofCode_eq_ethernet, exists_eq_right]
  have hprotocol : Packet.protocolType b = .ok .ipv4 ↔ b.half 2 = .ok 0x0800 := by
    simp only [Packet.protocolType, field_iff, Ethernet.EtherType.ofCode_iff (t := .ipv4)
      fun _ => Ethernet.EtherType.noConfusion, Ethernet.EtherType.code, exists_eq_right]
  have hhardwareLen : Packet.hardwareLen b = .ok 6 ↔ b.octet 4 = .ok 6 := Packet.len_iff _ 6
  have hprotocolLen : Packet.protocolLen b = .ok 4 ↔ b.octet 5 = .ok 4 := Packet.len_iff _ 4
  constructor
  · intro hm
    have hplain := hm.plain
    exact ⟨hplain.length, hhardware.1 hm.hardwareType, hprotocol.1 hm.protocolType,
      hhardwareLen.1 hplain.hardwareLen, hprotocolLen.1 hplain.protocolLen,
      field_iff.1 hm.operation, hm.known,
      (Packet.address_eq hplain.senderHardwarePlace).symm.trans hm.senderHardware,
      (Packet.address_eq hplain.senderProtocolPlace).symm.trans hm.senderProtocol,
      (Packet.address_eq hplain.targetHardwarePlace).symm.trans hm.targetHardware,
      (Packet.address_eq hplain.targetProtocolPlace).symm.trans hm.targetProtocol⟩
  · rintro ⟨hlen, htype, htype', hsix, hfour, hoperation, hknown, hsender, hsender', htarget,
      htarget'⟩
    have hplain : Packet.Plain b := ⟨hlen, hhardwareLen.2 hsix, hprotocolLen.2 hfour⟩
    exact ⟨hplain, hhardware.2 htype, hprotocol.2 htype', field_iff.2 hoperation, hknown,
      (Packet.address_eq hplain.senderHardwarePlace).trans hsender,
      (Packet.address_eq hplain.senderProtocolPlace).trans hsender',
      (Packet.address_eq hplain.targetHardwarePlace).trans htarget,
      (Packet.address_eq hplain.targetProtocolPlace).trans htarget'⟩

theorem Message.heads_take {m : Message} (hn : 28 ≤ n) : m.Heads (b.take n) ↔ m.Heads b := by
  simp (disch := omega) only [heads_iff, le_length_take, Bytes.slice_take, Bytes.half_take,
    Bytes.octet_take]

end Arp

namespace Ipv4

theorem Protocol.ofCode_iff {code : UInt8} {p : Protocol} (hp : ∀ code, p ≠ .unknown code) :
    ofCode code = p ↔ code = p.code := by
  cases p with
  | unknown code => exact absurd rfl (hp code)
  | icmp | tcp | udp => grind [ofCode, Protocol.code]

theorem address_iff {a : Address} :
    (b.slice start stop >>= Address.ofBytes) = .ok a ↔ b.slice start stop = .ok a.toBytes := by
  simp only [read_iff, Address.ofBytes_iff, exists_eq_right]

theorem exists_address (b : Bytes) (start : Nat) (h : start + 4 ≤ b.length) :
    ∃ a : Address, b.slice start (start + 4) = .ok a.toBytes := by
  obtain ⟨part, hpart, hlen⟩ := Bytes.slice_succeeds (Nat.le_add_right start 4) h
  obtain ⟨a, ha, -⟩ := Address.ofBytes_succeeds (hlen.trans (Nat.add_sub_cancel_left _ _))
  exact ⟨a, Address.ofBytes_iff.1 ha ▸ hpart⟩

theorem Packet.first_iff :
    Packet.version b = .ok 4 ∧ Packet.headerLen b = .ok Packet.plainHeaderLen ↔
      b.octet 0 = .ok 0x45 := by
  simp only [Packet.version, Packet.headerLen, field_iff]
  constructor
  · rintro ⟨⟨n, hn, hversion⟩, n', hn', hlen : _ = 20⟩
    obtain rfl := Except.ok.inj (hn.symm.trans hn')
    have hvalue : n = 0x45 := by
      rw [← UInt8.toNat_inj]
      show n.toNat = 69
      omega
    rw [hn, hvalue]
  · intro h
    exact ⟨⟨_, h, rfl⟩, _, h, rfl⟩

theorem Packet.isFragment_iff : Packet.isFragment b = .ok false ↔
    ∃ word, b.half 6 = .ok word ∧ word.toNat % 0x4000 = 0 := by
  simp only [Packet.isFragment, Packet.fragmentWord, field_iff]
  grind

theorem Header.heads_iff {h : Header} : h.Heads b ↔ 20 + h.payloadLen ≤ b.length ∧
    b.octet 0 = .ok 0x45 ∧ (∃ total, b.half 2 = .ok total ∧ total.toNat = 20 + h.payloadLen) ∧
    (∃ word, b.half 6 = .ok word ∧ word.toNat % 0x4000 = 0) ∧ b.octet 8 = .ok h.hopLimit ∧
    (∃ code, b.octet 9 = .ok code ∧ .ofCode code = h.protocol) ∧
    b.slice 12 16 = .ok h.source.toBytes ∧ b.slice 16 20 = .ok h.destination.toBytes := by
  constructor
  · intro hh
    exact ⟨hh.inside, Packet.first_iff.1 ⟨hh.version, hh.plain.headerLen⟩,
      field_iff.1 hh.totalLen, Packet.isFragment_iff.1 hh.unfragmented, hh.hopLimit,
      field_iff.1 hh.protocol, address_iff.1 hh.source, address_iff.1 hh.destination⟩
  · rintro ⟨hin, hfirst, htotal, hword, hhop, hprotocol, hsource, hdestination⟩
    obtain ⟨hversion, hlen⟩ := Packet.first_iff.2 hfirst
    exact ⟨⟨Nat.le_trans (Nat.le_add_right _ _) hin, hlen⟩, hversion,
      Packet.isFragment_iff.2 hword, address_iff.2 hsource, address_iff.2 hdestination,
      field_iff.2 hprotocol, field_iff.2 htotal, hin, hhop⟩

theorem Header.heads_take {h : Header} (hn : 20 + h.payloadLen ≤ n) :
    h.Heads (b.take n) ↔ h.Heads b := by
  simp (disch := omega) only [heads_iff, le_length_take, Bytes.slice_take, Bytes.half_take,
    Bytes.octet_take]

theorem Packet.Plain.verifyChecksum_iff (h : Packet.Plain b) :
    Packet.verifyChecksum b = .ok true ↔ Checksum.data (b.take 20) = .ok Checksum.ones := by
  have hverify : Packet.verifyChecksum b =
      Checksum.data (b.take 20) >>= fun sum => pure (sum == Checksum.ones) := by
    have hheader := Bytes.slice_of_le (Nat.zero_le _) h.length
    rw [Packet.verifyChecksum, h.headerLen]
    exact congrArg (· >>= fun part => Checksum.data part >>= _) hheader
  simp only [hverify, field_iff, beq_iff_eq, exists_eq_right]

end Ipv4

namespace Icmp

theorem MessageType.ofCode_eq_echoRequest {code : UInt8} :
    ofCode code = .echoRequest ↔ code = 8 := by
  grind [ofCode]

theorem Packet.verifyChecksum_iff :
    Packet.verifyChecksum b = .ok true ↔ Checksum.data b = .ok Checksum.ones := by
  simp only [Packet.verifyChecksum, field_iff, beq_iff_eq, exists_eq_right]

theorem Echo.exists_request_iff : (∃ e : Echo, e.Heads b ∧ e.kind = .request) ↔
    8 ≤ b.length ∧ b.octet 0 = .ok 8 ∧ b.octet 1 = .ok 0 := by
  have htype : Packet.messageType b = .ok .echoRequest ↔ b.octet 0 = .ok 8 := by
    simp only [Packet.messageType, field_iff, MessageType.ofCode_eq_echoRequest, exists_eq_right]
  constructor
  · rintro ⟨e, he, hkind⟩
    have hmessage := he.messageType
    rw [hkind] at hmessage
    exact ⟨he.length ▸ Nat.le_add_right _ _, htype.1 hmessage, he.messageCode⟩
  · rintro ⟨hlen, hmessage, hcode⟩
    have hident := Bytes.half_of_lt (b := b) (i := 4) (by omega)
    have hseqNo := Bytes.half_of_lt (b := b) (i := 6) (by omega)
    have hsum : b.length = 8 + (b.length - 8) := by omega
    exact ⟨⟨.request, _, _, b.length - 8⟩, ⟨hsum, htype.2 hmessage, hcode, hident, hseqNo⟩, rfl⟩

end Icmp

namespace Udp

theorem Header.heads_iff {h : Header} : h.Heads b ↔ 8 + h.payloadLen ≤ b.length ∧
    b.half 0 = .ok h.source ∧ b.half 2 = .ok h.destination ∧
    ∃ len, b.half 4 = .ok len ∧ len.toNat = 8 + h.payloadLen := by
  constructor
  · intro hh
    exact ⟨hh.holds.inside, hh.source, hh.destination, field_iff.1 hh.holds.totalLen⟩
  · rintro ⟨hin, hsource, hdestination, len, hlen, hsum⟩
    have hshort : 8 + h.payloadLen < 0x10000 := hsum ▸ len.toNat_lt
    exact ⟨⟨field_iff.2 ⟨len, hlen, hsum⟩, Nat.le_add_right _ _, hin, hshort⟩, hsource,
      hdestination⟩

theorem Header.heads_take {h : Header} (hn : 8 + h.payloadLen ≤ n) :
    h.Heads (b.take n) ↔ h.Heads b := by
  simp (disch := omega) only [heads_iff, le_length_take, Bytes.half_take]

namespace Packet

variable {len : Nat} {source destination : Ipv4.Address}

theorem Holds.verifyChecksum_iff (h : Holds b len) :
    verifyChecksum source destination b = .ok true ↔
      b.half 6 = .ok 0 ∨ sum source destination b = .ok Checksum.ones := by
  obtain ⟨field, hfield, -⟩ := Bytes.half_succeeds (i := 6) h.headerLen_le (by decide)
  unfold verifyChecksum checksum
  rw [hfield]
  show (if field = 0 then pure true else
    sum source destination b >>= fun sum => pure (sum == Checksum.ones)) = .ok true ↔ _
  split
  · next hzero => exact ⟨fun _ => .inl (hzero ▸ rfl), fun _ => rfl⟩
  · next hfilled =>
    simp only [field_iff, beq_iff_eq, exists_eq_right, Except.ok.injEq, hfilled, false_or]

theorem verifyChecksum_take (hlen : totalLen b = .ok len) (hheader : headerLen ≤ len)
    (hn : len ≤ n) :
    verifyChecksum source destination (b.take n) = verifyChecksum source destination b := by
  have hfixed : 8 ≤ n := Nat.le_trans hheader hn
  have htotal : totalLen (b.take n) = totalLen b := by
    rw [totalLen, Bytes.half_take (by omega), totalLen]
  have hsum : sum source destination (b.take n) = sum source destination b := by
    rw [sum, htotal, sum, hlen]
    show (_ >>= fun s => Bytes.slice (b.take n) 0 len >>= _) = _
    rw [Bytes.slice_take hn]
    rfl
  rw [verifyChecksum, checksum, Bytes.half_take (by omega), hsum, verifyChecksum, checksum]

end Packet

end Udp

end Reflector
