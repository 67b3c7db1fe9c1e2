import Reflector.Arp.Packet
import Reflector.Icmp.Packet
import Reflector.Proofs.Packets.Success
import Reflector.Udp.Packet
/-!
Reading a packet never faults, whatever its bytes. What was read without an error tells how long
the buffer is.
-/
namespace Reflector

variable {α β : Type} {b : Bytes} {i n : Nat}

namespace Bytes

theorem octet_succeeds (h : n ≤ b.length) (hi : i < n) : Succeeds (b.octet i) fun _ => True :=
  ⟨_, octet_of_lt (Nat.lt_of_lt_of_le hi h), trivial⟩

theorem half_succeeds (h : n ≤ b.length) (hi : i + 1 < n) : Succeeds (b.half i) fun _ => True :=
  ⟨_, half_of_lt (Nat.lt_of_lt_of_le hi h), trivial⟩

theorem word_succeeds (h : n ≤ b.length) (hi : i + 3 < n) : Succeeds (b.word i) fun _ => True := by
  obtain ⟨w, hw⟩ := exists_word (Nat.lt_of_lt_of_le hi h)
  exact ⟨w, hw, trivial⟩

theorem slice_succeeds {start stop : Nat} (h : start ≤ stop) (h' : stop ≤ b.length) :
    Succeeds (b.slice start stop) fun part => part.length = stop - start := by
  refine ⟨_, slice_of_le h h', ?_⟩
  simp only [List.length_drop, List.length_take]
  omega

theorem rest_of_le (h : i ≤ b.length) : b.rest i = .ok (b.drop i) := by
  rw [rest, slice_of_le h (Nat.le_refl _), List.take_length]

theorem rest_succeeds {start : Nat} (h : start ≤ b.length) :
    Succeeds (b.rest start) fun part => part.length = b.length - start :=
  slice_succeeds h (Nat.le_refl _)

end Bytes

namespace Checksum

theorem data_succeeds (h : b.length ≤ 131074) : Succeeds (data b) fun _ => True :=
  ⟨_, data_of_length_le h, trivial⟩

theorem combine_succeeds {sums : List UInt16} (h : sums.length ≤ 65537) :
    Succeeds (combine sums) fun _ => True :=
  ⟨_, combine_of_length_le h, trivial⟩

theorem pseudoHeader_succeeds (source destination : Ipv4.Address) (protocol : UInt8) (len : Nat) :
    Succeeds (pseudoHeader source destination protocol len) fun _ => True := by
  have short (a : Ipv4.Address) : a.toBytes.length ≤ 131074 := by
    simp [Ipv4.Address.toBytes, Bytes.ofWord, Bytes.ofHalf]
  apply (data_succeeds (short source)).bind
  intro _ _ _
  apply (data_succeeds (short destination)).bind
  intro _ _ _
  apply (data_succeeds (by simp [Bytes.ofHalf])).bind
  intro _ _ _
  exact combine_succeeds (by simp)

def Mode.Passes (mode : Mode) (verify : Except Fault Bool) : Prop :=
  mode = .manual → verify = .ok true

theorem Mode.check_total (mode : Mode) {verify : Except Fault Bool}
    (h : Succeeds verify fun _ => True) :
    Parse.Total (mode.check verify) fun _ => mode.Passes verify := by
  unfold check
  split
  · apply Parse.Total.read h
    intro right hright _
    cases right with
    | true => exact Parse.Total.pure fun _ => hright
    | false => exact Parse.Total.throw
  · next hmode => exact Parse.Total.pure fun h => absurd h hmode

theorem Mode.Passes.reads {mode : Mode} {verify : Except Fault Bool} (h : mode.Passes verify) :
    Parse.Reads (mode.check verify) () := by
  unfold check
  split
  · next hmode => exact Parse.Reads.read (h hmode) Parse.Reads.pure
  · exact Parse.Reads.pure

end Checksum

namespace Ethernet

theorem Address.ofBytes_succeeds (h : b.length = 6) : Succeeds (ofBytes b) fun _ => True := by
  match b, h with
  | [_, _, _, _, _, _], _ => exact ⟨_, rfl, trivial⟩

theorem Address.ofBytes_iff {a : Address} : ofBytes b = .ok a ↔ b = a.toBytes := by
  refine ⟨fun h => ?_, fun h => h ▸ rfl⟩
  unfold ofBytes at h
  split at h
  · rw [← Except.ok.inj h]
    rfl
  · cases h

namespace Frame

theorem destination_succeeds (h : headerLen ≤ b.length) :
    Succeeds (destination b) fun _ => True :=
  (Bytes.slice_succeeds (by decide) (Nat.le_trans (by decide) h)).bind fun _ _ hp =>
    Address.ofBytes_succeeds hp

theorem source_succeeds (h : headerLen ≤ b.length) : Succeeds (source b) fun _ => True :=
  (Bytes.slice_succeeds (by decide) (Nat.le_trans (by decide) h)).bind fun _ _ hp =>
    Address.ofBytes_succeeds hp

theorem etherType_succeeds (h : headerLen ≤ b.length) : Succeeds (etherType b) fun _ => True :=
  (Bytes.half_succeeds h (by decide)).field _

theorem checkLen_total (b : Bytes) : Parse.Total (checkLen b) fun _ => headerLen ≤ b.length := by
  unfold checkLen
  split
  · exact Parse.Total.throw
  · next h => exact Parse.Total.pure (Nat.not_lt.1 h)

end Frame

structure Header.Heads (h : Header) (b : Bytes) : Prop where
  length : Frame.headerLen ≤ b.length
  source : Frame.source b = .ok h.source
  destination : Frame.destination b = .ok h.destination
  etherType : Frame.etherType b = .ok h.etherType

theorem Header.parse_total (b : Bytes) :
    Parse.Total (Header.parse b) fun h => h.Heads b := by
  apply (Frame.checkLen_total b).bind
  intro _ h
  apply Parse.Total.read (Frame.source_succeeds h)
  intro _ hsource _
  apply Parse.Total.read (Frame.destination_succeeds h)
  intro _ hdestination _
  apply Parse.Total.read (Frame.etherType_succeeds h)
  intro _ htype _
  exact Parse.Total.pure ⟨h, hsource, hdestination, htype⟩

theorem Header.Heads.reads {h : Header} (hh : h.Heads b) : Parse.Reads (Header.parse b) h := by
  have hlen : Parse.Reads (Frame.checkLen b) () := if_neg (Nat.not_lt.2 hh.length)
  apply hlen.bind
  apply Parse.Reads.read hh.source
  apply Parse.Reads.read hh.destination
  apply Parse.Reads.read hh.etherType
  exact Parse.Reads.pure

theorem Header.reads_iff {h : Header} : Parse.Reads (Header.parse b) h ↔ h.Heads b :=
  ⟨(Header.parse_total b).of_reads, Heads.reads⟩

end Ethernet

namespace Ipv4.Address

theorem ofBytes_succeeds (h : b.length = 4) : Succeeds (ofBytes b) fun _ => True := by
  match b, h with
  | [_, _, _, _], _ => exact ⟨_, rfl, trivial⟩

theorem toBytes_ofOctets (b₀ b₁ b₂ b₃ : UInt8) :
    (ofOctets b₀ b₁ b₂ b₃).toBytes = [b₀, b₁, b₂, b₃] := by
  have h₀ := b₀.toNat_lt
  have h₁ := b₁.toNat_lt
  have h₂ := b₂.toNat_lt
  have h₃ := b₃.toNat_lt
  simp only [toBytes, ofOctets, Bytes.ofWord, Bytes.ofHalf, UInt32.toNat_ofNat', List.cons_append,
    List.nil_append, List.cons.injEq, ← UInt8.toNat_inj, UInt8.toNat_ofNat', and_true]
  omega

theorem ofBytes_toBytes (a : Address) : ofBytes a.toBytes = .ok a := by
  have h := a.value.toNat_lt
  refine congrArg (fun value => Except.ok (⟨value⟩ : Address)) (UInt32.toNat_inj.1 ?_)
  simp only [UInt32.toNat_ofNat', UInt8.toNat_ofNat']
  omega

theorem ofBytes_iff {a : Address} : ofBytes b = .ok a ↔ b = a.toBytes := by
  refine ⟨fun h => ?_, fun h => h ▸ ofBytes_toBytes a⟩
  unfold ofBytes at h
  split at h
  · rw [← Except.ok.inj h, toBytes_ofOctets]
  · cases h

end Ipv4.Address

namespace Arp

namespace Packet

/-- The packet announces addresses of `n` and of `k` octets and has room for them. -/
structure Announces (b : Bytes) (n k : Nat) : Prop where
  hardwareLen : Packet.hardwareLen b = .ok n
  protocolLen : Packet.protocolLen b = .ok k
  inside : fixedLen + 2 * n + 2 * k ≤ b.length

namespace Announces

variable {k : Nat}

theorem senderHardwarePlace (h : Announces b n k) : senderHardwarePlace b = .ok ⟨fixedLen, n⟩ := by
  rw [Packet.senderHardwarePlace, h.hardwareLen]
  rfl

theorem senderProtocolPlace (h : Announces b n k) :
    senderProtocolPlace b = .ok ⟨fixedLen + n, k⟩ := by
  rw [Packet.senderProtocolPlace, h.hardwareLen, h.protocolLen]
  rfl

theorem targetHardwarePlace (h : Announces b n k) :
    targetHardwarePlace b = .ok ⟨fixedLen + n + k, n⟩ := by
  rw [Packet.targetHardwarePlace, h.hardwareLen, h.protocolLen]
  rfl

theorem targetProtocolPlace (h : Announces b n k) :
    targetProtocolPlace b = .ok ⟨fixedLen + 2 * n + k, k⟩ := by
  rw [Packet.targetProtocolPlace, h.hardwareLen, h.protocolLen]
  rfl

theorem fixedLen_le (h : Announces b n k) : fixedLen ≤ b.length := by
  have := h.inside
  omega

end Announces

structure Plain (b : Bytes) : Prop where
  length : plainLen ≤ b.length
  hardwareLen : Packet.hardwareLen b = .ok 6
  protocolLen : Packet.protocolLen b = .ok 4

theorem Plain.announces (h : Plain b) : Announces b 6 4 := ⟨h.hardwareLen, h.protocolLen, h.length⟩

theorem Plain.senderHardwarePlace (h : Plain b) : senderHardwarePlace b = .ok ⟨8, 6⟩ :=
  h.announces.senderHardwarePlace

theorem Plain.senderProtocolPlace (h : Plain b) : senderProtocolPlace b = .ok ⟨14, 4⟩ :=
  h.announces.senderProtocolPlace

theorem Plain.targetHardwarePlace (h : Plain b) : targetHardwarePlace b = .ok ⟨18, 6⟩ :=
  h.announces.targetHardwarePlace

theorem Plain.targetProtocolPlace (h : Plain b) : targetProtocolPlace b = .ok ⟨24, 4⟩ :=
  h.announces.targetProtocolPlace

theorem address_succeeds {place : Bytes → Except Fault Place} {start len : Nat}
    (hp : place b = .ok ⟨start, len⟩) (hend : start + len ≤ b.length) :
    Succeeds (address place b) fun part => part.length = len := by
  unfold address
  rw [hp]
  refine (Bytes.slice_succeeds (Nat.le_add_right _ _) hend).weaken ?_
  intro part hpart
  simpa using hpart

theorem hardwareType_succeeds (h : fixedLen ≤ b.length) :
    Succeeds (hardwareType b) fun _ => True :=
  (Bytes.half_succeeds h (by decide)).field _

theorem protocolType_succeeds (h : fixedLen ≤ b.length) :
    Succeeds (protocolType b) fun _ => True :=
  (Bytes.half_succeeds h (by decide)).field _

theorem hardwareLen_succeeds (h : fixedLen ≤ b.length) : Succeeds (hardwareLen b) fun _ => True :=
  (Bytes.octet_succeeds h (by decide)).field _

theorem protocolLen_succeeds (h : fixedLen ≤ b.length) : Succeeds (protocolLen b) fun _ => True :=
  (Bytes.octet_succeeds h (by decide)).field _

theorem operation_succeeds (h : fixedLen ≤ b.length) : Succeeds (operation b) fun _ => True :=
  (Bytes.half_succeeds h (by decide)).field _

theorem checkLen_total (b : Bytes) :
    Parse.Total (checkLen b) fun _ => ∃ n k, Announces b n k := by
  unfold checkLen
  apply Parse.total_guard
  intro hlen
  have hfixed := Nat.not_lt.1 hlen
  obtain ⟨n, hn, -⟩ := hardwareLen_succeeds hfixed
  obtain ⟨k, hk, -⟩ := protocolLen_succeeds hfixed
  have hplace : Packet.targetProtocolPlace b = .ok ⟨fixedLen + 2 * n + k, k⟩ := by
    rw [Packet.targetProtocolPlace, hn, hk]
    rfl
  apply Parse.Total.read (Q := fun _ => True) ⟨_, hplace, trivial⟩
  intro place hp _
  rw [hplace, Except.ok.injEq] at hp
  subst hp
  split
  · exact Parse.Total.throw
  · next hlast =>
    simp only at hlast
    exact Parse.Total.pure ⟨n, k, hn, hk, by omega⟩

theorem checkFormat_total (h : fixedLen ≤ b.length) : Parse.Total (checkFormat b) fun _ =>
    hardwareType b = .ok .ethernet ∧ protocolType b = .ok .ipv4 ∧
      hardwareLen b = .ok 6 ∧ protocolLen b = .ok 4 := by
  apply Parse.Total.read (hardwareType_succeeds h)
  intro _ hhardware _
  apply Parse.Total.read (protocolType_succeeds h)
  intro _ hprotocol _
  split
  · apply Parse.Total.read (hardwareLen_succeeds h)
    intro n hn _
    apply Parse.Total.read (protocolLen_succeeds h)
    intro k hk _
    split
    · exact Parse.Total.throw
    · next hplain =>
      refine Parse.Total.pure ⟨hhardware, hprotocol, ?_⟩
      rw [hn, hk, Except.ok.injEq, Except.ok.injEq]
      omega
  · exact Parse.Total.throw

end Packet

structure Message.Heads (m : Message) (b : Bytes) : Prop where
  plain : Packet.Plain b
  hardwareType : Packet.hardwareType b = .ok .ethernet
  protocolType : Packet.protocolType b = .ok .ipv4
  operation : Packet.operation b = .ok m.operation
  known : ∀ code, m.operation ≠ .unknown code
  senderHardware : Packet.senderHardware b = .ok m.senderHardware.toBytes
  senderProtocol : Packet.senderProtocol b = .ok m.senderProtocol.toBytes
  targetHardware : Packet.targetHardware b = .ok m.targetHardware.toBytes
  targetProtocol : Packet.targetProtocol b = .ok m.targetProtocol.toBytes

theorem Message.parse_total (b : Bytes) : Parse.Total (Message.parse b) fun m => m.Heads b := by
  refine (Packet.checkLen_total b).bind fun _ ⟨n, k, announces⟩ => ?_
  have hfixed := announces.fixedLen_le
  refine (Packet.checkFormat_total hfixed).bind fun _ ⟨hhardware, hprotocol, hn, hk⟩ => ?_
  cases hn.symm.trans announces.hardwareLen
  cases hk.symm.trans announces.protocolLen
  have plain : Packet.Plain b := ⟨announces.inside, hn, hk⟩
  have inside {stop : Nat} (h : stop ≤ Packet.plainLen) : stop ≤ b.length :=
    Nat.le_trans h plain.length
  apply Parse.Total.read (Packet.operation_succeeds hfixed)
  intro operation hoperation _
  split
  · exact Parse.Total.throw
  next hknown =>
    refine Parse.Total.read (Packet.address_succeeds plain.senderHardwarePlace (inside (by decide)))
      fun _ hsender hlen => ?_
    apply Parse.Total.read (Ethernet.Address.ofBytes_succeeds hlen)
    intro _ hsenderAddress _
    refine Parse.Total.read (Packet.address_succeeds plain.senderProtocolPlace (inside (by decide)))
      fun _ hsenderProtocol hlen => ?_
    apply Parse.Total.read (Ipv4.Address.ofBytes_succeeds hlen)
    intro _ hsenderProtocolAddress _
    refine Parse.Total.read (Packet.address_succeeds plain.targetHardwarePlace (inside (by decide)))
      fun _ htarget hlen => ?_
    apply Parse.Total.read (Ethernet.Address.ofBytes_succeeds hlen)
    intro _ htargetAddress _
    refine Parse.Total.read (Packet.address_succeeds plain.targetProtocolPlace (inside (by decide)))
      fun _ htargetProtocol hlen => ?_
    apply Parse.Total.read (Ipv4.Address.ofBytes_succeeds hlen)
    intro _ htargetProtocolAddress _
    cases Ethernet.Address.ofBytes_iff.1 hsenderAddress
    cases Ipv4.Address.ofBytes_iff.1 hsenderProtocolAddress
    cases Ethernet.Address.ofBytes_iff.1 htargetAddress
    cases Ipv4.Address.ofBytes_iff.1 htargetProtocolAddress
    exact Parse.Total.pure ⟨plain, hhardware, hprotocol, hoperation, hknown, hsender,
      hsenderProtocol, htarget, htargetProtocol⟩

namespace Message.Heads

variable {m : Message}

theorem checkLen (hm : m.Heads b) : Parse.Reads (Packet.checkLen b) () := by
  have hlen := hm.plain.length
  unfold Packet.checkLen
  apply Parse.reads_guard (Nat.not_lt.2 (Nat.le_trans (by decide) hlen))
  apply Parse.Reads.read hm.plain.targetProtocolPlace
  exact if_neg (Nat.not_lt.2 hlen)

theorem checkFormat (hm : m.Heads b) : Parse.Reads (Packet.checkFormat b) () := by
  apply Parse.Reads.read hm.hardwareType
  apply Parse.Reads.read hm.protocolType
  apply Parse.Reads.read hm.plain.hardwareLen
  apply Parse.Reads.read hm.plain.protocolLen
  exact if_neg (by decide)

theorem reads (hm : m.Heads b) : Parse.Reads (Message.parse b) m := by
  apply hm.checkLen.bind
  apply hm.checkFormat.bind
  apply Parse.Reads.read hm.operation
  split
  · next code hcode => exact absurd hcode (hm.known code)
  · apply Parse.Reads.read hm.senderHardware
    apply Parse.Reads.read (Ethernet.Address.ofBytes_iff.2 rfl)
    apply Parse.Reads.read hm.senderProtocol
    apply Parse.Reads.read (Ipv4.Address.ofBytes_iff.2 rfl)
    apply Parse.Reads.read hm.targetHardware
    apply Parse.Reads.read (Ethernet.Address.ofBytes_iff.2 rfl)
    apply Parse.Reads.read hm.targetProtocol
    apply Parse.Reads.read (Ipv4.Address.ofBytes_iff.2 rfl)
    exact Parse.Reads.pure

end Message.Heads

theorem Message.reads_iff {m : Message} : Parse.Reads (Message.parse b) m ↔ m.Heads b :=
  ⟨(Message.parse_total b).of_reads, Heads.reads⟩

end Arp

namespace Ipv4

namespace Packet

theorem totalLen_succeeds (h : plainHeaderLen ≤ b.length) :
    Succeeds (totalLen b) fun n => n < 0x10000 :=
  (Bytes.half_succeeds h (by decide)).bind fun n _ _ =>
    Succeeds.pure n.toNat_lt

theorem headerLen_succeeds (h : plainHeaderLen ≤ b.length) :
    Succeeds (headerLen b) fun _ => True :=
  (Bytes.octet_succeeds h (by decide)).field _

theorem version_succeeds (h : plainHeaderLen ≤ b.length) : Succeeds (version b) fun _ => True :=
  (Bytes.octet_succeeds h (by decide)).field _

theorem isFragment_succeeds (h : plainHeaderLen ≤ b.length) :
    Succeeds (isFragment b) fun _ => True :=
  ((Bytes.half_succeeds h (by decide)).field _).field _

theorem hopLimit_succeeds (h : plainHeaderLen ≤ b.length) : Succeeds (hopLimit b) fun _ => True :=
  Bytes.octet_succeeds h (by decide)

theorem protocol_succeeds (h : plainHeaderLen ≤ b.length) : Succeeds (protocol b) fun _ => True :=
  (Bytes.octet_succeeds h (by decide)).field _

theorem source_succeeds (h : plainHeaderLen ≤ b.length) : Succeeds (source b) fun _ => True :=
  (Bytes.slice_succeeds (by decide) (Nat.le_trans (by decide) h)).bind fun _ _ hp =>
    Address.ofBytes_succeeds hp

theorem destination_succeeds (h : plainHeaderLen ≤ b.length) :
    Succeeds (destination b) fun _ => True :=
  (Bytes.slice_succeeds (by decide) (Nat.le_trans (by decide) h)).bind fun _ _ hp =>
    Address.ofBytes_succeeds hp

/-- The length is stated in four bits. -/
theorem headerLen_le (h : headerLen b = .ok n) : n ≤ 60 := by
  unfold headerLen at h
  cases hoctet : b.octet 0 with
  | error e =>
    rw [hoctet] at h
    cases h
  | ok first =>
    rw [hoctet] at h
    cases h
    omega

theorem verifyChecksum_succeeds (hn : headerLen b = .ok n) (h : n ≤ b.length) :
    Succeeds (verifyChecksum b) fun _ => True := by
  have hshort := headerLen_le hn
  unfold verifyChecksum
  rw [hn]
  apply (Bytes.slice_succeeds (Nat.zero_le _) h).bind
  intro part _ hpart
  exact (Checksum.data_succeeds (by omega)).field _

structure Plain (b : Bytes) : Prop where
  length : plainHeaderLen ≤ b.length
  headerLen : Packet.headerLen b = .ok plainHeaderLen

theorem checkLen_total (b : Bytes) : Parse.Total (checkLen b) fun _ =>
    plainHeaderLen ≤ b.length ∧ ∀ n k, headerLen b = .ok n → totalLen b = .ok k →
      n ≤ k ∧ k ≤ b.length := by
  unfold checkLen
  apply Parse.total_guard
  intro h
  have hplain := Nat.not_lt.1 h
  apply Parse.Total.read (headerLen_succeeds hplain)
  intro n hn _
  apply Parse.total_guard
  intro _
  apply Parse.Total.read (totalLen_succeeds hplain)
  intro k hk _
  apply Parse.Total.read (headerLen_succeeds hplain)
  intro n' hn' _
  apply Parse.total_guard
  intro hle
  apply Parse.Total.read (totalLen_succeeds hplain)
  intro k' hk' _
  split
  · exact Parse.Total.throw
  · next hin =>
    refine Parse.Total.pure ⟨hplain, fun n₁ k₁ hn₁ hk₁ => ?_⟩
    cases hn'.symm.trans hn₁
    cases hk.symm.trans hk'
    cases hk.symm.trans hk₁
    exact ⟨Nat.not_lt.1 hle, Nat.not_lt.1 hin⟩

end Packet

theorem Protocol.ofCode_code (code : UInt8) : ofCode (ofCode code).code = ofCode code := by
  simp only [ofCode]
  split
  · rfl
  split
  · rfl
  split
  · rfl
  · simp [Protocol.code, *]

/-- The header stands in front of the buffer, which holds the whole datagram. -/
structure Header.Heads (h : Header) (b : Bytes) : Prop where
  plain : Packet.Plain b
  version : Packet.version b = .ok 4
  unfragmented : Packet.isFragment b = .ok false
  source : Packet.source b = .ok h.source
  destination : Packet.destination b = .ok h.destination
  protocol : Packet.protocol b = .ok h.protocol
  totalLen : Packet.totalLen b = .ok (Packet.plainHeaderLen + h.payloadLen)
  inside : Packet.plainHeaderLen + h.payloadLen ≤ b.length
  hopLimit : Packet.hopLimit b = .ok h.hopLimit

theorem Header.parse_total (mode : Checksum.Mode) (b : Bytes) :
    Parse.Total (Header.parse mode b) fun h =>
      h.Heads b ∧ mode.Passes (Packet.verifyChecksum b) := by
  refine (Packet.checkLen_total b).bind fun _ ⟨hlen, hends⟩ => ?_
  apply Parse.Total.read (Packet.version_succeeds hlen)
  intro version hversion _
  apply Parse.total_guard
  intro hfour
  cases Decidable.not_not.1 hfour
  apply Parse.Total.read (Packet.headerLen_succeeds hlen)
  intro n hn _
  apply Parse.total_guard
  intro hplain
  cases Decidable.not_not.1 hplain
  apply Parse.Total.read (Packet.isFragment_succeeds hlen)
  intro fragment hfragment _
  apply Parse.total_guard
  intro hwhole
  obtain rfl : fragment = false := by simpa using hwhole
  refine (mode.check_total (Packet.verifyChecksum_succeeds hn hlen)).bind fun _ hpasses => ?_
  apply Parse.Total.read (Packet.source_succeeds hlen)
  intro _ hsource _
  apply Parse.Total.read (Packet.destination_succeeds hlen)
  intro _ hdestination _
  apply Parse.Total.read (Packet.protocol_succeeds hlen)
  intro _ hprotocol _
  apply Parse.Total.read (Packet.totalLen_succeeds hlen)
  intro total htotal _
  obtain ⟨hle, hin⟩ := hends _ _ hn htotal
  apply Parse.Total.read ⟨_, Length.sub_of_le hle, rfl⟩
  intro payloadLen _ heq
  have hsum : Packet.plainHeaderLen + payloadLen = total := heq ▸ Nat.add_sub_cancel' hle
  apply Parse.Total.read (Packet.hopLimit_succeeds hlen)
  intro _ hhop _
  exact Parse.Total.pure ⟨⟨⟨hlen, hn⟩, hversion, hfragment, hsource, hdestination, hprotocol,
    hsum ▸ htotal, hsum ▸ hin, hhop⟩, hpasses⟩

namespace Header.Heads

variable {h : Header}

theorem protocol_known (hh : h.Heads b) : .ofCode h.protocol.code = h.protocol := by
  have hprotocol := hh.protocol
  obtain ⟨code, hcode, -⟩ : Succeeds (b.octet 9) fun _ => True :=
    Bytes.octet_succeeds hh.plain.length (by decide)
  rw [Packet.protocol, hcode] at hprotocol
  rw [← Except.ok.inj hprotocol]
  exact Protocol.ofCode_code code

theorem short (hh : h.Heads b) : Packet.plainHeaderLen + h.payloadLen < 0x10000 := by
  obtain ⟨n, hn, hlt⟩ := Packet.totalLen_succeeds hh.plain.length
  cases hh.totalLen.symm.trans hn
  exact hlt

theorem checkLen (hh : h.Heads b) : Parse.Reads (Packet.checkLen b) () := by
  unfold Packet.checkLen
  apply Parse.reads_guard (Nat.not_lt.2 hh.plain.length)
  apply Parse.Reads.read hh.plain.headerLen
  apply Parse.reads_guard (Nat.not_lt.2 hh.plain.length)
  apply Parse.Reads.read hh.totalLen
  apply Parse.Reads.read hh.plain.headerLen
  apply Parse.reads_guard (Nat.not_lt.2 (Nat.le_add_right _ _))
  apply Parse.Reads.read hh.totalLen
  exact if_neg (Nat.not_lt.2 hh.inside)

theorem reads {mode : Checksum.Mode} (hh : h.Heads b)
    (hpasses : mode.Passes (Packet.verifyChecksum b)) : Parse.Reads (Header.parse mode b) h := by
  apply hh.checkLen.bind
  apply Parse.Reads.read hh.version
  apply Parse.reads_guard (by decide)
  apply Parse.Reads.read hh.plain.headerLen
  apply Parse.reads_guard (by decide)
  apply Parse.Reads.read hh.unfragmented
  apply Parse.reads_guard (by decide)
  apply hpasses.reads.bind
  apply Parse.Reads.read hh.source
  apply Parse.Reads.read hh.destination
  apply Parse.Reads.read hh.protocol
  apply Parse.Reads.read hh.totalLen
  apply Parse.Reads.read (Length.sub_of_le (Nat.le_add_right _ _))
  apply Parse.Reads.read hh.hopLimit
  rw [Nat.add_sub_cancel_left]
  exact Parse.Reads.pure

end Header.Heads

theorem Header.reads_iff {mode : Checksum.Mode} {h : Header} :
    Parse.Reads (Header.parse mode b) h ↔ h.Heads b ∧ mode.Passes (Packet.verifyChecksum b) :=
  ⟨(Header.parse_total mode b).of_reads, fun ⟨hh, hpasses⟩ => hh.reads hpasses⟩

end Ipv4

namespace Icmp

namespace Packet

theorem checkLen_total (b : Bytes) : Parse.Total (checkLen b) fun _ => headerLen ≤ b.length := by
  unfold checkLen
  split
  · exact Parse.Total.throw
  · next h => exact Parse.Total.pure (Nat.not_lt.1 h)

end Packet

theorem EchoKind.ofMessage_iff {t : MessageType} {code : UInt8} {kind : EchoKind} :
    ofMessage t code = .ok kind ↔ t = kind.messageType ∧ code = 0 := by
  constructor
  · intro h
    unfold ofMessage at h
    split at h
    · split at h
      · next hcode => cases h; exact ⟨rfl, hcode⟩
      · cases h
    · split at h
      · next hcode => cases h; exact ⟨rfl, hcode⟩
      · cases h
    · cases h
    · cases h
    · cases h
  · rintro ⟨rfl, rfl⟩
    cases kind with
    | request => rfl
    | reply => rfl

theorem EchoKind.parse_total (h : Packet.headerLen ≤ b.length) :
    Parse.Total (EchoKind.parse b) fun kind =>
      Packet.messageType b = .ok kind.messageType ∧ Packet.messageCode b = .ok 0 := by
  have htype : Succeeds (Packet.messageType b) fun _ => True :=
    (Bytes.octet_succeeds h (by decide)).field _
  apply Parse.Total.read htype
  intro t ht _
  apply Parse.Total.read (Bytes.octet_succeeds h (by decide))
  intro code hcode _
  refine Succeeds.pure fun kind hkind => ?_
  obtain ⟨rfl, rfl⟩ := ofMessage_iff.1 hkind
  exact ⟨ht, hcode⟩

structure Echo.Heads (e : Echo) (b : Bytes) : Prop where
  length : b.length = Packet.headerLen + e.payloadLen
  messageType : Packet.messageType b = .ok e.kind.messageType
  messageCode : Packet.messageCode b = .ok 0
  ident : Packet.echoIdent b = .ok e.ident
  seqNo : Packet.echoSeqNo b = .ok e.seqNo

/-- The checksum accumulator holds the sum of any datagram. -/
theorem Echo.parse_total (mode : Checksum.Mode) (h : b.length ≤ 131074) :
    Parse.Total (Echo.parse mode b) fun e =>
      e.Heads b ∧ mode.Passes (Packet.verifyChecksum b) := by
  apply (Packet.checkLen_total b).bind
  intro _ hlen
  refine (mode.check_total ((Checksum.data_succeeds h).field _)).bind fun _ hpasses => ?_
  refine (EchoKind.parse_total hlen).bind fun kind ⟨htype, hcode⟩ => ?_
  apply Parse.Total.read (Bytes.half_succeeds hlen (by decide))
  intro _ hident _
  apply Parse.Total.read (Bytes.half_succeeds hlen (by decide))
  intro _ hseqNo _
  apply Parse.Total.read (Bytes.rest_succeeds hlen)
  intro payload _ hpayload
  have hsum : b.length = Packet.headerLen + payload.length := by omega
  exact Parse.Total.pure ⟨⟨hsum, htype, hcode, hident, hseqNo⟩, hpasses⟩

theorem Echo.Heads.reads {e : Echo} {mode : Checksum.Mode} (he : e.Heads b)
    (hpasses : mode.Passes (Packet.verifyChecksum b)) : Parse.Reads (Echo.parse mode b) e := by
  have hroom : Packet.headerLen ≤ b.length := he.length ▸ Nat.le_add_right _ _
  have hlen : Parse.Reads (Packet.checkLen b) () := if_neg (Nat.not_lt.2 hroom)
  have hkind : Parse.Reads (EchoKind.parse b) e.kind := by
    apply Parse.Reads.read he.messageType
    apply Parse.Reads.read he.messageCode
    exact congrArg Except.ok (EchoKind.ofMessage_iff.2 ⟨rfl, rfl⟩)
  apply hlen.bind
  apply hpasses.reads.bind
  apply hkind.bind
  apply Parse.Reads.read he.ident
  apply Parse.Reads.read he.seqNo
  apply Parse.Reads.read (Bytes.rest_of_le hroom)
  rw [List.length_drop, he.length, Nat.add_sub_cancel_left]
  exact Parse.Reads.pure

theorem Echo.reads_iff {e : Echo} {mode : Checksum.Mode} (h : b.length ≤ 131074) :
    Parse.Reads (Echo.parse mode b) e ↔ e.Heads b ∧ mode.Passes (Packet.verifyChecksum b) :=
  ⟨(Echo.parse_total mode h).of_reads, fun ⟨he, hpasses⟩ => he.reads hpasses⟩

end Icmp

namespace Udp

namespace Packet

theorem totalLen_succeeds (h : headerLen ≤ b.length) :
    Succeeds (totalLen b) fun n => n < 0x10000 :=
  (Bytes.half_succeeds h (by decide)).bind fun n _ _ =>
    Succeeds.pure n.toNat_lt

structure Holds (b : Bytes) (len : Nat) : Prop where
  totalLen : Packet.totalLen b = .ok len
  header : headerLen ≤ len
  inside : len ≤ b.length
  short : len < 0x10000

theorem checkLen_total (b : Bytes) : Parse.Total (checkLen b) fun _ => ∃ len, Holds b len := by
  unfold checkLen
  apply Parse.total_guard
  intro h
  apply Parse.Total.read (totalLen_succeeds (Nat.not_lt.1 h))
  intro len hlen hshort
  apply Parse.total_guard
  intro hinside
  split
  · exact Parse.Total.throw
  · next hheader =>
    exact Parse.Total.pure ⟨len, hlen, Nat.not_lt.1 hheader, Nat.not_lt.1 hinside, hshort⟩

theorem Holds.headerLen_le {len : Nat} (h : Holds b len) : headerLen ≤ b.length :=
  Nat.le_trans h.header h.inside

theorem sum_succeeds (source destination : Ipv4.Address) {len : Nat} (h : Holds b len) :
    Succeeds (sum source destination b) fun _ => True := by
  unfold sum
  rw [h.totalLen]
  apply (Checksum.pseudoHeader_succeeds source destination _ len).bind
  intro _ _ _
  apply (Bytes.slice_succeeds (Nat.zero_le _) h.inside).bind
  intro part _ hpart
  have hshort := h.short
  apply (Checksum.data_succeeds (by omega)).bind
  intro _ _ _
  exact Checksum.combine_succeeds (by simp)

theorem verifyChecksum_succeeds (source destination : Ipv4.Address) {len : Nat} (h : Holds b len) :
    Succeeds (verifyChecksum source destination b) fun _ => True := by
  apply Succeeds.bind (Bytes.half_succeeds h.headerLen_le (by decide))
  intro _ _ _
  split
  · exact Succeeds.pure trivial
  · exact (sum_succeeds source destination h).field _

end Packet

structure Header.Heads (h : Header) (b : Bytes) : Prop where
  holds : Packet.Holds b (Packet.headerLen + h.payloadLen)
  source : Packet.source b = .ok h.source
  destination : Packet.destination b = .ok h.destination

theorem Header.parse_total (mode : Checksum.Mode) (source destination : Ipv4.Address) (b : Bytes) :
    Parse.Total (Header.parse mode source destination b) fun h =>
      h.Heads b ∧ mode.Passes (Packet.verifyChecksum source destination b) := by
  refine (Packet.checkLen_total b).bind fun _ ⟨len, hlen⟩ => ?_
  refine (mode.check_total (Packet.verifyChecksum_succeeds source destination hlen)).bind
    fun _ hpasses => ?_
  apply Parse.Total.read (Bytes.half_succeeds hlen.headerLen_le (by decide))
  intro _ hsource _
  apply Parse.Total.read (Bytes.half_succeeds hlen.headerLen_le (by decide))
  intro _ hdestination _
  apply Parse.Total.read ⟨_, hlen.totalLen, rfl⟩
  intro n _ hn
  cases hn
  apply Parse.Total.read ⟨_, Length.sub_of_le hlen.header, rfl⟩
  intro payloadLen _ heq
  have hsum : Packet.headerLen + payloadLen = len := heq ▸ Nat.add_sub_cancel' hlen.header
  exact Parse.Total.pure ⟨⟨hsum ▸ hlen, hsource, hdestination⟩, hpasses⟩

namespace Header.Heads

variable {h : Header}

theorem checkLen (hh : h.Heads b) : Parse.Reads (Packet.checkLen b) () := by
  unfold Packet.checkLen
  apply Parse.reads_guard (Nat.not_lt.2 hh.holds.headerLen_le)
  apply Parse.Reads.read hh.holds.totalLen
  apply Parse.reads_guard (Nat.not_lt.2 hh.holds.inside)
  exact if_neg (Nat.not_lt.2 hh.holds.header)

theorem reads {mode : Checksum.Mode} {source destination : Ipv4.Address} (hh : h.Heads b)
    (hpasses : mode.Passes (Packet.verifyChecksum source destination b)) :
    Parse.Reads (Header.parse mode source destination b) h := by
  apply hh.checkLen.bind
  apply hpasses.reads.bind
  apply Parse.Reads.read hh.source
  apply Parse.Reads.read hh.destination
  apply Parse.Reads.read hh.holds.totalLen
  apply Parse.Reads.read (Length.sub_of_le (Nat.le_add_right _ _))
  rw [Nat.add_sub_cancel_left]
  exact Parse.Reads.pure

end Header.Heads

theorem Header.reads_iff {mode : Checksum.Mode} {source destination : Ipv4.Address} {h : Header} :
    Parse.Reads (Header.parse mode source destination b) h ↔
      h.Heads b ∧ mode.Passes (Packet.verifyChecksum source destination b) :=
  ⟨(Header.parse_total mode source destination b).of_reads, fun ⟨hh, hpasses⟩ => hh.reads hpasses⟩

end Udp

end Reflector
