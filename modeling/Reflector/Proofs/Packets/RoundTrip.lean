import Reflector.Proofs.Packets.Fields
import Reflector.Proofs.Packets.Sums
/-!
What was written is read back, whatever stands behind it.
-/
namespace Reflector

namespace Bytes

variable {i j : Nat}

theorem slice_between (pre data post : Bytes) (hi : i = pre.length)
    (hj : j = (pre ++ data).length) : (pre ++ data ++ post).slice i j = .ok data := by
  subst hi hj
  rw [slice_of_le (by simp) (by simp), List.take_left, List.drop_left]

theorem half_between (pre post : Bytes) (n : Nat) (hi : i = pre.length) :
    (pre ++ ofHalf n ++ post).half i = .ok (UInt16.ofNat n) := by
  subst hi
  have hhi : (pre ++ ofHalf n ++ post).octet pre.length = .ok (UInt8.ofNat (n / 0x100)) := by
    simp [octet, ofHalf]
  have hlo : (pre ++ ofHalf n ++ post).octet (pre.length + 1) = .ok (UInt8.ofNat n) := by
    simp [octet, ofHalf]
  rw [half, hhi, hlo]
  refine congrArg Except.ok (UInt16.toNat_inj.1 ?_)
  simp only [UInt16.toNat_ofNat', UInt8.toNat_ofNat']
  omega

theorem octet_between (pre post : Bytes) (x : UInt8) (hi : i = pre.length) :
    (pre ++ [x] ++ post).octet i = .ok x := by
  subst hi
  simp [octet]

theorem word_between (pre post : Bytes) (n : Nat) (hi : i = pre.length) :
    (pre ++ ofWord n ++ post).word i = .ok (UInt32.ofNat n) := by
  have hhi : (pre ++ ofWord n ++ post).half i = .ok (UInt16.ofNat (n / 0x10000)) := by
    rw [ofWord, ← List.append_assoc, List.append_assoc (pre ++ _)]
    exact half_between _ _ _ hi
  have hlo : (pre ++ ofWord n ++ post).half (i + 2) = .ok (UInt16.ofNat n) := by
    rw [ofWord, ← List.append_assoc]
    refine half_between _ _ _ ?_
    rw [hi, List.length_append, length_ofHalf]
  rw [word, hhi, hlo]
  refine congrArg Except.ok (UInt32.toNat_inj.1 ?_)
  simp only [UInt32.toNat_ofNat', UInt16.toNat_ofNat']
  omega

end Bytes

namespace Ethernet

theorem Header.bytes_etherType (h : Header) (rest : Bytes) :
    Frame.etherType (h.bytes ++ rest) = .ok (.ofCode h.etherType.code) := by
  have hhalf : (h.bytes ++ rest).half 12 = .ok (.ofNat h.etherType.code.toNat) :=
    Bytes.half_between (h.destination.toBytes ++ h.source.toBytes) rest _ rfl
  rw [Frame.etherType, hhalf, UInt16.ofNat_toNat]
  rfl

theorem Header.bytes_heads (h : Header) (rest : Bytes)
    (htype : .ofCode h.etherType.code = h.etherType) : h.Heads (h.bytes ++ rest) where
  length := by simp
  source := by
    have hslice : (h.bytes ++ rest).slice 6 12 = .ok h.source.toBytes :=
      Bytes.slice_between h.destination.toBytes h.source.toBytes
        (Bytes.ofHalf h.etherType.code.toNat ++ rest) rfl rfl
    rw [Frame.source, hslice]
    rfl
  destination := by
    have hslice : (h.bytes ++ rest).slice 0 6 = .ok h.destination.toBytes :=
      Bytes.slice_between [] h.destination.toBytes
        (h.source.toBytes ++ Bytes.ofHalf h.etherType.code.toNat ++ rest) rfl rfl
    rw [Frame.destination, hslice]
    rfl
  etherType := (h.bytes_etherType rest).trans (congrArg Except.ok htype)

end Ethernet

namespace Arp.Message

def fixed (m : Message) : Bytes :=
  Bytes.ofHalf 1 ++ Bytes.ofHalf 0x0800 ++ [6, 4] ++ Bytes.ofHalf m.operation.code.toNat

def addresses (m : Message) : Bytes :=
  m.senderHardware.toBytes ++ m.senderProtocol.toBytes ++ m.targetHardware.toBytes ++
    m.targetProtocol.toBytes

theorem bytes_heads (m : Message) (rest : Bytes) (hop : .ofCode m.operation.code = m.operation)
    (hknown : ∀ code, m.operation ≠ .unknown code) : m.Heads (m.bytes ++ rest) where
  plain := ⟨by simp, rfl, rfl⟩
  hardwareType := rfl
  protocolType := rfl
  operation := by
    have hhalf : (m.bytes ++ rest).half 6 = .ok (.ofNat m.operation.code.toNat) :=
      Bytes.half_between (m.fixed.take 6) (m.addresses ++ rest) _ rfl
    rw [Packet.operation, hhalf, UInt16.ofNat_toNat]
    exact congrArg _ hop
  known := hknown
  senderHardware :=
    Bytes.slice_between m.fixed m.senderHardware.toBytes (m.addresses.drop 6 ++ rest) rfl rfl
  senderProtocol :=
    Bytes.slice_between (m.fixed ++ m.addresses.take 6) m.senderProtocol.toBytes
      (m.addresses.drop 10 ++ rest) rfl rfl
  targetHardware :=
    Bytes.slice_between (m.fixed ++ m.addresses.take 10) m.targetHardware.toBytes
      (m.addresses.drop 16 ++ rest) rfl rfl
  targetProtocol :=
    Bytes.slice_between (m.fixed ++ m.addresses.take 16) m.targetProtocol.toBytes rest rfl rfl

end Arp.Message

namespace Ipv4.Header

variable {mode : Checksum.Mode} {rest : Bytes}

/-- Of a longer length the field has the low 16 bits. -/
theorem bytes_totalLen (h : Header) (mode : Checksum.Mode) (rest : Bytes) :
    Packet.totalLen (h.bytes mode ++ rest) =
      .ok ((Packet.plainHeaderLen + h.payloadLen) % 0x10000) := by
  have hhalf : (h.bytes mode ++ rest).half 2 =
      .ok (.ofNat (Packet.plainHeaderLen + h.payloadLen)) :=
    Bytes.half_between [0x45, 0] ((h.bytes mode).drop 4 ++ rest) _ rfl
  rw [Packet.totalLen, hhalf]
  rfl

theorem bytes_destination (h : Header) (mode : Checksum.Mode) (rest : Bytes) :
    Packet.destination (h.bytes mode ++ rest) = .ok h.destination := by
  have hslice : (h.bytes mode ++ rest).slice 16 20 = .ok h.destination.toBytes :=
    Bytes.slice_between (h.front ++ Bytes.ofHalf (h.checksum mode).toNat ++ h.source.toBytes)
      h.destination.toBytes rest rfl rfl
  rw [Packet.destination, hslice]
  exact Address.ofBytes_toBytes _

theorem bytes_heads (h : Header) (hprotocol : .ofCode h.protocol.code = h.protocol)
    (hshort : Packet.plainHeaderLen + h.payloadLen < 0x10000) (hlen : h.payloadLen ≤ rest.length) :
    h.Heads (h.bytes mode ++ rest) where
  plain := ⟨by simp, rfl⟩
  version := rfl
  unfragmented := rfl
  source := by
    have hslice : (h.bytes mode ++ rest).slice 12 16 = .ok h.source.toBytes :=
      Bytes.slice_between (h.front ++ Bytes.ofHalf (h.checksum mode).toNat) h.source.toBytes
        (h.destination.toBytes ++ rest) rfl rfl
    rw [Packet.source, hslice]
    exact Address.ofBytes_toBytes _
  destination := h.bytes_destination mode rest
  protocol := congrArg Except.ok hprotocol
  totalLen := by rw [h.bytes_totalLen, Nat.mod_eq_of_lt hshort]
  inside := by
    rw [List.length_append, length_bytes]
    exact Nat.add_le_add_left hlen _
  hopLimit := rfl

theorem bytes_passes (h : Header) :
    mode.Passes (Packet.verifyChecksum (h.bytes mode ++ rest)) := by
  rintro rfl
  have hslice : (h.bytes .manual ++ rest).slice 0 Packet.plainHeaderLen = .ok (h.bytes .manual) :=
    Bytes.slice_between [] (h.bytes .manual) rest rfl rfl
  have hsum : Checksum.data (h.bytes .manual) = .ok Checksum.ones := by
    rw [Checksum.data_of_length_le (by rw [length_bytes]; decide), h.fold_total_bytes]
  have hheader : Packet.headerLen (h.bytes .manual ++ rest) = .ok Packet.plainHeaderLen := rfl
  simp [Packet.verifyChecksum, hheader, hslice, hsum, bind, Except.bind, pure, Except.pure]

theorem reads_bytes (h : Header) (hprotocol : .ofCode h.protocol.code = h.protocol)
    (hshort : Packet.plainHeaderLen + h.payloadLen < 0x10000) (hlen : h.payloadLen ≤ rest.length) :
    Parse.Reads (Header.parse mode (h.bytes mode ++ rest)) h :=
  (h.bytes_heads hprotocol hshort hlen).reads h.bytes_passes

end Ipv4.Header

namespace Udp.Header

theorem bytes_source (h : Header) (rest : Bytes) :
    Packet.source (h.bytes ++ rest) = .ok h.source := by
  have hhalf : (h.bytes ++ rest).half 0 = .ok (.ofNat h.source.toNat) :=
    Bytes.half_between [] (h.bytes.drop 2 ++ rest) _ rfl
  rw [Packet.source, hhalf, UInt16.ofNat_toNat]

theorem bytes_destination (h : Header) (rest : Bytes) :
    Packet.destination (h.bytes ++ rest) = .ok h.destination := by
  have hhalf : (h.bytes ++ rest).half 2 = .ok (.ofNat h.destination.toNat) :=
    Bytes.half_between (Bytes.ofHalf h.source.toNat) (h.bytes.drop 4 ++ rest) _ rfl
  rw [Packet.destination, hhalf, UInt16.ofNat_toNat]

theorem bytes_totalLen (h : Header) (rest : Bytes) :
    Packet.totalLen (h.bytes ++ rest) = .ok ((Packet.headerLen + h.payloadLen) % 0x10000) := by
  have hhalf : (h.bytes ++ rest).half 4 = .ok (.ofNat (Packet.headerLen + h.payloadLen)) :=
    Bytes.half_between (h.bytes.take 4) (Bytes.ofHalf 0 ++ rest) _ rfl
  rw [Packet.totalLen, hhalf]
  rfl

variable {mode : Checksum.Mode} {source destination : Ipv4.Address} {rest : Bytes}

theorem bytes_heads (h : Header) (hshort : Packet.headerLen + h.payloadLen < 0x10000)
    (hlen : h.payloadLen ≤ rest.length) : h.Heads (h.bytes ++ rest) where
  holds := {
    totalLen := by rw [h.bytes_totalLen, Nat.mod_eq_of_lt hshort]
    header := Nat.le_add_right _ _
    inside := by
      rw [List.length_append, length_bytes]
      exact Nat.add_le_add_left hlen _
    short := hshort }
  source := h.bytes_source rest
  destination := h.bytes_destination rest

theorem bytes_passes (h : Header) (hshort : Packet.headerLen + h.payloadLen < 0x10000)
    (hlen : h.payloadLen ≤ rest.length) :
    mode.Passes (Packet.verifyChecksum source destination (h.bytes ++ rest)) := by
  intro _
  refine ((h.bytes_heads hshort hlen).holds.verifyChecksum_iff).2 (.inl ?_)
  exact Bytes.half_between (h.bytes.take 6) rest 0 rfl

theorem reads_bytes (h : Header) (hshort : Packet.headerLen + h.payloadLen < 0x10000)
    (hlen : h.payloadLen ≤ rest.length) :
    Parse.Reads (Header.parse mode source destination (h.bytes ++ rest)) h :=
  (h.bytes_heads hshort hlen).reads (h.bytes_passes hshort hlen)

end Udp.Header

namespace Icmp.Echo

variable {mode : Checksum.Mode}

theorem length_front (e : Echo) : e.front.length = 2 := rfl

theorem withChecksum_heads (e : Echo) (sum : UInt16) {payload : Bytes}
    (hlen : payload.length = e.payloadLen) : e.Heads (e.withChecksum sum ++ payload) where
  length := by rw [List.length_append, length_withChecksum, hlen]
  messageType := by
    show Except.ok (MessageType.ofCode e.kind.messageType.code) = _
    cases e.kind <;> rfl
  messageCode := rfl
  ident := by
    have hhalf := Bytes.half_between (i := 4) (e.front ++ Bytes.ofHalf sum.toNat)
      (Bytes.ofHalf e.seqNo.toNat ++ payload) e.ident.toNat rfl
    rw [UInt16.ofNat_toNat] at hhalf
    exact hhalf
  seqNo := by
    have hhalf := Bytes.half_between (i := 6)
      (e.front ++ Bytes.ofHalf sum.toNat ++ Bytes.ofHalf e.ident.toNat) payload e.seqNo.toNat rfl
    rw [UInt16.ofNat_toNat] at hhalf
    exact hhalf

theorem filled_passes (e : Echo) {payload : Bytes}
    (hlen : Packet.headerLen + payload.length ≤ 131074) :
    mode.Passes (Packet.verifyChecksum (e.withChecksum (e.checksum payload) ++ payload)) := by
  intro _
  have hlength (sum : UInt16) :
      (e.withChecksum sum ++ payload).length = Packet.headerLen + payload.length := by
    rw [List.length_append, length_withChecksum]
  have hshape (sum : UInt16) : e.withChecksum sum ++ payload =
      e.front ++ Bytes.ofHalf sum.toNat ++ (e.numbers ++ payload) := List.append_assoc _ _ _
  have hones := Checksum.fold_filled e.front (e.numbers ++ payload) (e.checksum payload)
    (congrArg (· % 2) e.length_front) (by rw [checksum, hshape]) (by rwa [← hshape, hlength])
  rw [← hshape] at hones
  refine Packet.verifyChecksum_iff.2 ((Checksum.data_of_length_le ?_).trans (congrArg _ hones))
  rwa [hlength]

theorem reads_filled (e : Echo) {payload : Bytes} (hlen : payload.length = e.payloadLen)
    (hshort : Packet.headerLen + e.payloadLen ≤ 131074) :
    Parse.Reads (Echo.parse mode (e.withChecksum (e.checksum payload) ++ payload)) e :=
  (e.withChecksum_heads _ hlen).reads (e.filled_passes (hlen ▸ hshort))

end Icmp.Echo

namespace Sntp

theorem Timestamp.ofBytes_toBytes (t : Timestamp) : ofBytes t.toBytes = .ok t := by
  have hsecs : t.toBytes.word 0 = .ok t.secs := by
    have hword := Bytes.word_between (i := 0) [] (Bytes.ofWord t.frac.toNat) t.secs.toNat rfl
    rwa [UInt32.ofNat_toNat] at hword
  have hfrac : t.toBytes.word 4 = .ok t.frac := by
    have hword := Bytes.word_between (i := 4) (Bytes.ofWord t.secs.toNat) [] t.frac.toNat rfl
    rwa [UInt32.ofNat_toNat, List.append_nil] at hword
  rw [ofBytes, hsecs, hfrac]
  rfl

theorem Packet.checkLen_reads {b : Bytes} (h : len ≤ b.length) : Parse.Reads (checkLen b) () :=
  if_neg (Nat.not_lt.2 h)

namespace Message

/-- Three numbers that fit share an octet without a loss. -/
theorem first_toNat (m : Message) (hleap : m.leap.code.toNat ≤ 3) (hversion : m.version.toNat ≤ 7)
    (hmode : m.mode.code.toNat ≤ 7) : m.first.toNat =
      m.leap.code.toNat * 64 + m.version.toNat * 8 + m.mode.code.toNat := by
  rw [first, UInt8.toNat_ofNat']
  omega

theorem reads_bytes (m : Message) (rest : Bytes) (hleap : .ofCode m.leap.code = m.leap)
    (hmode : .ofCode m.mode.code = m.mode) (hleap' : m.leap.code.toNat ≤ 3)
    (hversion : m.version.toNat ≤ 7) (hmode' : m.mode.code.toNat ≤ 7) :
    Parse.Reads (Message.parse (m.bytes ++ rest)) m := by
  have hfirst := m.first_toNat hleap' hversion hmode'
  have hroom : Packet.len ≤ (m.bytes ++ rest).length := by
    rw [List.length_append, length_bytes]
    exact Nat.le_add_right _ _
  have hoctet : Packet.leapVersionMode (m.bytes ++ rest) = .ok m.first := rfl
  have hleapRead : Packet.leap (m.bytes ++ rest) = .ok m.leap := by
    have hcode : UInt8.ofNat (m.first.toNat / 64) = m.leap.code := by
      rw [hfirst, ← UInt8.toNat_inj, UInt8.toNat_ofNat']
      omega
    rw [Packet.leap, hoctet]
    exact congrArg Except.ok ((congrArg Leap.ofCode hcode).trans hleap)
  have hversionRead : Packet.version (m.bytes ++ rest) = .ok m.version := by
    have hvalue : UInt8.ofNat (m.first.toNat / 8 % 8) = m.version := by
      rw [hfirst, ← UInt8.toNat_inj, UInt8.toNat_ofNat']
      omega
    rw [Packet.version, hoctet]
    exact congrArg Except.ok hvalue
  have hmodeRead : Packet.mode (m.bytes ++ rest) = .ok m.mode := by
    have hcode : UInt8.ofNat (m.first.toNat % 8) = m.mode.code := by
      rw [hfirst, ← UInt8.toNat_inj, UInt8.toNat_ofNat']
      omega
    rw [Packet.mode, hoctet]
    exact congrArg Except.ok ((congrArg Mode.ofCode hcode).trans hmode)
  have hstratum : Packet.stratum (m.bytes ++ rest) = .ok m.stratum := by
    rw [Packet.stratum, bytes, List.append_assoc, List.append_assoc]
    exact Bytes.octet_between [m.first] (gap ++ (m.transmit.toBytes ++ rest)) m.stratum rfl
  have htransmit : Packet.transmit (m.bytes ++ rest) = .ok m.transmit := by
    have hslice : (m.bytes ++ rest).slice 40 48 = .ok m.transmit.toBytes :=
      Bytes.slice_between ([m.first, m.stratum] ++ gap) m.transmit.toBytes rest rfl rfl
    exact read_iff.2 ⟨_, hslice, m.transmit.ofBytes_toBytes⟩
  apply (Packet.checkLen_reads hroom).bind
  apply Parse.Reads.read hleapRead
  apply Parse.Reads.read hversionRead
  apply Parse.Reads.read hmodeRead
  apply Parse.Reads.read hstratum
  apply Parse.Reads.read htransmit
  exact Parse.Reads.pure

end Message

end Sntp

end Reflector
