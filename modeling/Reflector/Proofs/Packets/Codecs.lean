import Reflector.Proofs.Packets.RoundTrip
/-!
The packet formats, as pairs of a writer and a reader that are written apart from each other: what
one writes the other one reads back.
-/
namespace Reflector

variable {α : Type} {b : Bytes}

theorem Ethernet.EtherType.code_ofCode (code : UInt16) : (ofCode code).code = code := by
  grind [ofCode, EtherType.code]

theorem Ethernet.Header.Heads.eq_bytes {h : Header} (hh : h.Heads b) :
    b = h.bytes ++ b.drop Frame.headerLen := by
  obtain ⟨-, hdestination, hsource, code, hcode, htype⟩ := heads_iff.1 hh
  have hbytes : h.bytes =
      h.destination.toBytes ++ (h.source.toBytes ++ Bytes.ofHalf code.toNat) := by
    rw [bytes, ← htype, EtherType.code_ofCode]
  calc b
    _ = h.destination.toBytes ++ b.drop 6 := Bytes.drop_of_slice hdestination
    _ = h.destination.toBytes ++ (h.source.toBytes ++ b.drop 12) := by
      rw [← Bytes.drop_of_slice hsource]
    _ = h.destination.toBytes ++ (h.source.toBytes ++ (Bytes.ofHalf code.toNat ++ b.drop 14)) := by
      rw [← Bytes.drop_of_half hcode]
    _ = h.bytes ++ b.drop Frame.headerLen := by
      rw [hbytes, List.append_assoc, List.append_assoc, Frame.headerLen]

theorem Arp.Operation.code_ofCode (code : UInt16) : (ofCode code).code = code := by
  grind [ofCode, Operation.code]

theorem Arp.Message.Heads.eq_bytes {m : Message} (hm : m.Heads b) :
    b = m.bytes ++ b.drop Packet.plainLen := by
  obtain ⟨-, hhardware, hprotocol, hhardwareLen, hprotocolLen, ⟨code, hcode, hop⟩, -, hsender,
    hsender', htarget, htarget'⟩ := heads_iff.1 hm
  have hhardware : b.drop 0 = Bytes.ofHalf 1 ++ b.drop 2 := Bytes.drop_of_half hhardware
  have hprotocol : b.drop 2 = Bytes.ofHalf 0x0800 ++ b.drop 4 := Bytes.drop_of_half hprotocol
  have hhardwareLen := Bytes.drop_of_octet hhardwareLen
  have hprotocolLen := Bytes.drop_of_octet hprotocolLen
  have hcode := Bytes.drop_of_half hcode
  have hsender := Bytes.drop_of_slice hsender
  have hsender' := Bytes.drop_of_slice hsender'
  have htarget := Bytes.drop_of_slice htarget
  have htarget' := Bytes.drop_of_slice htarget'
  simp only [bytes, ← hop, Operation.code_ofCode, List.append_assoc]
  rw [Packet.plainLen, ← htarget', ← htarget, ← hsender', ← hsender, ← hcode, ← hprotocolLen,
    ← hhardwareLen, ← hprotocol, ← hhardware, List.drop_zero]

structure Codec (α : Type) where
  headerLen : Nat
  emit : α → Edit Unit
  finish : Edit Unit
  parse : Bytes → Parse α

namespace Codec

structure Beside (f : Codec α) (b b' : Bytes) : Prop where
  length : b'.length = b.length
  behind : b'.drop f.headerLen = b.drop f.headerLen

/-- The header is written to the buffer, nothing behind it changes, and it is read back. -/
def Restores (f : Codec α) (x : α) (b : Bytes) : Prop :=
  ∃ b' b'', (f.emit x).on b = (.ok (), b') ∧ f.finish.on b' = (.ok (), b'') ∧
    f.Beside b b' ∧ f.Beside b b'' ∧ Parse.Reads (f.parse b'') x

/-- What was read need not be written, it stands there. -/
def Canonical (f : Codec α) : Prop :=
  ∀ x b, Parse.Reads (f.parse b) x → (f.emit x).on b = (.ok (), b)

variable {f : Codec α} {x : α} {data : Bytes}

theorem beside_append (hdata : data.length = f.headerLen) (hb : f.headerLen ≤ b.length) :
    f.Beside b (data ++ b.drop f.headerLen) where
  length := calc (data ++ b.drop f.headerLen).length
    _ = data.length + (b.drop f.headerLen).length := List.length_append
    _ = f.headerLen + (b.length - f.headerLen) := by rw [hdata, List.length_drop]
    _ = b.length := Nat.add_sub_cancel' hb
  behind := List.drop_left' hdata

theorem restores_of_appends (hf : f.finish = pure ()) (hx : Edit.Appends [] data (f.emit x))
    (hdata : data.length = f.headerLen) (hb : f.headerLen ≤ b.length)
    (hreads : Parse.Reads (f.parse (data ++ b.drop f.headerLen)) x) : f.Restores x b := by
  have hbeside := beside_append hdata hb
  have hemit := hx.on (hdata ▸ hb)
  rw [hdata] at hemit
  have hfinish : f.finish.on (data ++ b.drop f.headerLen) =
      (.ok (), data ++ b.drop f.headerLen) := by rw [hf]; rfl
  exact ⟨_, _, hemit, hfinish, hbeside, hbeside, hreads⟩

end Codec

def Ethernet.codec : Codec Header := ⟨Frame.headerLen, Header.emit, pure (), Header.parse⟩

def Arp.codec : Codec Message := ⟨Packet.plainLen, Message.emit, pure (), Message.parse⟩

def Ipv4.codec (mode : Checksum.Mode) : Codec Header :=
  ⟨Packet.plainHeaderLen, fun h => h.emit mode, pure (), Header.parse mode⟩

def Icmp.codec (mode : Checksum.Mode) : Codec Echo :=
  ⟨Packet.headerLen, Echo.emit, Packet.fillChecksum, Echo.parse mode⟩

def Udp.codec (mode : Checksum.Mode) (source destination : Ipv4.Address) : Codec Header :=
  ⟨Packet.headerLen, Header.emit, pure (), Header.parse mode source destination⟩

def Sntp.codec : Codec Message := ⟨Packet.len, Message.emit, pure (), Message.parse⟩

theorem Ethernet.codec_restores {h : Header} (htype : .ofCode h.etherType.code = h.etherType)
    (hb : Frame.headerLen ≤ b.length) : codec.Restores h b :=
  Codec.restores_of_appends rfl h.emit_appends h.length_bytes hb
    (h.bytes_heads (b.drop Frame.headerLen) htype).reads

theorem Arp.codec_restores {m : Message} (hop : m.operation = .request ∨ m.operation = .reply)
    (hb : Packet.plainLen ≤ b.length) : codec.Restores m b := by
  have hcode : .ofCode m.operation.code = m.operation := by
    rcases hop with hop | hop <;> rw [hop] <;> rfl
  have hknown (code : UInt16) : m.operation ≠ .unknown code := by
    rcases hop with hop | hop <;> rw [hop] <;> nofun
  exact Codec.restores_of_appends rfl m.emit_appends m.length_bytes hb
    (m.bytes_heads (b.drop Packet.plainLen) hcode hknown).reads

theorem Ipv4.codec_restores (mode : Checksum.Mode) {h : Header}
    (hprotocol : .ofCode h.protocol.code = h.protocol) (hshort : h.payloadLen ≤ 65515)
    (hb : Packet.plainHeaderLen + h.payloadLen ≤ b.length) : (codec mode).Restores h b := by
  have htotal : Packet.plainHeaderLen + h.payloadLen < 0x10000 := by
    rw [Packet.plainHeaderLen]
    omega
  have hrest : h.payloadLen ≤ (b.drop Packet.plainHeaderLen).length := by
    rw [List.length_drop]
    omega
  exact Codec.restores_of_appends rfl (h.emit_appends mode (Nat.lt_trans htotal (by decide)))
    (h.length_bytes mode) (Nat.le_of_add_right_le hb) (h.reads_bytes hprotocol htotal hrest)

theorem Icmp.codec_restores (mode : Checksum.Mode) {e : Echo} (hshort : e.payloadLen ≤ 65507)
    (hb : e.bufferLen = .ok b.length) : (codec mode).Restores e b := by
  have hlen : Packet.headerLen + e.payloadLen = b.length := by
    have hsum : Packet.headerLen + e.payloadLen < Length.limit := by
      simp only [Packet.headerLen, Length.limit]
      omega
    rw [Echo.bufferLen, Length.add_of_lt hsum] at hb
    exact Except.ok.inj hb
  have hrest : (b.drop Packet.headerLen).length = e.payloadLen := by
    rw [List.length_drop]
    omega
  have htotal : Packet.headerLen + e.payloadLen ≤ 131074 := by
    rw [Packet.headerLen]
    omega
  have hroom : Packet.headerLen ≤ b.length := hlen ▸ Nat.le_add_right _ _
  have hbeside (sum : UInt16) : (codec mode).Beside b (e.withChecksum sum ++ b.drop 8) :=
    Codec.beside_append (e.length_withChecksum sum) hroom
  have hemit : e.emit.on b = (.ok (), e.withChecksum 0 ++ b.drop Packet.headerLen) :=
    e.emit_appends.on hroom
  have hfill := e.on_fillChecksum 0 (b.drop Packet.headerLen) (by omega)
  exact ⟨_, _, hemit, hfill, hbeside _, hbeside _, e.reads_filled hrest htotal⟩

theorem Udp.codec_restores (mode : Checksum.Mode) (source destination : Ipv4.Address) {h : Header}
    (hshort : h.payloadLen ≤ 65527) (hb : Packet.headerLen + h.payloadLen ≤ b.length) :
    (codec mode source destination).Restores h b := by
  have htotal : Packet.headerLen + h.payloadLen < 0x10000 := by
    rw [Packet.headerLen]
    omega
  have hrest : h.payloadLen ≤ (b.drop Packet.headerLen).length := by
    rw [List.length_drop]
    omega
  exact Codec.restores_of_appends rfl (h.emit_appends (Nat.lt_trans htotal (by decide)))
    h.length_bytes (Nat.le_of_add_right_le hb) (h.reads_bytes htotal hrest)

theorem Sntp.codec_restores {m : Message} (hleap : .ofCode m.leap.code = m.leap)
    (hmode : .ofCode m.mode.code = m.mode) (hleap' : m.leap.code.toNat ≤ 3)
    (hversion : m.version.toNat ≤ 7) (hmode' : m.mode.code.toNat ≤ 7)
    (hb : Packet.len ≤ b.length) : codec.Restores m b :=
  Codec.restores_of_appends rfl m.emit_appends m.length_bytes hb
    (m.reads_bytes (b.drop Packet.len) hleap hmode hleap' hversion hmode')

theorem Ethernet.codec_canonical : codec.Canonical := by
  intro h b hreads
  have hh := Header.reads_iff.1 hreads
  have hemit := h.emit_appends.on hh.length
  rwa [Header.length_bytes, ← hh.eq_bytes] at hemit

theorem Arp.codec_canonical : codec.Canonical := by
  intro m b hreads
  have hm := Message.reads_iff.1 hreads
  have hemit := m.emit_appends.on hm.plain.length
  rwa [Message.length_bytes, ← hm.eq_bytes] at hemit

/-- What is written to a buffer with room for the header and its payload is read back: what codes
stand for is what they are read as, and no number is cut off. -/
theorem codecs_restore (b : Bytes) :
    (∀ h : Ethernet.Header, .ofCode h.etherType.code = h.etherType →
      Ethernet.Frame.headerLen ≤ b.length → Ethernet.codec.Restores h b) ∧
    (∀ m : Arp.Message, m.operation = .request ∨ m.operation = .reply →
      Arp.Packet.plainLen ≤ b.length → Arp.codec.Restores m b) ∧
    (∀ (mode : Checksum.Mode) (h : Ipv4.Header), .ofCode h.protocol.code = h.protocol →
      h.payloadLen ≤ 65515 → Ipv4.Packet.plainHeaderLen + h.payloadLen ≤ b.length →
      (Ipv4.codec mode).Restores h b) ∧
    (∀ (mode : Checksum.Mode) (e : Icmp.Echo), e.payloadLen ≤ 65507 →
      e.bufferLen = .ok b.length → (Icmp.codec mode).Restores e b) ∧
    (∀ (mode : Checksum.Mode) (source destination : Ipv4.Address) (h : Udp.Header),
      h.payloadLen ≤ 65527 → Udp.Packet.headerLen + h.payloadLen ≤ b.length →
      (Udp.codec mode source destination).Restores h b) ∧
    (∀ m : Sntp.Message, .ofCode m.leap.code = m.leap → .ofCode m.mode.code = m.mode →
      m.leap.code.toNat ≤ 3 → m.version.toNat ≤ 7 → m.mode.code.toNat ≤ 7 →
      Sntp.Packet.len ≤ b.length → Sntp.codec.Restores m b) ∧
    Ethernet.codec.Canonical ∧ Arp.codec.Canonical :=
  ⟨fun _ => Ethernet.codec_restores, fun _ => Arp.codec_restores,
    fun mode _ => Ipv4.codec_restores mode, fun mode _ => Icmp.codec_restores mode,
    fun mode source destination _ => Udp.codec_restores mode source destination,
    fun _ => Sntp.codec_restores, Ethernet.codec_canonical, Arp.codec_canonical⟩

theorem codecs_restore_replicate :
    Ethernet.codec.Restores ⟨⟨2, 0, 0, 0, 0, 1⟩, .broadcast, .arp⟩ (List.replicate 60 0xa5) ∧
    Arp.codec.Restores ⟨.request, ⟨2, 0, 0, 0, 0, 1⟩, ⟨0xc0a80a01⟩, .zero, ⟨0xc0a80a02⟩⟩
      (List.replicate 60 0xa5) ∧
    (Ipv4.codec .manual).Restores ⟨⟨0xc0a80a01⟩, ⟨0xc0a80a02⟩, .unknown 41, 40, 64⟩
      (List.replicate 60 0xa5) ∧
    (Icmp.codec .manual).Restores ⟨.reply, 0x1234, 7, 52⟩ (List.replicate 60 0xa5) ∧
    (Udp.codec .manual ⟨0xc0a80a01⟩ ⟨0xc0a80a02⟩).Restores ⟨1234, 69, 50⟩
      (List.replicate 60 0xa5) ∧
    Sntp.codec.Restores ⟨.alarm, 4, .unknown 7, 2, ⟨0xe0000000, 1⟩⟩ (List.replicate 60 0xa5) ∧
    (Arp.Message.emit ⟨.request, ⟨1, 1, 1, 1, 1, 1⟩, ⟨0x01010101⟩, ⟨1, 1, 1, 1, 1, 1⟩,
      ⟨0x01010101⟩⟩).on ([0, 1, 8, 0, 6, 4, 0, 1] ++ List.replicate 20 1) =
        (.ok (), [0, 1, 8, 0, 6, 4, 0, 1] ++ List.replicate 20 1) := by
  obtain ⟨ethernet, arp, ipv4, icmp, udp, sntp, -, canonical⟩ :=
    codecs_restore (List.replicate 60 0xa5)
  exact ⟨ethernet _ rfl (by decide), arp _ (.inl rfl) (by decide),
    ipv4 _ _ rfl (by decide) (by decide), icmp _ _ (by decide) rfl,
    udp _ _ _ _ (by decide) (by decide),
    sntp _ rfl rfl (by decide) (by decide) (by decide) (by decide), canonical _ _ rfl⟩

end Reflector
