import Reflector.Arp.Resolver
import Reflector.Icmp.Responder
import Reflector.Ipv4.Host
import Reflector.Proofs.Packets.Reading
import Reflector.Sntp.Packet
import Reflector.Udp.Service
/-!
Headers as bytes. Writing a header puts its bytes over the start of any buffer that has room for
them, and never faults there.
-/
namespace Reflector

variable {b data pre old post : Bytes} {i n : Nat}

namespace Bytes

@[simp] theorem length_ofHalf (k : Nat) : (ofHalf k).length = 2 := rfl

@[simp] theorem length_ofWord (k : Nat) : (ofWord k).length = 4 := rfl

theorem put_between (hi : i = pre.length) (h : old.length = data.length) :
    (pre ++ old ++ post).put i data = pre ++ data ++ post := by
  subst hi
  have hfront : (pre ++ old ++ post).take pre.length = pre := by
    rw [List.append_assoc, List.take_left]
  have hback : (pre ++ old ++ post).drop (pre.length + data.length) = post := by
    rw [← h, ← List.length_append, List.drop_left]
  rw [put, hfront, hback]

theorem length_overlay (data : Bytes) (h : i ≤ b.length) :
    (b.overlay i data).length = b.length := by
  refine length_put ?_
  rw [List.length_take]
  omega

theorem overlay_eq (b data : Bytes) (i : Nat) :
    b.overlay i data = b.take i ++ overlay (b.drop i) 0 data := by
  simp only [overlay, put, List.length_drop, Nat.sub_zero, Nat.zero_add, List.take_zero,
    List.nil_append, List.append_assoc, List.drop_drop]

end Bytes

theorem Length.add_succeeds {k : Nat} (h : n + k < limit) :
    Succeeds (add n k) fun sum => sum = n + k := ⟨_, add_of_lt h, rfl⟩

namespace Edit

theorem on_write_between (pre old data post : Bytes) (hi : i = pre.length)
    (h : old.length = data.length) :
    (write i data).on (pre ++ old ++ post) = (.ok (), pre ++ data ++ post) := by
  rw [on_write, Bytes.put_between hi h]
  simp only [List.length_append]
  omega

/-- Where `pre` stands at the start of a buffer, the edit puts `data` behind it, if there is room. -/
def Appends (pre data : Bytes) (m : Edit Unit) : Prop :=
  ∀ b : Bytes, pre.length + data.length ≤ b.length →
    m.on (pre ++ b.drop pre.length) = (.ok (), pre ++ data ++ b.drop (pre ++ data).length)

namespace Appends

variable {m : Edit Unit} {next : Bytes}

theorem write (pre data : Bytes) : Appends pre data (write pre.length data) := by
  intro b h
  have hold : ((b.drop pre.length).take data.length).length = data.length := by
    rw [List.length_take, List.length_drop]
    omega
  have hsplit : b.drop pre.length =
      (b.drop pre.length).take data.length ++ b.drop (pre ++ data).length := calc
    _ = (b.drop pre.length).take data.length ++ (b.drop pre.length).drop data.length :=
      (List.take_append_drop ..).symm
    _ = (b.drop pre.length).take data.length ++ b.drop (pre ++ data).length := by
      rw [List.drop_drop, List.length_append]
  rw [hsplit, ← List.append_assoc]
  exact on_write_between _ _ _ _ rfl hold

theorem bind {f : Unit → Edit Unit} (hm : Appends pre data m)
    (hf : Appends (pre ++ data) next (f ())) : Appends pre (data ++ next) (m >>= f) := by
  intro b h
  rw [List.length_append] at h
  rw [Op.on_bind_ok (hm b (by omega)), hf b (by rw [List.length_append]; omega),
    List.append_assoc pre]

theorem read {α : Type} {x : Except Fault α} {f : α → Edit Unit} {a : α} (hx : x = .ok a)
    (hf : Appends pre data (f a)) : Appends pre data (liftM x >>= f) := by
  subst hx
  exact hf

theorem on (hm : Appends [] data m) (h : data.length ≤ b.length) :
    m.on b = (.ok (), data ++ b.drop data.length) := hm b (by simpa using h)

theorem apply (hm : Appends [] data m) (h : data.length ≤ b.length) :
    m.apply b = .ok (data ++ b.drop data.length) := by rw [Edit.apply, hm.on h]

theorem replaces {kept body : Bytes} (hm : Appends [] data m) (h : kept.length = data.length) :
    m.apply (kept ++ body) = .ok (data ++ body) := by
  rw [hm.apply (by rw [List.length_append]; omega), ← h, List.drop_left]

end Appends

theorem on_write_bind {α : Type} {f : Unit → Edit α} (hi : i = pre.length)
    (h : pre.length + data.length ≤ b.length) :
    (write i data >>= f).on (pre ++ b.drop pre.length) =
      (f ()).on (pre ++ data ++ b.drop (pre ++ data).length) := by
  subst hi
  exact Op.on_bind_ok (Appends.write pre data b h)

end Edit

@[simp] theorem Ipv4.Address.length_toBytes (a : Address) : a.toBytes.length = 4 := rfl

@[simp] theorem Ethernet.Address.length_toBytes (a : Address) : a.toBytes.length = 6 := rfl

namespace Ethernet.Header

def bytes (h : Header) : Bytes :=
  h.destination.toBytes ++ (h.source.toBytes ++ Bytes.ofHalf h.etherType.code.toNat)

@[simp] theorem length_bytes (h : Header) : h.bytes.length = Frame.headerLen := rfl

/-- The source is written first, behind the place of the destination. -/
theorem emit_appends (h : Header) : Edit.Appends [] h.bytes h.emit := by
  intro b (hlen : 14 ≤ b.length)
  have hold : (b.take 6).length = 6 := List.length_take_of_le (Nat.le_trans (by decide) hlen)
  have hsource := Edit.Appends.write (b.take 6) h.source.toBytes b
    (by rw [hold, Address.length_toBytes]; omega)
  rw [hold, List.take_append_drop, List.append_assoc] at hsource
  have hdestination := Edit.on_write_between [] _ h.destination.toBytes
    (h.source.toBytes ++ b.drop (b.take 6 ++ h.source.toBytes).length) rfl hold
  have htype := Edit.Appends.write (h.destination.toBytes ++ h.source.toBytes)
    (Bytes.ofHalf h.etherType.code.toNat) b hlen
  rw [List.length_append, hold] at hdestination hsource
  exact (Op.on_bind_ok hsource).trans ((Op.on_bind_ok hdestination).trans htype)

end Ethernet.Header

namespace Arp

theorem Packet.setAddress_appends {place : Bytes → Except Fault Place}
    (hplace : ∀ rest, place (pre ++ rest) = .ok ⟨pre.length, data.length⟩) :
    Edit.Appends pre data (setAddress place data) := by
  intro b h
  have hview : (Op.view place).on (pre ++ b.drop pre.length) =
      (.ok ⟨pre.length, data.length⟩, pre ++ b.drop pre.length) := by
    rw [Op.on_view, hplace]
  rw [setAddress, Op.on_bind_ok hview, if_pos rfl]
  exact Edit.Appends.write pre data b h

namespace Message

def bytes (m : Message) : Bytes :=
  Bytes.ofHalf 1 ++ (Bytes.ofHalf 0x0800 ++ ([6] ++ ([4] ++
    (Bytes.ofHalf m.operation.code.toNat ++ (m.senderHardware.toBytes ++
      (m.senderProtocol.toBytes ++ (m.targetHardware.toBytes ++ m.targetProtocol.toBytes)))))))

@[simp] theorem length_bytes (m : Message) : m.bytes.length = Packet.plainLen := rfl

theorem emit_appends (m : Message) : Edit.Appends [] m.bytes m.emit := by
  refine (Edit.Appends.write [] _).bind ?_
  refine (Edit.Appends.write _ _).bind ?_
  refine (Edit.Appends.write _ _).bind ?_
  refine (Edit.Appends.write _ _).bind ?_
  refine (Edit.Appends.write _ _).bind ?_
  refine (Packet.setAddress_appends fun _ => rfl).bind ?_
  refine (Packet.setAddress_appends fun _ => rfl).bind ?_
  refine (Packet.setAddress_appends fun _ => rfl).bind ?_
  exact Packet.setAddress_appends fun _ => rfl

end Message

end Arp

namespace Ipv4.Header

def front (h : Header) : Bytes :=
  [0x45] ++ ([0] ++ (Bytes.ofHalf (Packet.plainHeaderLen + h.payloadLen) ++ (Bytes.ofHalf 0 ++
    (Bytes.ofHalf 0x4000 ++ ([h.hopLimit] ++ [h.protocol.code])))))

def addresses (h : Header) : Bytes := h.source.toBytes ++ h.destination.toBytes

def withChecksum (h : Header) (sum : UInt16) : Bytes :=
  h.front ++ Bytes.ofHalf sum.toNat ++ h.addresses

def checksum (h : Header) : Checksum.Mode → UInt16
  | .manual => ~~~(Checksum.fold (Checksum.total 0 (h.withChecksum 0)))
  | .ignored => 0

def bytes (h : Header) (mode : Checksum.Mode) : Bytes := h.withChecksum (h.checksum mode)

@[simp] theorem length_withChecksum (h : Header) (sum : UInt16) :
    (h.withChecksum sum).length = Packet.plainHeaderLen := rfl

@[simp] theorem length_bytes (h : Header) (mode : Checksum.Mode) :
    (h.bytes mode).length = Packet.plainHeaderLen := rfl

theorem on_setChecksum (h : Header) (sum : UInt16) (x y : UInt8) (rest : Bytes) :
    (Packet.setChecksum sum).on (h.front ++ [x, y] ++ (h.addresses ++ rest)) =
      (.ok (), h.withChecksum sum ++ rest) :=
  Edit.on_write_between _ _ _ _ rfl rfl

theorem on_fillChecksum (h : Header) (x y : UInt8) (rest : Bytes) :
    Packet.fillChecksum.on (h.front ++ [x, y] ++ (h.addresses ++ rest)) =
      (.ok (), h.bytes .manual ++ rest) := by
  have hslice : (h.withChecksum 0 ++ rest).slice 0 Packet.plainHeaderLen =
      .ok (h.withChecksum 0) := by
    rw [Bytes.slice_of_le (Nat.zero_le _) (by simp)]
    rfl
  have hsum : Checksum.data (h.withChecksum 0) =
      .ok (Checksum.fold (Checksum.total 0 (h.withChecksum 0))) :=
    Checksum.data_of_length_le (by rw [length_withChecksum]; decide)
  refine (Op.on_bind_ok (h.on_setChecksum 0 x y rest)).trans ?_
  refine (Op.on_bind_ok (Op.on_get _)).trans ?_
  refine (Op.on_bind_ok (a := Packet.plainHeaderLen) rfl).trans ?_
  refine (Op.on_lift_bind hslice).trans ?_
  refine (Op.on_lift_bind hsum).trans ?_
  exact h.on_setChecksum _ 0 0 rest

/-- The addresses are written behind the place of the checksum, which is filled last. -/
theorem emit_appends (h : Header) (mode : Checksum.Mode)
    (hlen : Packet.plainHeaderLen + h.payloadLen < Length.limit) :
    Edit.Appends [] (h.bytes mode) (h.emit mode) := by
  intro b (hb : 20 ≤ b.length)
  have hgap : h.front ++ b.drop 10 = h.front ++ [b[10], b[11]] ++ b.drop 12 := by
    rw [List.drop_eq_getElem_cons (by omega), List.drop_eq_getElem_cons (by omega)]
    rfl
  refine (Edit.on_write_bind (i := 0) (by rfl) (Nat.le_trans (by decide) hb)).trans ?_
  refine (Edit.on_write_bind (by rfl) (Nat.le_trans (by simp) hb)).trans ?_
  refine (Op.on_lift_bind (Length.add_of_lt hlen)).trans ?_
  refine (Edit.on_write_bind (by rfl) (Nat.le_trans (by simp) hb)).trans ?_
  refine (Edit.on_write_bind (by rfl) (Nat.le_trans (by simp) hb)).trans ?_
  refine (Edit.on_write_bind (by rfl) (Nat.le_trans (by simp) hb)).trans ?_
  refine (Edit.on_write_bind (by rfl) (Nat.le_trans (by simp) hb)).trans ?_
  refine (Edit.on_write_bind (by rfl) (Nat.le_trans (by simp) hb)).trans ?_
  refine (congrArg (Op.on _) hgap).trans ?_
  refine (Edit.on_write_bind (by rfl) (Nat.le_trans (by simp [front]) hb)).trans ?_
  refine (Edit.on_write_bind (by rfl) (Nat.le_trans (by simp [front]) hb)).trans ?_
  cases mode with
  | manual => exact h.on_fillChecksum _ _ _
  | ignored => exact h.on_setChecksum 0 _ _ _

end Ipv4.Header

namespace Udp.Header

def bytes (h : Header) : Bytes :=
  Bytes.ofHalf h.source.toNat ++ (Bytes.ofHalf h.destination.toNat ++
    (Bytes.ofHalf (Packet.headerLen + h.payloadLen) ++ Bytes.ofHalf 0))

@[simp] theorem length_bytes (h : Header) : h.bytes.length = Packet.headerLen := rfl

theorem emit_appends (h : Header) (hlen : Packet.headerLen + h.payloadLen < Length.limit) :
    Edit.Appends [] h.bytes h.emit := by
  refine (Edit.Appends.write [] _).bind ?_
  refine (Edit.Appends.write _ _).bind ?_
  refine Edit.Appends.read (Length.add_of_lt hlen) ?_
  refine (Edit.Appends.write _ _).bind ?_
  exact Edit.Appends.write _ _

end Udp.Header

namespace Icmp.Echo

def front (e : Echo) : Bytes := [e.kind.messageType.code, 0]

def numbers (e : Echo) : Bytes := Bytes.ofHalf e.ident.toNat ++ Bytes.ofHalf e.seqNo.toNat

def withChecksum (e : Echo) (sum : UInt16) : Bytes :=
  e.front ++ Bytes.ofHalf sum.toNat ++ e.numbers

def checksum (e : Echo) (payload : Bytes) : UInt16 :=
  ~~~(Checksum.fold (Checksum.total 0 (e.withChecksum 0 ++ payload)))

@[simp] theorem length_withChecksum (e : Echo) (sum : UInt16) :
    (e.withChecksum sum).length = Packet.headerLen := rfl

theorem on_setChecksum (e : Echo) (old sum : UInt16) (payload : Bytes) :
    (Packet.setChecksum sum).on (e.withChecksum old ++ payload) =
      (.ok (), e.withChecksum sum ++ payload) := by
  simp only [withChecksum, List.append_assoc _ e.numbers]
  exact Edit.on_write_between _ _ _ _ rfl rfl

theorem emit_appends (e : Echo) : Edit.Appends [] (e.withChecksum 0) e.emit := by
  intro b (hb : 8 ≤ b.length)
  have hgap : e.front ++ b.drop 2 = e.front ++ [b[2], b[3]] ++ b.drop 4 := by
    rw [List.drop_eq_getElem_cons (by omega), List.drop_eq_getElem_cons (by omega)]
    rfl
  have hplace : e.front ++ [b[2], b[3]] ++ e.numbers ++ b.drop 8 =
      e.front ++ [b[2], b[3]] ++ (e.numbers ++ b.drop 8) := List.append_assoc _ _ _
  refine (Edit.on_write_bind (i := 0) (by rfl) (Nat.le_trans (by simp) hb)).trans ?_
  refine (Edit.on_write_bind (by rfl) (Nat.le_trans (by simp) hb)).trans ?_
  refine (congrArg (Op.on _) hgap).trans ?_
  refine (Edit.on_write_bind (by rfl) (Nat.le_trans (by simp [front]) hb)).trans ?_
  refine (Edit.on_write_bind (by rfl) (Nat.le_trans (by simp [front]) hb)).trans ?_
  refine (congrArg (Op.on _) hplace).trans ?_
  exact Edit.on_write_between e.front [b[2], b[3]] (Bytes.ofHalf 0) (e.numbers ++ b.drop 8) rfl rfl

theorem on_fillChecksum (e : Echo) (old : UInt16) (payload : Bytes)
    (hlen : Packet.headerLen + payload.length ≤ 131074) :
    Packet.fillChecksum.on (e.withChecksum old ++ payload) =
      (.ok (), e.withChecksum (e.checksum payload) ++ payload) := by
  have hsum : Checksum.data (e.withChecksum 0 ++ payload) =
      .ok (Checksum.fold (Checksum.total 0 (e.withChecksum 0 ++ payload))) :=
    Checksum.data_of_length_le (by rwa [List.length_append, length_withChecksum])
  refine (Op.on_bind_ok (e.on_setChecksum old 0 payload)).trans ?_
  refine (Op.on_view_bind hsum).trans ?_
  exact e.on_setChecksum 0 _ payload

end Icmp.Echo

namespace Icmp.Responder

def replied (b : Bytes) (sum : UInt16) : Bytes :=
  [0] ++ (b.drop 1).take 1 ++ Bytes.ofHalf (Checksum.plus sum echoTypeDelta).toNat ++ b.drop 4

theorem length_replied {sum : UInt16} (h : 4 ≤ b.length) : (replied b sum).length = b.length := by
  simp only [replied, List.length_append, List.length_take, List.length_drop, List.length_cons,
    List.length_nil, Bytes.length_ofHalf]
  omega

theorem checksum_of_cons (x y z w : UInt8) (rest : Bytes) :
    Packet.checksum (x :: y :: z :: w :: rest) =
      .ok (UInt16.ofNat (z.toNat * 0x100 + w.toNat)) := rfl

theorem reply_apply {sum : UInt16} (h : 4 ≤ b.length) (hsum : Packet.checksum b = .ok sum) :
    reply.apply b = .ok (replied b sum) := by
  match b, h with
  | x :: y :: z :: w :: rest, _ =>
    rw [checksum_of_cons] at hsum
    have htype : (Packet.setMessageType .echoReply).on (x :: y :: z :: w :: rest) =
        (.ok (), 0 :: y :: z :: w :: rest) :=
      Edit.on_write_between [] [x] [0] (y :: z :: w :: rest) rfl rfl
    have hview : (Op.view Packet.checksum).on (0 :: y :: z :: w :: rest) =
        (.ok sum, 0 :: y :: z :: w :: rest) := by
      rw [Op.on_view, checksum_of_cons, hsum]
    have hpatch : (Packet.setChecksum (Checksum.plus sum echoTypeDelta)).on
        (0 :: y :: z :: w :: rest) = (.ok (), replied (x :: y :: z :: w :: rest) sum) :=
      Edit.on_write_between [0, y] [z, w] _ rest rfl (Bytes.length_ofHalf _).symm
    have hadd : (liftM (Checksum.addWithCarry sum echoTypeDelta) : Edit UInt16).on
        (0 :: y :: z :: w :: rest) =
          (.ok (Checksum.plus sum echoTypeDelta), 0 :: y :: z :: w :: rest) := by
      rw [Op.on_lift, Checksum.addWithCarry_eq]
    rw [Edit.apply, reply, Op.on_bind_ok htype, Op.on_bind_ok hview, Op.on_bind_ok hadd, hpatch]

end Icmp.Responder

namespace Sntp.Message

def first (m : Message) : UInt8 :=
  UInt8.ofNat (m.leap.code.toNat * 64 + m.version.toNat % 8 * 8 + m.mode.code.toNat % 8)

def gap : Bytes := List.replicate 38 0

def bytes (m : Message) : Bytes := [m.first, m.stratum] ++ gap ++ m.transmit.toBytes

@[simp] theorem length_bytes (m : Message) : m.bytes.length = Packet.len := rfl

/-- All is zeroed first, then the fields are filled. -/
theorem emit_appends (m : Message) : Edit.Appends [] m.bytes m.emit := by
  intro b hb
  have hclear : Packet.clear.on b =
      (.ok (), [] ++ [0] ++ ([0] ++ gap ++ Timestamp.unknown.toBytes ++ b.drop 48)) :=
    Edit.Appends.write [] (List.replicate Packet.len 0) b hb
  have hfirst := Edit.on_write_between (i := 0) [] [0] [m.first]
    ([0] ++ gap ++ Timestamp.unknown.toBytes ++ b.drop 48) rfl rfl
  have hstratum := Edit.on_write_between (i := 1) [m.first] [0] [m.stratum]
    (gap ++ Timestamp.unknown.toBytes ++ b.drop 48) rfl rfl
  have htransmit := Edit.on_write_between (i := 40) ([m.first, m.stratum] ++ gap)
    Timestamp.unknown.toBytes m.transmit.toBytes (b.drop 48) rfl rfl
  exact (Op.on_bind_ok hclear).trans ((Op.on_bind_ok hfirst).trans
    ((Op.on_bind_ok hstratum).trans htransmit))

end Sntp.Message

end Reflector
