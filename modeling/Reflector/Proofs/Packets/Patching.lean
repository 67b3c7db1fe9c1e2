import Reflector.Proofs.Interface.Layers
import Reflector.Proofs.Packets.Seals
/-!
The patched checksum of a reply to a ping: it is the one that a whole new sum would give, in the one
of two forms of zero that a patch can take, and it is as right as that of the ping.
-/
namespace Reflector

namespace Checksum

/-- A patched sum counts like the sum and the patch, and only nothing patched by nothing is zero. -/
theorem plus_toNat (sum w : UInt16) :
    (plus sum w).toNat % 0xffff = (sum.toNat + w.toNat) % 0xffff ∧
      (0 < (plus sum w).toNat ↔ 0 < sum.toNat + w.toNat) := by
  have hsum := sum.toNat_lt
  have hw := w.toNat_lt
  have hvalue : (plus sum w).toNat =
      (sum.toNat + w.toNat) / 0x10000 + (sum.toNat + w.toNat) % 0x10000 := by
    refine Nat.mod_eq_of_lt ?_
    omega
  rw [hvalue]
  exact carried (sum.toNat + w.toNat)

theorem allOnes_add_plus (n : Nat) (sum w : UInt16) :
    AllOnes (n + (plus sum w).toNat) ↔ AllOnes (n + (sum.toNat + w.toNat)) := by
  obtain ⟨hmod, hpos⟩ := plus_toNat sum w
  unfold AllOnes
  omega

/-- Of words that count the same, one that is not zero is told by any other. -/
theorem Alike.eq_of_ne_zero {v w : UInt16} (h : Alike v w) (hv : v ≠ 0) :
    v = if w = 0 then ones else w := by
  obtain rfl | ⟨rfl, -⟩ | ⟨rfl, rfl⟩ := h
  · rw [if_neg hv]
  · exact absurd rfl hv
  · rfl

end Checksum

namespace Icmp.Responder

open Checksum

variable {b reply rest : Bytes} {n : Nat} {sum : UInt16} {r : Responder} {e : Echo}

/-- An echo message, which is a ping or a reply by its type alone. -/
def message (code : UInt8) (sum : UInt16) (rest : Bytes) : Bytes :=
  [code, 0] ++ Bytes.ofHalf sum.toNat ++ rest

theorem length_message (code : UInt8) (sum : UInt16) (rest : Bytes) :
    (message code sum rest).length = 4 + rest.length := by
  rw [message, List.length_append, List.length_append, Bytes.length_ofHalf]
  rfl

theorem total_message (code : UInt8) (sum : UInt16) (rest : Bytes) :
    total 0 (message code sum rest) = code.toNat * 0x100 + total 0 rest + sum.toNat := by
  have hcode : total 0 [code, 0] = code.toNat * 0x100 := by
    rw [total, total, Nat.zero_add, UInt8.toNat_zero, Nat.add_zero]
  have hfront : [code, 0].length % 2 = 0 := by rw [List.length_cons, List.length_singleton]
  have heven : ([code, 0] ++ Bytes.ofHalf sum.toNat).length % 2 = 0 := by
    rw [List.length_append, Bytes.length_ofHalf, Nat.add_mod_right, hfront]
  calc total 0 (message code sum rest)
    _ = total 0 ([code, 0] ++ Bytes.ofHalf sum.toNat) + total 0 rest := total_append heven
    _ = total 0 [code, 0] + total 0 (Bytes.ofHalf sum.toNat) + total 0 rest := by
      rw [total_append hfront]
    _ = code.toNat * 0x100 + sum.toNat + total 0 rest := by rw [hcode, total_ofHalf]
    _ = code.toNat * 0x100 + total 0 rest + sum.toNat := Nat.add_right_comm _ _ _

theorem total_reply (sum : UInt16) (rest : Bytes) :
    total 0 (message 0 sum rest) = total 0 rest + sum.toNat := by
  rw [total_message, UInt8.toNat_zero, Nat.zero_mul, Nat.zero_add]

/-- By the type of a ping its words sum up to as much more as is patched into the reply. -/
theorem total_ping (sum : UInt16) (rest : Bytes) :
    total 0 (message 8 sum rest) = total 0 rest + (sum.toNat + echoTypeDelta.toNat) := by
  calc total 0 (message 8 sum rest)
    _ = echoTypeDelta.toNat + total 0 rest + sum.toNat := total_message 8 sum rest
    _ = total 0 rest + echoTypeDelta.toNat + sum.toNat := by rw [Nat.add_comm (total 0 rest)]
    _ = total 0 rest + (sum.toNat + echoTypeDelta.toNat) := by
      rw [Nat.add_assoc, Nat.add_comm sum.toNat]

theorem checksum_message (code : UInt8) (sum : UInt16) (rest : Bytes) :
    Packet.checksum (message code sum rest) = .ok sum :=
  (Bytes.half_between _ _ _ rfl).trans (congrArg _ UInt16.ofNat_toNat)

theorem message_put (code : UInt8) (sum new : UInt16) (rest : Bytes) :
    (message code sum rest).put 2 (Bytes.ofHalf new.toNat) = message code new rest :=
  Bytes.put_between rfl rfl

theorem ping_eq (h : e.Heads b) (hkind : e.kind = .request) (hsum : Packet.checksum b = .ok sum) :
    b = message 8 sum (b.drop 4) := by
  obtain ⟨-, htype, hcode⟩ := Echo.exists_request_iff.1 ⟨e, h, hkind⟩
  calc b
    _ = [8] ++ b.drop 1 := Bytes.drop_of_octet htype
    _ = [8] ++ ([0] ++ b.drop 2) := congrArg _ (Bytes.drop_of_octet hcode)
    _ = [8, 0] ++ (Bytes.ofHalf sum.toNat ++ b.drop 4) :=
      congrArg ([8, 0] ++ ·) (Bytes.drop_of_half hsum)
    _ = message 8 sum (b.drop 4) := (List.append_assoc ..).symm

theorem replied_message :
    replied (message 8 sum rest) sum = message 0 (plus sum echoTypeDelta) rest := rfl

/-- What is answered is a ping, and the answer differs in its type and checksum. -/
theorem receive_reflect (hlen : b.length ≤ 131074) (h : r.receive b = .ok (.reflect n, reply)) :
    ∃ sum rest, b = message 8 sum rest ∧ reply = message 0 (plus sum echoTypeDelta) rest ∧
      r.checksum.Passes (Packet.verifyChecksum b) ∧ Packet.headerLen ≤ b.length := by
  by_cases htaken : ∃ e, r.Takes e b
  · obtain ⟨e, ht⟩ := htaken
    by_cases hasked : e.kind = .request ∧ r.denyEcho = false
    · obtain ⟨sum, hsum, hreceive⟩ := receive_ping ht hasked.1 hasked.2
      have hb := ping_eq ht.heads hasked.1 hsum
      cases hreceive.symm.trans h
      refine ⟨sum, b.drop 4, hb, ?_, ht.passes, ht.heads.length ▸ Nat.le_add_right _ _⟩
      rw [← replied_message, ← hb]
    · cases (receive_ignored ht hasked).symm.trans h
  · cases (receive_untaken hlen (not_exists.1 htaken)).symm.trans h

theorem allOnes_reply (sum : UInt16) (rest : Bytes) :
    AllOnes (total 0 (message 0 (plus sum echoTypeDelta) rest)) ↔
      AllOnes (total 0 (message 8 sum rest)) := by
  rw [total_reply, total_ping, allOnes_add_plus]

theorem plus_delta_ne_zero (sum : UInt16) : plus sum echoTypeDelta ≠ 0 := by
  intro hzero
  have hpos := (plus_toNat sum echoTypeDelta).2.2 (Nat.add_pos_right _ (by decide))
  rw [hzero] at hpos
  exact Nat.lt_irrefl _ hpos

theorem fill_reply (sum : UInt16) (rest : Bytes) (hmin : 4 ≤ rest.length)
    (hlen : 4 + rest.length ≤ 131074) :
    Packet.fillChecksum.on (message 0 sum rest) =
        (.ok (), message 0 (~~~(fold (total 0 rest))) rest) ∧
      AllOnes (total 0 (message 0 (~~~(fold (total 0 rest))) rest)) := by
  have hlength := length_message 0 sum rest
  have hroom : Packet.headerLen ≤ (message 0 sum rest).length := by
    rw [hlength]
    exact Nat.add_le_add_left hmin 4
  have hblank : blank (message 0 sum rest) 2 = total 0 rest := by
    rw [blank, message_put, total_reply, UInt16.toNat_zero, Nat.add_zero]
  have hlt := blank_lt (i := 2) (Nat.le_trans (by decide) hroom) (hlength ▸ hlen)
  have hfill := Packet.on_fillChecksum hroom (hlength ▸ hlen)
  rw [hblank] at hlt hfill
  rw [message_put] at hfill
  exact ⟨hfill, total_reply _ _ ▸ allOnes_add_not hlt⟩

/-- The patched checksum is as right as that of the ping. Where that one was right, it is the one
that a new sum over the reply would give, but never takes the form of all zeros. -/
theorem reply_checksum (hlen : b.length ≤ 131074) (h : r.receive b = .ok (.reflect n, reply)) :
    (∃ right, Packet.verifyChecksum b = .ok right ∧ Packet.verifyChecksum reply = .ok right) ∧
    (r.checksum = .manual → ∃ sum patched filled refilled, Packet.checksum b = .ok sum ∧
      addWithCarry sum echoTypeDelta = .ok patched ∧ Packet.checksum reply = .ok patched ∧
      Packet.fillChecksum.apply reply = .ok refilled ∧ Packet.checksum refilled = .ok filled ∧
      patched = (if filled = 0 then ones else filled) ∧
      Packet.verifyChecksum reply = .ok true) := by
  obtain ⟨sum, rest, rfl, rfl, hpasses, hmin⟩ := receive_reflect hlen h
  have hlength := length_message 0 (plus sum echoTypeDelta) rest
  rw [length_message] at hmin hlen
  have hping := Packet.verifyChecksum_eq (length_message 8 sum rest ▸ hlen)
  have hreply := Packet.verifyChecksum_eq (hlength ▸ hlen)
  rw [decide_eq_decide.2 (allOnes_reply sum rest)] at hreply
  refine ⟨⟨_, hping, hreply⟩, fun hmanual => ?_⟩
  have hright : AllOnes (total 0 (message 8 sum rest)) :=
    of_decide_eq_true (Except.ok.inj (hping.symm.trans (hpasses hmanual)))
  obtain ⟨hfill, hfilled⟩ := fill_reply (plus sum echoTypeDelta) rest
    (Nat.le_of_add_le_add_left hmin) hlen
  have hpatched := (allOnes_reply sum rest).2 hright
  rw [total_reply] at hpatched hfilled
  refine ⟨sum, _, _, message 0 (~~~(fold (total 0 rest))) rest, checksum_message _ _ _,
    addWithCarry_eq _ _, checksum_message _ _ _, ?_, checksum_message _ _ _,
    (hpatched.alike hfilled).eq_of_ne_zero (plus_delta_ne_zero sum), ?_⟩
  · rw [Edit.apply, hfill]
  · rw [hreply, decide_eq_true hright]

set_option maxRecDepth 3000 in
/-- A ping whose reply sums up to all ones without a checksum. -/
theorem reply_checksum_ones :
    receive ⟨false, .manual⟩ (message 8 0xf7ff [0xff, 0xff, 0, 0]) =
        .ok (.reflect 8, message 0 0xffff [0xff, 0xff, 0, 0]) ∧
      Packet.fillChecksum.apply (message 0 0xffff [0xff, 0xff, 0, 0]) =
        .ok (message 0 0 [0xff, 0xff, 0, 0]) ∧
      Packet.verifyChecksum (message 0 0xffff [0xff, 0xff, 0, 0]) = .ok true := by
  have hreceive : receive ⟨false, .manual⟩ (message 8 0xf7ff [0xff, 0xff, 0, 0]) =
      .ok (.reflect 8, message 0 0xffff [0xff, 0xff, 0, 0]) := rfl
  obtain ⟨-, hmanual⟩ := reply_checksum (by decide) hreceive
  obtain ⟨_, _, _, _, _, _, _, _, _, _, hverified⟩ := hmanual rfl
  exact ⟨hreceive, rfl, hverified⟩

end Icmp.Responder

end Reflector
