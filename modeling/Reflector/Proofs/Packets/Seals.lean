import Reflector.Proofs.Packets.RoundTrip
/-!
The checksums of packets as seals: a checksum that was filled in verifies, and no single word can be
replaced unnoticed, but by one that counts the same.
-/
namespace Reflector

variable {b data : Bytes} {i j n : Nat}

namespace Bytes

theorem octet_put_of_apart (h : i + data.length ≤ b.length) (hj : j < i ∨ i + data.length ≤ j) :
    (b.put i data).octet j = b.octet j := by
  rw [octet, getElem?_put h, if_neg (by omega), octet]

theorem half_put_of_apart (h : i + data.length ≤ b.length)
    (hj : j + 1 < i ∨ i + data.length ≤ j) : (b.put i data).half j = b.half j := by
  rw [half, octet_put_of_apart h (by omega), octet_put_of_apart h (by omega), half]

theorem half_put (h : i + 2 ≤ b.length) (w : UInt16) :
    (b.put i (ofHalf w.toNat)).half i = .ok w := by
  have hi : i = (b.take i).length := (List.length_take_of_le (Nat.le_of_add_right_le h)).symm
  rw [put, half_between _ _ _ hi, UInt16.ofNat_toNat]

theorem put_half {w : UInt16} (h : b.half i = .ok w) : b.put i (ofHalf w.toNat) = b := by
  calc b.put i (ofHalf w.toNat)
    _ = b.take i ++ (ofHalf w.toNat ++ b.drop (i + 2)) := List.append_assoc ..
    _ = b.take i ++ b.drop i := by rw [drop_of_half h]
    _ = b := List.take_append_drop i b

theorem put_put (h : i + 2 ≤ b.length) (v w : UInt16) :
    (b.put i (ofHalf v.toNat)).put i (ofHalf w.toNat) = b.put i (ofHalf w.toNat) := by
  have hi : i = (b.take i).length := (List.length_take_of_le (Nat.le_of_add_right_le h)).symm
  exact put_between hi rfl

theorem take_put_inside (h : i + data.length ≤ n) (hn : n ≤ b.length) :
    (b.put i data).take n = put (b.take n) i data := by
  have hi : (b.take i).length = i :=
    List.length_take_of_le (Nat.le_trans (Nat.le_of_add_right_le h) hn)
  have hfront : (b.take i ++ data).length = i + data.length := by rw [List.length_append, hi]
  have htake : (b.take n).take i = b.take i := by
    rw [List.take_take, Nat.min_eq_left (by omega)]
  calc (b.put i data).take n
    _ = (b.take i ++ data).take n ++ (b.drop (i + data.length)).take (n - (i + data.length)) := by
      rw [put, List.take_append, hfront]
    _ = b.take i ++ data ++ (b.drop (i + data.length)).take (n - (i + data.length)) := by
      rw [List.take_of_length_le (by omega)]
    _ = b.take i ++ data ++ (b.take n).drop (i + data.length) := by rw [List.drop_take]
    _ = put (b.take n) i data := by rw [put, htake]

theorem octet_put (h : i + 1 ≤ b.length) (x : UInt8) : (b.put i [x]).octet i = .ok x := by
  rw [octet, getElem?_put h, if_pos ⟨Nat.le_refl i, Nat.lt_succ_self i⟩, Nat.sub_self]
  rfl

theorem take_put (h : i ≤ b.length) : (b.put i data).take i = b.take i := by
  rw [put, List.append_assoc]
  exact List.take_left' (List.length_take_of_le h)

theorem take_of_octet {x : UInt8} (h : b.octet i = .ok x) : b.take (i + 1) = b.take i ++ [x] := by
  rw [List.take_add_one, getElem?_of_octet h]
  rfl

end Bytes

theorem Edit.on_write_again (h : i + 2 ≤ b.length) (v w : UInt16) :
    (write i (Bytes.ofHalf w.toNat)).on (b.put i (Bytes.ofHalf v.toNat)) =
      (.ok (), b.put i (Bytes.ofHalf w.toNat)) := by
  have hlen : (b.put i (Bytes.ofHalf v.toNat)).length = b.length := Bytes.length_put h
  rw [on_write (by rwa [hlen]), Bytes.put_put h]

namespace Checksum

/-- The sum of all words but the one at `i`. -/
def blank (b : Bytes) (i : Nat) : Nat := total 0 (b.put i (Bytes.ofHalf (0 : UInt16).toNat))

theorem total_put (hi : i % 2 = 0) (h : i + 2 ≤ b.length) (w : UInt16) :
    total 0 (b.put i (Bytes.ofHalf w.toNat)) = blank b i + w.toNat := by
  have heven : (b.take i).length % 2 = 0 := by
    rw [List.length_take_of_le (Nat.le_of_add_right_le h), hi]
  exact total_word (b.take i) (b.drop (i + 2)) heven w

theorem blank_put (h : i + 2 ≤ b.length) (w : UInt16) :
    blank (b.put i (Bytes.ofHalf w.toNat)) i = blank b i := by
  rw [blank, Bytes.put_put h, blank]

theorem blank_lt (h : i + 2 ≤ b.length) (hlen : b.length ≤ 131074) : blank b i < limit := by
  have hput : (b.put i (Bytes.ofHalf (0 : UInt16).toNat)).length = b.length := Bytes.length_put h
  exact total_lt_of_length_le (hput ▸ hlen)

/-- A byte behind whole words counts as a high half. -/
theorem total_take_of_octet {x : UInt8} (hi : i % 2 = 0) (h : b.octet i = .ok x) :
    total 0 (b.take (i + 1)) = total 0 (b.take i) + x.toNat * 0x100 := by
  have heven : (b.take i).length % 2 = 0 := by
    have hlt := (List.getElem?_eq_some_iff.1 (Bytes.getElem?_of_octet h)).1
    rw [List.length_take_of_le (Nat.le_of_lt hlt), hi]
  calc total 0 (b.take (i + 1))
    _ = total 0 (b.take i ++ [x]) := by rw [Bytes.take_of_octet h]
    _ = total 0 (b.take i) + total 0 [x] := total_append heven
    _ = total 0 (b.take i) + x.toNat * 0x100 := by rw [total, Nat.zero_add]

theorem fold_beq_ones (h : n < limit) : (fold n == ones) = decide (AllOnes n) := by
  rw [Bool.beq_eq_decide_eq]
  exact decide_eq_decide.2 (fold_eq_ones_iff h)

end Checksum

structure Seal where
  place : Nat
  fill : Edit Unit
  verify : Bytes → Except Fault Bool

namespace Seal

open Checksum (Alike AllOnes blank total)

/-- Filling writes the field and nothing else. Then the packet verifies, and filling it again
changes nothing. -/
def Closes (f : Seal) (b : Bytes) : Prop := ∃ sum : UInt16,
  let closed := b.put f.place (Bytes.ofHalf sum.toNat)
  f.fill.on b = (.ok (), closed) ∧ f.verify closed = .ok true ∧ f.fill.on closed = (.ok (), closed)

/-- A packet that verifies does so no more when one word of its first `n` bytes is replaced, unless
by one that counts the same, or the replacement is exempt. A last odd byte is half a word. -/
structure Guards (f : Seal) (b : Bytes) (n : Nat) (exempt : Nat → UInt16 → Prop) : Prop where
  word : f.verify b = .ok true → ∀ (i : Nat) (old new : UInt16), i % 2 = 0 → i + 2 ≤ n →
    b.half i = .ok old → ¬Alike old new → ¬exempt i new →
      f.verify (b.put i (Bytes.ofHalf new.toNat)) = .ok false
  last : f.verify b = .ok true → ∀ old new : UInt8, n % 2 = 1 → b.octet (n - 1) = .ok old →
    old ≠ new → f.verify (b.put (n - 1) [new]) = .ok false

/-- To verify is to sum up the first `n` bytes, on top of something else. -/
def Sums (f : Seal) (b : Bytes) (n extra : Nat) : Prop :=
  f.verify b = .ok (decide (AllOnes (extra + total 0 (b.take n))))

variable {f : Seal} {extra : Nat} {exempt : Nat → UInt16 → Prop}

theorem Sums.allOnes (hb : f.Sums b n extra) (h : f.verify b = .ok true) :
    AllOnes (extra + total 0 (b.take n)) :=
  of_decide_eq_true (Except.ok.inj (hb.symm.trans h))

theorem total_take_put (hi : i % 2 = 0) (hin : i + 2 ≤ n) (hn : n ≤ b.length) (w : UInt16) :
    total 0 ((b.put i (Bytes.ofHalf w.toNat)).take n) = blank (b.take n) i + w.toNat := by
  calc total 0 ((b.put i (Bytes.ofHalf w.toNat)).take n)
    _ = total 0 (Bytes.put (b.take n) i (Bytes.ofHalf w.toNat)) :=
      congrArg _ (Bytes.take_put_inside hin hn)
    _ = blank (b.take n) i + w.toNat :=
      Checksum.total_put hi (by rwa [List.length_take_of_le hn]) w

theorem Sums.guards (hb : f.Sums b n extra) (hn : n ≤ b.length)
    (hword : ∀ (i : Nat) (new : UInt16), i % 2 = 0 → i + 2 ≤ n → ¬exempt i new →
      f.Sums (b.put i (Bytes.ofHalf new.toNat)) n extra)
    (hlast : ∀ new : UInt8, n % 2 = 1 → f.Sums (b.put (n - 1) [new]) n extra) :
    f.Guards b n exempt where
  word hverified i old new hi hin hold hunlike hexempt := by
    have hbefore := total_take_put hi hin hn old
    rw [Bytes.put_half hold] at hbefore
    have hsum : AllOnes (extra + blank (b.take n) i + old.toNat) := by
      rw [Nat.add_assoc, ← hbefore]
      exact hb.allOnes hverified
    have hbroken : ¬AllOnes (extra + blank (b.take n) i + new.toNat) :=
      fun hnew => hunlike (hsum.alike hnew)
    rw [hword i new hi hin hexempt, total_take_put hi hin hn, ← Nat.add_assoc,
      decide_eq_false hbroken]
  last hverified old new hodd hold hne := by
    obtain ⟨m, rfl⟩ : ∃ m, n = m + 1 := ⟨n - 1, by omega⟩
    have heven : m % 2 = 0 := by omega
    have hbefore := hb.allOnes hverified
    rw [Checksum.total_take_of_octet heven hold] at hbefore
    have hafter := Checksum.total_take_of_octet heven (Bytes.octet_put hn new)
    rw [Bytes.take_put (Nat.le_of_succ_le hn)] at hafter
    rw [hlast new hodd, Nat.add_sub_cancel, hafter, decide_eq_false]
    exact fun hnew => hne (hbefore.high_eq hnew)

/-- The word that is filled in depends on the other words alone, and makes up for them. -/
theorem closes (f : Seal) (word : Nat → UInt16) (hplace : f.place % 2 = 0)
    (hin : f.place + 2 ≤ n) (hn : n ≤ b.length)
    (hfill : ∀ w : UInt16, f.fill.on (b.put f.place (Bytes.ofHalf w.toNat)) =
      (.ok (), (b.put f.place (Bytes.ofHalf w.toNat)).put f.place (Bytes.ofHalf
        (word (blank ((b.put f.place (Bytes.ofHalf w.toNat)).take n) f.place)).toNat)))
    (hsum : AllOnes
      (extra + blank (b.take n) f.place + (word (blank (b.take n) f.place)).toNat))
    (hsums : f.Sums
      (b.put f.place (Bytes.ofHalf (word (blank (b.take n) f.place)).toNat)) n extra) :
    f.Closes b := by
  have hroom : f.place + 2 ≤ b.length := Nat.le_trans hin hn
  have hfilled (w : UInt16) : f.fill.on (b.put f.place (Bytes.ofHalf w.toNat)) =
      (.ok (), b.put f.place (Bytes.ofHalf (word (blank (b.take n) f.place)).toNat)) := by
    have htake : (b.put f.place (Bytes.ofHalf w.toNat)).take n =
        Bytes.put (b.take n) f.place (Bytes.ofHalf w.toNat) := Bytes.take_put_inside hin hn
    rw [hfill, htake, Checksum.blank_put (by rwa [List.length_take_of_le hn]), Bytes.put_put hroom]
  obtain ⟨old, hold, -⟩ : Succeeds (b.half f.place) fun _ => True :=
    Bytes.half_succeeds hroom (Nat.le_refl _)
  have hfirst := hfilled old
  rw [Bytes.put_half hold] at hfirst
  refine ⟨_, hfirst, ?_, hfilled _⟩
  rw [hsums, total_take_put hplace hin hn, ← Nat.add_assoc, decide_eq_true hsum]

end Seal

namespace Icmp

open Checksum

def messageSeal : Seal := ⟨2, Packet.fillChecksum, Packet.verifyChecksum⟩

theorem Packet.verifyChecksum_eq (h : b.length ≤ 131074) :
    verifyChecksum b = .ok (decide (AllOnes (total 0 b))) := by
  rw [verifyChecksum, data_of_length_le h, ← fold_beq_ones (total_lt_of_length_le h)]
  rfl

theorem Packet.on_fillChecksum (h : headerLen ≤ b.length) (hlen : b.length ≤ 131074) :
    fillChecksum.on b = (.ok (), b.put 2 (Bytes.ofHalf (~~~(fold (blank b 2))).toNat)) := by
  have hroom : 2 + 2 ≤ b.length := Nat.le_trans (by decide) h
  have hput : (b.put 2 (Bytes.ofHalf (0 : UInt16).toNat)).length = b.length :=
    Bytes.length_put hroom
  refine (Op.on_bind_ok (Edit.on_write hroom)).trans ?_
  refine (Op.on_view_bind (data_of_length_le (hput ▸ hlen))).trans ?_
  exact Edit.on_write_again hroom 0 _

theorem messageSeal_sums (h : b.length = n) (hlen : n ≤ 131074) : messageSeal.Sums b n 0 := by
  subst h
  rw [Seal.Sums, Nat.zero_add, List.take_length]
  exact Packet.verifyChecksum_eq hlen

theorem messageSeal_closes (h : Packet.headerLen ≤ b.length) (hlen : b.length ≤ 131074) :
    messageSeal.Closes b := by
  have hroom : 2 + 2 ≤ b.length := Nat.le_trans (by decide) h
  have hput (w : UInt16) : (b.put 2 (Bytes.ofHalf w.toNat)).length = b.length :=
    Bytes.length_put hroom
  refine messageSeal.closes (fun n => ~~~(fold n)) rfl hroom (Nat.le_refl _) (fun w => ?_) ?_
    (messageSeal_sums (hput _) hlen)
  · have hwhole : (b.put 2 (Bytes.ofHalf w.toNat)).take b.length = b.put 2 (Bytes.ofHalf w.toNat) :=
      List.take_of_length_le (Nat.le_of_eq (hput w))
    rw [show messageSeal.place = 2 from rfl, hwhole]
    exact Packet.on_fillChecksum (hput w ▸ h) (hput w ▸ hlen)
  · rw [List.take_length, Nat.zero_add]
    exact allOnes_add_not (blank_lt hroom hlen)

theorem messageSeal_guards (hmin : Packet.headerLen ≤ b.length) (hlen : b.length ≤ 131074) :
    messageSeal.Guards b b.length fun _ _ => False := by
  have hlast : b.length - 1 + 1 ≤ b.length :=
    Nat.le_of_eq (Nat.sub_add_cancel (Nat.le_trans (by decide) hmin))
  exact (messageSeal_sums rfl hlen).guards (Nat.le_refl _)
    (fun _ _ _ hin _ => messageSeal_sums (Bytes.length_put hin) hlen)
    fun _ _ => messageSeal_sums (Bytes.length_put hlast) hlen

end Icmp

namespace Ipv4

open Checksum

def headerSeal : Seal := ⟨10, Packet.fillChecksum, Packet.verifyChecksum⟩

theorem headerSeal_sums (h : Packet.headerLen b = .ok n) (hn : n ≤ b.length) :
    headerSeal.Sums b n 0 := by
  have hshort := Packet.headerLen_le h
  have hslice : b.slice 0 n = .ok (b.take n) := Bytes.slice_of_le (Nat.zero_le _) hn
  have hlen : (b.take n).length ≤ 131074 := by
    rw [List.length_take]
    omega
  show Packet.verifyChecksum b = _
  rw [Nat.zero_add, Packet.verifyChecksum, h, ← fold_beq_ones (total_lt_of_length_le hlen)]
  show (b.slice 0 n >>= fun part => data part >>= _) = _
  rw [hslice]
  show (data (b.take n) >>= _) = _
  rw [data_of_length_le hlen]
  rfl

theorem Packet.headerLen_put {w : UInt16} (hi : 0 < i) (h : i + 2 ≤ b.length) :
    headerLen (b.put i (Bytes.ofHalf w.toNat)) = headerLen b := by
  rw [headerLen, Bytes.octet_put_of_apart h (.inl hi), headerLen]

theorem Packet.on_fillChecksum (h : headerLen b = .ok n) (hroom : 10 + 2 ≤ b.length)
    (hin : n ≤ b.length) :
    fillChecksum.on b = (.ok (), b.put 10 (Bytes.ofHalf (~~~(fold (total 0
      ((b.put 10 (Bytes.ofHalf (0 : UInt16).toNat)).take n)))).toNat)) := by
  have hput : (b.put 10 (Bytes.ofHalf (0 : UInt16).toNat)).length = b.length :=
    Bytes.length_put hroom
  have hlen : headerLen (b.put 10 (Bytes.ofHalf (0 : UInt16).toNat)) = .ok n :=
    (headerLen_put (by decide) hroom).trans h
  have hslice := Bytes.slice_of_le (Nat.zero_le n) (hput ▸ hin)
  have hshort := headerLen_le h
  have hsum : data ((b.put 10 (Bytes.ofHalf (0 : UInt16).toNat)).take n) = .ok (fold (total 0
      ((b.put 10 (Bytes.ofHalf (0 : UInt16).toNat)).take n))) := by
    refine data_of_length_le ?_
    rw [List.length_take]
    omega
  refine (Op.on_bind_ok (Edit.on_write hroom)).trans ?_
  refine (Op.on_bind_ok (Op.on_get _)).trans ?_
  refine (Op.on_lift_bind hlen).trans ?_
  refine (Op.on_lift_bind hslice).trans ?_
  refine (Op.on_lift_bind hsum).trans ?_
  exact Edit.on_write_again hroom 0 _

theorem headerSeal_closes (h : Packet.headerLen b = .ok n) (hn : 12 ≤ n) (hin : n ≤ b.length) :
    headerSeal.Closes b := by
  have hroom : 10 + 2 ≤ b.length := Nat.le_trans hn hin
  have hlen (w : UInt16) : Packet.headerLen (b.put 10 (Bytes.ofHalf w.toNat)) = .ok n :=
    (Packet.headerLen_put (by decide) hroom).trans h
  have hin' (w : UInt16) : n ≤ (b.put 10 (Bytes.ofHalf w.toNat)).length :=
    Nat.le_trans hin (Nat.le_of_eq (Bytes.length_put hroom).symm)
  have hshort := Packet.headerLen_le h
  have htake : (b.take n).length = n := List.length_take_of_le hin
  refine headerSeal.closes (fun n => ~~~(fold n)) rfl hn hin (fun w => ?_) ?_
    (headerSeal_sums (hlen _) (hin' _))
  · refine (Packet.on_fillChecksum (hlen w) (Nat.le_trans hn (hin' w)) (hin' w)).trans ?_
    rw [Bytes.take_put_inside hn (hin' w)]
    rfl
  · rw [Nat.zero_add]
    exact allOnes_add_not (blank_lt (by rwa [htake]) (by omega))

theorem headerSeal_guards (h : Packet.headerLen b = .ok n) (hin : n ≤ b.length) :
    headerSeal.Guards b n fun i _ => i = 0 := by
  refine (headerSeal_sums h hin).guards hin (fun i new _ hword hi => ?_) fun _ hodd => ?_
  · have hroom : i + 2 ≤ b.length := Nat.le_trans hword hin
    have hput : (b.put i (Bytes.ofHalf new.toNat)).length = b.length := Bytes.length_put hroom
    exact headerSeal_sums ((Packet.headerLen_put (Nat.pos_of_ne_zero hi) hroom).trans h)
      (hput ▸ hin)
  · obtain ⟨first, -, rfl⟩ := field_iff.1 h
    omega

end Ipv4

namespace Udp

open Checksum

def datagramSeal (source destination : Ipv4.Address) : Seal :=
  ⟨6, Packet.fillChecksum source destination, Packet.verifyChecksum source destination⟩

variable {source destination : Ipv4.Address} {len : Nat} {p field : UInt16}

theorem Packet.sum_eq (h : Holds b len)
    (hp : pseudoHeader source destination Ipv4.Protocol.udp.code len = .ok p) :
    sum source destination b = .ok (fold (p.toNat + (fold (total 0 (b.take len))).toNat)) := by
  have hslice : b.slice 0 len = .ok (b.take len) := Bytes.slice_of_le (Nat.zero_le _) h.inside
  have hdata : data (b.take len) = .ok (fold (total 0 (b.take len))) := by
    have hshort := h.short
    refine data_of_length_le ?_
    rw [List.length_take_of_le h.inside]
    omega
  have hcombine (q : UInt16) : combine [p, q] = .ok (fold (p.toNat + q.toNat)) :=
    combine_of_length_le (by simp only [List.length_cons, List.length_nil]; decide)
  apply Succeeds.eq
  apply Succeeds.read h.totalLen
  apply Succeeds.read hp
  apply Succeeds.read hslice
  apply Succeeds.read hdata
  exact ⟨_, hcombine _, rfl⟩

/-- A datagram without a checksum of zero is summed up. -/
theorem datagramSeal_sums (h : Packet.Holds b len)
    (hp : pseudoHeader source destination Ipv4.Protocol.udp.code len = .ok p)
    (hfield : Packet.checksum b = .ok field) (hset : field ≠ 0) :
    (datagramSeal source destination).Sums b len p.toNat := by
  have hshort := h.short
  have htotal : total 0 (b.take len) < limit := total_lt_of_length_le (by
    rw [List.length_take_of_le h.inside]
    omega)
  have hlt := p.toNat_lt
  have hlt' := (fold (total 0 (b.take len))).toNat_lt
  have hverify : Packet.verifyChecksum source destination b =
      .ok (fold (p.toNat + (fold (total 0 (b.take len))).toNat) == ones) := by
    apply Succeeds.eq
    apply Succeeds.read hfield
    rw [if_neg hset]
    apply Succeeds.read (Packet.sum_eq h hp)
    exact Succeeds.pure rfl
  refine hverify.trans (congrArg _ ?_)
  rw [fold_beq_ones (by simp only [limit]; omega)]
  exact decide_eq_decide.2 (allOnes_add_fold _ htotal)

theorem Packet.Holds.put (h : Holds b len) (hin : i + data.length ≤ b.length)
    (hapart : 4 + 1 < i ∨ i + data.length ≤ 4) : Holds (b.put i data) len := by
  have htotal : Packet.totalLen (b.put i data) = .ok len := by
    rw [Packet.totalLen, Bytes.half_put_of_apart hin hapart]
    exact h.totalLen
  exact ⟨htotal, h.header, Bytes.length_put hin ▸ h.inside, h.short⟩

theorem Packet.Holds.put_checksum (h : Holds b len) (w : UInt16) :
    Holds (b.put 6 (Bytes.ofHalf w.toNat)) len :=
  h.put h.headerLen_le (.inl (by decide))

def Packet.filled (sum : UInt16) : UInt16 := if ~~~sum = 0 then ones else ~~~sum

theorem Packet.filled_ne_zero (sum : UInt16) : filled sum ≠ 0 := by
  unfold filled
  split
  · decide
  · assumption

theorem Packet.allOnes_filled (h : n < limit) : AllOnes (n + (filled (fold n)).toNat) := by
  have hsum := allOnes_add_not h
  unfold filled
  split
  · next hzero =>
    rw [hzero, UInt16.toNat_zero] at hsum
    have hones : ones.toNat = 0xffff := rfl
    unfold AllOnes at hsum ⊢
    omega
  · exact hsum

theorem Packet.on_fillChecksum (h : Holds b len)
    (hp : pseudoHeader source destination Ipv4.Protocol.udp.code len = .ok p) :
    (fillChecksum source destination).on b = (.ok (), b.put 6
      (Bytes.ofHalf (filled (fold (p.toNat + (fold (blank (b.take len) 6)).toNat))).toNat)) := by
  have hroom : 6 + 2 ≤ b.length := h.headerLen_le
  have hsum := sum_eq (h.put_checksum 0) hp
  rw [Bytes.take_put_inside h.header h.inside] at hsum
  refine (Op.on_bind_ok (Edit.on_write hroom)).trans ?_
  refine (Op.on_view_bind hsum).trans ?_
  exact Edit.on_write_again hroom 0 _

theorem datagramSeal_closes (h : Packet.Holds b len) :
    (datagramSeal source destination).Closes b := by
  obtain ⟨p, hp, -⟩ :=
    pseudoHeader_succeeds source destination Ipv4.Protocol.udp.code len
  have hroom : 6 + 2 ≤ b.length := h.headerLen_le
  have htake : (b.take len).length = len := List.length_take_of_le h.inside
  have hshort := h.short
  have hblank : blank (b.take len) 6 < limit :=
    blank_lt (by rw [htake]; exact h.header) (by omega)
  refine (datagramSeal source destination).closes
    (fun n => Packet.filled (fold (p.toNat + (fold n).toNat))) (show 6 % 2 = 0 from rfl) h.header
    h.inside (fun w => Packet.on_fillChecksum (h.put_checksum w) hp) ?_
    (datagramSeal_sums (h.put_checksum _) hp (Bytes.half_put hroom _) (Packet.filled_ne_zero _))
  have hlt := p.toNat_lt
  have hlt' := (fold (blank (b.take len) 6)).toNat_lt
  have hsum : AllOnes (p.toNat + (fold (blank (b.take len) 6)).toNat + (Packet.filled
      (fold (p.toNat + (fold (blank (b.take len) 6)).toNat))).toNat) :=
    Packet.allOnes_filled (by simp only [limit]; omega)
  rwa [Nat.add_right_comm, allOnes_add_fold _ hblank, Nat.add_right_comm] at hsum

/-- Of the words of a datagram, only its length cannot be replaced for certain, and a checksum by
none. -/
theorem datagramSeal_guards (h : Packet.Holds b len) (hset : Packet.checksum b ≠ .ok 0) :
    (datagramSeal source destination).Guards b len fun i new => i = 4 ∨ i = 6 ∧ new = 0 := by
  obtain ⟨p, hp, -⟩ :=
    pseudoHeader_succeeds source destination Ipv4.Protocol.udp.code len
  obtain ⟨field, hfield, -⟩ : Succeeds (Packet.checksum b) fun _ => True :=
    Bytes.half_succeeds h.headerLen_le (by decide)
  have hnonzero : field ≠ 0 := fun hzero => hset (hzero ▸ hfield)
  have hheader := h.header
  have hinside := h.inside
  have hsums {i : Nat} {data : Bytes} (hin : i + data.length ≤ b.length)
      (hapart : 6 + 1 < i ∨ i + data.length ≤ 4) :
      (datagramSeal source destination).Sums (b.put i data) len p.toNat := by
    have hfield' : Packet.checksum (b.put i data) = .ok field :=
      (Bytes.half_put_of_apart hin (by omega)).trans hfield
    exact datagramSeal_sums (h.put hin (by omega)) hp hfield' hnonzero
  refine (datagramSeal_sums h hp hfield hnonzero).guards hinside
    (fun i new hi hword hexempt => ?_) fun new hodd => ?_
  · obtain ⟨hfour, hsix⟩ := not_or.1 hexempt
    have hroom : i + 2 ≤ b.length := Nat.le_trans hword hinside
    by_cases hplace : i = 6
    · subst hplace
      exact datagramSeal_sums (h.put_checksum new) hp (Bytes.half_put hroom new)
        fun hzero => hsix ⟨rfl, hzero⟩
    · refine hsums hroom ?_
      rw [Bytes.length_ofHalf]
      omega
  · have hroom : len - 1 + [new].length ≤ b.length := by
      rw [List.length_singleton]
      omega
    refine hsums hroom (.inl ?_)
    have hlen : 8 ≤ len := hheader
    omega

end Udp

/-- Checksums seal packets: one that is filled in verifies, and then no word can be replaced
unnoticed. What a checksum cannot tell is whether the length it depends on was right, and a datagram
can go without. -/
theorem packet_seals (b : Bytes) :
    (Parse.Reads (Ipv4.Packet.checkLen b) () → ∃ n, Ipv4.Packet.headerLen b = .ok n ∧
      (12 ≤ n → Ipv4.headerSeal.Closes b ∧ Ipv4.headerSeal.Guards b n fun i _ => i = 0)) ∧
    (Icmp.Packet.headerLen ≤ b.length → b.length ≤ 131074 →
      Icmp.messageSeal.Closes b ∧ Icmp.messageSeal.Guards b b.length fun _ _ => False) ∧
    (Parse.Reads (Udp.Packet.checkLen b) () → ∃ len, Udp.Packet.totalLen b = .ok len ∧
      ∀ source destination, (Udp.datagramSeal source destination).Closes b ∧
        (Udp.Packet.checksum b ≠ .ok 0 → (Udp.datagramSeal source destination).Guards b len
          fun i new => i = 4 ∨ i = 6 ∧ new = 0)) := by
  refine ⟨fun hreads => ?_, fun hmin hlen => ?_, fun hreads => ?_⟩
  · obtain ⟨hplain, hlens⟩ := (Ipv4.Packet.checkLen_total b).of_reads hreads
    obtain ⟨n, hn, -⟩ := Ipv4.Packet.headerLen_succeeds hplain
    obtain ⟨k, hk, -⟩ := Ipv4.Packet.totalLen_succeeds hplain
    obtain ⟨hnk, hkb⟩ := hlens n k hn hk
    have hin : n ≤ b.length := Nat.le_trans hnk hkb
    exact ⟨n, hn, fun hroom =>
      ⟨Ipv4.headerSeal_closes hn hroom hin, Ipv4.headerSeal_guards hn hin⟩⟩
  · exact ⟨Icmp.messageSeal_closes hmin hlen, Icmp.messageSeal_guards hmin hlen⟩
  · obtain ⟨len, h⟩ := (Udp.Packet.checkLen_total b).of_reads hreads
    exact ⟨len, h.totalLen, fun _ _ => ⟨Udp.datagramSeal_closes h, Udp.datagramSeal_guards h⟩⟩

/-- One byte string that is a packet of each kind, and verifies as such. As a datagram it is a byte
long. -/
def threefold : Bytes :=
  [0x45, 0, 0, 20, 0, 9, 0x40, 0, 64, 17, 0x26, 0xce, 10, 0, 0, 1, 10, 0, 0, 2]

set_option maxRecDepth 3000 in
theorem packet_seals_three :
    Ipv4.headerSeal.Closes threefold ∧
      Ipv4.headerSeal.verify (threefold.put 8 (Bytes.ofHalf 0x3f11)) = .ok false ∧
    Icmp.messageSeal.Closes threefold ∧
      Icmp.messageSeal.verify (threefold.put 0 (Bytes.ofHalf 0)) = .ok false ∧
    (Udp.datagramSeal ⟨0x0a0030c8⟩ .unspecified).Closes threefold ∧
      (Udp.datagramSeal ⟨0x0a0030c8⟩ .unspecified).verify (threefold.put 8 [63]) = .ok false := by
  obtain ⟨hheader, hmessage, hdatagram⟩ := packet_seals threefold
  obtain ⟨n, hn, hheader⟩ := hheader rfl
  cases (show Ipv4.Packet.headerLen threefold = .ok 20 from rfl).symm.trans hn
  obtain ⟨hcloses, hguards⟩ := hheader (by decide)
  obtain ⟨hcloses', hguards'⟩ := hmessage (by decide) (by decide)
  obtain ⟨len, hlen, hdatagram⟩ := hdatagram rfl
  cases (show Udp.Packet.totalLen threefold = .ok 9 from rfl).symm.trans hlen
  obtain ⟨hcloses'', hguards''⟩ := hdatagram ⟨0x0a0030c8⟩ .unspecified
  refine ⟨hcloses, ?_, hcloses', ?_, hcloses'', ?_⟩
  · exact hguards.word rfl 8 0x4011 0x3f11 rfl (by decide) rfl (by decide) (by decide)
  · exact hguards'.word rfl 0 0x4500 0 rfl (by decide) rfl (by decide) id
  · have hset : Udp.Packet.checksum threefold = .ok 0x4000 := rfl
    exact (hguards'' (fun h => nomatch hset.symm.trans h)).last rfl 64 63 rfl rfl (by decide)

end Reflector
