import Reflector.Proofs.Packets.Writing
/-!
One's complement sums: their words add up in any grouping, and a header that holds the complement of
the sum over the rest sums up to all ones.
-/
namespace Reflector

namespace Checksum

variable {b : Bytes} {k n : Nat}

theorem total_add (acc n : Nat) (b : Bytes) : total (acc + n) b = acc + total n b := by
  fun_induction total n b with
  | case1 n => rfl
  | case2 n hi => exact Nat.add_assoc _ _ _
  | case3 n hi lo rest ih => rw [total, Nat.add_assoc, ih]

theorem total_eq_add (acc : Nat) (b : Bytes) : total acc b = acc + total 0 b := total_add acc 0 b

theorem total_append {a : Bytes} (h : a.length % 2 = 0) :
    total 0 (a ++ b) = total 0 a + total 0 b := by
  rw [total_append_of_even 0 b h, total_eq_add]

theorem total_ofHalf (w : UInt16) : total 0 (Bytes.ofHalf w.toNat) = w.toNat := by
  have h := w.toNat_lt
  simp only [Bytes.ofHalf, total, UInt8.toNat_ofNat']
  omega

/-- A sum that comes out as all ones: it is a multiple of that, but not zero. -/
def AllOnes (n : Nat) : Prop := 0 < n ∧ n % 0xffff = 0

instance (n : Nat) : Decidable (AllOnes n) := inferInstanceAs (Decidable (_ ∧ _))

/-- End-around carry keeps a sum modulo all ones, and makes nothing zero. -/
theorem carried (n : Nat) : (n / 0x10000 + n % 0x10000) % 0xffff = n % 0xffff ∧
    (0 < n / 0x10000 + n % 0x10000 ↔ 0 < n) := by
  omega

theorem fold_toNat (h : n < limit) : (fold n).toNat % 0xffff = n % 0xffff ∧
    (0 < (fold n).toNat ↔ 0 < n) := by
  obtain ⟨honce, hpos⟩ := carried n
  obtain ⟨htwice, hpos'⟩ := carried (n / 0x10000 + n % 0x10000)
  have hlt : n / 0x10000 + n % 0x10000 < 0x1ffff := by
    simp only [limit] at h
    omega
  have hvalue : (fold n).toNat = (n / 0x10000 + n % 0x10000) / 0x10000 +
      (n / 0x10000 + n % 0x10000) % 0x10000 := by
    refine Nat.mod_eq_of_lt ?_
    omega
  rw [hvalue]
  exact ⟨htwice.trans honce, hpos'.trans hpos⟩

/-- It makes no difference to a sum whether the carries were added up in a part of it. -/
theorem allOnes_add_fold (k : Nat) (h : n < limit) :
    AllOnes (k + (fold n).toNat) ↔ AllOnes (k + n) := by
  obtain ⟨hmod, hpos⟩ := fold_toNat h
  unfold AllOnes
  omega

theorem fold_eq_ones_iff (h : n < limit) : fold n = ones ↔ AllOnes n := by
  obtain ⟨hmod, hpos⟩ := fold_toNat h
  have hlt := (fold n).toNat_lt
  have hones : ones.toNat = 0xffff := rfl
  unfold AllOnes
  rw [← UInt16.toNat_inj, hones]
  omega

/-- The complement of a sum makes it all ones, whatever the carries. -/
theorem allOnes_add_not (h : n < limit) : AllOnes (n + (~~~(fold n)).toNat) := by
  obtain ⟨hmod, hpos⟩ := fold_toNat h
  have hlt := (fold n).toNat_lt
  have hnot : (~~~(fold n)).toNat = 0xffff - (fold n).toNat := UInt16.toNat_not _
  unfold AllOnes
  rw [hnot]
  omega

/-- Words that count the same in a sum, as all zeros and all ones do. -/
def Alike (v w : UInt16) : Prop := v = w ∨ v = 0 ∧ w = ones ∨ v = ones ∧ w = 0

instance (v w : UInt16) : Decidable (Alike v w) := inferInstanceAs (Decidable (_ ∨ _ ∨ _))

theorem AllOnes.alike {v w : UInt16} (hv : AllOnes (n + v.toNat))
    (hw : AllOnes (n + w.toNat)) : Alike v w := by
  have hv' := v.toNat_lt
  have hw' := w.toNat_lt
  have hones : ones.toNat = 0xffff := rfl
  unfold AllOnes at hv hw
  unfold Alike
  simp only [← UInt16.toNat_inj, hones, UInt16.toNat_zero]
  omega

/-- A last odd byte has the high half of a word to itself, so that no two are alike. -/
theorem AllOnes.high_eq {x y : UInt8} (hx : AllOnes (n + (k + x.toNat * 0x100)))
    (hy : AllOnes (n + (k + y.toNat * 0x100))) : x = y := by
  have hx' := x.toNat_lt
  have hy' := y.toNat_lt
  unfold AllOnes at hx hy
  rw [← UInt8.toNat_inj]
  omega

theorem total_word (pre post : Bytes) (hpre : pre.length % 2 = 0) (w : UInt16) :
    total 0 (pre ++ Bytes.ofHalf w.toNat ++ post) =
      total 0 (pre ++ Bytes.ofHalf (0 : UInt16).toNat ++ post) + w.toNat := by
  have split (w : UInt16) : total 0 (pre ++ Bytes.ofHalf w.toNat ++ post) =
      total 0 pre + w.toNat + total 0 post := by
    have hword : (pre ++ Bytes.ofHalf w.toNat).length % 2 = 0 := by
      rw [List.length_append, Bytes.length_ofHalf, Nat.add_mod_right, hpre]
    rw [total_append hword, total_append hpre, total_ofHalf]
  calc total 0 (pre ++ Bytes.ofHalf w.toNat ++ post)
    _ = total 0 pre + w.toNat + total 0 post := split w
    _ = total 0 pre + total 0 post + w.toNat := Nat.add_right_comm _ _ _
    _ = total 0 (pre ++ Bytes.ofHalf (0 : UInt16).toNat ++ post) + w.toNat := by
      rw [split 0, UInt16.toNat_zero, Nat.add_zero]

theorem total_word_lt (pre post : Bytes) (hpre : pre.length % 2 = 0)
    (hlen : (pre ++ Bytes.ofHalf (0 : UInt16).toNat ++ post).length ≤ 131074) :
    total 0 (pre ++ Bytes.ofHalf (0 : UInt16).toNat ++ post) + 0xffff < limit := by
  have hword := total_word pre post hpre ones
  have hle := total_le 0 (pre ++ Bytes.ofHalf ones.toNat ++ post)
  have hones : ones.toNat = 0xffff := rfl
  simp only [List.length_append, Bytes.length_ofHalf] at hlen hle
  rw [hword, hones] at hle
  simp only [limit]
  omega

/-- A checksum that was taken over zeros in its own place. -/
theorem fold_filled (pre post : Bytes) (sum : UInt16) (hpre : pre.length % 2 = 0)
    (hsum : sum = ~~~(fold (total 0 (pre ++ Bytes.ofHalf (0 : UInt16).toNat ++ post))))
    (hlen : (pre ++ Bytes.ofHalf (0 : UInt16).toNat ++ post).length ≤ 131074) :
    fold (total 0 (pre ++ Bytes.ofHalf sum.toNat ++ post)) = ones := by
  have hroom := total_word_lt pre post hpre hlen
  have hsum' := sum.toNat_lt
  rw [total_word pre post hpre, fold_eq_ones_iff (by omega), hsum]
  exact allOnes_add_not (by omega)

end Checksum

namespace Ipv4.Header

open Checksum

theorem length_front (h : Header) : h.front.length = 10 := rfl

theorem fold_total_bytes (h : Header) : fold (total 0 (h.bytes .manual)) = ones :=
  fold_filled h.front h.addresses _ (congrArg (· % 2) h.length_front) rfl (by
    have hlen := h.length_withChecksum 0
    rw [withChecksum] at hlen
    rw [hlen]
    decide)

end Ipv4.Header

end Reflector
