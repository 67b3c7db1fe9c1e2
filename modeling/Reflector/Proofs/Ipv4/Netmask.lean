import Reflector.Ipv4.Subnet
/-!
A mask is known by the counts of its bits, and it tells its prefix: as many ones in front as it has
ones at all.
-/
namespace Reflector.Ipv4

def ZerosBelow (x : BitVec 32) (k : Nat) : Prop := ∀ i, i < 32 → x.getLsbD i = decide (k ≤ i)

variable {x y : BitVec 32} {k n : Nat}

theorem ZerosBelow.eq (hx : ZerosBelow x k) (hy : ZerosBelow y k) : x = y :=
  BitVec.eq_of_getLsbD_eq fun i hi => (hx i hi).trans (hy i hi).symm

theorem zerosBelow_maskOfPrefix {len : Nat} (h : len ≤ 32) :
    ZerosBelow (maskOfPrefix len).toBitVec (32 - len) := by
  intro i hi
  have hones : (0xffffffff : UInt32).toBitVec = BitVec.allOnes 32 := rfl
  rw [maskOfPrefix, UInt32.toBitVec_not, BitVec.getLsbD_not, decide_eq_true hi, Bool.true_and]
  split
  case isTrue hlen =>
    have hshift : ((UInt32.ofNat len).toBitVec % 32).toNat = len := by
      rw [BitVec.toNat_umod, UInt32.toNat_toBitVec, UInt32.toNat_ofNat']
      exact Nat.mod_eq_of_lt (Nat.lt_of_le_of_lt (Nat.mod_le _ _) hlen) |>.trans
        (Nat.mod_eq_of_lt (Nat.lt_trans hlen (by decide)))
    rw [UInt32.toBitVec_shiftRight, hones, BitVec.ushiftRight_eq', BitVec.getLsbD_ushiftRight,
      BitVec.getLsbD_allOnes, hshift, ← decide_not]
    exact decide_eq_decide.2 (by omega)
  case isFalse hlen =>
    rw [UInt32.toBitVec_zero, BitVec.getLsbD_zero, Bool.not_false, decide_eq_true]
    omega

/-- A count of zeros finds one for each bit that it looks at, as long as there are any. -/
theorem count_zeros (h : ∀ i, i < n → x.getLsbD i = false) (hn : n ≤ 32) :
    (~~~x).cpopNatRec n 0 = n := by
  induction n with
  | zero => rfl
  | succ n ih =>
    have hlow := ih (fun i hi => h i (Nat.lt_succ_of_lt hi)) (Nat.le_of_succ_le hn)
    have hbit : (~~~x).getLsbD n = true := by
      rw [BitVec.getLsbD_not, h n n.lt_succ_self, Bool.not_false, Bool.and_true]
      exact decide_eq_true hn
    rw [BitVec.cpopNatRec_succ, BitVec.cpopNatRec_eq, hlow, hbit]
    rfl

/-- Behind the zeros the count stands still. -/
theorem count_ones (h : ∀ i, k ≤ i → i < n → x.getLsbD i = true) (hn : k ≤ n) :
    (~~~x).cpopNatRec n 0 = (~~~x).cpopNatRec k 0 := by
  induction hn with
  | refl => rfl
  | @step n hn ih =>
    have hbit : (~~~x).getLsbD n = false := by
      rw [BitVec.getLsbD_not, h n hn n.lt_succ_self, Bool.not_true, Bool.and_false]
    rw [BitVec.cpopNatRec_succ, hbit]
    exact ih fun i hi hlt => h i hi (Nat.lt_succ_of_lt hlt)

theorem ZerosBelow.zeros (h : ZerosBelow x k) (hk : k ≤ 32) : (~~~x).cpop.toNat = k := by
  have hlow : ∀ i, i < k → x.getLsbD i = false := fun i hi =>
    (h i (Nat.lt_of_lt_of_le hi hk)).trans (decide_eq_false (Nat.not_le.2 hi))
  have hhigh : ∀ i, k ≤ i → i < 32 → x.getLsbD i = true := fun i hi hlt =>
    (h i hlt).trans (decide_eq_true hi)
  rw [BitVec.toNat_cpop, count_ones hhigh hk, count_zeros hlow hk]

theorem ZerosBelow.ones (h : ZerosBelow x k) (hk : k ≤ 32) : x.cpop.toNat = 32 - k := by
  have hnot := BitVec.toNat_cpop_not (x := x)
  have hle := x.toNat_cpop_le
  have hzeros := h.zeros hk
  omega

/-- With the zeros for ones, it is the largest number below a power of two. -/
theorem ZerosBelow.toNat_not (h : ZerosBelow x k) (hk : k ≤ 32) : (~~~x).toNat = 1 <<< k - 1 := by
  rw [Nat.one_shiftLeft]
  apply Nat.eq_of_testBit_eq
  intro i
  rw [BitVec.testBit_toNat, BitVec.getLsbD_not, Nat.testBit_two_pow_sub_one]
  by_cases hi : i < 32
  · rw [h i hi, decide_eq_true hi, Bool.true_and, ← decide_not]
    exact decide_eq_decide.2 Nat.not_le
  · rw [decide_eq_false hi, Bool.false_and]
    exact (decide_eq_false (by omega)).symm

theorem ZerosBelow.trailing (h : ZerosBelow x k) (hk : k < 32) : x.ctz.toNat = k := by
  have hset : x.getLsbD k = true := (h k hk).trans (decide_eq_true (Nat.le_refl k))
  have hne : x ≠ 0#32 := by
    rintro rfl
    cases hset.symm.trans BitVec.getLsbD_zero
  have hctz := BitVec.getLsbD_true_ctz_of_ne_zero hne
  have hle : k ≤ x.ctz.toNat :=
    of_decide_eq_true ((h _ (BitVec.lt_of_getLsbD hctz)).symm.trans hctz)
  refine Nat.le_antisymm (Nat.not_lt.1 fun hlt => ?_) hle
  cases hset.symm.trans (BitVec.getLsbD_false_of_lt_ctz hlt)

theorem toNat_ctz_le (x : BitVec 32) : x.ctz.toNat ≤ 32 := BitVec.clz_le (x := x.reverse)

/-- If there are as many zeros as there are at the end, then there are no others: the first of them
would be counted on top. -/
theorem zerosBelow_of_trailing (h : x.ctz = (~~~x).cpop) : ZerosBelow x x.ctz.toNat := by
  intro i hi
  have hlow := count_zeros (fun i => BitVec.getLsbD_false_of_lt_ctz) (toNat_ctz_le x)
  by_cases hk : x.ctz.toNat ≤ i
  · rw [decide_eq_true hk, ← Bool.not_eq_false]
    intro hclear
    have hbit : (~~~x).getLsbD i = true := by
      rw [BitVec.getLsbD_not, hclear, Bool.not_false, Bool.and_true]
      exact decide_eq_true hi
    have hbelow : (~~~x).cpopNatRec x.ctz.toNat 0 ≤ (~~~x).cpopNatRec i 0 :=
      BitVec.cpopNatRec_le_of_pos_le hk
    have habove : (~~~x).cpopNatRec (i + 1) 0 ≤ (~~~x).cpopNatRec 32 0 :=
      BitVec.cpopNatRec_le_of_pos_le hi
    rw [BitVec.cpopNatRec_succ, BitVec.cpopNatRec_eq, hbit, ← BitVec.toNat_cpop, ← h] at habove
    simp only [Nat.zero_add, Bool.toNat_true] at habove
    omega
  · rw [decide_eq_false hk]
    exact BitVec.getLsbD_false_of_lt_ctz (Nat.not_le.1 hk)

theorem ZerosBelow.leading_iff (h : ZerosBelow x k) : x.clz = 0 ↔ k < 32 := by
  have hmsb : x.msb = decide (k ≤ 31) := h 31 (by decide)
  rw [← BitVec.toNat_inj]
  refine (BitVec.clz_eq_zero_iff (by decide)).trans ?_
  rw [BitVec.msb_eq_decide, decide_eq_decide] at hmsb
  rw [hmsb]
  omega

/-- The test for a mask finds all those with a one in front, and no zero before a one. -/
theorem isMask_iff : x.clz = 0 ∧ x.ctz = (~~~x).cpop ↔ ∃ k, k < 32 ∧ ZerosBelow x k := by
  constructor
  · rintro ⟨hlead, hcount⟩
    have hzeros := zerosBelow_of_trailing hcount
    exact ⟨x.ctz.toNat, hzeros.leading_iff.1 hlead, hzeros⟩
  · rintro ⟨k, hk, hzeros⟩
    refine ⟨hzeros.leading_iff.2 hk, BitVec.eq_of_toNat_eq ?_⟩
    rw [hzeros.trailing hk, hzeros.zeros (Nat.le_of_lt hk)]

namespace Subnet

variable {a m : Address} {s : Subnet}

theorem zerosBelow_netmask (s : Subnet) : ZerosBelow s.netmask.value.toBitVec (32 - s.prefixLen) :=
  zerosBelow_maskOfPrefix s.prefixLen_le

theorem cpop_netmask (s : Subnet) : s.netmask.value.toBitVec.cpop.toNat = s.prefixLen := by
  rw [s.zerosBelow_netmask.ones (Nat.sub_le _ _), Nat.sub_sub_self s.prefixLen_le]

theorem netmask_eq_iff : s.netmask = m ↔ ZerosBelow m.value.toBitVec (32 - s.prefixLen) := by
  constructor
  · rintro rfl
    exact s.zerosBelow_netmask
  · intro h
    have hbits := s.zerosBelow_netmask.eq h
    rw [UInt32.toBitVec_inj] at hbits
    exact congrArg Address.mk hbits

theorem ofNetmask_eq_some_iff :
    ofNetmask a m = some s ↔ s.address = a ∧ 0 < s.prefixLen ∧ s.netmask = m := by
  have hle := s.prefixLen_le
  simp only [netmask_eq_iff, ofNetmask]
  constructor
  · intro h
    split at h
    case isTrue hmask =>
      obtain ⟨k, hk, hzeros⟩ := isMask_iff.1 hmask
      have hones := hzeros.ones (Nat.le_of_lt hk)
      cases h
      simp only [hones]
      rw [Nat.sub_sub_self (Nat.le_of_lt hk)]
      exact ⟨trivial, Nat.sub_pos_of_lt hk, hzeros⟩
    case isFalse => cases h
  · rintro ⟨rfl, hpos, hzeros⟩
    have hones := hzeros.ones (Nat.sub_le _ _)
    rw [Nat.sub_sub_self hle] at hones
    rw [if_pos (isMask_iff.2 ⟨_, by omega, hzeros⟩)]
    simp only [hones]

/-- A mask is taken for the prefix that it is the mask of, and nothing else is taken for one: the
address, the number of ones and the mask are those of the subnet. The mask without any ones is
refused, so that a subnet is found again from its address and its mask unless it is everything. -/
theorem ofNetmask_exact :
    (∀ (a m : Address) (s : Subnet),
      ofNetmask a m = some s ↔ s.address = a ∧ 0 < s.prefixLen ∧ s.netmask = m) ∧
    ∀ s : Subnet, ofNetmask s.address s.netmask = if 0 < s.prefixLen then some s else none := by
  refine ⟨fun a m s => ofNetmask_eq_some_iff, fun s => ?_⟩
  split
  case isTrue hpos => exact ofNetmask_eq_some_iff.2 ⟨rfl, hpos, rfl⟩
  case isFalse hzero =>
    cases hfound : ofNetmask s.address s.netmask with
    | none => rfl
    | some s' =>
      obtain ⟨-, hpos, hmask⟩ := ofNetmask_eq_some_iff.1 hfound
      rw [← cpop_netmask s', hmask, cpop_netmask s] at hpos
      exact absurd hpos hzero

/-- The subnet of all addresses has a mask, too, but it is not found by it. -/
theorem ofNetmask_everything :
    netmask { address := ⟨0xc0a8c828⟩, prefixLen := 0 } = ⟨0⟩ ∧
      ofNetmask ⟨0xc0a8c828⟩ ⟨0⟩ = none := by
  decide

end Subnet

end Reflector.Ipv4
