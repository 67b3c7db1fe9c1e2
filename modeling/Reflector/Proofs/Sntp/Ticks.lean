import Reflector.Sntp.Client
/-!
The ticks of a fraction, and how exact they are. No sum on the way is too large for its word: a half
of the fraction is left for each half that is added. So they are the rounded sum of the shifts,
which keeps the order of the fractions. Each of the shifts cuts off less than one unit of the sum,
and the sum is rounded by at most half a tick. What is left is the weight: its bits stand for two
ticks less than there are in a second.
-/
namespace Reflector.Sntp

variable {bit f g n : Nat} {bits : List Nat} {w : Weighing}

/-- The ticks of a whole second that some bits stand for. -/
def weight : List Nat → Nat
  | [] => 0
  | bit :: bits => 1 <<< bit + weight bits

/-- A fraction shifted to the place of each bit, all of it added up: 16 bits behind the ticks. -/
def shifted (frac : Nat) : List Nat → Nat
  | [] => 0
  | bit :: bits => frac >>> (16 - bit) + shifted frac bits

theorem Weighing.frac_step (w : Weighing) (place : Nat) :
    (w.step place).frac.toNat = w.frac.toNat / 2 := rfl

theorem Weighing.sum_step (h : w.sum.toNat + w.frac.toNat < 0x100000000) (place : Nat) :
    (w.step place).sum.toNat =
      w.sum.toNat + if place ∈ tickBits then w.frac.toNat / 2 else 0 := by
  unfold step
  dsimp only
  split
  · have hhalf : (w.frac >>> 1).toNat = w.frac.toNat / 2 := rfl
    rw [UInt32.toNat_add, hhalf]
    exact Nat.mod_eq_of_lt (by omega)
  · rfl

/-- What is added was taken from the fraction, at whatever place. -/
theorem Weighing.step_le (h : w.sum.toNat + w.frac.toNat < 0x100000000) (place : Nat) :
    (w.step place).sum.toNat + (w.step place).frac.toNat ≤ w.sum.toNat + w.frac.toNat := by
  rw [sum_step h, frac_step]
  split <;> omega

theorem Weighing.foldl_le (h : w.sum.toNat + w.frac.toNat < 0x100000000) (places : List Nat) :
    (places.foldl step w).sum.toNat + (places.foldl step w).frac.toNat ≤
      w.sum.toNat + w.frac.toNat := by
  induction places generalizing w with
  | nil => exact Nat.le_refl _
  | cons place places ih =>
    have hle := step_le h place
    exact Nat.le_trans (ih (Nat.lt_of_le_of_lt hle h)) hle

theorem weigh_lt (frac : UInt32) (places : List Nat) :
    (weigh frac places).sum.toNat + (weigh frac places).frac.toNat < 0x100000000 := by
  have hstart : (0 : UInt32).toNat + frac.toNat < 0x100000000 := by
    rw [UInt32.toNat_zero, Nat.zero_add]
    exact frac.toNat_lt
  exact Nat.lt_of_le_of_lt (Weighing.foldl_le hstart places) hstart

theorem weigh_append (frac : UInt32) (done : List Nat) (place : Nat) :
    weigh frac (done ++ [place]) = (weigh frac done).step place := List.foldl_append

theorem shifted_filter (f place : Nat) (places : List Nat) :
    shifted f ((place :: places).filter (· ∈ tickBits)) =
      (if place ∈ tickBits then f >>> (16 - place) else 0) +
        shifted f (places.filter (· ∈ tickBits)) := by
  rw [List.filter_cons]
  simp only [decide_eq_true_eq]
  split
  · rfl
  · exact (Nat.zero_add _).symm

/-- From the place `n` down, the sum grows by the fraction shifted to the bits of the weight. -/
theorem Weighing.sum_foldl (h : w.sum.toNat + w.frac.toNat < 0x100000000) (hn : n ≤ 15)
    (hfrac : w.frac.toNat = f >>> (15 - n)) :
    ((List.range' 1 n).reverse.foldl step w).sum.toNat =
      w.sum.toNat + shifted f ((List.range' 1 n).reverse.filter (· ∈ tickBits)) := by
  induction n generalizing w with
  | zero => rfl
  | succ n ih =>
    -- the highest place comes first, with the fraction as the places above it have left it
    have hplaces : (List.range' 1 (n + 1)).reverse = (n + 1) :: (List.range' 1 n).reverse := by
      rw [List.range'_1_concat, List.reverse_append, Nat.add_comm 1 n]
      rfl
    have hshift : 16 - (n + 1) = 15 - (n + 1) + 1 := by omega
    have hhalf : w.frac.toNat / 2 = f >>> (16 - (n + 1)) := by
      rw [hfrac, hshift, Nat.shiftRight_succ]
    have hbelow : (w.step (n + 1)).frac.toNat = f >>> (15 - n) := by
      rw [frac_step, hhalf, Nat.add_sub_add_right 15 1 n]
    have hlt := Nat.lt_of_le_of_lt (step_le h (n + 1)) h
    calc ((List.range' 1 (n + 1)).reverse.foldl step w).sum.toNat
      _ = ((List.range' 1 n).reverse.foldl step (w.step (n + 1))).sum.toNat := by
        rw [hplaces, List.foldl_cons]
      _ = (w.step (n + 1)).sum.toNat +
          shifted f ((List.range' 1 n).reverse.filter (· ∈ tickBits)) :=
        ih hlt (Nat.le_of_succ_le hn) hbelow
      _ = w.sum.toNat + (if n + 1 ∈ tickBits then f >>> (16 - (n + 1)) else 0) +
          shifted f ((List.range' 1 n).reverse.filter (· ∈ tickBits)) := by rw [sum_step h, hhalf]
      _ = w.sum.toNat + shifted f ((List.range' 1 (n + 1)).reverse.filter (· ∈ tickBits)) := by
        rw [hplaces, shifted_filter, Nat.add_assoc]

theorem sum_weigh (frac : UInt32) :
    (weigh frac tickPlaces).sum.toNat = shifted frac.toNat tickBits := by
  have hfilter : tickPlaces.filter (· ∈ tickBits) = tickBits := by decide
  have hsum := Weighing.sum_foldl (w := ⟨frac, 0⟩) (weigh_lt frac []) (Nat.le_refl 15) rfl
  rw [weigh, tickPlaces, hsum, ← tickPlaces, hfilter]
  exact Nat.zero_add _

/-- A shift takes the fraction times its bit, but for less than one unit. -/
theorem shiftRight_bounds (frac : Nat) (h : bit ≤ 16) :
    (frac >>> (16 - bit)) * 0x10000 ≤ frac * 1 <<< bit ∧
      frac * 1 <<< bit ≤ (frac >>> (16 - bit) + 1) * 0x10000 := by
  have hsplit (n : Nat) : n * 0x10000 = n * 1 <<< (16 - bit) * 1 <<< bit := by
    rw [Nat.mul_assoc, Nat.one_shiftLeft, Nat.one_shiftLeft, ← Nat.pow_add, Nat.sub_add_cancel h]
  have hshift : frac >>> (16 - bit) = frac / 1 <<< (16 - bit) := by
    rw [Nat.one_shiftLeft, Nat.shiftRight_eq_div_pow]
  have hpos : 0 < 1 <<< (16 - bit) := by
    rw [Nat.one_shiftLeft]
    exact Nat.two_pow_pos _
  rw [hshift, hsplit, hsplit]
  constructor
  · exact Nat.mul_le_mul_right _ (Nat.div_mul_le_self _ _)
  · have hlt := Nat.lt_mul_div_succ frac hpos
    rw [Nat.mul_comm] at hlt
    exact Nat.mul_le_mul_right _ (Nat.le_of_lt hlt)

theorem shifted_bounds (frac : Nat) (h : ∀ bit ∈ bits, bit ≤ 16) :
    shifted frac bits * 0x10000 ≤ frac * weight bits ∧
      frac * weight bits ≤ (shifted frac bits + bits.length) * 0x10000 := by
  induction bits with
  | nil => exact ⟨Nat.le_of_eq (Nat.zero_mul _), Nat.zero_le _⟩
  | cons bit bits ih =>
    obtain ⟨hbit, hbits⟩ := List.forall_mem_cons.1 h
    obtain ⟨hlow, hhigh⟩ := shiftRight_bounds frac hbit
    obtain ⟨hlow', hhigh'⟩ := ih hbits
    rw [shifted, weight, List.length_cons, Nat.mul_add]
    omega

theorem tickBits_le : ∀ bit ∈ tickBits, bit ≤ 16 := by decide

theorem weight_tickBits : weight tickBits = 62498 := rfl

theorem shifted_lt (frac : UInt32) : shifted frac.toNat tickBits < 62498 * 0x10000 := by
  have hfrac := frac.toNat_lt
  have hlow := (shifted_bounds frac.toNat tickBits_le).1
  rw [weight_tickBits] at hlow
  omega

theorem toNat_high (sum : UInt32) : (sum >>> 16).toNat = sum.toNat / 0x10000 := by
  calc (sum >>> 16).toNat
    _ = sum.toNat >>> ((16 : UInt32).toNat % 32) := UInt32.toNat_shiftRight sum 16
    _ = sum.toNat / 0x10000 := Nat.shiftRight_eq_div_pow _ 16

theorem rounded_toNat (frac : UInt32) : ((weigh frac tickPlaces).sum + 0x8000).toNat =
    shifted frac.toNat tickBits + 0x8000 := by
  have hlt := shifted_lt frac
  calc ((weigh frac tickPlaces).sum + 0x8000).toNat
    _ = ((weigh frac tickPlaces).sum.toNat + 0x8000) % 0x100000000 := UInt32.toNat_add _ _
    _ = (shifted frac.toNat tickBits + 0x8000) % 0x100000000 := by rw [sum_weigh]
    _ = shifted frac.toNat tickBits + 0x8000 := Nat.mod_eq_of_lt (by omega)

theorem ticksOfFraction_toNat (frac : UInt32) : (ticksOfFraction frac).toNat =
    (shifted frac.toNat tickBits + 0x8000) / 0x10000 := by
  have hlt := shifted_lt frac
  calc (ticksOfFraction frac).toNat
    _ = (((weigh frac tickPlaces).sum + 0x8000) >>> 16).toNat % 0x10000 := UInt32.toNat_toUInt16 _
    _ = (shifted frac.toNat tickBits + 0x8000) / 0x10000 % 0x10000 := by
      rw [toNat_high, rounded_toNat]
    _ = (shifted frac.toNat tickBits + 0x8000) / 0x10000 := Nat.mod_eq_of_lt (by omega)

/-- No bit is lost on the way to the ticks: what is added to the sum at a place, and to round it, is
added to the number that it stands for, and the rounded sum has no more than 16 bits. -/
structure Lossless (frac : UInt32) : Prop where
  adds (done : List Nat) (place : Nat) : (weigh frac (done ++ [place])).sum.toNat =
    (weigh frac done).sum.toNat + if place ∈ tickBits then (weigh frac done).frac.toNat / 2 else 0
  rounds : ((weigh frac tickPlaces).sum + 0x8000).toNat = (weigh frac tickPlaces).sum.toNat + 0x8000
  narrows : (ticksOfFraction frac).toNat = (((weigh frac tickPlaces).sum + 0x8000) >>> 16).toNat

theorem lossless (frac : UInt32) : Lossless frac where
  adds done place := by
    rw [weigh_append]
    exact Weighing.sum_step (weigh_lt frac done) place
  rounds := by rw [rounded_toNat, sum_weigh]
  narrows := by rw [ticksOfFraction_toNat, toNat_high, rounded_toNat]

theorem shifted_mono (h : f ≤ g) (bits : List Nat) : shifted f bits ≤ shifted g bits := by
  induction bits with
  | nil => exact Nat.le_refl _
  | cons bit bits ih =>
    simp only [shifted, Nat.shiftRight_eq_div_pow]
    exact Nat.add_le_add (Nat.div_le_div_right h) ih

/-- A larger fraction has no fewer ticks, and the largest one is ahead of the last tick of its
second. No bit is lost on the way. -/
theorem ticks_monotone :
    (∀ f g : UInt32, f ≤ g →
      ticksOfFraction f ≤ ticksOfFraction g ∧ ticksOfFraction g ≤ 62498) ∧
    ∀ frac : UInt32, Lossless frac := by
  refine ⟨fun f g h => ⟨?_, ?_⟩, lossless⟩
  · have hle := shifted_mono (UInt32.le_iff_toNat_le.1 h) tickBits
    rw [UInt16.le_iff_toNat_le, ticksOfFraction_toNat, ticksOfFraction_toNat]
    exact Nat.div_le_div_right (Nat.add_le_add_right hle _)
  · have hlt := shifted_lt g
    have hlast : (62498 : UInt16).toNat = 62498 := rfl
    rw [UInt16.le_iff_toNat_le, ticksOfFraction_toNat, hlast]
    omega

/-- The first tick comes between these two. -/
theorem ticks_monotone_first : (0x863b : UInt32) ≤ 0x863c ∧
    (ticksOfFraction 0x863b ≤ ticksOfFraction 0x863c ∧ ticksOfFraction 0x863c ≤ 62498) ∧
    ticksOfFraction 0x863b = 0 ∧ ticksOfFraction 0x863c = 1 :=
  ⟨by decide, ticks_monotone.1 0x863b 0x863c (by decide), by decide, by decide⟩

/-- By how much the ticks differ from the fraction of so many ticks, in units of 2 ^ -32 tick. -/
def deviation (rate : Nat) (frac : UInt32) : Int :=
  (ticksOfFraction frac).toNat * 0x100000000 - frac.toNat * rate

theorem deviation_tickBits (frac : UInt32) : (deviation (weight tickBits) frac).natAbs ≤
    0x80000000 + tickBits.length * 0x10000 := by
  obtain ⟨hlow, hhigh⟩ := shifted_bounds frac.toNat tickBits_le
  rw [deviation, ticksOfFraction_toNat]
  generalize shifted frac.toNat tickBits = sum at hlow hhigh
  have hlength : tickBits.length = 7 := rfl
  rw [weight_tickBits] at hlow hhigh ⊢
  rw [hlength] at hhigh ⊢
  omega

/-- The ticks are right to half a tick, and what the shifts cut off, for the rate of the weight.
That is short of a second by two ticks, so that they stay behind the more the larger the fraction
is: up to about a quarter of a second by no more than one tick. -/
theorem deviation_bounds (frac : UInt32) :
    (deviation (weight tickBits) frac).natAbs ≤ 0x80000000 + 7 * 0x10000 ∧
    deviation ticksPerSecond frac = deviation (weight tickBits) frac - 2 * frac.toNat ∧
    (frac.toNat ≤ 0x3ffc0000 → (deviation ticksPerSecond frac).natAbs ≤ 0x100000000) := by
  have hnear : (deviation (weight tickBits) frac).natAbs ≤ 0x80000000 + 7 * 0x10000 :=
    deviation_tickBits frac
  have hrate : ticksPerSecond = weight tickBits + 2 := rfl
  have hbehind : deviation ticksPerSecond frac =
      deviation (weight tickBits) frac - 2 * frac.toNat := by
    rw [deviation, deviation, hrate, Int.natCast_add, Int.mul_add]
    omega
  refine ⟨hnear, hbehind, fun hquarter => ?_⟩
  rw [hbehind]
  omega

theorem deviation_bounds_quarter : (0x3ffc0000 : UInt32).toNat ≤ 0x3ffc0000 ∧
    (deviation ticksPerSecond 0x3ffc0000).natAbs ≤ 0x100000000 :=
  ⟨by decide, (deviation_bounds 0x3ffc0000).2.2 (by decide)⟩

/-- At seven eighths of a second the ticks are one and a half too few. -/
theorem deviation_late : ticksOfFraction 0xe0000000 = 54686 ∧
    0x100000000 < (deviation ticksPerSecond 0xe0000000).natAbs := by decide

end Reflector.Sntp
