import Reflector.Proofs.Packets.Sums
/-!
What the sums are. With all its carries added back in, a sum is the number from 1 to 65535 that it
leaves modulo 65535, and zero only if it has been zero before. So it does not matter which carries
were added when: words add up in any order and in any groups.
-/
namespace Reflector.Checksum

/-- The one's complement sum of a byte string: zero over nothing but zeros, or else the number from
1 to 65535 that is congruent to the sum of the words. -/
structure IsSum (b : Bytes) (s : UInt16) : Prop where
  zero : s = 0 ↔ ∀ x ∈ b, x = 0
  rest : s.toNat % 0xffff = total 0 b % 0xffff

/-- `m` is left of the sum `n` when some of its carries have been added back in. -/
structure Reduces (m n : Nat) : Prop where
  le : m ≤ n
  rest : m % 0xffff = n % 0xffff
  pos : 0 < m ↔ 0 < n

variable {k l m n : Nat}

theorem Reduces.refl (n : Nat) : Reduces n n := ⟨Nat.le_refl n, rfl, Iff.rfl⟩

theorem Reduces.trans (h : Reduces k m) (h' : Reduces m n) : Reduces k n :=
  ⟨Nat.le_trans h.le h'.le, h.rest.trans h'.rest, h.pos.trans h'.pos⟩

theorem Reduces.add (h : Reduces k l) (h' : Reduces m n) : Reduces (k + m) (l + n) where
  le := Nat.add_le_add h.le h'.le
  rest := by
    have hrest := h.rest
    have hrest' := h'.rest
    omega
  pos := by
    have hpos := h.pos
    have hpos' := h'.pos
    omega

theorem reduces_fold (h : n < limit) : Reduces (fold n).toNat n := by
  obtain ⟨hmod, hpos⟩ := fold_toNat h
  have hlt := (fold n).toNat_lt
  refine ⟨?_, hmod, hpos⟩
  omega

/-- Below 2 ^ 16, there are no carries left that could tell one remainder from another. -/
theorem Reduces.eq_fold {s : UInt16} (h : Reduces s.toNat n) (hn : n < limit) : s = fold n := by
  obtain ⟨hmod, hpos⟩ := fold_toNat hn
  have hlt := (fold n).toNat_lt
  have hs := s.toNat_lt
  have hle := h.le
  have hrest := h.rest
  have hpos' := h.pos
  rw [← UInt16.toNat_inj]
  omega

theorem Reduces.fold_eq (h : Reduces m n) (hn : n < limit) : fold m = fold n :=
  ((reduces_fold (Nat.lt_of_le_of_lt h.le hn)).trans h).eq_fold hn

theorem total_eq_self_iff (acc : Nat) (b : Bytes) : total acc b = acc ↔ ∀ x ∈ b, x = 0 := by
  fun_induction total acc b with
  | case1 acc => simp
  | case2 acc hi =>
    rw [List.forall_mem_singleton, ← UInt8.toNat_inj, UInt8.toNat_zero]
    omega
  | case3 acc hi lo rest ih =>
    have hle := le_total (acc + (hi.toNat * 0x100 + lo.toNat)) rest
    rw [List.forall_mem_cons, List.forall_mem_cons, ← ih, ← UInt8.toNat_inj, ← UInt8.toNat_inj,
      UInt8.toNat_zero]
    omega

/-- Only zero and all ones leave the same modulo all ones, and they are told apart. -/
theorem isSum_iff {b : Bytes} (h : total 0 b < limit) (s : UInt16) :
    IsSum b s ↔ s = fold (total 0 b) := by
  obtain ⟨hmod, hpos⟩ := fold_toNat h
  have hlt := (fold (total 0 b)).toNat_lt
  have hs := s.toNat_lt
  have hzero {w : UInt16} : w = 0 ↔ w.toNat = 0 := UInt16.toNat_inj.symm
  constructor
  · rintro ⟨hz, hrest⟩
    rw [← total_eq_self_iff 0 b, hzero] at hz
    rw [← UInt16.toNat_inj]
    omega
  · rintro rfl
    refine ⟨?_, hmod⟩
    rw [← total_eq_self_iff 0 b, hzero]
    omega

theorem joint_append (sums sums' : List UInt16) :
    joint (sums ++ sums') = joint sums + joint sums' := by
  induction sums with
  | nil => exact (Nat.zero_add _).symm
  | cons s sums ih => rw [List.cons_append, joint, joint, ih, Nat.add_assoc]

theorem joint_perm {sums sums' : List UInt16} (h : sums.Perm sums') : joint sums = joint sums' := by
  induction h with
  | nil => rfl
  | cons s _ ih => rw [joint, joint, ih]
  | swap s t sums => exact Nat.add_left_comm _ _ _
  | trans _ _ ih ih' => exact ih.trans ih'

/-- A way to put words together: some of them are combined to one first, to any depth. -/
inductive Grouping where
  | word (w : UInt16)
  | group (parts : List Grouping)

mutual
def Grouping.words : Grouping → List UInt16
  | .word w => [w]
  | .group parts => wordsOf parts

def wordsOf : List Grouping → List UInt16
  | [] => []
  | part :: parts => part.words ++ wordsOf parts
end

mutual
/-- What the words come to if each group is combined on its own. -/
def Grouping.sum : Grouping → Except Fault UInt16
  | .word w => pure w
  | .group parts => do combine (← sumsOf parts)

def sumsOf : List Grouping → Except Fault (List UInt16)
  | [] => pure []
  | part :: parts => do
    let s ← part.sum
    let sums ← sumsOf parts
    pure (s :: sums)
end

mutual
/-- A group on its own has room for its sum, if there is room for all words. -/
theorem Grouping.sum_reduces (g : Grouping) (h : joint g.words < limit) :
    ∃ s, g.sum = .ok s ∧ Reduces s.toNat (joint g.words) := by
  cases g with
  | word w => exact ⟨w, rfl, Reduces.refl _⟩
  | group parts =>
    obtain ⟨sums, hsums, hred⟩ := sumsOf_reduces parts h
    have hlt : joint sums < limit := Nat.lt_of_le_of_lt hred.le h
    refine ⟨fold (joint sums), ?_, (reduces_fold hlt).trans hred⟩
    rw [Grouping.sum, hsums]
    exact combine_of_lt hlt

theorem sumsOf_reduces (parts : List Grouping) (h : joint (wordsOf parts) < limit) :
    ∃ sums, sumsOf parts = .ok sums ∧ Reduces (joint sums) (joint (wordsOf parts)) := by
  cases parts with
  | nil => exact ⟨[], rfl, Reduces.refl _⟩
  | cons part parts =>
    rw [wordsOf, joint_append] at h ⊢
    have hfirst := Nat.lt_of_le_of_lt (Nat.le_add_right _ _) h
    have hrest := Nat.lt_of_le_of_lt (Nat.le_add_left _ _) h
    obtain ⟨s, hs, hpart⟩ := part.sum_reduces hfirst
    obtain ⟨sums, hsums, hparts⟩ := sumsOf_reduces parts hrest
    refine ⟨s :: sums, ?_, hpart.add hparts⟩
    rw [sumsOf, hs, hsums]
    rfl
end

theorem Grouping.sum_eq_combine (g : Grouping) {sums : List UInt16} (hlen : sums.length ≤ 65537)
    (hperm : g.words.Perm sums) : g.sum = combine sums := by
  have hlt := joint_lt_of_length_le hlen
  obtain ⟨s, hs, hred⟩ := g.sum_reduces (joint_perm hperm ▸ hlt)
  rw [joint_perm hperm] at hred
  rw [hs, hred.eq_fold hlt, combine_of_length_le hlen]

theorem data_append {a b : Bytes} (heven : a.length % 2 = 0) (hlen : (a ++ b).length ≤ 131074) :
    data (a ++ b) = (do combine [← data a, ← data b]) := by
  have hsum := total_lt_of_length_le hlen
  rw [data_of_length_le hlen]
  rw [total_append heven] at hsum ⊢
  have ha : total 0 a < limit := Nat.lt_of_le_of_lt (Nat.le_add_right _ _) hsum
  have hb : total 0 b < limit := Nat.lt_of_le_of_lt (Nat.le_add_left _ _) hsum
  have hred := (reduces_fold ha).add (reduces_fold hb)
  rw [data_of_lt ha, data_of_lt hb]
  show _ = combine [fold (total 0 a), fold (total 0 b)]
  rw [combine_of_lt (Nat.lt_of_le_of_lt hred.le hsum)]
  exact congrArg _ (hred.fold_eq hsum).symm

/-- Two words leave one carry at most, and no second one. -/
theorem carry_eq_fold (h : n < 0x1ffff) : carry n = .ok (fold n) := by
  have honce : n / 0x10000 + n % 0x10000 < 0x10000 := by omega
  simp only [carry_of_lt h, fold, Nat.div_eq_of_lt honce, Nat.mod_eq_of_lt honce, Nat.zero_add]

theorem addWithCarry_eq_combine (s w : UInt16) : addWithCarry s w = combine [s, w] := by
  have hs := s.toNat_lt
  have hw := w.toNat_lt
  have hlen : [s, w].length ≤ 65537 := Nat.le_add_left 2 65535
  rw [combine_of_length_le hlen]
  exact carry_eq_fold (by omega)

/-- The sums of the stack are one's complement sums. That of a string of up to 131074 bytes is taken
without an overflow, whatever their number leaves for the last round; a string may be cut behind an
even number of bytes, up to 65537 words may be combined in any order and in any groups, and patching
a sum is to combine it with the word. -/
theorem ones_complement :
    (∀ b : Bytes, b.length ≤ 131074 →
      ∃ s, data b = .ok s ∧ IsSum b s ∧ ∀ t, IsSum b t → t = s) ∧
    (∀ a b : Bytes, a.length % 2 = 0 → (a ++ b).length ≤ 131074 →
      data (a ++ b) = (do combine [← data a, ← data b])) ∧
    (∀ (g : Grouping) (sums : List UInt16), sums.length ≤ 65537 → g.words.Perm sums →
      (∃ s, combine sums = .ok s) ∧ g.sum = combine sums) ∧
    ∀ s w : UInt16, addWithCarry s w = combine [s, w] := by
  refine ⟨fun b hlen => ?_, fun a b => data_append, fun g sums hlen hperm => ?_,
    addWithCarry_eq_combine⟩
  · have hsum := total_lt_of_length_le hlen
    exact ⟨_, data_of_length_le hlen, (isSum_iff hsum _).2 rfl, fun t => (isSum_iff hsum t).1⟩
  · exact ⟨⟨_, combine_of_length_le hlen⟩, g.sum_eq_combine hlen hperm⟩

theorem ones_complement_replicate :
    data (List.replicate 33 0x80) = .ok 0x8808 ∧
    data (List.replicate 32 0x80 ++ [0x80]) =
      (do combine [← data (List.replicate 32 0x80), ← data [0x80]]) ∧
    (Grouping.group [.group [.word 0x8080, .word 0x9000], .word 0xffff]).sum =
      combine [0xffff, 0x9000, 0x8080] := by
  obtain ⟨hdata, happend, hgroup, -⟩ := ones_complement
  obtain ⟨s, hs, -, hunique⟩ := hdata (List.replicate 33 0x80) (by decide)
  refine ⟨?_, happend _ _ (by decide) (by decide), (hgroup _ _ (by decide) (by decide)).2⟩
  rw [hs, ← hunique 0x8808 ⟨by simp, by decide⟩]

end Reflector.Checksum
