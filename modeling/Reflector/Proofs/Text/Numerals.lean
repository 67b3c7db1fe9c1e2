import Reflector.Text
/-!
The numbers in a text, as they are written, against the numbers that are read and printed.
-/
namespace Reflector.Text

/-- A character for the digit `d`. Letters count on from ten, in either case. -/
def IsDigit (base : Nat) (c : Char) (d : Nat) : Prop :=
  d < base ∧ (c = Nat.digitChar d ∨ c = (Nat.digitChar d).toUpper)

/-- At least one digit, the last one with the lowest weight. -/
inductive Digits (base : Nat) : List Char → Nat → Prop
  | one {c d} : IsDigit base c d → Digits base [c] d
  | more {cs n c d} : Digits base cs n → IsDigit base c d → Digits base (cs ++ [c]) (n * base + d)

def Numeral (base : Nat) (cs : List Char) (n : Nat) : Prop :=
  Digits base cs n ∨ ∃ ds, cs = '+' :: ds ∧ Digits base ds n

variable {base n d : Nat} {c : Char} {cs ds : List Char} {vs : List Nat}

theorem digit?_eq_some_iff (hb : base ≤ 16) :
    digit? base c = some d ↔ d < base ∧ digit? 16 c = some d := by
  simp only [digit?, Option.ite_none_right_eq_some, Option.some.injEq]
  by_cases hfigure : '0' ≤ c ∧ c ≤ '9'
  · simp only [if_pos hfigure]
    omega
  simp only [if_neg hfigure]
  by_cases hsmall : 'a' ≤ c ∧ c ≤ 'f'
  · simp only [if_pos hsmall]
    omega
  simp only [if_neg hsmall]
  split <;> omega

theorem toNat_lt_of_digit? (h : digit? 16 c = some d) : c.toNat < 128 := by
  rw [digit?, Option.ite_none_right_eq_some] at h
  obtain ⟨hlt, -⟩ := h
  split at hlt
  case isTrue hfigure => exact Nat.lt_of_le_of_lt (show c.toNat ≤ 57 from hfigure.2) (by decide)
  case isFalse =>
    split at hlt
    case isTrue hsmall => exact Nat.lt_of_le_of_lt (show c.toNat ≤ 102 from hsmall.2) (by decide)
    case isFalse =>
      split at hlt
      case isTrue hlarge => exact Nat.lt_of_le_of_lt (show c.toNat ≤ 70 from hlarge.2) (by decide)
      case isFalse => exact absurd hlt (Nat.lt_irrefl 16)

theorem digit?_iff (hb : base ≤ 16) : digit? base c = some d ↔ IsDigit base c d := by
  rw [digit?_eq_some_iff hb]
  constructor
  · rintro ⟨hd, hc⟩
    have table : ∀ n < 128, ∀ d ∈ digit? 16 (Char.ofNat n),
        Char.ofNat n = Nat.digitChar d ∨ Char.ofNat n = (Nat.digitChar d).toUpper := by
      decide
    have hchar := table c.toNat (toNat_lt_of_digit? hc)
    rw [Char.ofNat_toNat] at hchar
    exact ⟨hd, hchar d hc⟩
  · rintro ⟨hd, hc⟩
    have table : ∀ d < 16, digit? 16 (Nat.digitChar d) = some d ∧
        digit? 16 (Nat.digitChar d).toUpper = some d := by
      decide
    obtain ⟨hsmall, hlarge⟩ := table d (Nat.lt_of_lt_of_le hd hb)
    obtain rfl | rfl := hc
    · exact ⟨hd, hsmall⟩
    · exact ⟨hd, hlarge⟩

theorem Digits.extend (hb : base ≤ 16) (h : Digits base cs n)
    (hds : ds.mapM (digit? base) = some vs) :
    Digits base (cs ++ ds) (vs.foldl (fun n d => n * base + d) n) := by
  induction ds generalizing cs n vs with
  | nil =>
    cases hds
    rw [List.append_nil]
    exact h
  | cons c ds ih =>
    simp only [List.mapM_cons, Option.bind_eq_bind, Option.bind_eq_some_iff, Option.pure_def,
      Option.some.injEq] at hds
    obtain ⟨d, hd, vs, hvs, rfl⟩ := hds
    rw [List.foldl_cons, List.append_cons]
    exact ih (h.more ((digit?_iff hb).1 hd)) hvs

theorem digits_iff (hb : base ≤ 16) : Digits base ds n ↔
    ds ≠ [] ∧ ∃ vs, ds.mapM (digit? base) = some vs ∧ value base vs = n := by
  constructor
  · intro h
    induction h with
    | @one c d hc =>
      rw [← digit?_iff hb] at hc
      exact ⟨List.cons_ne_nil _ _, [d], by simp [hc], by simp [value]⟩
    | @more cs n c d _ hc ih =>
      rw [← digit?_iff hb] at hc
      obtain ⟨-, vs, hvs, rfl⟩ := ih
      exact ⟨List.append_ne_nil_of_right_ne_nil _ (List.cons_ne_nil _ _), vs ++ [d],
        by simp [hvs, hc], by simp [value]⟩
  · rintro ⟨hne, vs, hvs, rfl⟩
    cases ds with
    | nil => exact absurd rfl hne
    | cons c ds =>
      simp only [List.mapM_cons, Option.bind_eq_bind, Option.bind_eq_some_iff, Option.pure_def,
        Option.some.injEq] at hvs
      obtain ⟨d, hd, vs, hvs, rfl⟩ := hvs
      rw [value, List.foldl_cons, Nat.zero_mul, Nat.zero_add]
      exact (Digits.one ((digit?_iff hb).1 hd)).extend hb hvs

theorem Digits.exists_digit (h : Digits base ds n) (hc : c ∈ ds) : ∃ d, IsDigit base c d := by
  induction h with
  | one hd =>
    cases List.mem_singleton.1 hc
    exact ⟨_, hd⟩
  | more _ hd ih =>
    obtain hc | hc := List.mem_append.1 hc
    · exact ih hc
    · cases List.mem_singleton.1 hc
      exact ⟨_, hd⟩

/-- No digit reads as a sign. -/
theorem Digits.no_plus (hb : base ≤ 16) (h : Digits base ('+' :: ds) n) : False := by
  obtain ⟨d, hd⟩ := h.exists_digit List.mem_cons_self
  rw [← digit?_iff hb, digit?_eq_some_iff hb] at hd
  cases hd.2

theorem numeral_iff (hb : base ≤ 16) : Numeral base cs n ↔ Digits base (unsigned cs) n := by
  unfold Numeral
  fun_cases unsigned cs
  case case1 ds =>
    constructor
    · rintro (h | ⟨_, hplus, h⟩)
      · exact h.no_plus hb |>.elim
      · cases hplus
        exact h
    · exact fun h => .inr ⟨ds, rfl, h⟩
  case case2 hplus =>
    constructor
    · rintro (h | ⟨ds, rfl, -⟩)
      · exact h
      · exact absurd rfl (hplus ds)
    · exact .inl

theorem octet?_iff (hb : base ≤ 16) {o : UInt8} :
    octet? base cs = some o ↔ Numeral base cs o.toNat := by
  rw [numeral_iff hb, digits_iff hb, octet?]
  cases unsigned cs with
  | nil => simp
  | cons c ds =>
    simp only [ne_eq, List.cons_ne_nil, not_false_eq_true, true_and]
    cases hvs : (c :: ds).mapM (digit? base) with
    | none => simp
    | some vs =>
      have ho := o.toNat_lt
      simp only [Option.ite_none_right_eq_some, Option.some.injEq, exists_eq_left',
        ← UInt8.toNat_inj, UInt8.toNat_ofNat']
      omega

theorem digits_toDigits (hb : 1 < base) (n : Nat) : Digits base (Nat.toDigits base n) n := by
  induction n using Nat.strongRecOn with
  | ind n ih =>
    rw [Nat.toDigits_eq_if hb]
    split
    case isTrue hlt => exact .one ⟨hlt, .inl rfl⟩
    case isFalse hge =>
      have hlast : IsDigit base (Nat.digitChar (n % base)) (n % base) :=
        ⟨Nat.mod_lt n (by omega), .inl rfl⟩
      have hn := Digits.more (ih (n / base) (Nat.div_lt_self (by omega) hb)) hlast
      rw [Nat.mul_comm, Nat.div_add_mod] at hn
      exact hn

theorem Digits.zero (hb : 0 < base) (h : Digits base ds n) : Digits base ('0' :: ds) n := by
  have hzero : Digits base ['0'] 0 := .one ⟨hb, .inl rfl⟩
  induction h with
  | @one c d hd =>
    have := hzero.more hd
    rwa [Nat.zero_mul, Nat.zero_add] at this
  | more _ hd ih => exact ih.more hd

theorem numeral_decimal (n : Nat) : Numeral 10 (decimal n) n :=
  .inl (digits_toDigits (by decide) n)

theorem numeral_hex (width n : Nat) : Numeral 16 (hex width n) n := by
  have zeros (k : Nat) : Digits 16 (List.replicate k '0' ++ Nat.toDigits 16 n) n := by
    induction k with
    | zero => exact digits_toDigits (by decide) n
    | succ k ih => exact ih.zero (by decide)
  exact .inl (zeros _)

end Reflector.Text
