import Reflector.Ipv4.Subnet
import Reflector.Proofs.Packets.Reading
import Reflector.Proofs.Text.Numerals
/-!
The texts of addresses: what is read as an address is some numbers between separators, and what is
printed is read back.
-/
namespace Reflector

namespace Text

/-- Numbers of at most 255 with one separator between any two of them. -/
inductive Spells (sep : Char → Bool) (base : Nat) : List Char → List UInt8 → Prop
  | last {part o} : Numeral base part o.toNat → Spells sep base part [o]
  | more {part c rest o os} : Numeral base part o.toNat → sep c = true →
      Spells sep base rest os → Spells sep base (part ++ c :: rest) (o :: os)

def Separates (sep : Char → Bool) : Prop := ∀ c, sep c = true → c ≠ '+' ∧ digit? 16 c = none

variable {base n : Nat} {sep : Char → Bool} {c : Char} {cs part : List Char} {os : List UInt8}

theorem separates_beq (hc : c ≠ '+' ∧ digit? 16 c = none) : Separates (· == c) :=
  fun _ hsep => eq_of_beq hsep ▸ hc

theorem Numeral.unseparated (hsep : Separates sep) (hb : base ≤ 16) (h : Numeral base part n) :
    ∀ c ∈ part, sep c = false := by
  intro c hc
  rw [← Bool.not_eq_true]
  intro hsep'
  obtain ⟨hplus, hdigit⟩ := hsep c hsep'
  have hnone (d : Nat) : ¬IsDigit base c d := by
    rw [← digit?_iff hb, digit?_eq_some_iff hb, hdigit]
    rintro ⟨-, h⟩
    cases h
  obtain h | ⟨ds, rfl, h⟩ := h
  · obtain ⟨d, hd⟩ := h.exists_digit hc
    exact hnone d hd
  · obtain ⟨d, hd⟩ := h.exists_digit ((List.mem_cons.1 hc).resolve_left hplus)
    exact hnone d hd

/-- Between the separators of a text stand its numbers. -/
theorem spells_iff (hsep : Separates sep) (hb : base ≤ 16) :
    (cs.splitOnP sep).mapM (octet? base) = some os ↔ Spells sep base cs os := by
  constructor
  · intro h
    -- what is behind the first separator is a shorter text, but no tail of the list as it stands
    induction hlen : cs.length using Nat.strongRecOn generalizing cs os with
    | ind len ih =>
      cases hfirst : cs.find? sep with
      | none =>
        have hcs : ∀ c ∈ cs, sep c = false := fun c hc =>
          Bool.not_eq_true _ ▸ List.find?_eq_none.1 hfirst c hc
        rw [List.splitOnP_eq_singleton hcs] at h
        simp only [List.mapM_cons, List.mapM_nil, Option.bind_eq_bind, Option.bind_eq_some_iff,
          Option.pure_def, Option.bind_some, Option.some.injEq] at h
        obtain ⟨o, ho, rfl⟩ := h
        exact .last ((octet?_iff hb).1 ho)
      | some c =>
        obtain ⟨hc, part, rest, rfl, hpart⟩ := List.find?_eq_some_iff_append.1 hfirst
        have hfree : ∀ c ∈ part, sep c = false := fun c hc => Bool.not_eq_true' _ ▸ hpart c hc
        have hless : rest.length < len := by
          rw [← hlen, List.length_append, List.length_cons]
          omega
        rw [List.splitOnP_append_cons_of_forall_mem hfree _ hc] at h
        simp only [List.mapM_cons, Option.bind_eq_bind, Option.bind_eq_some_iff,
          Option.pure_def, Option.some.injEq] at h
        obtain ⟨o, ho, os, hos, rfl⟩ := h
        exact .more ((octet?_iff hb).1 ho) hc (ih rest.length hless hos rfl)
  · intro h
    induction h with
    | last hpart =>
      rw [List.splitOnP_eq_singleton (hpart.unseparated hsep hb)]
      simp [(octet?_iff hb).2 hpart]
    | more hpart hc _ ih =>
      rw [List.splitOnP_append_cons_of_forall_mem (hpart.unseparated hsep hb) _ hc]
      simp [(octet?_iff hb).2 hpart, ih]

theorem Spells.unseparated {sep' : Char → Bool} (hsep : Separates sep')
    (hne : ∀ c, sep c = true → sep' c = false) (hb : base ≤ 16) (h : Spells sep base cs os) :
    ∀ c ∈ cs, sep' c = false := by
  induction h with
  | last hpart => exact hpart.unseparated hsep hb
  | more hpart hc _ ih =>
    intro c hmem
    obtain hmem | hmem := List.mem_append.1 hmem
    · exact hpart.unseparated hsep hb c hmem
    · obtain rfl | hmem := List.mem_cons.1 hmem
      · exact hne _ hc
      · exact ih c hmem

theorem length_of_mapM {α β : Type} {f : α → Option β} {l : List α} {l' : List β}
    (h : l.mapM f = some l') : l.length = l'.length := by
  induction l generalizing l' with
  | nil =>
    cases h
    rfl
  | cons a l ih =>
    simp only [List.mapM_cons, Option.bind_eq_bind, Option.bind_eq_some_iff, Option.pure_def,
      Option.some.injEq] at h
    obtain ⟨b, -, l', hl, rfl⟩ := h
    rw [List.length_cons, List.length_cons, ih hl]

theorem spells_intercalate {print : UInt8 → List Char} (hc : sep c = true)
    (h : ∀ o, Numeral base (print o) o.toNat) (hne : os ≠ []) :
    Spells sep base (List.intercalate [c] (os.map print)) os := by
  induction os with
  | nil => exact absurd rfl hne
  | cons o os ih =>
    cases os with
    | nil =>
      rw [List.map_singleton, List.intercalate_singleton]
      exact .last (h o)
    | cons o' os =>
      rw [List.map_cons, List.map_cons, List.intercalate_cons_cons, ← List.append_cons]
      exact .more (h o) hc (ih (List.cons_ne_nil _ _))

end Text

namespace Ipv4.Address

open Text

theorem ofChars_iff {cs : List Char} {a : Address} :
    ofChars cs = .ok a ↔ Spells (· == '.') 10 cs a.toBytes := by
  rw [← spells_iff (separates_beq (by decide)) (by decide), ← List.splitOn_eq_splitOnP]
  unfold ofChars
  split
  case h_1 o₀ o₁ o₂ o₃ hparts =>
    rw [hparts, Option.some.injEq, ← ofBytes_iff, ofBytes, Except.ok.injEq, Except.ok.injEq]
  case h_2 hparts =>
    constructor
    · rintro ⟨⟩
    · exact fun h => absurd h (hparts _ _ _ _)

theorem ofChars_chars (a : Address) : ofChars a.chars = .ok a :=
  ofChars_iff.2 (spells_intercalate rfl (fun o => numeral_decimal o.toNat) (List.cons_ne_nil _ _))

end Ipv4.Address

namespace Ipv4.Subnet

open Text

variable {cs front back : List Char} {s : Subnet}

theorem toNat_prefixLen (s : Subnet) : (UInt8.ofNat s.prefixLen).toNat = s.prefixLen :=
  UInt8.toNat_ofNat_of_lt' (Nat.lt_of_le_of_lt s.prefixLen_le (by decide))

theorem bne_slash (h : '/' ∉ cs) : ∀ c ∈ cs, (c != '/') = true :=
  fun _ hc => bne_iff_ne.2 fun heq => h (heq ▸ hc)

/-- The first slash of a text is where it is cut. -/
theorem ofChars_slash_iff (h : '/' ∉ front) : ofChars (front ++ '/' :: back) = .ok s ↔
    Address.ofChars front = .ok s.address ∧ octet? 10 back = some (UInt8.ofNat s.prefixLen) := by
  have htake : (front ++ '/' :: back).takeWhile (· != '/') = front := by
    rw [List.takeWhile_append_of_pos (bne_slash h)]
    exact List.append_nil front
  have hdrop : (front ++ '/' :: back).dropWhile (· != '/') = '/' :: back := by
    rw [List.dropWhile_append_of_pos (bne_slash h)]
    rfl
  rw [ofChars, htake, hdrop]
  cases Address.ofChars front with
  | error e =>
    constructor
    · rintro ⟨⟩
    · rintro ⟨⟨⟩, -⟩
  | ok address =>
    dsimp only [bind, Except.bind]
    cases octet? 10 back with
    | none =>
      constructor
      · rintro ⟨⟩
      · rintro ⟨-, ⟨⟩⟩
    | some len =>
      simp only [Except.ok.injEq, Option.some.injEq, ← UInt8.toNat_inj, toNat_prefixLen]
      constructor
      · intro h
        split at h
        case isTrue =>
          cases h
          exact ⟨rfl, rfl⟩
        case isFalse => cases h
      · rintro ⟨rfl, hs⟩
        rw [dif_pos (hs ▸ s.prefixLen_le)]
        simp only [hs]

theorem ofChars_iff : ofChars cs = .ok s ↔
    ∃ front back, cs = front ++ '/' :: back ∧ '/' ∉ front ∧
      Spells (· == '.') 10 front s.address.toBytes ∧ Numeral 10 back s.prefixLen := by
  constructor
  · intro h
    have hslash : '/' ∈ cs := by
      refine Decidable.of_not_not fun hslash => ?_
      have hdrop : cs.dropWhile (· != '/') = [] := by
        rw [← List.append_nil cs, List.dropWhile_append_of_pos (bne_slash hslash)]
        rfl
      rw [ofChars, hdrop] at h
      cases h
    obtain ⟨front, back, rfl, hfront⟩ := List.eq_append_cons_of_mem hslash
    rw [ofChars_slash_iff hfront, Address.ofChars_iff, octet?_iff (by decide),
      toNat_prefixLen] at h
    exact ⟨front, back, rfl, hfront, h⟩
  · rintro ⟨front, back, rfl, hfront, h⟩
    rw [ofChars_slash_iff hfront, Address.ofChars_iff, octet?_iff (by decide),
      toNat_prefixLen]
    exact h

theorem ofChars_chars (s : Subnet) : ofChars s.chars = .ok s := by
  have haddress := Address.ofChars_iff.1 s.address.ofChars_chars
  have hfree : ∀ c ∈ s.address.chars, (c == '/') = false := by
    refine haddress.unseparated (separates_beq (by decide)) (fun c hc => ?_) (by decide)
    cases eq_of_beq hc
    rfl
  exact ofChars_iff.2 ⟨_, _, rfl, fun hslash => Bool.noConfusion (hfree '/' hslash), haddress,
    numeral_decimal s.prefixLen⟩

end Ipv4.Subnet

namespace Ethernet.Address

open Text

theorem separates_isSeparator : Separates isSeparator := by
  intro c hc
  simp only [isSeparator, Bool.or_eq_true, beq_iff_eq] at hc
  obtain rfl | rfl := hc <;> decide

theorem ofChars_iff {cs : List Char} {a : Address} :
    ofChars cs = .ok a ↔ Spells isSeparator 16 cs a.toBytes := by
  rw [← spells_iff separates_isSeparator (by decide), ofChars]
  constructor
  · intro h
    split at h
    case h_1 => cases h
    case h_2 octets hfirst =>
      split at h
      case h_1 o₀ o₁ o₂ o₃ o₄ o₅ hmore =>
        cases h
        rw [← List.take_append_drop 6 (cs.splitOnP isSeparator), hmore, List.append_nil, hfirst]
        rfl
      case h_2 => cases h
  · intro h
    have hlen : (cs.splitOnP isSeparator).length = 6 := length_of_mapM h
    rw [List.take_of_length_le (Nat.le_of_eq hlen), h, List.drop_eq_nil_of_le (Nat.le_of_eq hlen)]
    rfl

theorem ofChars_chars (a : Address) : ofChars a.chars = .ok a :=
  ofChars_iff.2 (spells_intercalate rfl (fun o => numeral_hex 2 o.toNat) (List.cons_ne_nil _ _))

end Ethernet.Address

/-- A text is read as an address if and only if it spells its octets, and as a subnet if the first
slash has an address in front and a number behind. What is printed is read back. -/
theorem texts_exact :
    (∀ (s : String) (a : Ipv4.Address),
      Ipv4.Address.ofText s = .ok a ↔ Text.Spells (· == '.') 10 s.toList a.toBytes) ∧
    (∀ (s : String) (a : Ethernet.Address), Ethernet.Address.ofText s = .ok a ↔
      Text.Spells (fun c => c == ':' || c == '-') 16 s.toList a.toBytes) ∧
    (∀ (s : String) (n : Ipv4.Subnet), Ipv4.Subnet.ofText s = .ok n ↔
      ∃ front back, s.toList = front ++ '/' :: back ∧ '/' ∉ front ∧
        Text.Spells (· == '.') 10 front n.address.toBytes ∧ Text.Numeral 10 back n.prefixLen) ∧
    (∀ a : Ipv4.Address, Ipv4.Address.ofText a.text = .ok a) ∧
    (∀ a : Ethernet.Address, Ethernet.Address.ofText a.text = .ok a) ∧
    ∀ n : Ipv4.Subnet, Ipv4.Subnet.ofText n.text = .ok n := by
  refine ⟨fun s a => Ipv4.Address.ofChars_iff, fun s a => Ethernet.Address.ofChars_iff,
    fun s n => Ipv4.Subnet.ofChars_iff, fun a => ?_, fun a => ?_, fun n => ?_⟩
  · rw [Ipv4.Address.ofText, Ipv4.Address.text, String.toList_ofList, a.ofChars_chars]
  · rw [Ethernet.Address.ofText, Ethernet.Address.text, String.toList_ofList, a.ofChars_chars]
  · rw [Ipv4.Subnet.ofText, Ipv4.Subnet.text, String.toList_ofList, n.ofChars_chars]

end Reflector
