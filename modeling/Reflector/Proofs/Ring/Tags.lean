import Reflector.Ring.Records
/-!
Tags in the arena. What is written is read back, and only its two bytes change.
-/
namespace Reflector.Ring

variable {r r' : Ring} {t : Tag} {x j : Nat}

namespace Tag

def asRead : Tag → Tag
  | .pending 0 => .endOfRing
  | t => t

theorem len_asRead (t : Tag) : t.asRead.len = t.len := by
  unfold asRead
  split <;> rfl

theorem asRead_ne_startOver (h : t ≠ .startOver) : t.asRead ≠ .startOver := by
  unfold asRead
  split
  · exact Tag.noConfusion
  · exact h

theorem stage?_asRead (t : Tag) : t.asRead.stage? = t.stage? := by
  unfold asRead
  split <;> rfl

theorem passedByInput_asRead (t : Tag) : passedByInput t.asRead = passedByInput t := by
  unfold asRead
  split <;> rfl

theorem ofWord_toWord (h : t.len ≤ maxLen) : ofWord t.toWord = t.asRead := by
  unfold maxLen at h
  cases t with
  | endOfRing => rfl
  | startOver => rfl
  | pending n =>
    simp only [len] at h
    have hq : n / 0x4000 = 0 := by omega
    have hs : n ≠ startOverWord := by simp only [startOverWord]; omega
    cases n with
    | zero => rfl
    | succ n => simp only [ofWord, toWord, if_neg hs, hq]; rfl
  | input n =>
    simp only [len] at h
    have hq : (0x4000 + n) / 0x4000 = 1 := by omega
    have hr : (0x4000 + n) % 0x4000 = n := by omega
    have hs : 0x4000 + n ≠ startOverWord := by simp only [startOverWord]; omega
    simp only [ofWord, toWord, if_neg hs, hq, hr, asRead]
  | output n =>
    simp only [len] at h
    have hq : (0x8000 + n) / 0x4000 = 2 := by omega
    have hr : (0x8000 + n) % 0x4000 = n := by omega
    have hs : 0x8000 + n ≠ startOverWord := by simp only [startOverWord]; omega
    simp only [ofWord, toWord, if_neg hs, hq, hr, asRead]
  | skip n =>
    -- The longest skip is one below the word that sends readers to the front.
    simp only [len] at h
    have hq : (0xc000 + n) / 0x4000 = 3 := by omega
    have hr : (0xc000 + n) % 0x4000 = n := by omega
    have hs : 0xc000 + n ≠ startOverWord := by simp only [startOverWord]; omega
    simp only [ofWord, toWord, if_neg hs, hq, hr, asRead]

theorem toWord_lt (h : t.len ≤ maxLen) : t.toWord < 0x10000 := by
  unfold maxLen at h
  cases t <;> simp only [len, toWord, startOverWord] at h ⊢ <;> omega

def bytes (t : Tag) : Bytes := (Bytes.ofHalf t.toWord).reverse

theorem length_bytes (t : Tag) : t.bytes.length = width := rfl

theorem read_congr {a b : Bytes} (h₀ : b[x]? = a[x]?) (h₁ : b[x + 1]? = a[x + 1]?) :
    read b x = read a x := by
  simp only [read, Bytes.octet, h₀, h₁]

theorem read_of_bytes {a : Bytes} (ht : t.len ≤ maxLen)
    (h : ∀ j < width, a[x + j]? = t.bytes[j]?) : read a x = .ok t.asRead := by
  have h₀ := h 0 (by decide)
  have h₁ := h 1 (by decide)
  have hw := toWord_lt ht
  have hv : (UInt8.ofNat (t.toWord / 0x100)).toNat * 0x100 + (UInt8.ofNat t.toWord).toNat =
      t.toWord := by
    simp only [UInt8.toNat_ofNat']
    omega
  simp only [bytes, Bytes.ofHalf, List.reverse_cons, List.reverse_nil, List.nil_append,
    List.cons_append, Nat.add_zero, List.getElem?_cons_zero, List.getElem?_cons_succ] at h₀ h₁
  simp only [read, Bytes.octet, h₀, h₁, ← ofWord_toWord ht]
  simp only [bind, Except.bind, pure, Except.pure, hv]

theorem on_write {a : Bytes} (hx : x + width ≤ a.length) (ht : t.len ≤ maxLen) :
    (write x t).on a = (.ok (), a.put x t.bytes) := by
  unfold write encode
  rw [if_pos ht, Op.on_bind_ok (Op.on_lift _ _)]
  exact Edit.on_write hx

end Tag

def withTag (r : Ring) (x : Nat) (t : Tag) : Ring := { r with arena := r.arena.put x t.bytes }

@[simp] theorem limit_withTag : (r.withTag x t).limit = r.limit := rfl
@[simp] theorem writer_withTag : (r.withTag x t).writer = r.writer := rfl
@[simp] theorem inputReader_withTag : (r.withTag x t).inputReader = r.inputReader := rfl
@[simp] theorem outputReader_withTag : (r.withTag x t).outputReader = r.outputReader := rfl

theorem length_withTag (hx : x + Tag.width ≤ r.arena.length) :
    (r.withTag x t).arena.length = r.arena.length := Bytes.length_put hx

theorem getElem?_withTag (hx : x + Tag.width ≤ r.arena.length) (hj : j < x ∨ x + Tag.width ≤ j) :
    (r.withTag x t).arena[j]? = r.arena[j]? := by
  rw [withTag, Bytes.getElem?_put hx, Tag.length_bytes, if_neg (by omega)]

theorem drop_withTag {k : Nat} (hx : x + Tag.width ≤ r.arena.length) (hk : x + Tag.width ≤ k) :
    (r.withTag x t).arena.drop k = r.arena.drop k := by
  refine List.ext_getElem? fun j => ?_
  rw [List.getElem?_drop, List.getElem?_drop, getElem?_withTag hx (.inr (by omega))]

theorem on_setTag (hx : x + Tag.width ≤ r.arena.length) (ht : t.len ≤ Tag.maxLen) :
    (setTag x t).on r = (.ok (), r.withTag x t) := by
  rw [setTag, editArena, Op.on_focus, Tag.on_write hx ht]
  rfl

theorem tagAt_congr (h₀ : r'.arena[x]? = r.arena[x]?) (h₁ : r'.arena[x + 1]? = r.arena[x + 1]?) :
    r'.tagAt x = r.tagAt x := Tag.read_congr h₀ h₁

theorem tagAt_withTag (hx : x + Tag.width ≤ r.arena.length) (ht : t.len ≤ Tag.maxLen) :
    (r.withTag x t).tagAt x = .ok t.asRead := by
  refine Tag.read_of_bytes ht fun j hj => ?_
  rw [withTag, Bytes.getElem?_put hx, Tag.length_bytes, if_pos (by omega), Nat.add_sub_cancel_left]

theorem withTag_withTag (t₁ t₂ : Tag) {x₁ x₂ : Nat} (hx : x₁ + Tag.width ≤ x₂)
    (hx₂ : x₂ + Tag.width ≤ r.arena.length) (ht₁ : t₁.len ≤ Tag.maxLen)
    (ht₂ : t₂.len ≤ Tag.maxLen) :
    ((r.withTag x₂ t₂).withTag x₁ t₁).arena.length = r.arena.length ∧
      (∀ y, (y < x₁ ∨ x₁ + Tag.width ≤ y) → (y < x₂ ∨ x₂ + Tag.width ≤ y) →
        ((r.withTag x₂ t₂).withTag x₁ t₁).arena[y]? = r.arena[y]?) ∧
      ((r.withTag x₂ t₂).withTag x₁ t₁).tagAt x₁ = .ok t₁.asRead ∧
      ((r.withTag x₂ t₂).withTag x₁ t₁).tagAt x₂ = .ok t₂.asRead := by
  have hlen := length_withTag (t := t₂) hx₂
  have hx₁ : x₁ + Tag.width ≤ (r.withTag x₂ t₂).arena.length := by omega
  refine ⟨(length_withTag hx₁).trans hlen, fun y hy hy' => ?_, tagAt_withTag hx₁ ht₁, ?_⟩
  · rw [getElem?_withTag hx₁ hy, getElem?_withTag hx₂ hy']
  · rw [← tagAt_withTag hx₂ ht₂]
    exact tagAt_congr (getElem?_withTag hx₁ (.inr hx)) (getElem?_withTag hx₁ (.inr (by omega)))

end Reflector.Ring
