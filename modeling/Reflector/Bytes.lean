import Reflector.Operation
/-!
Byte strings, numbers in network byte order, and edits of a buffer in place.
-/
namespace Reflector

abbrev Bytes := List UInt8

namespace Bytes

def octet (b : Bytes) (i : Nat) : Except Fault UInt8 :=
  match b[i]? with
  | some x => .ok x
  | none => .error .outOfBounds

def slice (b : Bytes) (start stop : Nat) : Except Fault Bytes :=
  if start ≤ stop ∧ stop ≤ b.length then .ok ((b.take stop).drop start) else .error .outOfBounds

def rest (b : Bytes) (start : Nat) : Except Fault Bytes := b.slice start b.length

def half (b : Bytes) (i : Nat) : Except Fault UInt16 := do
  let hi ← b.octet i
  let lo ← b.octet (i + 1)
  pure (UInt16.ofNat (hi.toNat * 0x100 + lo.toNat))

def word (b : Bytes) (i : Nat) : Except Fault UInt32 := do
  let hi ← b.half i
  let lo ← b.half (i + 2)
  pure (UInt32.ofNat (hi.toNat * 0x10000 + lo.toNat))

def ofHalf (n : Nat) : Bytes := [UInt8.ofNat (n / 0x100), UInt8.ofNat n]

def ofWord (n : Nat) : Bytes := ofHalf (n / 0x10000) ++ ofHalf n

def put (b : Bytes) (i : Nat) (data : Bytes) : Bytes :=
  b.take i ++ data ++ b.drop (i + data.length)

/-- Copy as much of `data` as fits over the bytes from `i` on. -/
def overlay (b : Bytes) (i : Nat) (data : Bytes) : Bytes :=
  b.put i (data.take (b.length - i))

theorem octet_of_lt {b : Bytes} {i : Nat} (h : i < b.length) : b.octet i = .ok b[i] := by
  simp [octet, h]

theorem slice_of_le {b : Bytes} {start stop : Nat} (h : start ≤ stop) (h' : stop ≤ b.length) :
    b.slice start stop = .ok ((b.take stop).drop start) := by
  simp [slice, h, h']

theorem half_of_lt {b : Bytes} {i : Nat} (h : i + 1 < b.length) :
    b.half i = .ok (UInt16.ofNat (b[i].toNat * 0x100 + b[i + 1].toNat)) := by
  simp only [half, octet_of_lt h, octet_of_lt (Nat.lt_of_succ_lt h)]
  rfl

theorem length_put {b data : Bytes} {i : Nat} (h : i + data.length ≤ b.length) :
    (b.put i data).length = b.length := by
  simp only [put, List.length_append, List.length_take, List.length_drop]
  omega

theorem getElem?_put {b data : Bytes} {i j : Nat} (h : i + data.length ≤ b.length) :
    (b.put i data)[j]? = if i ≤ j ∧ j < i + data.length then data[j - i]? else b[j]? := by
  have hi : (b.take i).length = i := by simp only [List.length_take]; omega
  rw [put, List.append_assoc]
  split
  · next hj =>
    rw [List.getElem?_append_right (by omega), hi, List.getElem?_append_left (by omega)]
  · next hj =>
    by_cases hlt : j < i
    · rw [List.getElem?_append_left (by omega), List.getElem?_take_of_lt hlt]
    · rw [List.getElem?_append_right (by omega), hi, List.getElem?_append_right (by omega),
        List.getElem?_drop]
      congr 1
      omega

theorem exists_word {b : Bytes} {i : Nat} (h : i + 3 < b.length) : ∃ n, b.word i = .ok n := by
  simp only [word, half_of_lt (b := b) (i := i) (by omega),
    half_of_lt (b := b) (i := i + 2) (by omega)]
  exact ⟨_, rfl⟩

end Bytes

abbrev Edit := Op Bytes

namespace Edit

variable {α : Type}

def write (i : Nat) (data : Bytes) : Edit Unit := do
  let b ← get
  if i + data.length ≤ b.length then set (b.put i data) else throw .outOfBounds

theorem on_write {b data : Bytes} {i : Nat} (h : i + data.length ≤ b.length) :
    (write i data).on b = (.ok (), b.put i data) := by
  rw [write, Op.on_bind_ok (Op.on_get b), if_pos h, Op.on_set]

def overlay (i : Nat) (data : Bytes) : Edit Unit := modify (Bytes.overlay · i data)

/-- Edit the `len` bytes from `start` on, as far as there are. -/
def within (start len : Nat) (m : Edit α) : Edit α :=
  Op.focus (fun b => (b.drop start).take len)
    (fun part b => b.take start ++ part ++ b.drop (start + len)) m

def apply (m : Edit Unit) (b : Bytes) : Except Fault Bytes :=
  match m.on b with
  | (.ok _, b) => .ok b
  | (.error e, _) => .error e

end Edit

end Reflector
