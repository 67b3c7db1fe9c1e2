import Reflector.Ipv4.Address
import Reflector.Outcome
/-!
One's complement sums over 16 bit words. All sums are kept without the final complement, so that
they can be combined: a buffer that holds the complement of the sum over the rest sums up to
all ones.
-/
namespace Reflector.Checksum

/-- Who fills and verifies checksums: this stack or the transport below it. -/
inductive Mode where
  | manual
  | ignored
  deriving DecidableEq, Repr

def Mode.name : Mode → String
  | .manual => "Manual"
  | .ignored => "Ignored"

def Mode.check (mode : Mode) (verify : Except Fault Bool) : Parse Unit := do
  if mode = .manual then
    if !(← verify) then throw .wrongChecksum

def ones : UInt16 := 0xffff

/-- The halves of a sum of two 16 bit numbers added, which is the end-around carry. -/
def carry (wide : Nat) : Except Fault UInt16 :=
  let sum := wide / 0x10000 + wide % 0x10000
  if sum < 0x10000 then .ok (UInt16.ofNat sum) else .error .overflow

def fold (sum : Nat) : UInt16 :=
  let once := sum / 0x10000 + sum % 0x10000
  UInt16.ofNat (once / 0x10000 + once % 0x10000)

/-- The sum of the words of a byte string on top of `acc`; a last odd byte is a high half. -/
def total (acc : Nat) : Bytes → Nat
  | [] => acc
  | [hi] => acc + hi.toNat * 0x100
  | hi :: lo :: rest => total (acc + (hi.toNat * 0x100 + lo.toNat)) rest

def limit : Nat := 0x100000000

def accumulate (acc n : Nat) : Except Fault Nat :=
  if acc + n < limit then .ok (acc + n) else .error .overflow

/-- Add up whole words, and leave an odd byte behind them. -/
def addWords (acc : Nat) : Bytes → Except Fault (Nat × Bytes)
  | [] => pure (acc, [])
  | [odd] => pure (acc, [odd])
  | hi :: lo :: rest => do
    addWords (← accumulate acc (hi.toNat * 0x100 + lo.toNat)) rest

def chunkSize : Nat := 32

def addChunks (acc : Nat) (b : Bytes) : Nat → Except Fault (Nat × Bytes)
  | 0 => pure (acc, b)
  | rounds + 1 => do
    let (acc, _) ← addWords acc (b.take chunkSize)
    addChunks acc (b.drop chunkSize) rounds

def finish (sum : Nat) : Except Fault UInt16 := carry (sum / 0x10000 + sum % 0x10000)

/-- The sum of a byte string: all whole chunks, the words behind them, and a last odd byte, which is
a high half. -/
def data (b : Bytes) : Except Fault UInt16 := do
  let (acc, rest) ← addChunks 0 b (b.length / chunkSize)
  let (acc, odd) ← addWords acc rest
  match odd with
  | hi :: _ => finish (← accumulate acc (hi.toNat * 0x100))
  | [] => finish acc

def combine (sums : List UInt16) : Except Fault UInt16 := do
  finish (← sums.foldlM (fun acc s => accumulate acc s.toNat) 0)

def addWithCarry (sum w : UInt16) : Except Fault UInt16 := carry (sum.toNat + w.toNat)

/-- The words that a transport checksum covers besides its own packet. -/
def pseudoHeader (source destination : Ipv4.Address) (protocol : UInt8) (len : Nat) :
    Except Fault UInt16 := do
  combine [← data source.toBytes, ← data destination.toBytes,
    ← data (0 :: protocol :: Bytes.ofHalf len)]

theorem carry_of_lt {wide : Nat} (h : wide < 0x1ffff) :
    carry wide = .ok (UInt16.ofNat (wide / 0x10000 + wide % 0x10000)) := by
  refine if_pos ?_
  omega

def plus (sum w : UInt16) : UInt16 :=
  let wide := sum.toNat + w.toNat
  UInt16.ofNat (wide / 0x10000 + wide % 0x10000)

theorem addWithCarry_eq (sum w : UInt16) : addWithCarry sum w = .ok (plus sum w) := by
  have hs := sum.toNat_lt
  have hw := w.toNat_lt
  exact carry_of_lt (by omega)

theorem accumulate_of_lt {acc n : Nat} (h : acc + n < limit) :
    accumulate acc n = .ok (acc + n) := if_pos h

theorem finish_of_lt {sum : Nat} (h : sum < limit) : finish sum = .ok (fold sum) := by
  rw [finish, carry_of_lt (by simp only [limit] at h; omega)]
  rfl

theorem le_total (acc : Nat) (b : Bytes) : acc ≤ total acc b := by
  fun_induction total acc b with
  | case1 => exact Nat.le_refl _
  | case2 => exact Nat.le_add_right _ _
  | case3 acc hi lo rest ih => exact Nat.le_trans (Nat.le_add_right _ _) ih

theorem total_append_of_even (acc : Nat) {a : Bytes} (b : Bytes) (h : a.length % 2 = 0) :
    total acc (a ++ b) = total (total acc a) b := by
  fun_induction total acc a with
  | case1 => rfl
  | case2 => cases h
  | case3 acc hi lo rest ih =>
    simp only [List.length_cons] at h
    rw [List.cons_append, List.cons_append, total, ih (by omega)]

/-- Nothing of a string is lost: its words are in the accumulator, and an odd byte is left. -/
theorem addWords_of_lt {acc : Nat} {b : Bytes} (h : total acc b < limit) :
    ∃ n odd, addWords acc b = .ok (n, odd) ∧ total n odd = total acc b ∧
      odd.length = b.length % 2 := by
  fun_induction total acc b with
  | case1 acc => exact ⟨acc, [], rfl, rfl, rfl⟩
  | case2 acc hi => exact ⟨acc, [hi], rfl, rfl, rfl⟩
  | case3 acc hi lo rest ih =>
    have hword := accumulate_of_lt (Nat.lt_of_le_of_lt (le_total _ rest) h)
    obtain ⟨n, odd, hrest, hsum, hlen⟩ := ih h
    refine ⟨n, odd, ?_, hsum, ?_⟩
    · rw [addWords, hword]
      exact hrest
    · simp only [hlen, List.length_cons]
      omega

theorem addChunks_of_lt {acc rounds : Nat} {b : Bytes} (hlen : rounds * chunkSize ≤ b.length)
    (h : total acc b < limit) :
    ∃ n rest, addChunks acc b rounds = .ok (n, rest) ∧ total n rest = total acc b := by
  induction rounds generalizing acc b with
  | zero => exact ⟨acc, b, rfl, rfl⟩
  | succ rounds ih =>
    rw [Nat.succ_mul] at hlen
    have htake : (b.take chunkSize).length % 2 = 0 := by
      rw [List.length_take_of_le (by omega)]
      rfl
    have hsplit : total (total acc (b.take chunkSize)) (b.drop chunkSize) = total acc b := by
      rw [← total_append_of_even acc _ htake, List.take_append_drop]
    have hlt : total acc (b.take chunkSize) < limit :=
      Nat.lt_of_le_of_lt (hsplit ▸ le_total _ (b.drop chunkSize)) h
    obtain ⟨sum, odd, hchunk, hsum, hodd⟩ := addWords_of_lt hlt
    rw [htake] at hodd
    rw [List.length_eq_zero_iff.1 hodd, total] at hsum
    rw [← hsum] at hsplit
    have hleft : rounds * chunkSize ≤ (b.drop chunkSize).length := by
      rw [List.length_drop]
      omega
    obtain ⟨n, rest, hrest, heq⟩ := ih hleft (hsplit ▸ h)
    refine ⟨n, rest, ?_, heq.trans hsplit⟩
    rw [addChunks, hchunk]
    exact hrest

/-- How the sum is taken in rounds does not show in it. -/
theorem data_of_lt {b : Bytes} (h : total 0 b < limit) : data b = .ok (fold (total 0 b)) := by
  obtain ⟨acc, rest, hchunks, hrest⟩ := addChunks_of_lt (Nat.div_mul_le_self b.length chunkSize) h
  rw [← hrest] at h ⊢
  obtain ⟨n, odd, hwords, hodd, hlen⟩ := addWords_of_lt h
  rw [← hodd] at h ⊢
  rw [data, hchunks]
  show (addWords acc rest >>= _) = _
  rw [hwords]
  match odd, hlen with
  | [], _ => exact finish_of_lt h
  | [hi], _ =>
    show (accumulate n (hi.toNat * 0x100) >>= finish) = _
    rw [accumulate_of_lt h]
    exact finish_of_lt h
  | _ :: _ :: _, hlen =>
    simp only [List.length_cons] at hlen
    omega

theorem total_le (acc : Nat) (b : Bytes) : total acc b ≤ acc + (b.length + 1) / 2 * 0xffff := by
  fun_induction total acc b with
  | case1 => simp
  | case2 acc hi =>
    have := hi.toNat_lt
    simp only [List.length_singleton]
    omega
  | case3 acc hi lo rest ih =>
    have := hi.toNat_lt
    have := lo.toNat_lt
    simp only [List.length_cons]
    omega

/-- The sum of 65537 words of all ones is the highest that the accumulator holds. -/
theorem total_lt_of_length_le {b : Bytes} (h : b.length ≤ 131074) : total 0 b < limit := by
  have := total_le 0 b
  simp only [limit]
  omega

theorem data_of_length_le {b : Bytes} (h : b.length ≤ 131074) :
    data b = .ok (fold (total 0 b)) :=
  data_of_lt (total_lt_of_length_le h)

/-- What some sums add up to, all carries still in it. -/
def joint : List UInt16 → Nat
  | [] => 0
  | s :: sums => s.toNat + joint sums

theorem foldlM_accumulate {acc : Nat} {sums : List UInt16} (h : acc + joint sums < limit) :
    sums.foldlM (fun acc s => accumulate acc s.toNat) acc = .ok (acc + joint sums) := by
  induction sums generalizing acc with
  | nil => rfl
  | cons s sums ih =>
    rw [joint, ← Nat.add_assoc] at h ⊢
    rw [List.foldlM_cons, accumulate_of_lt (Nat.lt_of_le_of_lt (Nat.le_add_right _ _) h)]
    exact ih h

theorem combine_of_lt {sums : List UInt16} (h : joint sums < limit) :
    combine sums = .ok (fold (joint sums)) := by
  rw [← Nat.zero_add (joint sums)] at h ⊢
  rw [combine, foldlM_accumulate h]
  exact finish_of_lt h

theorem joint_le (sums : List UInt16) : joint sums ≤ sums.length * 0xffff := by
  induction sums with
  | nil => exact Nat.le_refl _
  | cons s sums ih =>
    have hs := s.toNat_lt
    rw [joint, List.length_cons]
    omega

theorem joint_lt_of_length_le {sums : List UInt16} (h : sums.length ≤ 65537) :
    joint sums < limit := by
  have := joint_le sums
  simp only [limit]
  omega

theorem combine_of_length_le {sums : List UInt16} (h : sums.length ≤ 65537) :
    combine sums = .ok (fold (joint sums)) :=
  combine_of_lt (joint_lt_of_length_le h)

end Reflector.Checksum
