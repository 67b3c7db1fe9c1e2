import Reflector.Link.Fragment
import Reflector.Link.Transmitter
import Reflector.Proofs.Link.Receiver
/-!
The transmitter next to its ring: it never faults, and its fragments make up the oldest record
before they go on with the next one.
-/
namespace Reflector.Link

open Reflector.Ring (Record Sound Stage)

variable {l l' : List Record} {begun fragment : Bytes} {size : Nat}

theorem joinFragments_append (begun : Bytes) (fragments : List Bytes) (fragment : Bytes) :
    joinFragments size begun (fragments ++ [fragment]) =
      if fragment.length < size then
        ((joinFragments size begun fragments).1 ++
          [(joinFragments size begun fragments).2 ++ fragment], [])
      else ((joinFragments size begun fragments).1,
        (joinFragments size begun fragments).2 ++ fragment) := by
  induction fragments generalizing begun with
  | nil =>
    simp only [List.nil_append, joinFragments]
  | cons first fragments ih =>
    simp only [List.cons_append, joinFragments]
    by_cases hfirst : first.length < size
    · simp only [if_pos hfirst, ih]
      split <;> rfl
    · simp only [if_neg hfirst, ih]

namespace Transmitter

variable {α : Type} {tx : Transmitter} {r r' : Ring}

theorem on_onRing {m : Op Ring α} {x : α} (h : m.on r = (.ok x, r')) :
    (onRing m).on (tx, r) = (.ok x, (tx, r')) := by
  rw [onRing, Op.on_focus, h]

def Sends (begun : Bytes) (l : List Record) : Option (Handle × Nat) → Prop
  | some (h, sent) => ∃ payload, l.head? = some ⟨h, .output, payload⟩ ∧ sent ≤ payload.length ∧
      begun = payload.take sent
  | none => begun = []

theorem Sends.kept {current : Option (Handle × Nat)} (h : Sends begun l current)
    (hk : Kept l l') : Sends begun l' current := by
  cases current with
  | none => exact h
  | some current =>
    obtain ⟨payload, hhead, hsent⟩ := h
    exact ⟨payload, hk _ hhead rfl, hsent⟩

def AtReader (r : Ring) : Option (Handle × Nat) → Prop
  | some (h, _) => r.outputReader = h.offset
  | none => True

/-- The record to go on with is the oldest, and there is none only if that is not to be sent. -/
theorem takeCurrent_spec (hr : r.Sound) (hs : Sends begun r.records tx.current) :
    ∃ current r', takeCurrent.on (tx, r) = (.ok current, ({ tx with current := none }, r')) ∧
      r.Leads r' ∧ r'.records = r.records ∧ Sends begun r.records current ∧
      (AtReader r tx.current → AtReader r' current) ∧
      (current = none → ∀ rec, r.records.head? = some rec → rec.stage ≠ .output) := by
  unfold takeCurrent
  rw [Op.on_bind_ok (Op.on_get (tx, r))]
  dsimp only
  rw [Op.on_bind_ok (show (setCurrent none).on (tx, r) = (.ok (), ({ tx with current := none }, r))
    from rfl)]
  cases hc : tx.current with
  | some current =>
    rw [hc] at hs
    exact ⟨some current, r, rfl, .refl, rfl, hs, id, fun h => nomatch h⟩
  | none =>
    rw [hc] at hs
    obtain ⟨r₁, hget, -, -, hrecs⟩ := Ring.getOutput_spec hr
    dsimp only
    rw [Op.on_bind_ok (on_onRing hget)]
    have hleads : r.Leads r₁ := .call (c := .getOutput) .refl trivial (Op.on_bind_ok hget)
    refine ⟨_, r₁, rfl, hleads, hrecs, ?_, fun _ => ?_, ?_⟩
    · cases hn : Ring.nextOutput r.records with
      | none => exact hs
      | some h =>
        obtain ⟨payload, hhead⟩ := Ring.head_of_nextOutput hn
        exact ⟨payload, hhead, Nat.zero_le _, hs⟩
    · cases hn : Ring.nextOutput r.records with
      | none => trivial
      | some h =>
        rw [hn] at hget
        exact Ring.getOutput_stops hr hget
    · intro hn rec hrec
      exact Ring.head_of_nextOutput_none (Option.map_eq_none_iff.1 hn) hrec

/-- What sending does to the oldest record: it leaves with its last fragment, stays with any other
one, or is not to be sent. -/
def Sent (size : Nat) (begun : Bytes) (l : List Record) (current : Option (Handle × Nat))
    (l' : List Record) : Option Bytes → Prop
  | some fragment =>
    (fragment.length < size ∧ current = none ∧
      ∃ h, l = ⟨h, .output, begun ++ fragment⟩ :: l') ∨
    (fragment.length = size ∧ l' = l ∧ Sends (begun ++ fragment) l current)
  | none => l' = l ∧ current = none ∧ begun = [] ∧
    ∀ rec, l.head? = some rec → rec.stage ≠ .output

/-- Sending into a buffer that is long enough never faults, and leaves the output reader at the
record that it goes on with. -/
theorem send_spec {outLen : Nat} (hr : r.Sound) (hs : Sends begun r.records tx.current)
    (hout : tx.fragmentSize ≤ outLen) :
    ∃ reply current r', (send outLen).on (tx, r) = (.ok reply, ({ tx with current }, r')) ∧
      r.Leads r' ∧ (AtReader r tx.current → AtReader r' current) ∧
      Sent tx.fragmentSize begun r.records current r'.records reply := by
  obtain ⟨current, r₁, htake, hleads, hrecs, hcurrent, hreader, hnone⟩ := takeCurrent_spec hr hs
  have hr₁ := hleads.sound hr
  unfold send
  rw [Op.on_bind_ok (Op.on_get (tx, r))]
  dsimp only
  rw [Op.on_bind_ok htake]
  cases current with
  | none => exact ⟨none, none, r₁, rfl, hleads, hreader, hrecs, rfl, hcurrent, hnone rfl⟩
  | some current =>
    obtain ⟨h, sent⟩ := current
    obtain ⟨payload, hhead, hsent, rfl⟩ := hcurrent
    obtain ⟨rest, hl⟩ := List.head?_eq_some_iff.1 hhead
    have hl₁ : r₁.records = [] ++ ⟨h, .output, payload⟩ :: rest := hrecs.trans hl
    have hmem : ⟨h, .output, payload⟩ ∈ r₁.records := by simp [hl₁]
    have hpayload : (Op.view fun s : Transmitter × Ring => s.2.payload h).on
        ({ tx with current := none }, r₁) = (.ok payload, ({ tx with current := none }, r₁)) := by
      rw [Op.on_view]
      exact congrArg (·, _) (Ring.payload_of_mem hr₁ hmem)
    dsimp only
    rw [Op.on_bind_ok hpayload, if_neg (Nat.not_lt.2 hsent)]
    have hbytes : payload.take sent ++ (payload.drop sent).take tx.fragmentSize =
        payload.take (sent + tx.fragmentSize) := List.take_add.symm
    have hlen : ((payload.drop sent).take tx.fragmentSize).length =
        min tx.fragmentSize (payload.length - sent) := by
      rw [List.length_take, List.length_drop]
    -- Only its length and what it adds to the bytes sent matter of the fragment.
    generalize (payload.drop sent).take tx.fragmentSize = fragment at *
    rw [if_neg (by omega)]
    split
    · next hshort =>
      obtain ⟨r₂, hrelease, -, -, hrecs₂⟩ := Ring.releaseOutput_spec hr₁ hmem rfl
      rw [hr₁.remove_eq hl₁] at hrecs₂
      have hleads₂ : r.Leads r₂ := hleads.call (c := .releaseOutput h)
        ⟨_, List.mem_map_of_mem hmem, rfl, rfl⟩ (Op.on_bind_ok hrelease)
      refine ⟨some fragment, none, r₂, ?_, hleads₂, fun _ => trivial, .inl ⟨hshort, rfl, h, ?_⟩⟩
      · rw [Op.on_bind_ok (on_onRing hrelease)]; rfl
      · rw [hbytes, List.take_of_length_le (by omega), hl, hrecs₂]
        rfl
    · next hlong =>
      refine ⟨some fragment, some (h, sent + fragment.length), r₁, rfl, hleads, hreader,
        .inr ⟨by omega, hrecs, payload, hhead, by omega, ?_⟩⟩
      rw [hbytes]
      congr 1
      omega

end Transmitter

end Reflector.Link
