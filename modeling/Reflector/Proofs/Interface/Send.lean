import Reflector.Interface.Send
import Reflector.Proofs.Ring.Abandonment
/-!
Queueing a frame. Either nothing is queued, or one more frame is. Only a ring that hands out no
record for the frame is exhausted, and a frame that is given up costs no room.
-/
namespace Reflector.Interface

open Reflector.Ring

variable {α : Type} {r r' : Ring} {m : Emit α} {finalLen : α → Nat} {len : Nat}
  {refuses : SendError → Prop} {kind : α → Bytes → Prop} {result : Except SendError α}

def Queues (l : List Record) (result : Except SendError α) (l' : List Record) : Prop :=
  match result with
  | .ok _ => ∃ h frame, l' = l ++ [⟨h, .output, frame⟩]
  | .error _ => l' = l

/-- What a call comes to that queues a frame, for which it needs a record of some length. Without
the record the ring is exhausted, and stays as it is. -/
structure Frames (r : Ring) (len : Nat) (result : Except SendError α) (r' : Ring) : Prop where
  sound : r'.Sound
  queues : Queues r.records result r'.records
  exhausted : result = .error .exhausted ↔ ¬r.Allocates len
  kept : result = .error .exhausted → r' = r

/-- All ways in which a call ends that queues a frame of some kind, for which it needs a record of
some length, unless it refuses for some reason. -/
inductive Settles (r : Ring) (len : Nat) (refuses : SendError → Prop) (kind : α → Bytes → Prop) :
    Except SendError α → Ring → Prop
  | exhausted : ¬r.Allocates len → Settles r len refuses kind (.error .exhausted) r
  | refused {e : SendError} {r' : Ring} : refuses e → e ≠ .exhausted → r.Allocates len →
      r.Unspent r' → Settles r len refuses kind (.error e) r'
  | queued {a : α} {h : Handle} {frame : Bytes} {r' : Ring} : r.Allocates len → kind a frame →
      r'.records = r.records ++ [⟨h, .output, frame⟩] → Settles r len refuses kind (.ok a) r'

theorem Settles.frames (h : Settles r len refuses kind result r') (hr' : r'.Sound) :
    Frames r len result r' := by
  cases h with
  | exhausted hfull => exact ⟨hr', rfl, iff_of_true rfl hfull, fun _ => rfl⟩
  | refused _ he hroom hunspent =>
    exact ⟨hr', hunspent.records, iff_of_false (fun h => he (Except.error.inj h))
      (not_not_intro hroom), fun h => absurd (Except.error.inj h) he⟩
  | queued hroom _ hrecs =>
    exact ⟨hr', ⟨_, _, hrecs⟩, iff_of_false nofun (not_not_intro hroom), nofun⟩

theorem exists_frames {q : Queue α} (hr : r.Sound) (hq : ∃ result r', q.run.on r = (.ok result, r') ∧
    r.Leads r' ∧ Settles r len refuses kind result r') :
    ∃ result r', q.run.on r = (.ok result, r') ∧ Frames r len result r' := by
  obtain ⟨result, r', hon, hleads, hsettles⟩ := hq
  exact ⟨result, r', hon, hsettles.frames (hleads.sound hr)⟩

/-- What a writer leaves in a record: a frame of some kind, of the length that it tells, or what it
wrote before it refused. -/
inductive Ends (refuses : SendError → Prop) (kind : α → Bytes → Prop) (finalLen : α → Nat) :
    Except SendError α → Bytes → Prop
  | refused {e : SendError} {written : Bytes} : refuses e → e ≠ .exhausted →
      Ends refuses kind finalLen (.error e) written
  | frame {a : α} {written : Bytes} : finalLen a ≤ written.length →
      kind a (written.take (finalLen a)) → Ends refuses kind finalLen (.ok a) written

/-- A writer does not fault in a record of its length. -/
theorem queueFrame_settles (hr : r.Sound) (hm : len ≤ Tag.maxLen → ∀ b : Bytes, b.length = len →
      ∃ result written, m.run.on b = (.ok result, written) ∧ written.length = b.length ∧
        Ends refuses kind finalLen result written) :
    ∃ result r', (queueFrame len m finalLen).run.on r = (.ok result, r') ∧ r.Leads r' ∧
      Settles r len refuses kind result r' := by
  obtain ⟨reply, r₁, hallocate, -, -, hrecs⟩ := allocate_spec len hr
  cases reply with
  | none =>
    cases hrecs
    exact ⟨_, r, Op.on_bind_ok hallocate, .refl, .exhausted (not_allocates hallocate)⟩
  | some h =>
    have hroom : r.Allocates len := ⟨h, r₁, hallocate⟩
    obtain ⟨payload, hlen, hopens⟩ := allocate_opens hr hallocate
    have hmax : len ≤ Tag.maxLen := hlen ▸ (hopens.leads.sound hr).payload_le hopens.mem
    obtain ⟨result, written, hwrite, hwritten, hends⟩ := hm hmax payload hlen
    obtain ⟨r₂, hedit, hopens₂⟩ := hopens.edit (e := m.run) hr (by rw [hwrite]; exact hwritten)
    rw [hwrite] at hedit hopens₂
    cases hends with
    | refused hrefuses he =>
      obtain ⟨r₃, hdiscard, hleads, hunspent⟩ := hopens₂.discard hr
      refine ⟨_, r₃, ?_, hleads, .refused hrefuses he hroom hunspent⟩
      exact (Op.on_bind_ok hallocate).trans ((Op.on_bind_ok hedit).trans (Op.on_bind_ok hdiscard))
    | @frame a _ hfits hkind =>
      -- the record is cut to the frame in it before it is queued
      have hr₂ := hopens₂.leads.sound hr
      have hmem₂ := List.mem_map_of_mem (f := Record.entry) hopens₂.mem
      obtain ⟨r₃, hshrink, hr₃, -, hrecs₃⟩ := shrink_spec hr₂ hopens₂.mem (by simp) hfits
      rw [hr₂.revise_eq hopens₂.records] at hrecs₃
      have hmem₃ : ⟨h, .unfinished, written.take (finalLen a)⟩ ∈ r₃.records := by simp [hrecs₃]
      obtain ⟨r₄, hput, -, -, hrecs₄⟩ := putOutput_spec hr₃ hmem₃ rfl
      rw [hr₃.revise_eq hrecs₃] at hrecs₄
      have hleads₃ := hopens₂.leads.call (c := .shrink h (finalLen a))
        ⟨_, hmem₂, rfl, Stage.noConfusion, hfits⟩ (Op.on_bind_ok hshrink)
      have hleads₄ := hleads₃.call (c := .putOutput h)
        ⟨_, List.mem_map_of_mem hmem₃, rfl, rfl⟩ (Op.on_bind_ok hput)
      refine ⟨_, r₄, ?_, hleads₄, .queued hroom hkind hrecs₄⟩
      exact (Op.on_bind_ok hallocate).trans ((Op.on_bind_ok hedit).trans
        ((Op.on_bind_ok hshrink).trans (Op.on_bind_ok hput)))

end Reflector.Interface
