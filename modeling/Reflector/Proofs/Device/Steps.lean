import Reflector.Proofs.Device.History
import Reflector.Proofs.Interface.Queueing
import Reflector.Proofs.Interface.Receive
import Reflector.Proofs.Link.Transmitter
/-!
The steps of the device that are not those of the link: processing the oldest received frame, and
queueing a frame.
-/
namespace Reflector

theorem Bytes.put_all {b data : Bytes} (h : data.length = b.length) : b.put 0 data = data := by
  rw [put, List.take_zero, Nat.zero_add, List.drop_of_length_le (Nat.le_of_eq h.symm),
    List.append_nil]
  rfl

namespace Device

open Reflector.Ring (Record Sound Stage nextInput)

variable {σ α : Type} {d : Device σ} {r : Ring} {l pre post : List Record} {frame : Bytes}
  {h : Handle}

theorem on_onRing {m : Op Ring α} {x : α} (hm : m.on d.ring = (.ok x, r)) :
    (onRing m).on d = (.ok x, { d with ring := r }) := by
  rw [onRing, Op.on_focus, hm]

theorem on_receive {app : Udp.Application σ} {handled : Handled (Interface × σ)}
    (h : d.interface.receive app frame d.state = .ok handled) :
    (receive app frame).on d = (.ok (handled.outcome, handled.bytes),
      { d with interface := handled.state.1, state := handled.state.2 }) := by
  rw [receive, Op.on_bind_ok (Op.on_get d), h]
  rfl

theorem overwrite_spec {stage : Stage} {bytes : Bytes} (hr : r.Sound)
    (hl : r.records = pre ++ ⟨h, stage, frame⟩ :: post) (hlen : bytes.length = frame.length) :
    ∃ r', (Ring.editPayload h (Edit.write 0 bytes)).on r = (.ok (), r') ∧ r'.Sound ∧
      r'.records = pre ++ ⟨h, stage, bytes⟩ :: post := by
  have hmem : ⟨h, stage, frame⟩ ∈ r.records := by simp [hl]
  have hwrite : (Edit.write 0 bytes).on frame = (.ok (), bytes) := by
    rw [Edit.on_write (by omega), Bytes.put_all hlen]
  obtain ⟨r', hedit, hr', -, hrecs⟩ :=
    Ring.editPayload_spec (e := Edit.write 0 bytes) hr hmem (by rw [hwrite]; exact hlen)
  rw [hwrite] at hedit hrecs
  rw [hr.revise_eq hl] at hrecs
  exact ⟨r', hedit, hr', hrecs⟩

/-- A received record becomes its answer in place. -/
theorem answer_spec {len : Nat} (hr : r.Sound)
    (hl : r.records = pre ++ ⟨h, .input, frame⟩ :: post) (hlen : len ≤ frame.length) :
    ∃ r', (do Ring.shrink h len; Ring.reattachOutput h : Op Ring Unit).on r = (.ok (), r') ∧
      r'.Sound ∧ r'.records = pre ++ ⟨h, .output, frame.take len⟩ :: post := by
  have hmem : ⟨h, .input, frame⟩ ∈ r.records := by simp [hl]
  obtain ⟨r₁, hshrink, hr₁, -, hrecs⟩ := Ring.shrink_spec hr hmem Stage.noConfusion hlen
  rw [hr.revise_eq hl] at hrecs
  have hmem₁ : ⟨h, .input, frame.take len⟩ ∈ r₁.records := by simp [hrecs]
  obtain ⟨r₂, hreattach, hr₂, -, hrecs₂⟩ := Ring.reattachOutput_spec hr₁ hmem₁ rfl
  rw [hr₁.revise_eq hrecs] at hrecs₂
  exact ⟨r₂, (Op.on_bind_ok hshrink).trans hreattach, hr₂, hrecs₂⟩

def answered (h : Handle) (answer : Option Bytes) : List Record :=
  (answer.map fun bytes => ⟨h, .output, bytes⟩).toList

/-- The oldest received frame is processed as the interface does, and its record is settled. -/
theorem handleOne_input (app : Udp.Application σ) (hr : d.ring.Sound)
    (hn : nextInput d.ring.records = some h)
    (hl : d.ring.records = pre ++ ⟨h, .input, frame⟩ :: post) :
    ∃ handled ring, d.interface.receive app frame d.state = .ok handled ∧
      handled.Fits frame.length (d.interface.Answers app d.state frame) ∧
      (handleOne app).on d = (.ok (some (frame, handled.answer)),
        { d with ring, interface := handled.state.1, state := handled.state.2 }) ∧
      ring.Sound ∧ ring.records = pre ++ answered h handled.answer ++ post := by
  obtain ⟨r₁, hget, hr₁, -, hrecs⟩ := Ring.getInput_spec hr
  rw [hn] at hget
  have hl₁ := hrecs.trans hl
  have hmem : ⟨h, .input, frame⟩ ∈ r₁.records := by simp [hl₁]
  have hlen : frame.length < Length.limit :=
    Nat.lt_of_le_of_lt (hr₁.payload_le hmem) (by decide)
  have hpayload : (Op.view fun s : Device σ => s.ring.payload h).on { d with ring := r₁ } =
      (.ok frame, { d with ring := r₁ }) := by
    rw [Op.on_view]
    exact congrArg (·, _) (Ring.payload_of_mem hr₁ hmem)
  obtain ⟨handled, hreceive, hfits⟩ := d.interface.receive_total app d.state hlen
  have hon : (receive app frame).on { d with ring := r₁ } = _ := on_receive hreceive
  obtain ⟨r₂, hwrite, hr₂, hl₂⟩ := overwrite_spec hr₁ hl₁ hfits.length
  have hmem₂ : ⟨h, .input, handled.bytes⟩ ∈ r₂.records := by simp [hl₂]
  refine ⟨handled, ?_⟩
  unfold handleOne
  rw [Op.on_bind_ok (on_onRing hget)]
  dsimp only
  rw [Op.on_bind_ok hpayload, Op.on_bind_ok hon]
  dsimp only
  rw [Op.on_bind_ok (on_onRing hwrite)]
  cases he : handled.outcome with
  | reflect len =>
    have hanswer : handled.answer = some (handled.bytes.take len) := by rw [Handled.answer, he]
    obtain ⟨r₃, hreply, hr₃, hl₃⟩ :=
      answer_spec hr₂ hl₂ (hfits.length ▸ (hfits.answer len he).1)
    rw [hanswer]
    refine ⟨r₃, hreceive, hfits, (Op.on_bind_ok (on_onRing hreply)).trans rfl, hr₃, ?_⟩
    rw [hl₃, List.append_cons]
    rfl
  | drop =>
    have hanswer : handled.answer = none := by rw [Handled.answer, he]
    obtain ⟨r₃, hrelease, hr₃, -, hl₃⟩ := Ring.releaseInput_spec hr₂ hmem₂ rfl
    rw [hr₂.remove_eq hl₂] at hl₃
    rw [hanswer]
    refine ⟨r₃, hreceive, hfits, (Op.on_bind_ok (on_onRing hrelease)).trans rfl, hr₃, ?_⟩
    rw [hl₃, answered, Option.map_none, Option.toList_none, List.append_nil]

theorem handleOne_idle (app : Udp.Application σ) (hr : d.ring.Sound)
    (hn : nextInput d.ring.records = none) :
    ∃ ring, (handleOne app).on d = (.ok none, { d with ring }) ∧ ring.Sound ∧
      ring.records = d.ring.records := by
  obtain ⟨r, hget, hr', -, hrecs⟩ := Ring.getInput_spec hr
  rw [hn] at hget
  exact ⟨r, Op.on_bind_ok (on_onRing hget), hr', hrecs⟩

/-- What processing one frame does to the records: the oldest received one is answered in its place
or leaves without an answer. -/
def Handles (l l' : List Record) : Option (Bytes × Option Bytes) → Prop
  | some (frame, reply) => ∃ h pre post, l = pre ++ ⟨h, .input, frame⟩ :: post ∧
      (∀ e ∈ pre, e.stage = .output) ∧ l' = pre ++ answered h reply ++ post
  | none => nextInput l = none ∧ l' = l

theorem handleOne_spec (app : Udp.Application σ) (hr : d.ring.Sound) :
    ∃ result ring interface state, (handleOne app).on d =
      (.ok result, { d with ring, interface, state }) ∧ ring.Sound ∧
        Handles d.ring.records ring.records result := by
  cases hn : nextInput d.ring.records with
  | none =>
    obtain ⟨ring, hon, hr', hrecs⟩ := handleOne_idle app hr hn
    exact ⟨none, ring, d.interface, d.state, hon, hr', hn, hrecs⟩
  | some h =>
    obtain ⟨pre, frame, post, hl, hpre⟩ := Ring.split_of_nextInput hn
    obtain ⟨handled, ring, -, -, hon, hr', hrecs⟩ := handleOne_input app hr hn hl
    exact ⟨_, ring, _, _, hon, hr', h, pre, post, hl, hpre, hrecs⟩

theorem queueFrame_spec {m : Interface → Interface.Queue α} {len : Nat} (d : Device σ)
    (hm : ∃ result r', (m d.interface).run.on d.ring = (.ok result, r') ∧
      Interface.Frames d.ring len result r') :
    ∃ event ring, (queueFrame m).on d = (.ok event, { d with ring }) ∧ ring.Sound ∧
      ((event = .refused ∧ ring.records = d.ring.records) ∨
        ∃ h frame, event = .queued frame ∧
          ring.records = d.ring.records ++ [⟨h, .output, frame⟩]) := by
  obtain ⟨result, r', hqueue, hr', hrecs, -⟩ := hm
  have hon : (queue m).on d = (.ok result, { d with ring := r' }) := by
    rw [queue, Op.on_bind_ok (Op.on_get d)]
    exact on_onRing hqueue
  unfold queueFrame
  rw [Op.on_bind_ok hon]
  cases result with
  | error e => exact ⟨.refused, r', rfl, hr', .inl ⟨rfl, hrecs⟩⟩
  | ok a =>
    obtain ⟨h, frame, hrecs⟩ := hrecs
    refine ⟨.queued frame, r', ?_, hr', .inr ⟨h, frame, rfl, hrecs⟩⟩
    have hnewest : newest { d with ring := r' } = frame := by simp [newest, hrecs]
    dsimp only
    rw [Op.on_bind_ok (Op.on_get _), hnewest]
    rfl

end Device

end Reflector
