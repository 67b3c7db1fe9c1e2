import Reflector.Proofs.Device.Steps
import Reflector.Proofs.Ring.WellFormed
/-!
Processing all that was received: each record that is in front of the first unfinished one is
processed once, the oldest first, and the others are left alone.
-/
namespace Reflector

variable {σ : Type}

def Interface.receiveAll (app : Udp.Application σ) :
    List Bytes → Interface × σ → Except Fault (List (Handled (Interface × σ)) × Interface × σ)
  | [], state => return ([], state)
  | frame :: frames, (i, s) => do
    let handled ← i.receive app frame s
    let (results, state) ← receiveAll app frames handled.state
    return (handled :: results, state)

theorem Interface.receiveAll_cons {app : Udp.Application σ} {i : Interface} {s : σ} {frame : Bytes}
    {frames : List Bytes} {handled : Handled (Interface × σ)}
    {results : List (Handled (Interface × σ))} {state : Interface × σ}
    (h : i.receive app frame s = .ok handled)
    (hall : receiveAll app frames handled.state = .ok (results, state)) :
    receiveAll app (frame :: frames) (i, s) = .ok (handled :: results, state) := by
  rw [receiveAll, h]
  change Except.bind (receiveAll app frames handled.state) _ = _
  rw [hall]
  rfl

namespace Ring

variable {l pre post : List Record} {h : Handle} {payload : Bytes}

def ready : List Record → List Bytes
  | [] | ⟨_, .unfinished, _⟩ :: _ => []
  | ⟨_, .output, _⟩ :: l => ready l
  | ⟨_, .input, payload⟩ :: l => payload :: ready l

/-- The records once these frames were processed: each becomes the answer in its place or goes. -/
def settle : List Record → List (Option Bytes) → List Record
  | ⟨h, .output, payload⟩ :: l, answers => ⟨h, .output, payload⟩ :: settle l answers
  | ⟨h, .input, _⟩ :: l, answer :: answers => Device.answered h answer ++ settle l answers
  | l, _ => l

theorem ready_append (hpre : ∀ e ∈ pre, e.stage = .output) : ready (pre ++ l) = ready l := by
  induction pre with
  | nil => rfl
  | cons rec pre ih =>
    obtain ⟨h, s, payload⟩ := rec
    obtain ⟨rfl, hrest⟩ := List.forall_mem_cons.1 hpre
    exact ih hrest

theorem settle_append {answers : List (Option Bytes)} (hpre : ∀ e ∈ pre, e.stage = .output) :
    settle (pre ++ l) answers = pre ++ settle l answers := by
  induction pre with
  | nil => rfl
  | cons rec pre ih =>
    obtain ⟨h, s, payload⟩ := rec
    obtain ⟨rfl, hrest⟩ := List.forall_mem_cons.1 hpre
    exact congrArg _ (ih hrest)

theorem settle_nil (l : List Record) : settle l [] = l := by
  induction l with
  | nil => rfl
  | cons rec l ih =>
    obtain ⟨h, s, payload⟩ := rec
    cases s with
    | output => exact congrArg _ ih
    | unfinished => rfl
    | input => rfl

theorem ready_of_nextInput (hn : nextInput l = none) : ready l = [] := by
  induction l with
  | nil => rfl
  | cons rec l ih =>
    obtain ⟨h, s, payload⟩ := rec
    cases s with
    | output => exact ih hn
    | unfinished => rfl
    | input => cases hn

theorem length_ready_le (l : List Record) : (ready l).length ≤ l.length := by
  fun_induction ready l with
  | case1 => exact Nat.le_refl _
  | case2 => exact Nat.zero_le _
  | case3 _ _ l ih => exact Nat.le_succ_of_le ih
  | case4 _ payload l ih => exact Nat.succ_le_succ ih

/-- A record takes a step from one tag to the next. -/
theorem length_recordsFrom_le (r : Ring) (steps offset : Nat) :
    (r.recordsFrom steps offset).length ≤ steps := by
  induction steps generalizing offset with
  | zero => exact Nat.le_refl _
  | succ steps ih =>
    unfold recordsFrom
    split
    · exact Nat.zero_le _
    split
    · next tag _ =>
      have hone : (r.recordsAt offset tag).length ≤ 1 := by
        rw [recordsAt, List.length_map]
        exact Option.length_toList_le
      have := ih (tag.successor offset)
      rw [List.length_append]
      omega
    · exact Nat.zero_le _

end Ring

namespace Device

open Reflector.Ring (ready settle nextInput)

variable {d : Device σ} {frame : Bytes}

theorem answered_output (h : Handle) (answer : Option Bytes) :
    ∀ e ∈ answered h answer, e.stage = .output := by
  cases answer with
  | none => exact fun _ he => nomatch he
  | some bytes => exact fun e he => List.mem_singleton.1 he ▸ rfl

def Within (results : List (Handled (Interface × σ))) : Prop :=
  ∀ handled ∈ results, ∀ n, handled.outcome = .reflect n → n ≤ handled.bytes.length

/-- Enough rounds process all that is ready and find nothing more. -/
theorem repeatStep_pollOne (app : Udp.Application σ) (rounds : Nat) (d : Device σ)
    (hr : d.ring.Sound) (hrounds : (ready d.ring.records).length < rounds) :
    ∃ results interface state ring,
      Interface.receiveAll app (ready d.ring.records) (d.interface, d.state) =
        .ok (results, interface, state) ∧
      (repeatStep (pollOne app) rounds).on d =
        (.ok (ready d.ring.records).length, { d with ring, interface, state }) ∧
      ring.Sound ∧ ring.records = settle d.ring.records (results.map Handled.answer) ∧
      nextInput ring.records = none ∧ Within results := by
  induction rounds generalizing d with
  | zero => cases hrounds
  | succ rounds ih =>
    -- A round settles the first frame that is ready. Its answer waits for transmission, so that the
    -- frames ready after the round are those behind it.
    unfold repeatStep
    cases hn : nextInput d.ring.records with
    | none =>
      obtain ⟨ring, hon, hr', hrecs⟩ := handleOne_idle app hr hn
      rw [Ring.ready_of_nextInput hn]
      have hpoll : (pollOne app).on d = (.ok false, { d with ring }) := Op.on_bind_ok hon
      refine ⟨[], d.interface, d.state, ring, rfl, Op.on_bind_ok hpoll, hr', ?_, ?_,
        fun _ he => nomatch he⟩
      · rw [hrecs, List.map_nil, Ring.settle_nil]
      · rw [hrecs, hn]
    | some h =>
      obtain ⟨pre, frame, post, hl, hpre⟩ := Ring.split_of_nextInput hn
      obtain ⟨handled, r, hreceive, hfits, hon, hr', hrecs⟩ := handleOne_input app hr hn hl
      have hready : ready d.ring.records = frame :: ready post := by
        rw [hl, Ring.ready_append hpre]
        rfl
      have hrest : ready r.records = ready post := by
        rw [hrecs, List.append_assoc, Ring.ready_append hpre,
          Ring.ready_append (answered_output h _)]
      have hpoll : (pollOne app).on d = (.ok true,
          { d with ring := r, interface := handled.state.1, state := handled.state.2 }) :=
        Op.on_bind_ok hon
      rw [hready, List.length_cons] at hrounds
      obtain ⟨results, interface, state, ring, hall, hrun, hsound, hsettle, hnone, hwithin⟩ :=
        ih { d with ring := r, interface := handled.state.1, state := handled.state.2 } hr'
          (by dsimp only; rw [hrest]; omega)
      dsimp only at hall hrun hsettle
      rw [hrest] at hall hrun
      rw [hready]
      refine ⟨handled :: results, interface, state, ring, ?_, ?_, hsound, ?_, hnone, ?_⟩
      · exact Interface.receiveAll_cons hreceive hall
      · rw [Op.on_bind_ok hpoll]
        exact Op.on_bind_ok hrun
      · calc ring.records
          _ = settle r.records (results.map Handled.answer) := hsettle
          _ = pre ++ (answered h handled.answer ++ settle post (results.map Handled.answer)) := by
            rw [hrecs, List.append_assoc, Ring.settle_append hpre,
              Ring.settle_append (answered_output h _)]
          _ = settle d.ring.records ((handled :: results).map Handled.answer) := by
            rw [hl, Ring.settle_append hpre]
            rfl
      · refine List.forall_mem_cons.2 ⟨fun n he => ?_, hwithin⟩
        exact hfits.length ▸ (hfits.answer n he).1

/-- Processing the input queue is receiving its frames one after the other. The records in front of
the first unfinished one turn into the answers in their places or go, no other one changes, and
nothing more is ready. -/
theorem poll_receives (app : Udp.Application σ) (d : Device σ) (h : d.ring.Reachable) :
    ∃ results interface state ring,
      Interface.receiveAll app (ready d.ring.records) (d.interface, d.state) =
        .ok (results, interface, state) ∧
      (poll app).on d =
        (.ok (ready d.ring.records).length, { d with ring, interface, state }) ∧
      ring.records = settle d.ring.records (results.map Handled.answer) ∧
      Within results ∧ ∃ ring', Ring.getInput.on ring = (.ok none, ring') := by
  have hr := h.sound
  have hrecords : d.ring.records.length ≤ d.ring.arena.length :=
    d.ring.length_recordsFrom_le _ _
  have hready := Ring.length_ready_le d.ring.records
  have hrounds : (ready d.ring.records).length < d.maxRounds :=
    Nat.lt_of_lt_of_le (Nat.lt_succ_of_le (Nat.le_trans hready hrecords))
      (Nat.le_mul_of_pos_right _ (Nat.succ_pos _))
  obtain ⟨results, interface, state, ring, hall, hon, hr', hsettle, hnone, hwithin⟩ :=
    repeatStep_pollOne app d.maxRounds d hr hrounds
  obtain ⟨ring', hget, -⟩ := Ring.getInput_spec hr'
  rw [hnone] at hget
  exact ⟨results, interface, state, ring, hall, (Op.on_bind_ok (Op.on_get d)).trans hon, hsettle,
    hwithin, ring', hget⟩

/-- No frame makes the device fault, whatever the application does with it. It is dropped, or
reflected with at least the length of the shortest answer and at most its own, so that the record of
a received frame can be shrunk to its answer. -/
theorem receive_safe (i : Interface) (app : Udp.Application σ) (s : σ)
    (h : frame.length < Length.limit) :
    ∃ handled, i.receive app frame s = .ok handled ∧ handled.bytes.length = frame.length ∧
      (handled.outcome = .drop ∨
        ∃ n, handled.outcome = .reflect n ∧ 42 ≤ n ∧ n ≤ frame.length) ∧
      ∀ d : Device σ, d.ring.Reachable → ∃ more d', (pollOne app).on d = (.ok more, d') := by
  obtain ⟨handled, hreceive, hfits⟩ := i.receive_total app s h
  refine ⟨handled, hreceive, hfits.length, Interface.Answers.bounds hfits, fun d hd => ?_⟩
  obtain ⟨result, ring, interface, state, hon, -⟩ := handleOne_spec app hd.sound
  exact ⟨result.isSome, _, Op.on_bind_ok hon⟩

theorem receive_safe_question : Interface.question.length < Length.limit ∧ ∃ handled,
    (Interface.new .standard []).receive .none Interface.question () = .ok handled ∧
      handled.bytes.length = 42 ∧ ∃ n, handled.outcome = .reflect n ∧ 42 ≤ n ∧ n ≤ 42 := by
  refine ⟨by decide, ?_⟩
  obtain ⟨handled, hreceive, hlen, hbounds, -⟩ := receive_safe (Interface.new .standard []) .none ()
    (by decide : Interface.question.length < Length.limit)
  refine ⟨handled, hreceive, hlen, hbounds.resolve_left ?_⟩
  cases Except.ok.inj (hreceive.symm.trans rfl)
  exact Outcome.noConfusion

set_option maxRecDepth 2000 in
theorem exists_reachable_question : ∃ ring : Ring, ring.Reachable ∧
    ring.records = [⟨⟨0⟩, .input, Interface.question⟩] := by
  have hstart : Ring.Reached ⟨List.replicate 64 0, 60, 0, 0, 0⟩ _ _ _ := .start
  have hallocate := Ring.Reached.call (c := .allocate 42) hstart trivial rfl
  have hedit := Ring.Reached.call (c := .edit ⟨0⟩ (·.overlay 0 Interface.question)) hallocate
    ⟨⟨_, .head _, rfl⟩, fun b => Bytes.length_overlay _ (Nat.zero_le _)⟩ rfl
  have hput := Ring.Reached.call (c := .putInput ⟨0⟩) hedit ⟨_, .head _, rfl, rfl⟩ rfl
  exact ⟨_, ⟨List.replicate 64 0, _, _, _, rfl, hput⟩, by decide +kernel⟩

theorem poll_receives_question : ∃ (d : Device Unit) (interface : Interface) (ring : Ring),
    d.ring.Reachable ∧
    (poll .none).on d = (.ok 1, { d with ring, interface }) ∧
    ring.records.map Ring.Record.entry = [⟨⟨0⟩, .output, 42⟩] := by
  obtain ⟨ring, hreachable, hrecs⟩ := exists_reachable_question
  obtain ⟨results, interface, state, ring', hall, hon, hsettle, -⟩ := poll_receives .none
    (⟨ring, .new .standard [], ⟨.new Config.standard.hardware, 64, .waiting⟩, ⟨64, none⟩, ()⟩ :
      Device Unit) hreachable
  dsimp only at hall hon hsettle
  rw [hrecs] at hall hon hsettle
  refine ⟨_, interface, ring', hreachable, hon, ?_⟩
  have hone := congrArg (fun r => r.toOption.map fun p =>
    (settle [⟨⟨0⟩, .input, Interface.question⟩] (p.1.map Handled.answer)).map
      Ring.Record.entry) hall
  rw [hsettle]
  exact Option.some.inj (hone.symm.trans (by decide +kernel))

end Device

end Reflector
