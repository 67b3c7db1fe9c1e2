import Reflector.Proofs.Link.Filter
import Reflector.Proofs.Ring.Room
import Reflector.Link.Receiver
/-!
What a fragment does to the receiver and to the records of a ring that others use as well.
-/
namespace Reflector.Link

open Reflector.Ring (Record)

variable {arrived fragment payload : Bytes} {pre post : List Record} {h : Handle} {n : Nat}

def Progress.record : Progress → Option Handle
  | .reading h _ _ => some h
  | .waiting | .skipping => none

/-- What becomes of the record of a frame of some length when so many bytes arrived, with its last
fragment or an earlier one. -/
inductive Stored (h : Handle) (n : Nat) (arrived : Bytes) :
    Bool → Received → Progress → List Record → Prop
  | goesOn {payload : Bytes} : payload.length = n → payload.take arrived.length = arrived.take n →
      Stored h n arrived false .stored (.reading h n (min n arrived.length))
        [⟨h, .unfinished, payload⟩]
  | truncated : arrived.length < n → Stored h n arrived true .dropped .waiting []
  | complete : n ≤ arrived.length →
      Stored h n arrived true .complete .waiting [⟨h, .input, arrived.take n⟩]

theorem Stored.ne_stalled {last : Bool} {reply : Received} {p : Progress} {own : List Record}
    (h' : Stored h n arrived last reply p own) : reply ≠ .stalled := by
  cases h' <;> exact Received.noConfusion

theorem take_put {data : Bytes} {n : Nat} (h : n + data.length ≤ payload.length) :
    (payload.put n data).take (n + data.length) = payload.take n ++ data := by
  have hn : (payload.take n).length = n := List.length_take_of_le (Nat.le_of_add_right_le h)
  have hlen : (payload.take n ++ data).length = n + data.length := by
    rw [List.length_append, hn]
  calc (payload.put n data).take (n + data.length)
    _ = (payload.take n ++ data ++ payload.drop (n + data.length)).take
        (payload.take n ++ data).length := by rw [Bytes.put, hlen]
    _ = payload.take n ++ data := List.take_left

theorem take_min_length {b : Bytes} (hb : b.length = n) (k : Nat) : b.take (min n k) = b.take k := by
  rw [Nat.min_comm, ← List.take_take, List.take_of_length_le (Nat.le_of_eq hb)]

theorem take_put_append (hlen : payload.length = n)
    (hbytes : payload.take arrived.length = arrived.take n) (fragment : Bytes) :
    (payload.put (min n arrived.length) (fragment.take (n - min n arrived.length))).take
      (arrived ++ fragment).length = (arrived ++ fragment).take n := by
  have hdata : min n arrived.length + (fragment.take (n - min n arrived.length)).length =
      min n (arrived ++ fragment).length := by
    rw [List.length_take, List.length_append]
    omega
  have hroom : min n arrived.length + (fragment.take (n - min n arrived.length)).length ≤
      payload.length := by omega
  have hrest : n - min n arrived.length = n - arrived.length := by omega
  calc
    _ = (payload.put (min n arrived.length) (fragment.take (n - min n arrived.length))).take
        (min n (arrived ++ fragment).length) :=
      (take_min_length ((Bytes.length_put hroom).trans hlen) _).symm
    _ = payload.take (min n arrived.length) ++ fragment.take (n - arrived.length) := by
      rw [← hdata, take_put hroom, hrest]
    _ = arrived.take n ++ fragment.take (n - arrived.length) := by
      rw [take_min_length hlen, hbytes]
    _ = (arrived ++ fragment).take n := List.take_append.symm

namespace Receiver

variable {α : Type} {rx : Receiver} {r r' : Ring}

theorem on_onRing {m : Op Ring α} {x : α} (h : m.on r = (.ok x, r')) :
    (onRing m).on (rx, r) = (.ok x, (rx, r')) := by
  rw [onRing, Op.on_focus, h]

theorem on_setProgress (p : Progress) :
    (setProgress p).on (rx, r) = (.ok (), ({ rx with progress := p }, r)) := rfl

theorem setProgress_self {p : Progress} (hp : rx.progress = p) :
    { rx with progress := p } = rx := by
  cases hp
  rfl

theorem store_step (rx : Receiver) (hr : r.Sound)
    (hl : r.records = pre ++ ⟨h, .unfinished, payload⟩ :: post)
    (hlen : payload.length = n) (hbytes : payload.take arrived.length = arrived.take n)
    (fragment : Bytes) (last : Bool) :
    ∃ reply p own r', (store h n (min n arrived.length) fragment last).on
        ({ rx with progress := .waiting }, r) = (.ok reply, ({ rx with progress := p }, r')) ∧
      r.Leads r' ∧ r'.records = pre ++ own ++ post ∧
      Stored h n (arrived ++ fragment) last reply p own := by
  have hmem : ⟨h, .unfinished, payload⟩ ∈ r.records := by simp [hl]
  have hdata : min n arrived.length + (fragment.take (n - min n arrived.length)).length =
      min n (arrived ++ fragment).length := by
    rw [List.length_take, List.length_append]
    omega
  have hroom : min n arrived.length + (fragment.take (n - min n arrived.length)).length ≤
      payload.length := by omega
  have hwrite := Edit.on_write hroom
  have hput := Bytes.length_put hroom
  have hbytes' := take_put_append hlen hbytes fragment
  obtain ⟨r₁, hedit, hr₁, -, hrecs⟩ := Ring.editPayload_spec hr hmem
    (e := Edit.write (min n arrived.length) (fragment.take (n - min n arrived.length)))
    (by rw [hwrite]; exact hput)
  have hleads := Ring.Leads.edit hr hmem (by rw [hwrite]; exact hput) hedit
  rw [hwrite] at hedit hrecs
  rw [hr.revise_eq hl] at hrecs
  unfold store
  dsimp only
  rw [Op.on_bind_ok (on_onRing hedit), hdata]
  -- Of the new bytes only their number and the first of them matter from here on.
  generalize payload.put _ _ = stored at *
  rw [hlen] at hput
  have hmem₁ : ⟨h, .unfinished, stored⟩ ∈ r₁.records := by simp [hrecs]
  have hnamed : ∃ e ∈ r₁.entries, e.handle = h ∧ e.stage = .unfinished :=
    ⟨_, List.mem_map_of_mem hmem₁, rfl, rfl⟩
  cases last with
  | false =>
    exact ⟨_, _, [⟨h, .unfinished, stored⟩], r₁, rfl, hleads, by simp [hrecs],
      .goesOn hput hbytes'⟩
  | true =>
    simp only [Bool.not_true, Bool.false_eq_true, if_false]
    split
    · next hshort =>
      obtain ⟨r₂, hdiscard, -, -, hrecs₂⟩ := Ring.discard_spec hr₁ hmem₁ rfl
      rw [hr₁.remove_eq hrecs] at hrecs₂
      refine ⟨.dropped, .waiting, [], r₂, ?_, ?_, by simp [hrecs₂], .truncated (by omega)⟩
      · rw [Op.on_bind_ok (on_onRing hdiscard)]
        rfl
      · exact hleads.call (c := .discard h) hnamed (Op.on_bind_ok hdiscard)
    · next hfull =>
      obtain ⟨r₂, hfinish, -, -, hrecs₂⟩ := Ring.putInput_spec hr₁ hmem₁ rfl
      rw [hr₁.revise_eq hrecs] at hrecs₂
      have hall : n ≤ (arrived ++ fragment).length := by omega
      have hstored : stored = (arrived ++ fragment).take n := by
        rw [← hbytes', List.take_of_length_le (by omega)]
      refine ⟨.complete, .waiting, [⟨h, .input, stored⟩], r₂, ?_, ?_, by simp [hrecs₂], ?_⟩
      · rw [Op.on_bind_ok (on_onRing hfinish)]
        rfl
      · exact hleads.call (c := .putInput h) hnamed (Op.on_bind_ok hfinish)
      · exact hstored ▸ .complete hall

def passing (rx : Receiver) (fragment : Bytes) : Progress :=
  if fragment.length < rx.fragmentSize then .waiting else .skipping

theorem record_passing (rx : Receiver) : (rx.passing fragment).record = none := by
  unfold passing
  split <;> rfl

theorem on_skip (last : Bool) : (skip last).on (rx, r) =
    (.ok .dropped, ({ rx with progress := if last then .waiting else .skipping }, r)) := rfl

theorem receive_reading {written : Nat} (hp : rx.progress = .reading h n written) :
    (receive fragment).on (rx, r) = (store h n written fragment
      (fragment.length < rx.fragmentSize)).on ({ rx with progress := .waiting }, r) := by
  rw [receive, Op.on_bind_ok (Op.on_get (rx, r))]
  dsimp only
  rw [Op.on_bind_ok (on_setProgress .waiting), hp]

theorem receive_skipping (hp : rx.progress = .skipping) :
    (receive fragment).on (rx, r) =
      (.ok .dropped, ({ rx with progress := rx.passing fragment }, r)) := by
  rw [receive, Op.on_bind_ok (Op.on_get (rx, r))]
  dsimp only
  rw [Op.on_bind_ok (on_setProgress .waiting), hp]
  simp only [on_skip, passing, decide_eq_true_eq]

/-- What is left to do with the first fragment of a frame when the filter has decided. -/
def judged (rx : Receiver) (fragment : Bytes) : Option Nat → Step Received
  | none => skip (fragment.length < rx.fragmentSize)
  | some len =>
    if fragment.length < rx.fragmentSize ∧ fragment.length < len then return .dropped
    else do
      match ← onRing (Ring.allocate len) with
      | some record => store record len 0 fragment (fragment.length < rx.fragmentSize)
      | none => return .stalled

theorem receive_first {found : Option Nat} (hp : rx.progress = .waiting)
    (hfound : rx.filter.frameLen fragment = .ok found) :
    (receive fragment).on (rx, r) = (rx.judged fragment found).on (rx, r) := by
  rw [receive, Op.on_bind_ok (Op.on_get (rx, r))]
  dsimp only
  rw [Op.on_bind_ok (on_setProgress .waiting), setProgress_self hp, hp]
  dsimp only
  rw [hfound, Op.on_bind_ok (Op.on_lift _ _)]
  cases found <;> rfl

theorem receive_refused (hp : rx.progress = .waiting)
    (hlen : rx.filter.frameLen fragment = .ok none) :
    (receive fragment).on (rx, r) =
      (.ok .dropped, ({ rx with progress := rx.passing fragment }, r)) := by
  rw [receive_first hp hlen]
  simp only [judged, on_skip, passing, decide_eq_true_eq]

theorem receive_short (hp : rx.progress = .waiting)
    (hlen : rx.filter.frameLen fragment = .ok (some n))
    (hshort : fragment.length < rx.fragmentSize ∧ fragment.length < n) :
    (receive fragment).on (rx, r) = (.ok .dropped, (rx, r)) := by
  rw [receive_first hp hlen]
  simp only [judged, if_pos hshort, Op.on_pure]

/-- The first fragment of any other frame opens a record, if the ring has room. -/
theorem receive_opens (hr : r.Sound) (hp : rx.progress = .waiting)
    (hlen : rx.filter.frameLen fragment = .ok (some n))
    (hlong : ¬(fragment.length < rx.fragmentSize ∧ fragment.length < n)) :
    ¬r.Allocates n ∧ (receive fragment).on (rx, r) = (.ok .stalled, (rx, r)) ∨
    r.Allocates n ∧ ∃ h reply p own r', (receive fragment).on (rx, r) =
        (.ok reply, ({ rx with progress := p }, r')) ∧
      r.Leads r' ∧ r'.records = r.records ++ own ∧
      Stored h n fragment (fragment.length < rx.fragmentSize) reply p own := by
  rw [receive_first hp hlen]
  simp only [judged, if_neg hlong]
  obtain ⟨reply, r₁, hallocate, hr₁, -, hrecs⟩ := Ring.allocate_spec n hr
  have hleads : r.Leads r₁ := .call (c := .allocate n) .refl trivial (Op.on_bind_ok hallocate)
  rw [Op.on_bind_ok (on_onRing hallocate)]
  cases reply with
  | none =>
    cases hrecs
    exact .inl ⟨Ring.not_allocates hallocate, rfl⟩
  | some h =>
    refine .inr ⟨⟨h, r₁, hallocate⟩, ?_⟩
    obtain ⟨payload, hpayload, hrecs⟩ := hrecs
    have hnone : payload.take ([] : Bytes).length = ([] : Bytes).take n := by simp
    obtain ⟨reply, p, own, r₂, hstore, hleads₂, hrecs₂, hstored⟩ :=
      rx.store_step hr₁ hrecs hpayload hnone fragment (fragment.length < rx.fragmentSize)
    rw [List.length_nil, Nat.min_zero, setProgress_self hp] at hstore
    rw [List.append_nil] at hrecs₂
    exact ⟨h, reply, p, own, r₂, hstore, hleads.trans hleads₂, hrecs₂, hstored⟩

/-- Only the first fragment of a frame may have to be offered again. -/
theorem store_ne_stalled {written : Nat} {last : Bool} {s s' : Receiver × Ring} :
    (store h n written fragment last).on s ≠ (.ok .stalled, s') := by
  intro hon
  unfold store at hon
  dsimp only at hon
  obtain ⟨-, t, -, hon⟩ := Op.of_on_bind hon
  split at hon
  · obtain ⟨-, u, -, hon⟩ := Op.of_on_bind hon
    cases hon
  · split at hon
    · obtain ⟨-, u, -, hon⟩ := Op.of_on_bind hon
      cases hon
    · obtain ⟨-, u, -, hon⟩ := Op.of_on_bind hon
      cases hon

theorem receive_stalled (hr : r.Sound) {s : Receiver × Ring}
    (hon : (receive fragment).on (rx, r) = (.ok .stalled, s)) :
    s = (rx, r) ∧ rx.progress = .waiting ∧ ∃ len, rx.filter.frameLen fragment = .ok (some len) ∧
      ¬(fragment.length < rx.fragmentSize ∧ fragment.length < len) ∧ ¬r.Allocates len := by
  cases hp : rx.progress with
  | reading h n written => exact absurd (receive_reading hp ▸ hon) store_ne_stalled
  | skipping => cases hon.symm.trans (receive_skipping hp)
  | waiting =>
    obtain ⟨found, hfound, -⟩ := rx.filter.frameLen_succeeds fragment
    cases found with
    | none => cases hon.symm.trans (receive_refused hp hfound)
    | some len =>
      by_cases hshort : fragment.length < rx.fragmentSize ∧ fragment.length < len
      · cases hon.symm.trans (receive_short hp hfound hshort)
      obtain ⟨hrefused, hstalled⟩ | ⟨-, h, reply, p, own, r', hopens, -, -, hstored⟩ :=
        receive_opens hr hp hfound hshort
      · cases hon.symm.trans hstalled
        exact ⟨rfl, rfl, len, hfound, hshort, hrefused⟩
      · cases hon.symm.trans hopens
        exact absurd rfl hstored.ne_stalled

theorem reset_reading {rec : Record} {written : Nat} (hr : r.Sound)
    (hp : rx.progress = .reading h n written) (hl : r.records = pre ++ rec :: post)
    (hh : rec.handle = h) (hs : rec.stage = .unfinished) :
    ∃ r', reset.on (rx, r) = (.ok (), ({ rx with progress := .waiting }, r')) ∧ r.Leads r' ∧
      r'.records = pre ++ post := by
  cases hh
  have hmem : rec ∈ r.records := by simp [hl]
  obtain ⟨r', hdiscard, -, -, hrecs⟩ := Ring.discard_spec hr hmem hs
  rw [hr.remove_eq hl] at hrecs
  refine ⟨r', ?_, ?_, hrecs⟩
  · rw [reset, Op.on_bind_ok (Op.on_get (rx, r))]
    dsimp only
    rw [Op.on_bind_ok (on_setProgress .waiting), hp]
    exact on_onRing hdiscard
  · exact .call (c := .discard rec.handle) .refl ⟨_, List.mem_map_of_mem hmem, rfl, hs⟩
      (Op.on_bind_ok hdiscard)

theorem reset_idle (hp : rx.progress.record = none) :
    reset.on (rx, r) = (.ok (), ({ rx with progress := .waiting }, r)) := by
  rw [reset, Op.on_bind_ok (Op.on_get (rx, r))]
  dsimp only
  rw [Op.on_bind_ok (on_setProgress .waiting)]
  cases hprogress : rx.progress with
  | reading =>
    rw [hprogress] at hp
    cases hp
  | waiting => rfl
  | skipping => rfl

end Receiver

end Reflector.Link
