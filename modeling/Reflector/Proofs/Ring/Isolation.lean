import Reflector.Proofs.Ring.WellFormed
/-!
Payloads keep to themselves: a call changes no other record, and edits of a payload change nothing
that the ring goes by.
-/
namespace Reflector.Ring

variable {α : Type} {r r' : Ring} {rec : Record} {l : List Record} {live : List Entry}
  {held : List (Handle × Stage)} {h : Handle} {c : Call} {reply : Reply}

def Call.target : Call → Option Handle
  | allocate _ | getInput | getOutput => none
  | resize h _ | shrink h _ | discard h | putInput h | putOutput h => some h
  | releaseInput h | releaseOutput h | reattachOutput h | edit h _ => some h

def Call.Carries (bytes : Bytes) : Call → Reply → Ring → Prop
  | resize h _, .resized (.error _), r' => r'.payload h = .ok bytes
  | resize _ len, .resized (.ok h'), r' => ∃ payload, r'.payload h' = .ok payload ∧
    payload.length = len ∧ payload.take (min bytes.length len) = bytes.take (min bytes.length len)
  | shrink h len, _, r' => r'.payload h = .ok (bytes.take len)
  | putInput h, _, r' | putOutput h, _, r' | reattachOutput h, _, r' => r'.payload h = .ok bytes
  | edit h f, _, r' => r'.payload h = .ok (f bytes)
  | _, _, _ => True

/-- A call changes no other record, and of its own what it is for. -/
structure Isolates (r : Ring) (c : Call) (reply : Reply) (r' : Ring) : Prop where
  others : ∀ rec ∈ r.records, c.target ≠ some rec.handle →
    rec ∈ r'.records ∧ r'.payload rec.handle = r.payload rec.handle
  own : ∀ rec ∈ r.records, c.target = some rec.handle → c.Carries rec.payload reply r'

structure Undisturbed (r : Ring) (h : Handle) (r' : Ring) : Prop where
  others : ∀ rec ∈ r.records, rec.handle ≠ h →
    rec ∈ r'.records ∧ r'.payload rec.handle = r.payload rec.handle
  layout : r'.layout = r.layout
  tags : ∀ x t, (x, t) ∈ r.layout → r'.tagAt x = r.tagAt x
  mark : r'.tagAt r.writer = .ok .endOfRing
  cursors : r'.writer = r.writer ∧ r'.inputReader = r.inputReader ∧
    r'.outputReader = r.outputReader ∧ r'.limit = r.limit

theorem mem_revise {f : Record → Record} (hrec : rec ∈ l) :
    (if rec.handle = h then f rec else rec) ∈ revise h f l :=
  List.mem_map_of_mem (f := fun e => if e.handle = h then f e else e) hrec

theorem mem_revise_of_ne {f : Record → Record} (hrec : rec ∈ l) (hne : rec.handle ≠ h) :
    rec ∈ revise h f l := by
  have := mem_revise (h := h) (f := f) hrec
  rwa [if_neg hne] at this

theorem mem_remove_of_ne (hrec : rec ∈ l) (hne : rec.handle ≠ h) : rec ∈ remove h l :=
  List.mem_filter.2 ⟨hrec, decide_eq_true hne⟩

theorem payload_revise {f : Record → Record} {b : Bytes} (hr' : r'.Sound)
    (hrecs : r'.records = revise rec.handle f r.records) (hrec : rec ∈ r.records)
    (hf : (f rec).handle = rec.handle ∧ (f rec).payload = b) : r'.payload rec.handle = .ok b := by
  have := mem_revise (h := rec.handle) (f := f) hrec
  rw [if_pos rfl, ← hrecs] at this
  have := payload_of_mem hr' this
  rwa [hf.1, hf.2] at this

theorem Call.Effect.mem_of_ne (he : c.Effect l reply r'.records) (hrec : rec ∈ l)
    (hne : c.target ≠ some rec.handle) : rec ∈ r'.records := by
  cases c with
  | allocate len =>
    cases reply with
    | handle found =>
      cases found with
      | none => exact (show r'.records = l from he) ▸ hrec
      | some h =>
        obtain ⟨payload, -, hrecs⟩ := he
        exact hrecs ▸ List.mem_append_left _ hrec
    | _ => exact he.elim
  | resize h len =>
    have hne : rec.handle ≠ h := fun heq => hne (congrArg some heq.symm)
    cases reply with
    | resized result =>
      cases result with
      | error h' => exact he.2.1 ▸ hrec
      | ok h' =>
        obtain ⟨old, -, -, payload, -, -, hrecs⟩ := he
        rw [hrecs]
        split
        · exact mem_revise_of_ne hrec hne
        · exact List.mem_append_left _ (mem_remove_of_ne hrec hne)
    | _ => exact he.elim
  | getInput | getOutput =>
    cases reply with
    | handle h => exact he.2 ▸ hrec
    | _ => exact he.elim
  | shrink h _ | putInput h | putOutput h | reattachOutput h | edit h _ =>
    have hne : rec.handle ≠ h := fun heq => hne (congrArg some heq.symm)
    cases reply with
    | done => exact (show r'.records = _ from he) ▸ mem_revise_of_ne hrec hne
    | _ => exact he.elim
  | discard h | releaseInput h | releaseOutput h =>
    have hne : rec.handle ≠ h := fun heq => hne (congrArg some heq.symm)
    cases reply with
    | done => exact (show r'.records = _ from he) ▸ mem_remove_of_ne hrec hne
    | _ => exact he.elim

theorem Keeps.take_min {old new : Bytes} (hk : Keeps old new) :
    new.take (min old.length new.length) = old.take (min old.length new.length) := by
  cases Nat.le_total old.length new.length with
  | inl hle => rw [Nat.min_eq_left hle, hk, List.take_of_length_le hle, List.take_length]
  | inr hle => rw [Nat.min_eq_right hle, ← hk, List.take_of_length_le hle, List.take_length]

theorem Call.Effect.carries (hr : r.Sound) (hr' : r'.Sound)
    (he : c.Effect r.records reply r'.records) (hrec : rec ∈ r.records)
    (ht : c.target = some rec.handle) : c.Carries rec.payload reply r' := by
  cases c with
  | allocate | getInput | getOutput => cases ht
  | resize h len =>
    obtain rfl := Option.some.inj ht
    cases reply with
    | resized result =>
      cases result with
      | error h' =>
        have := payload_of_mem hr' (he.2.1 ▸ hrec)
        exact this
      | ok h' =>
        obtain ⟨old, hold, hh, payload, hlen, hkeeps, hrecs⟩ := he
        obtain rfl := hr.eq_of_handle hrec hold hh
        refine ⟨payload, ?_, hlen, hlen ▸ hkeeps.take_min⟩
        by_cases heq : h' = old.handle
        · rw [if_pos heq] at hrecs
          exact heq ▸ payload_revise hr' hrecs hrec ⟨rfl, rfl⟩
        · rw [if_neg heq] at hrecs
          have hmem : (⟨h', .unfinished, payload⟩ : Record) ∈ r'.records := by simp [hrecs]
          exact payload_of_mem hr' hmem
    | _ => exact he.elim
  | shrink h _ | putInput h | putOutput h | reattachOutput h | edit h _ =>
    obtain rfl := Option.some.inj ht
    cases reply with
    | done => exact payload_revise hr' he hrec ⟨rfl, rfl⟩
    | _ => exact he.elim
  | discard | releaseInput | releaseOutput => trivial

theorem tagAt_of_mem_cells {u v x : Nat} {t : Tag} {ts : List Tag} (ht : r.Tiled u ts v)
    (hx : (x, t) ∈ r.cells u ts) : r.tagAt x = .ok t := by
  induction ts generalizing u with
  | nil => simp [cells] at hx
  | cons t' ts ih =>
    obtain ⟨ht', -, hr⟩ := ht
    cases List.mem_cons.1 hx with
    | inl hx =>
      obtain ⟨rfl, rfl⟩ := Prod.mk.inj hx
      exact ht'
    | inr hx => exact ih hr hx

theorem editPayload_undisturbed (hr : r.Sound) {e : Edit α} (hrec : rec ∈ r.records)
    (hlen : (e.on rec.payload).2.length = rec.payload.length) :
    ∃ r', (editPayload rec.handle e).on r = ((e.on rec.payload).1, r') ∧
      r'.payload rec.handle = .ok (e.on rec.payload).2 ∧ r.Undisturbed rec.handle r' := by
  obtain ⟨pre, t, post, m, stop, hc⟩ := hr.exists_cell hrec
  obtain ⟨hl, -, hrecs⟩ := hc.withPayload (hlen.trans hc.len)
  refine ⟨_, on_editPayload hc.on_payload hlen, ?_, ?_⟩
  · exact payload_revise hl.sound hrecs hrec ⟨rfl, rfl⟩
  generalize hr' : r.withPayload rec.handle (e.on rec.payload).2 = r' at hl hrecs ⊢
  have hlimit : r'.limit = r.limit := by rw [← hr']; rfl
  have hout : r'.outputReader = r.outputReader := by rw [← hr']; rfl
  have hwriter : r'.writer = r.writer := by rw [← hr']; rfl
  have hlayout : r'.layout = r.layout := by
    calc r'.layout
      _ = r'.cells r'.outputReader (pre ++ t :: post) := hl.layout_eq
      _ = r.cells r.outputReader (pre ++ t :: post) := by rw [hout, cells_of_limit hlimit]
      _ = r.layout := hc.laid.layout_eq.symm
  refine
    { others := fun other hmem hne => ?_
      layout := hlayout
      tags := fun x t hx => ?_
      mark := by rw [← hwriter, ← hl.writer]; exact hl.mark
      cursors := ⟨hwriter, by rw [← hr']; rfl, hout, hlimit⟩ }
  · have hmem' : other ∈ r'.records := hrecs ▸ mem_revise_of_ne hmem hne
    exact ⟨hmem', (payload_of_mem hl.sound hmem').trans (payload_of_mem hr hmem).symm⟩
  · have hx' := hx
    rw [← hlayout, hl.layout_eq] at hx'
    rw [hc.laid.layout_eq] at hx
    rw [tagAt_of_mem_cells hl.tiled hx', tagAt_of_mem_cells hc.laid.tiled hx]

/-- In every state that calls on a new ring lead to, payloads are isolated from calls on other
records and from edits of any length-keeping kind, be they cut short by a fault. -/
theorem reached_isolates (storage : Bytes) (h : 2 * align ≤ storage.length) :
    ∃ r₀, new storage = .ok r₀ ∧ ∀ r live held, Reached r₀ r live held →
      (∀ c : Call, c.Permits live → ∃ reply r', c.run.on r = (.ok reply, r') ∧
        r.Isolates c reply r') ∧
      ∀ rec ∈ r.records, ∀ (α : Type) (e : Edit α),
        (e.on rec.payload).2.length = rec.payload.length →
        ∃ r', (editPayload rec.handle e).on r = ((e.on rec.payload).1, r') ∧
          r'.payload rec.handle = .ok (e.on rec.payload).2 ∧ r.Undisturbed rec.handle r' := by
  obtain ⟨r₀, hnew, hr₀, hrecs⟩ := exists_new storage h
  refine ⟨r₀, hnew, fun r live held hreached => ?_⟩
  obtain ⟨hr, rfl, -⟩ := hreached.sound hr₀ (by rw [entries, hrecs, List.map_nil])
  refine ⟨fun c hc => ?_, fun rec hrec α e hlen => editPayload_undisturbed hr hrec hlen⟩
  obtain ⟨reply, r', hon, hr', he⟩ := Call.spec hr hc
  refine ⟨reply, r', hon, fun rec hrec hne => ?_, fun rec hrec ht => he.carries hr hr' hrec ht⟩
  have hmem := he.mem_of_ne hrec hne
  exact ⟨hmem, (payload_of_mem hr' hmem).trans (payload_of_mem hr hrec).symm⟩

set_option maxRecDepth 1000 in
/-- The first of two records outgrows its cell and moves behind the other. -/
theorem reached_isolates_moved :
    let live : List Entry := [⟨⟨0⟩, .unfinished, 3⟩, ⟨⟨8⟩, .unfinished, 1⟩]
    2 * align ≤ (List.replicate 32 (0 : UInt8)).length ∧ ∃ r₀ r held r',
      new (List.replicate 32 0) = .ok r₀ ∧ Reached r₀ r live held ∧
      (Call.resize ⟨0⟩ 7).Permits live ∧
      (Call.resize ⟨0⟩ 7).run.on r = (.ok (.resized (.ok ⟨12⟩)), r') ∧
      r.Isolates (.resize ⟨0⟩ 7) (.resized (.ok ⟨12⟩)) r' := by
  intro live
  refine ⟨by decide, ?_⟩
  obtain ⟨r₀, hnew, hall⟩ := reached_isolates (List.replicate 32 0) (by decide)
  obtain rfl : r₀ = ⟨List.replicate 32 0, 28, 0, 0, 0⟩ := Except.ok.inj (hnew.symm.trans rfl)
  have hstart : Reached ⟨List.replicate 32 0, 28, 0, 0, 0⟩ _ _ _ := .start
  have hfirst := Reached.call (c := .allocate 3) hstart trivial rfl
  have hboth := Reached.call (c := .allocate 1) hfirst trivial rfl
  have hpermits : (Call.resize ⟨0⟩ 7).Permits live := ⟨_, .head _, rfl, rfl⟩
  obtain ⟨reply, r', hon, hisolates⟩ := (hall _ _ _ hboth).1 (.resize ⟨0⟩ 7) hpermits
  obtain rfl : reply = .resized (.ok ⟨12⟩) := Except.ok.inj ((congrArg Prod.fst hon).symm.trans rfl)
  exact ⟨_, _, _, r', hnew, hboth, hpermits, hon, hisolates⟩

end Reflector.Ring
