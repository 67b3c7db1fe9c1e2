import Reflector.Proofs.Ring.WellFormed
/-!
Room for new records. An idle ring has room for every record that fits at all, and every ring
without records is idle after one look for output. Of a ring in use, what a wrap wastes at the end
of the arena is less than the longest record asked for, so two of these besides the ones in use are
enough.
-/
namespace Reflector.Ring

variable {r r' r₀ : Ring} {t : Tag} {tags ts : List Tag} {stop u v len n most : Nat}

def Allocates (r : Ring) (len : Nat) : Prop :=
  ∃ h r', (allocate len).on r = (.ok (some h), r')

theorem not_allocates (h : (allocate len).on r = (.ok none, r')) : ¬r.Allocates len := by
  rintro ⟨handle, r'', hon⟩
  cases h.symm.trans hon

theorem place_eq_none_iff : r.place len = none ↔
    (r.outputReader ≤ r.writer ∧ r.limit < nextRecord r.writer len ∧ r.writer ≠ r.outputReader ∧
        r.outputReader ≤ nextRecord 0 len) ∨
      (r.writer < r.outputReader ∧ r.outputReader ≤ nextRecord r.writer len) := by
  unfold place
  split
  · split
    · simp; omega
    · split
      · simp; omega
      · split <;> simp <;> omega
  · split <;> simp <;> omega

theorem Sound.allocates_iff (hr : r.Sound) :
    r.Allocates len ↔ r.lenFits len = true ∧ r.place len ≠ none := by
  constructor
  · rintro ⟨h, r', hon⟩
    by_cases hrefused : r.lenFits len = true → r.place len = none
    · exact absurd ⟨h, r', hon⟩ (not_allocates (allocate_refused hrefused))
    · exact Classical.not_imp.1 hrefused
  · rintro ⟨hfit, hplace⟩
    obtain ⟨p, hp⟩ := Option.ne_none_iff_exists'.1 hplace
    obtain ⟨r', hon, -⟩ := allocate_at hr hfit hp
    exact ⟨_, r', hon⟩

/-- A record is refused another length only if a new record of that length is refused as well. -/
theorem Sound.roomFor_iff {rec : Record} (hr : r.Sound) : r.RoomFor rec len ↔
    r.lenFits len = true ∧ r.Stretches rec len ∨ r.Allocates len := by
  rw [RoomFor, hr.allocates_iff, and_or_left]

section Idle

theorem writer_of_isIdle (h : r.isIdle = true) :
    r.outputReader = r.writer ∧ r.inputReader = r.writer := by
  simpa [isIdle] using h

theorem isIdle_new {storage : Bytes} (h : new storage = .ok r) : r.isIdle = true := by
  simp only [new] at h
  split at h
  · cases h
  · cases h
    rfl

theorem layout_of_isIdle (h : r.isIdle = true) : r.layout = [] := by
  obtain ⟨ho, -⟩ := writer_of_isIdle h
  rw [layout, ho]
  cases r.arena.length with
  | zero => rfl
  | succ n => rw [cellsFrom, if_pos rfl]

theorem place_of_isIdle (h : r.isIdle = true) : r.place len ≠ none := by
  obtain ⟨ho, -⟩ := writer_of_isIdle h
  rw [ne_eq, place_eq_none_iff]
  omega

/-- Only what never fits is refused by an idle ring. -/
theorem Sound.allocates_of_isIdle (hr : r.Sound) (h : r.isIdle = true) :
    r.Allocates len ↔ r.lenFits len = true :=
  hr.allocates_iff.trans (and_iff_left (place_of_isIdle h))

theorem Leads.allocates_of_isIdle (h : r.Leads r') (hr : r.Sound) (hidle : r'.isIdle = true) :
    r'.Allocates len ↔ r.lenFits len = true := by
  rw [(h.sound hr).allocates_of_isIdle hidle, lenFits, lenFits, h.limit hr]

/-- Once every record was released or discarded, the next look for output takes all space back. -/
theorem reached_reclaims (storage : Bytes) (h : 2 * align ≤ storage.length) :
    ∃ r₀, new storage = .ok r₀ ∧ ∀ r held, Reached r₀ r [] held →
      ∃ r', getOutput.on r = (.ok none, r') ∧ r'.isIdle = true ∧ r'.capacity = r.capacity ∧
        ∀ len ≤ Tag.maxLen, span len ≤ r'.capacity → r'.Allocates len := by
  obtain ⟨r₀, hnew, hr₀, hrecs⟩ := exists_new storage h
  refine ⟨r₀, hnew, fun r held hreached => ?_⟩
  obtain ⟨hr, hempty, -⟩ := hreached.sound hr₀ (by rw [entries, hrecs, List.map_nil])
  obtain ⟨r', hon, hr', hcont, hidle⟩ := getOutput_idle hr (List.map_eq_nil_iff.1 hempty)
  refine ⟨r', hon, hidle, hcont.limit, fun len hlen hspan => ?_⟩
  exact (hr'.allocates_of_isIdle hidle).2 (lenFits_iff.2 ⟨hlen, hspan⟩)

set_option maxRecDepth 1000 in
/-- The record in front is discarded first, so the readers are not at the writer. -/
theorem reached_reclaims_skipped :
    2 * align ≤ (List.replicate 16 (0 : UInt8)).length ∧ ∃ r r₀ held,
      new (List.replicate 16 0) = .ok r₀ ∧ Reached r₀ r [] held ∧ r.isIdle = false ∧
      ∃ r', getOutput.on r = (.ok none, r') ∧ r'.isIdle = true ∧ r'.capacity = r.capacity ∧
        ∀ len ≤ Tag.maxLen, span len ≤ r'.capacity → r'.Allocates len := by
  refine ⟨by decide, ?_⟩
  obtain ⟨r₀, hnew, hall⟩ := reached_reclaims (List.replicate 16 0) (by decide)
  obtain rfl : r₀ = ⟨List.replicate 16 0, 12, 0, 0, 0⟩ := Except.ok.inj (hnew.symm.trans rfl)
  have hstart : Reached ⟨List.replicate 16 0, 12, 0, 0, 0⟩ _ _ _ := .start
  have hfirst := Reached.call (c := .allocate 2) hstart trivial rfl
  have hboth := Reached.call (c := .allocate 2) hfirst trivial rfl
  have hskipped := Reached.call (c := .discard ⟨0⟩) hboth ⟨_, .head _, rfl, rfl⟩ rfl
  have hempty := Reached.call (c := .discard ⟨4⟩) hskipped ⟨_, .head _, rfl, rfl⟩ rfl
  exact ⟨_, _, _, hnew, hempty, rfl, hall _ _ hempty⟩

end Idle

/-- What a cell takes of the arena. The marker that sends readers to the front is no record. -/
def Tag.footprint : Tag → Nat
  | .startOver => 0
  | t => span t.len

def space : List Tag → Nat
  | [] => 0
  | t :: ts => t.footprint + space ts

/-- What the records take from the output reader to the writer, with those released that are not
reclaimed yet. -/
def occupied (r : Ring) : Nat := space (r.layout.map Prod.snd)

/-- A marker is so close to the limit that a record of that length has no room there. -/
def Snug (r : Ring) (most : Nat) : Prop :=
  ∀ x, (x, Tag.startOver) ∈ r.layout → r.limit < x + span most

inductive LeadsWithin (most : Nat) (r : Ring) : Ring → Prop
  | refl : LeadsWithin most r r
  | call {c : Call} {reply : Reply} {r' r'' : Ring} : LeadsWithin most r r' →
      c.Permits r'.entries → c.asked ≤ most → c.run.on r' = (.ok reply, r'') →
      LeadsWithin most r r''

theorem Continues.snug (h : r.Continues n r') (hn : n ≤ most) (hs : r.Snug most) :
    r'.Snug most := by
  intro x hx
  rw [h.limit]
  obtain hx | hx := (h.mono hn).marks x hx
  · exact hs x hx
  · exact hx

theorem snug_of_isIdle (h : r.isIdle = true) : r.Snug most := by
  intro x hx
  rw [layout_of_isIdle h] at hx
  cases hx

theorem LeadsWithin.snug (h : LeadsWithin most r r') (hr : r.Sound) (hs : r.Snug most) :
    r'.Sound ∧ r'.Snug most ∧ r'.limit = r.limit := by
  induction h with
  | refl => exact ⟨hr, hs, rfl⟩
  | call _ hc hasked hon ih =>
    obtain ⟨hr', hs', hlimit⟩ := ih
    obtain ⟨reply, r'', hon', hr'', hcont, -⟩ := Call.continues hr' hc
    cases hon.symm.trans hon'
    exact ⟨hr'', hcont.snug hasked hs', hcont.limit.trans hlimit⟩

section Occupied

theorem Tag.footprint_of_ne (h : t ≠ .startOver) : t.footprint = span t.len := by
  cases t with
  | startOver => exact absurd rfl h
  | _ => rfl

theorem space_append (a b : List Tag) : space (a ++ b) = space a + space b := by
  induction a with
  | nil => exact (Nat.zero_add _).symm
  | cons t a ih => rw [List.cons_append, space, space, ih, Nat.add_assoc]

namespace Tiled

theorem plain (ht : r.Tiled u ts v) (h : v ≤ r.limit ∨ r.lap ≤ u) : Tag.startOver ∉ ts := by
  intro hmem
  obtain ⟨pre, post, rfl⟩ := List.append_of_mem hmem
  obtain ⟨m, hpre, -, hf, hpost⟩ := append_iff.1 ht
  have hm : m ≤ r.limit := hf.2
  have hpre := hpre.le
  have hpost : r.lap + align * post.length ≤ v := hpost.le
  simp only [lap, align] at *
  omega

theorem add_space (ht : r.Tiled u ts v) (h : Tag.startOver ∉ ts) : u + space ts = v := by
  induction ts generalizing u with
  | nil => exact ht
  | cons t ts ih =>
    obtain ⟨-, -, hrest⟩ := ht
    have hne : t ≠ .startOver := fun heq => h (heq ▸ List.mem_cons_self)
    rw [behind_of_ne hne] at hrest
    rw [space, Tag.footprint_of_ne hne, ← Nat.add_assoc]
    exact ih hrest fun hmem => h (List.mem_cons_of_mem t hmem)

/-- Cells that go on into the second lap have a marker between the laps. -/
theorem exists_marker (ht : r.Tiled u ts v) (hu : u ≤ r.limit) (hv : r.lap ≤ v) :
    ∃ pre post w, ts = pre ++ .startOver :: post ∧ w ≤ r.limit ∧ r.Tiled u pre w ∧
      r.Tiled r.lap post v := by
  induction ts generalizing u with
  | nil =>
    obtain rfl : u = v := ht
    simp only [lap, align] at hv
    omega
  | cons t ts ih =>
    obtain ⟨htag, hf, hrest⟩ := ht
    by_cases hmarker : t = .startOver
    · subst hmarker
      exact ⟨[], ts, u, rfl, hu, rfl, hrest⟩
    · have hbehind : r.behind u t ≤ r.limit := by
        have := hf.of_ne hmarker
        rw [behind_of_ne hmarker]
        simp only [lap, align] at *
        omega
      obtain ⟨pre, post, w, rfl, hw, hpre, hpost⟩ := ih hrest hbehind
      exact ⟨t :: pre, post, w, rfl, hw, ⟨htag, hf, hpre⟩, hpost⟩

end Tiled

namespace Laid

theorem occupied_eq (hl : r.Laid tags stop) : r.occupied = space tags := by
  rw [occupied, hl.layout_eq, map_snd_cells]

/-- What is in use goes from the output reader to the writer, or to a marker and from the front. -/
theorem occupied_cases (hl : r.Laid tags stop) :
    r.outputReader + r.occupied = r.writer ∨
      ∃ w, (w, Tag.startOver) ∈ r.layout ∧ r.outputReader ≤ w ∧
        r.outputReader + r.occupied = w + r.writer := by
  have hw := hl.writer
  have hfirst := hl.first_le
  have hlap : r.limit < r.lap := by simp only [lap, align]; omega
  obtain hstop | hstop := hl.ends
  · rw [fold_of_lt (by omega)] at hw
    have hsum := hl.tiled.add_space (hl.tiled.plain (.inl hstop))
    rw [← hl.occupied_eq] at hsum
    exact .inl (by omega)
  · rw [fold_of_le hstop] at hw
    obtain ⟨pre, post, w, rfl, hwl, hpre, hpost⟩ := hl.tiled.exists_marker hfirst hstop
    have hsum := hpre.add_space (hpre.plain (.inl hwl))
    have hsum' := hpost.add_space (hpost.plain (.inr (Nat.le_refl _)))
    have hocc := hl.occupied_eq
    have hle := hpre.le
    rw [space_append, space, Tag.footprint, Nat.zero_add] at hocc
    refine .inr ⟨w, ?_, by omega, by omega⟩
    rw [hl.layout_eq, cells_append hpre, cells, fold_of_lt (by omega)]
    exact List.mem_append_right _ List.mem_cons_self

/-- Two records of the longest length besides those in use leave a place for the next one: one for
what a marker wastes, one to keep clear of the output reader. -/
theorem place_of_occupied (hl : r.Laid tags stop) (hs : r.Snug most)
    (hroom : r.occupied + 2 * span most ≤ r.limit) (hlen : len ≤ most) : r.place len ≠ none := by
  have hspan := span_mono hlen
  have hfirst := hl.first_le
  rw [ne_eq, place_eq_none_iff]
  simp only [nextRecord]
  obtain hocc | ⟨w, hmark, hle, hocc⟩ := hl.occupied_cases
  · omega
  · have := hs w hmark
    omega

end Laid

/-- No spurious exhaustion: a ring refuses no record while two records of the longest length ever
asked for are unused. -/
theorem leads_allocates (storage : Bytes) (h : 2 * align ≤ storage.length) (most : Nat)
    (hmost : most ≤ Tag.maxLen) :
    ∃ r₀, new storage = .ok r₀ ∧ ∀ r, LeadsWithin most r₀ r →
      r.occupied + 2 * span most ≤ r.capacity → ∀ len ≤ most, r.Allocates len := by
  obtain ⟨r₀, hnew, hr₀, hrecs⟩ := exists_new storage h
  refine ⟨r₀, hnew, fun r hleads hroom len hlen => ?_⟩
  obtain ⟨hr, hs, -⟩ := hleads.snug hr₀ (snug_of_isIdle (isIdle_new hnew))
  obtain ⟨tags, stop, hl⟩ := hr
  have hspan := span_mono hlen
  have hfits : r.lenFits len = true :=
    lenFits_iff.2 ⟨by omega, by simp only [capacity] at hroom; omega⟩
  exact hl.sound.allocates_iff.2 ⟨hfits, hl.place_of_occupied hs hroom hlen⟩

set_option maxRecDepth 1000 in
/-- The writer wrapped, and exactly two of the longest records are unused. -/
theorem leads_allocates_wrapped :
    (2 * align ≤ (List.replicate 20 (0 : UInt8)).length ∧ 2 ≤ Tag.maxLen) ∧ ∃ r₀ r,
      new (List.replicate 20 0) = .ok r₀ ∧ LeadsWithin 2 r₀ r ∧ r.writer < r.outputReader ∧
      r.occupied + 2 * span 2 = r.capacity ∧ ∀ len ≤ 2, r.Allocates len := by
  refine ⟨by decide, ?_⟩
  obtain ⟨r₀, hnew, hall⟩ := leads_allocates (List.replicate 20 0) (by decide) 2 (by decide)
  obtain rfl : r₀ = ⟨List.replicate 20 0, 16, 0, 0, 0⟩ := Except.ok.inj (hnew.symm.trans rfl)
  have hstart : LeadsWithin 2 ⟨List.replicate 20 0, 16, 0, 0, 0⟩ _ := .refl
  have hone := hstart.call (c := .allocate 2) trivial (by decide) rfl
  have htwo := hone.call (c := .allocate 2) trivial (by decide) rfl
  have hthree := htwo.call (c := .allocate 2) trivial (by decide) rfl
  have hfour := hthree.call (c := .allocate 2) trivial (by decide) rfl
  have hfirst := hfour.call (c := .discard ⟨0⟩) ⟨_, .head _, rfl, rfl⟩ (by decide) rfl
  have hsecond := hfirst.call (c := .discard ⟨4⟩) ⟨_, .head _, rfl, rfl⟩ (by decide) rfl
  have hreclaimed := hsecond.call (c := .getOutput) trivial (by decide) rfl
  have hwrapped := hreclaimed.call (c := .allocate 2) trivial (by decide) rfl
  have hthird := hwrapped.call (c := .discard ⟨8⟩) ⟨_, .head _, rfl, rfl⟩ (by decide) rfl
  have hall' := hthird.call (c := .getOutput) trivial (by decide) rfl
  exact ⟨_, _, hnew, hall', by decide, by decide, hall _ hall' (by decide)⟩

end Occupied

end Reflector.Ring
