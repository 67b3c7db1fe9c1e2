import Reflector.Proofs.Ring.Writer
/-!
Appending: a new record goes behind the last one, to the front of an empty ring, or to the front
behind a marker that sends readers there. A record that moves is appended and leaves a gap.
-/
namespace Reflector.Ring

variable {r r' : Ring} {t t' : Tag} {tags pre post : List Tag} {stop m len : Nat} {rec : Record}
  {p : Place}

structure Appended (r r' : Ring) (p : Place) (len : Nat) : Prop where
  limit : r'.limit = r.limit
  length : r'.arena.length = r.arena.length
  writer : r'.writer = nextRecord (r.startOf p) len
  input : r'.inputReader = if p = .restart then 0 else r.inputReader
  output : r'.outputReader = if p = .restart then 0 else r.outputReader
  byte : ∀ y, y < r.startOf p ∨ r.startOf p + span len + Tag.width ≤ y →
    (p = .wrap → y < r.writer ∨ r.writer + Tag.width ≤ y) → r'.arena[y]? = r.arena[y]?
  tag : r'.tagAt (r.startOf p) = .ok (Tag.pending len).asRead
  mark : r'.tagAt (nextRecord (r.startOf p) len) = .ok .endOfRing
  marker : p = .wrap → r'.tagAt r.writer = .ok .startOver

theorem stage_pending (n : Nat) : (Tag.pending n).asRead.stage? = some .unfinished :=
  Tag.stage?_asRead _

theorem pending_ne_startOver (n : Nat) : (Tag.pending n).asRead ≠ .startOver :=
  Tag.ne_startOver_of_stage (stage_pending n)

theorem len_pending (n : Nat) : (Tag.pending n).asRead.len = n := Tag.len_asRead _

theorem recordsAt_pending (x n : Nat) :
    r.recordsAt x (Tag.pending n).asRead = [⟨⟨x⟩, .unfinished, r.bytesAt x n⟩] := by
  rw [recordsAt_of_stage (stage_pending n), len_pending]
  rfl

theorem lenFits_iff : r.lenFits len = true ↔ len ≤ Tag.maxLen ∧ span len ≤ r.limit := by
  simp only [lenFits, Bool.and_eq_true, decide_eq_true_eq]

namespace Laid

theorem tiled_pending {x : Nat} (hl : r'.limit = r.limit)
    (ht : r'.tagAt (r.fold x) = .ok (Tag.pending len).asRead) (hlen : len ≤ Tag.maxLen)
    (hx : x + span len ≤ r.limit ∨ r.lap ≤ x) :
    r'.Tiled x [(Tag.pending len).asRead] (x + span len) := by
  have hlap : r'.lap = r.lap := by unfold lap; rw [hl]
  have hfold : r'.fold x = r.fold x := by unfold fold; rw [hlap]
  refine ⟨by rw [hfold]; exact ht, ⟨by rw [len_pending]; exact hlen, ?_⟩, ?_⟩
  · rw [if_neg (pending_ne_startOver len), len_pending, hl, hlap]
    exact hx
  · rw [behind_of_ne (pending_ne_startOver len), len_pending]
    rfl

theorem append_next (hl : r.Laid tags stop) (hlen : len ≤ Tag.maxLen)
    (hroom : stop + span len ≤ r.limit ∨
      r.lap ≤ stop ∧ stop + span len < r.outputReader + r.lap)
    (h : Appended r r' .next len) :
    r'.Sound ∧ r.Continues len r' ∧ r'.records =
      r.records ++ [⟨⟨r.writer⟩, .unfinished, r'.bytesAt r.writer len⟩] := by
  obtain ⟨-, hstop', -⟩ := hl.stop_room
  have hmod := hl.stop_mod
  have hlapmod := hl.lap_mod
  have hfirst := hl.first
  have hspan := span_mod len
  have hlap : r.lap = r.limit + align := rfl
  have hwidth : Tag.width = 2 ∧ align = 4 := by decide
  simp only [align] at hmod hlapmod hfirst hspan
  have hw := hl.writer
  have hnext : nextRecord r.writer len = r.fold (stop + span len) := by
    rw [nextRecord, ← hw, fold_add (by omega)]
  have hb : r.Beside r' := ⟨h.limit, h.length, h.input, h.output⟩
  have ha : r.AgreeOn r' r.outputReader stop := by
    refine agreeOn_of_outside (n := span len + Tag.width) h.limit (by omega)
      (fun y hy => h.byte y ?_ Place.noConfusion) (.inl ⟨Nat.le_refl _, by omega⟩)
    simp only [startOf, ← hw]
    omega
  have htiled : r'.Tiled stop [(Tag.pending len).asRead] (stop + span len) :=
    tiled_pending h.limit (by rw [hw]; exact h.tag) hlen (by omega)
  have hl' : r.Laid (tags ++ []) stop := by rwa [List.append_nil]
  obtain ⟨hlaid, hcont, -, hrecs⟩ := hl'.retail _ _ hl.tiled hb (h.writer.trans hnext) ha
    (by simp) htiled (by omega) (by omega) (by rw [← hnext]; exact h.mark)
    (not_marks (by simpa using (pending_ne_startOver len).symm))
  refine ⟨hlaid.sound, hcont, ?_⟩
  calc r'.records
    _ = r.contents r.outputReader tags ++ r'.contents stop [(Tag.pending len).asRead] := hrecs
    _ = r.records ++ r'.recordsAt r.writer (Tag.pending len).asRead := by
      rw [hl.records_eq, contents_singleton, hb.fold_eq, hw]
    _ = r.records ++ [⟨⟨r.writer⟩, .unfinished, r'.bytesAt r.writer len⟩] := by
      rw [recordsAt_pending]

theorem append_wrap (hl : r.Laid tags stop) (hlen : len ≤ Tag.maxLen) (hstop : stop ≤ r.limit)
    (hfull : r.limit < stop + span len) (hroom : span len < r.outputReader)
    (h : Appended r r' .wrap len) :
    r'.Sound ∧ r.Continues len r' ∧
      r'.records = r.records ++ [⟨⟨0⟩, .unfinished, r'.bytesAt 0 len⟩] := by
  have hmod := hl.stop_mod
  have hlapmod := hl.lap_mod
  have hfirst := hl.first
  have hspan := span_mod len
  have hlap : r.lap = r.limit + align := rfl
  have hwidth : Tag.width = 2 ∧ align = 4 := by decide
  simp only [align] at hmod hlapmod hfirst hspan
  have hw : stop = r.writer := by rw [← hl.writer, fold_of_lt (by omega)]
  have hstart : r.startOf .wrap = 0 := rfl
  have hzero : r.fold r.lap = 0 := by rw [fold_of_le (Nat.le_refl _), Nat.sub_self]
  have hnext : nextRecord (r.startOf .wrap) len = r.fold (r.lap + span len) := by
    rw [nextRecord, fold_add (.inr (Nat.le_refl _)), hzero, hstart]
  have hb : r.Beside r' := ⟨h.limit, h.length, h.input, h.output⟩
  have ha : r.AgreeOn r' r.outputReader stop := by
    refine ⟨h.limit, fun j hj hj' => ?_⟩
    rw [fold_of_lt (by omega)]
    exact h.byte j (by omega) fun _ => by omega
  have hmarker : r'.Tiled stop [.startOver] r.lap := by
    refine ⟨?_, ⟨Nat.zero_le _, ?_⟩, hb.lap_eq⟩
    · rw [hb.fold_eq, hl.writer]
      exact h.marker rfl
    · rw [if_pos rfl, h.limit]
      exact hstop
  have htiled : r'.Tiled r.lap [(Tag.pending len).asRead] (r.lap + span len) :=
    tiled_pending h.limit (by rw [hzero]; exact h.tag) hlen (.inr (Nat.le_refl _))
  have hl' : r.Laid (tags ++ []) stop := by rwa [List.append_nil]
  have hmarks : ∀ x, (x, Tag.startOver) ∈ r.cells stop [.startOver, (Tag.pending len).asRead] →
      r.limit < x + span len := by
    intro x hx
    rw [cells, List.mem_cons] at hx
    obtain hx | hx := hx
    · rw [(Prod.mk.inj hx).1, fold_of_lt (by omega)]
      exact hfull
    · exact not_marks (by simpa using (pending_ne_startOver len).symm) x hx
  obtain ⟨hlaid, hcont, -, hrecs⟩ := hl'.retail _ _ hl.tiled hb (h.writer.trans hnext) ha
    (by simp) (hmarker.append htiled) (.inr (by omega)) (by omega) (by rw [← hnext]; exact h.mark)
    hmarks
  refine ⟨hlaid.sound, hcont, ?_⟩
  -- the marker is no record
  have hnone : r'.contents stop [.startOver] = [] := contents_singleton.trans (recordsAt_of_none rfl)
  calc r'.records
    _ = r.contents r.outputReader tags ++
          r'.contents stop ([.startOver] ++ [(Tag.pending len).asRead]) := hrecs
    _ = r.records ++ r'.contents r.lap [(Tag.pending len).asRead] := by
      rw [hl.records_eq, contents_append hmarker, hnone, List.nil_append]
    _ = r.records ++ r'.recordsAt 0 (Tag.pending len).asRead := by
      rw [contents_singleton, hb.fold_eq, hzero]
    _ = r.records ++ [⟨⟨0⟩, .unfinished, r'.bytesAt 0 len⟩] := by rw [recordsAt_pending]

theorem append_restart (hl : r.Laid tags stop) (hlen : len ≤ Tag.maxLen)
    (hspan : span len ≤ r.limit) (hempty : r.records = []) (h : Appended r r' .restart len) :
    r'.Sound ∧ r.Continues len r' ∧
      r'.records = r.records ++ [⟨⟨0⟩, .unfinished, r'.bytesAt 0 len⟩] := by
  have hlap' : r.lap = r.limit + align := rfl
  have hwidth : 0 < align := by decide
  have hlap : r'.lap = r.lap := by unfold lap; rw [h.limit]
  have hfold : ∀ x, x < r.lap → r'.fold x = x := fun x hx => fold_of_lt (by omega)
  have hstart : r.startOf .restart = 0 := rfl
  have hout : r'.outputReader = 0 := h.output
  have hin : r'.inputReader = 0 := h.input
  have hnext : nextRecord (r.startOf .restart) len = span len := by
    rw [nextRecord, hstart, Nat.zero_add]
  have htiled : r'.Tiled 0 [(Tag.pending len).asRead] (0 + span len) :=
    tiled_pending h.limit (by rw [fold_of_lt (by omega)]; exact h.tag) hlen (by omega)
  rw [Nat.zero_add] at htiled
  have hlaid : r'.Laid [(Tag.pending len).asRead] (span len) :=
    { unit := by rw [h.limit]; exact hl.unit
      fits := by rw [hlap, h.length]; exact hl.fits
      first := by rw [hout]; rfl
      first_le := by rw [hout]; exact Nat.zero_le _
      tiled := by rw [hout]; exact htiled
      ends := .inl (by rw [h.limit]; exact hspan)
      apart := by rw [hout, hlap]; omega
      writer := by rw [hfold _ (by omega), h.writer, hnext]
      mark := by rw [hfold _ (by omega), ← hnext]; exact h.mark
      input := ⟨[], _, 0, rfl, hout, by rw [hfold _ (by omega), hin], by simp⟩ }
  have hlayout : r'.layout = [(0, (Tag.pending len).asRead)] := by
    rw [hlaid.layout_eq, hout, cells, cells, hfold _ (by omega)]
  refine ⟨hlaid.sound, ⟨h.limit, fun x hx => ?_, fun t ht => ?_⟩, ?_⟩
  · rw [hlayout, List.mem_singleton] at hx
    exact absurd (Prod.mk.inj hx).2.symm (pending_ne_startOver len)
  · rw [hlayout, List.mem_singleton] at ht
    rw [hout, (Prod.mk.inj ht).1]
  calc r'.records
    _ = r'.contents 0 [(Tag.pending len).asRead] := by rw [hlaid.records_eq, hout]
    _ = r'.recordsAt 0 (Tag.pending len).asRead := by rw [contents_singleton, hfold _ (by omega)]
    _ = [⟨⟨0⟩, .unfinished, r'.bytesAt 0 len⟩] := recordsAt_pending 0 len
    _ = r.records ++ [⟨⟨0⟩, .unfinished, r'.bytesAt 0 len⟩] := by rw [hempty, List.nil_append]

/-- Where the places are: behind the cells on this lap or the next one, in an empty ring, or in
front of the output reader. -/
theorem place_cases (hl : r.Laid tags stop) (hp : r.place len = some p) :
    (p = .next ∧ stop = r.writer ∧ r.writer + span len ≤ r.limit) ∨
      (p = .next ∧ stop = r.writer + r.lap ∧ r.writer + span len + align ≤ r.outputReader) ∨
      (p = .restart ∧ stop = r.writer ∧ stop = r.outputReader ∧ tags = []) ∨
      (p = .wrap ∧ stop = r.writer ∧ r.outputReader ≤ stop ∧ stop ≤ r.limit ∧
        r.limit < stop + span len ∧ span len + align ≤ r.outputReader) := by
  have hlap : r.lap = r.limit + align := rfl
  have hw := hl.writer
  have hends := hl.ends
  have hap := hl.apart
  have hle := hl.tiled.le
  have hspan := span_mod len
  have hmod := hl.stop_mod
  have hlapmod := hl.lap_mod
  have hfirst := hl.first
  have hstop₁ : stop < r.lap → stop = r.writer := fun hlt => by rw [← hw, fold_of_lt hlt]
  have hstop₂ : r.lap ≤ stop → stop = r.writer + r.lap := fun hge => by
    rw [← hw, fold_of_le hge]
    omega
  have hnext : nextRecord r.writer len = r.writer + span len := rfl
  have hzero : nextRecord 0 len = span len := Nat.zero_add _
  simp only [align] at hspan hmod hlapmod hfirst hle hlap ⊢
  unfold place at hp
  by_cases hso : r.outputReader ≤ r.writer
  · -- the records do not go around the end of the arena
    have hlt : stop < r.lap := by omega
    have hstop₁ := hstop₁ hlt
    rw [if_pos hso] at hp
    by_cases hfits : nextRecord r.writer len ≤ r.limit
    · rw [if_pos hfits] at hp
      cases hp
      exact .inl ⟨rfl, hstop₁, by omega⟩
    rw [if_neg hfits] at hp
    by_cases hemp : r.writer = r.outputReader
    · rw [if_pos hemp] at hp
      cases hp
      have htags : tags = [] := List.eq_nil_of_length_eq_zero (by omega)
      exact .inr (.inr (.inl ⟨rfl, hstop₁, by omega, htags⟩))
    rw [if_neg hemp] at hp
    by_cases hfront : nextRecord 0 len < r.outputReader
    · rw [if_pos hfront] at hp
      cases hp
      exact .inr (.inr (.inr ⟨rfl, hstop₁, by omega, by omega, by omega, by omega⟩))
    · rw [if_neg hfront] at hp
      cases hp
  · -- the writer is on the second lap, with the output reader ahead of it in the arena
    rw [if_neg hso] at hp
    by_cases hfits : nextRecord r.writer len < r.outputReader
    · rw [if_pos hfits] at hp
      cases hp
      have hstop₂ := hstop₂ (by omega)
      exact .inr (.inl ⟨rfl, hstop₂, by omega⟩)
    · rw [if_neg hfits] at hp
      cases hp

theorem appended (hl : r.Laid tags stop) (hfit : r.lenFits len = true)
    (hp : r.place len = some p) (h : Appended r r' p len) :
    r'.Sound ∧ r.Continues len r' ∧ r'.records = r.records ++
      [⟨⟨r.startOf p⟩, .unfinished, r'.bytesAt (r.startOf p) len⟩] := by
  obtain ⟨hlen, hspan⟩ := lenFits_iff.1 hfit
  have hlap : r.lap = r.limit + align := rfl
  have halign : 0 < align := by decide
  obtain ⟨rfl, hstop, hroom⟩ | ⟨rfl, hstop, hroom⟩ | ⟨rfl, -, -, htags⟩ |
    ⟨rfl, -, -, hle', hfull, hroom⟩ := hl.place_cases hp
  · exact hl.append_next hlen (.inl (by omega)) h
  · exact hl.append_next hlen (.inr ⟨by omega, by omega⟩) h
  · exact hl.append_restart hlen hspan (by rw [hl.records_eq, htags]; rfl) h
  · exact hl.append_wrap hlen hle' hfull (by omega) h

/-- A place is inside the arena, and a marker is behind a record at the front. -/
theorem place_le (hl : r.Laid tags stop) (hfit : r.lenFits len = true)
    (hp : r.place len = some p) :
    nextRecord (r.startOf p) len ≤ r.limit ∧ r.writer ≤ r.limit ∧
      (p = .wrap → nextRecord (r.startOf p) len + align ≤ r.writer) := by
  obtain ⟨-, hspan⟩ := lenFits_iff.1 hfit
  have hfirst := hl.first_le
  have hap := hl.apart
  have hlap : r.lap = r.limit + align := rfl
  have halign : 0 < align := by decide
  obtain ⟨rfl, -, hroom⟩ | ⟨rfl, hstop, hroom⟩ | ⟨rfl, hstop, hempty, -⟩ |
    ⟨rfl, hstop, hle, hle', -, hroom⟩ := hl.place_cases hp <;>
    simp only [nextRecord, startOf] <;> refine ⟨by omega, by omega, fun h => ?_⟩
  · cases h
  · cases h
  · cases h
  · omega

end Laid

def entered (r : Ring) : Place → Ring
  | .next => r
  | .restart => { r with inputReader := 0, outputReader := 0 }
  | .wrap => r.withTag r.writer .startOver

def opened (r : Ring) (p : Place) (len : Nat) : Ring :=
  (r.entered p).withTag (r.startOf p) (.pending len)

theorem on_enter (hw : r.writer + Tag.width ≤ r.arena.length) :
    (enter p).on r = (.ok (), r.entered p) := by
  cases p with
  | next => rfl
  | restart => rfl
  | wrap => exact (Op.on_bind_ok (Op.on_get r)).trans (on_setTag hw (Nat.zero_le _))

theorem length_entered (hw : r.writer + Tag.width ≤ r.arena.length) :
    (r.entered p).arena.length = r.arena.length := by
  cases p with
  | next => rfl
  | restart => rfl
  | wrap => exact length_withTag hw

theorem getElem?_entered {y : Nat} (hw : r.writer + Tag.width ≤ r.arena.length)
    (hy : p = .wrap → y < r.writer ∨ r.writer + Tag.width ≤ y) :
    (r.entered p).arena[y]? = r.arena[y]? := by
  cases p with
  | next => rfl
  | restart => rfl
  | wrap => exact getElem?_withTag hw (hy rfl)

theorem on_appendAt (moved : Option (Nat × Nat)) {r₁ : Ring}
    (hw : r.writer + Tag.width ≤ r.arena.length) (hs : r.startOf p + Tag.width ≤ r.arena.length)
    (hlen : len ≤ Tag.maxLen)
    (hm : (moved.forM fun (old, oldLen) => movePayload old oldLen (r.startOf p)).on
      (r.opened p len) = (.ok (), r₁))
    (hn : nextRecord (r.startOf p) len + Tag.width ≤ r₁.arena.length) :
    (appendAt p len moved).on r = (.ok ⟨r.startOf p⟩,
      { r₁.withTag (nextRecord (r.startOf p) len) .endOfRing with
        writer := nextRecord (r.startOf p) len }) := by
  have hs' : r.startOf p + Tag.width ≤ (r.entered p).arena.length := by rwa [length_entered hw]
  rw [appendAt, Op.on_bind_ok (Op.on_get r), Op.on_bind_ok (on_enter hw),
    Op.on_bind_ok (on_setTag (t := .pending len) hs' hlen)]
  rw [opened] at hm
  rw [Op.on_bind_ok hm, Op.on_bind_ok (on_setTag hn (Nat.zero_le _))]
  rfl

structure Opened (r r₀ : Ring) (p : Place) (len : Nat) : Prop where
  lenLe : len ≤ Tag.maxLen
  inside : nextRecord (r.startOf p) len + align ≤ r.arena.length
  writer : r.writer + Tag.width ≤ r.arena.length
  far : p = .wrap → nextRecord (r.startOf p) len + align ≤ r.writer
  length : r₀.arena.length = r.arena.length
  byte : ∀ y, y < r.startOf p ∨ r.startOf p + Tag.width ≤ y →
    (p = .wrap → y < r.writer ∨ r.writer + Tag.width ≤ y) → r₀.arena[y]? = r.arena[y]?
  tag : r₀.tagAt (r.startOf p) = .ok (Tag.pending len).asRead
  marker : p = .wrap → r₀.tagAt r.writer = .ok .startOver

theorem Laid.opened (hl : r.Laid tags stop) (hfit : r.lenFits len = true)
    (hp : r.place len = some p) : Opened r (r.opened p len) p len := by
  obtain ⟨hn, hw, hfar⟩ := hl.place_le hfit hp
  have hfits := hl.fits
  have hlap : r.lap = r.limit + align := rfl
  have hwidth : Tag.width ≤ align := by decide
  have hspan := width_le_span len
  have hnext : nextRecord (r.startOf p) len = r.startOf p + span len := rfl
  have hlen := (lenFits_iff.1 hfit).1
  have hw' : r.writer + Tag.width ≤ r.arena.length := by omega
  have hlength := length_entered (p := p) hw'
  have hs : r.startOf p + Tag.width ≤ (r.entered p).arena.length := by omega
  exact
    { lenLe := hlen
      inside := by omega
      writer := hw'
      far := hfar
      length := (length_withTag hs).trans hlength
      byte := fun y hy hy' => (getElem?_withTag hs hy).trans (getElem?_entered hw' hy')
      tag := tagAt_withTag hs hlen
      marker := fun hwrap => by
        have hfar := hfar hwrap
        have hmark := tagAt_withTag (t := .startOver) hw' (Nat.zero_le _)
        subst hwrap
        rw [← show Tag.asRead .startOver = .startOver from rfl, ← hmark]
        exact tagAt_congr (getElem?_withTag hs (by omega)) (getElem?_withTag hs (by omega)) }

theorem Cell.place_apart {t : Tag} (hc : r.Cell rec pre t post m stop)
    (hp : r.place len = some p) :
    (r.fold m + span t.len ≤ r.startOf p ∨
        nextRecord (r.startOf p) len + align ≤ r.fold m) ∧
      (p = .wrap → r.fold m + span t.len ≤ r.writer) ∧ p ≠ .restart := by
  obtain ⟨-, hf, hpost, -⟩ := hc.laid.cell hc.tiled
  have hle := hc.tiled.le
  have hpost := hpost.le
  have hf := hf.of_ne hc.ne_startOver
  rw [behind_of_ne hc.ne_startOver] at hpost
  have hlap : r.lap = r.limit + align := rfl
  have hal := align_le_span t.len
  have halign : 0 < align := by decide
  obtain ⟨rfl, hstop, hroom⟩ | ⟨rfl, hstop, hroom⟩ | ⟨rfl, hstop, hempty, -⟩ |
    ⟨rfl, hstop, -, hle', -, hroom⟩ := hc.laid.place_cases hp
  · refine ⟨.inl ?_, Place.noConfusion, Place.noConfusion⟩
    rw [fold_of_lt (by omega)]
    simp only [startOf]
    omega
  · refine ⟨?_, Place.noConfusion, Place.noConfusion⟩
    simp only [startOf, nextRecord]
    unfold fold
    split <;> omega
  · omega
  · rw [fold_of_lt (by omega)]
    refine ⟨.inr ?_, fun _ => by omega, Place.noConfusion⟩
    simp only [startOf, nextRecord]
    omega

/-- The end mark makes the new record the last one. -/
theorem appended_of_mark (r₁ : Ring) (hl : r₁.limit = r.limit)
    (hlen : r₁.arena.length = r.arena.length)
    (hi : r₁.inputReader = if p = .restart then 0 else r.inputReader)
    (ho : r₁.outputReader = if p = .restart then 0 else r.outputReader)
    (hbyte : ∀ y, y < r.startOf p ∨ r.startOf p + span len ≤ y →
      (p = .wrap → y < r.writer ∨ r.writer + Tag.width ≤ y) → r₁.arena[y]? = r.arena[y]?)
    (htag : r₁.tagAt (r.startOf p) = .ok (Tag.pending len).asRead)
    (hmarker : p = .wrap → r₁.tagAt r.writer = .ok .startOver)
    (hn : nextRecord (r.startOf p) len + Tag.width ≤ r.arena.length)
    (hfar : p = .wrap → nextRecord (r.startOf p) len + align ≤ r.writer) :
    Appended r { r₁.withTag (nextRecord (r.startOf p) len) .endOfRing with
      writer := nextRecord (r.startOf p) len } p len := by
  have hn' : nextRecord (r.startOf p) len + Tag.width ≤ r₁.arena.length := hlen ▸ hn
  have hspan := width_le_span len
  have hwidth : Tag.width = 2 ∧ align = 4 := by decide
  have hnext : nextRecord (r.startOf p) len = r.startOf p + span len := rfl
  have hout : ∀ y, y < nextRecord (r.startOf p) len ∨ nextRecord (r.startOf p) len + Tag.width ≤ y →
      (r₁.withTag (nextRecord (r.startOf p) len) .endOfRing).arena[y]? = r₁.arena[y]? :=
    fun y hy => getElem?_withTag hn' hy
  exact
    { limit := hl
      length := (length_withTag hn').trans hlen
      writer := rfl
      input := hi
      output := ho
      byte := fun y hy hy' => (hout y (by omega)).trans (hbyte y (by omega) hy')
      tag := htag ▸ tagAt_congr (hout _ (by omega)) (hout _ (by omega))
      mark := tagAt_withTag hn' (Nat.zero_le _)
      marker := fun hp => by
        have := hfar hp
        exact hmarker hp ▸ tagAt_congr (hout _ (by omega)) (hout _ (by omega)) }

theorem length_bytesAt {x : Nat} (h : x + Tag.width + len ≤ r.arena.length) :
    (r.bytesAt x len).length = len := by
  simp only [bytesAt, List.length_take, List.length_drop]
  omega

theorem allocate_at (hr : r.Sound) (hfit : r.lenFits len = true) (hp : r.place len = some p) :
    ∃ r', (allocate len).on r = (.ok (some ⟨r.startOf p⟩), r') ∧ r'.Sound ∧ r.Continues len r' ∧
      Appended r r' p len ∧ ∃ payload, payload.length = len ∧
        r'.records = r.records ++ [⟨⟨r.startOf p⟩, .unfinished, payload⟩] := by
  obtain ⟨tags, stop, hl⟩ := hr
  have ho := hl.opened hfit hp
  have hwidth : Tag.width ≤ align := by decide
  have hspan := width_le_span len
  have hnext : nextRecord (r.startOf p) len = r.startOf p + span len := rfl
  have hin := ho.inside
  have hlength := ho.length
  have hnext' : nextRecord (r.startOf p) len + Tag.width ≤ (r.opened p len).arena.length := by
    omega
  have hon := on_appendAt none ho.writer (by omega) ho.lenLe rfl hnext'
  have happ := appended_of_mark (r.opened p len) (by cases p <;> rfl) hlength
    (by cases p <;> rfl) (by cases p <;> rfl) (fun y hy => ho.byte y (by omega)) ho.tag
    ho.marker (by omega) ho.far
  obtain ⟨hsound, hcont, hrecs⟩ := hl.appended hfit hp happ
  refine ⟨_, ?_, hsound, hcont, happ, _, ?_, hrecs⟩
  · rw [allocate, Op.on_bind_ok (Op.on_get r), if_pos hfit, append, Op.on_bind_ok (Op.on_get r), hp]
    dsimp only
    rw [Op.on_bind_ok hon, Op.on_pure]
  · refine length_bytesAt ?_
    rw [happ.length]
    omega

theorem allocate_refused (h : r.lenFits len = true → r.place len = none) :
    (allocate len).on r = (.ok none, r) := by
  rw [allocate, Op.on_bind_ok (Op.on_get r)]
  cases hfit : r.lenFits len with
  | false => rfl
  | true =>
    rw [if_pos rfl, append, Op.on_bind_ok (Op.on_get r), h hfit]
    rfl

theorem allocate_spec (len : Nat) (hr : r.Sound) :
    ∃ reply r', (allocate len).on r = (.ok reply, r') ∧ r'.Sound ∧ r.Continues len r' ∧
      match reply with
      | none => r' = r
      | some h => ∃ payload, payload.length = len ∧
          r'.records = r.records ++ [⟨h, .unfinished, payload⟩] := by
  by_cases hfit : r.lenFits len = true
  · cases hp : r.place len with
    | none => exact ⟨none, r, allocate_refused fun _ => hp, hr, .refl r len, rfl⟩
    | some p =>
      obtain ⟨r', hon, hr', hcont, -, hrecs⟩ := allocate_at hr hfit hp
      exact ⟨some ⟨r.startOf p⟩, r', hon, hr', hcont, hrecs⟩
  · exact ⟨none, r, allocate_refused fun h => absurd h hfit, hr, .refl r len, rfl⟩

end Reflector.Ring
