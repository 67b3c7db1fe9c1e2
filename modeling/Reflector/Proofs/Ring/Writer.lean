import Reflector.Proofs.Ring.Queues
/-!
The writer: records are appended at the end of the cells, change their length and are abandoned.
-/
namespace Reflector.Ring

variable {r r' : Ring} {t t' : Tag} {tags pre post : List Tag} {stop m len : Nat} {rec : Record}
  {s : Stage}

theorem take_drop_congr {a b : Bytes} {x n : Nat} (h : ∀ j < n, a[x + j]? = b[x + j]?) :
    (a.drop x).take n = (b.drop x).take n := by
  refine List.ext_getElem? fun j => ?_
  simp only [List.getElem?_take, List.getElem?_drop]
  split
  · next hj => exact h j hj
  · rfl

def bytesAt (r : Ring) (x len : Nat) : Bytes := (r.arena.drop (x + Tag.width)).take len

namespace Cell

theorem last (hc : r.Cell rec pre t post m stop)
    (hw : r.writer = nextRecord (r.fold m) t.len) : r.behind m t = stop ∧ post = [] := by
  obtain ⟨-, hf, hpost, -⟩ := hc.laid.cell hc.tiled
  have hap := hc.laid.apart
  have hle := hc.tiled.le
  have hal := hf.align_le
  have hpost' := hpost.le
  rw [hc.nextRecord_eq, ← hc.laid.writer] at hw
  have heq : r.behind m t = stop := (fold_inj hw (by omega) (by omega)).symm
  refine ⟨heq, List.eq_nil_of_length_eq_zero ?_⟩
  simp only [align] at hpost'
  omega

theorem discard_last (hc : r.Cell rec pre t post m stop) (ht : passedByInput t = false)
    (hw : r.writer = nextRecord (r.fold m) t.len) :
    ({ r with writer := r.fold m }.withTag (r.fold m) .endOfRing).Sound ∧
      r.Continues 0 ({ r with writer := r.fold m }.withTag (r.fold m) .endOfRing) ∧
      ({ r with writer := r.fold m }.withTag (r.fold m) .endOfRing).records =
        remove rec.handle r.records := by
  obtain ⟨-, rfl⟩ := hc.last hw
  obtain ⟨-, -, hroom, hends, -⟩ := hc.laid.position hc.tiled
  have hwidth : 0 < Tag.width ∧ Tag.width ≤ align := by decide
  have hb : r.Beside ({ r with writer := r.fold m }.withTag (r.fold m) .endOfRing) :=
    ⟨rfl, length_withTag hc.room, rfl, rfl⟩
  have ha : r.AgreeOn ({ r with writer := r.fold m }.withTag (r.fold m) .endOfRing)
      r.outputReader m :=
    agreeOn_of_outside (n := Tag.width) rfl (by omega) (fun _ hy => getElem?_withTag hc.room hy)
      (.inl ⟨Nat.le_refl m, by omega⟩)
  obtain ⟨hlaid, hcont, -, hrecs⟩ := hc.laid.retail [] m hc.tiled hb rfl ha
    (by simpa using ht) rfl (by simp only [lap] at hends ⊢; omega) (by omega)
    (tagAt_withTag hc.room (Nat.zero_le _)) (not_marks List.not_mem_nil)
  refine ⟨hlaid.sound, hcont, ?_⟩
  rw [hrecs, hc.remove_records, contents, contents]
  simp [cells, contents]

theorem recordsAt_asRead (hc : r.Cell rec pre t post m stop) (hb : r.Beside r')
    (ht' : t'.stage? = some s)
    (hpayload : r'.bytesAt (r.fold m) t'.len = r.bytesAt (r.fold m) t'.len) :
    r'.recordsAt (r'.fold m) t'.asRead =
      [⟨rec.handle, s, r.bytesAt rec.handle.offset t'.len⟩] := by
  calc r'.recordsAt (r'.fold m) t'.asRead
    _ = [⟨⟨r'.fold m⟩, s, r'.bytesAt (r'.fold m) t'.asRead.len⟩] :=
      recordsAt_of_stage ((Tag.stage?_asRead t').trans ht')
    _ = [⟨⟨r.fold m⟩, s, r.bytesAt (r.fold m) t'.len⟩] := by
      rw [hb.fold_eq, Tag.len_asRead, hpayload]
    _ = [⟨rec.handle, s, r.bytesAt rec.handle.offset t'.len⟩] := by rw [hc.handle]

theorem relength (t' : Tag) (hc : r.Cell rec pre t post m stop) (ht : passedByInput t = false)
    (hw : r.writer = nextRecord (r.fold m) t.len) (ht' : t'.stage? = some s)
    (hlen : t'.len ≤ Tag.maxLen) (hends : m + span t'.len ≤ r.limit ∨ r.lap ≤ m)
    (hapart : m + span t'.len < r.outputReader + r.lap)
    (hr' : r' = { (r.withTag (nextRecord (r.fold m) t'.len) .endOfRing).withTag (r.fold m) t' with
      writer := nextRecord (r.fold m) t'.len }) :
    r'.Sound ∧ r.Continues 0 r' ∧ r'.records =
      revise rec.handle (fun e => ⟨e.handle, s, r.bytesAt e.handle.offset t'.len⟩) r.records := by
  obtain ⟨-, rfl⟩ := hc.last hw
  obtain ⟨hmod, -, -, hroom', -⟩ := hc.laid.position hc.tiled
  have hfits := hc.laid.fits
  have hlap : r.lap = r.limit + align := rfl
  have hspan := width_le_span t'.len
  have hspan' := span_mod t'.len
  have hwidth : Tag.width = 2 ∧ align = 4 := by decide
  have hlapmod := hc.laid.lap_mod
  have hfirst := hc.laid.first
  have hfirst' := hc.laid.first_le
  simp only [align] at hmod hspan' hlapmod hfirst
  have hne := Tag.ne_startOver_of_stage ht'
  have hf' : r.Fits m t'.asRead := by
    refine ⟨by rw [Tag.len_asRead]; exact hlen, ?_⟩
    rwa [if_neg (Tag.asRead_ne_startOver hne), Tag.len_asRead]
  have hbehind : r.behind m t'.asRead = m + span t'.len := by
    rw [behind_of_ne (Tag.asRead_ne_startOver hne), Tag.len_asRead]
  have hnext : nextRecord (r.fold m) t'.len = r.fold (m + span t'.len) := by
    rw [nextRecord, fold_add (by omega)]
  have hfold' : r.fold (m + span t'.len) ≤ r.limit := by
    exact fold_le (by omega) (by omega)
  have hx : nextRecord (r.fold m) t'.len + Tag.width ≤ r.arena.length := by rw [hnext]; omega
  have hx' : r.fold m + Tag.width ≤ nextRecord (r.fold m) t'.len := by unfold nextRecord; omega
  obtain ⟨hlength, hbyte, htag, hmark⟩ := withTag_withTag t' .endOfRing hx' hx
    hlen (Nat.zero_le _)
  have hb : r.Beside r' := by
    rw [hr']
    exact ⟨rfl, hlength, rfl, rfl⟩
  have hbyte : ∀ y, y < r.fold m ∨ r.fold m + Tag.width ≤ y →
      y < r.fold m + span t'.len ∨ r.fold m + span t'.len + Tag.width ≤ y →
      r'.arena[y]? = r.arena[y]? := by
    rw [hr']
    exact hbyte
  have ha : r.AgreeOn r' r.outputReader m := by
    refine agreeOn_of_outside (n := span t'.len + Tag.width) (by rw [hr']; rfl) (by omega)
      (fun y hy => hbyte y (by omega) (by omega)) (.inl ⟨Nat.le_refl m, by omega⟩)
  obtain ⟨hlaid, hcont, -, hrecs⟩ := hc.laid.retail [t'.asRead] (m + span t'.len)
    hc.tiled hb (by rw [hr', ← hnext]) ha (by simpa using ht)
    ⟨by rw [hb.fold_eq, hr']; exact htag, by rwa [ha.fits_iff], by rw [ha.behind_eq]; exact hbehind⟩
    (by omega) (by omega) (by rw [hr', ← hnext]; exact hmark)
    (not_marks (by simpa using (Tag.asRead_ne_startOver hne).symm))
  refine ⟨hlaid.sound, hcont, ?_⟩
  have hpayload : r'.bytesAt (r.fold m) t'.len = r.bytesAt (r.fold m) t'.len :=
    take_drop_congr fun j hj => hbyte _ (by omega) (by omega)
  rw [hrecs, hc.revise_records, contents_singleton, hc.recordsAt_asRead hb ht' hpayload]
  simp [contents, cells]

theorem tiled_split {gap : Nat} (hc : r.Cell rec pre t post m stop) (ht' : t'.stage? = some s)
    (hb : r.Beside r') (hpre : r.AgreeOn r' r.outputReader m) (hlen : t'.len ≤ Tag.maxLen)
    (hgap : gap ≤ Tag.maxLen) (hspan : span t'.len + span gap = span t.len)
    (htag : r'.tagAt (r.fold m) = .ok t'.asRead)
    (hgaptag : r'.tagAt (r.fold m + span t'.len) = .ok (Tag.skip gap).asRead) :
    r'.Tiled m [t'.asRead, .skip gap] (r.behind m t) := by
  obtain ⟨-, hf, -, -⟩ := hc.laid.cell hc.tiled
  have hlap : r.lap = r.limit + align := rfl
  have halign : 0 < align := by decide
  have hal := align_le_span gap
  have hf₁ := hf.of_ne hc.ne_startOver
  have hb₁ := behind_of_ne (r := r) (u := m) hc.ne_startOver
  have hne := Tag.asRead_ne_startOver (Tag.ne_startOver_of_stage ht')
  have hbehind : r.behind m t'.asRead = m + span t'.len := by
    rw [behind_of_ne hne, Tag.len_asRead]
  rw [Tiled, Tiled, Tiled, hb.fold_eq, hpre.fits_iff, hpre.fits_iff, hpre.behind_eq,
    hpre.behind_eq, hbehind, fold_add (by omega)]
  refine ⟨htag, ⟨by rwa [Tag.len_asRead], ?_⟩, hgaptag, ⟨hgap, ?_⟩, ?_⟩
  · rw [if_neg hne, Tag.len_asRead]
    omega
  · rw [if_neg Tag.noConfusion, show (Tag.skip gap).len = gap from rfl]
    omega
  · rw [hb₁, behind_of_ne Tag.noConfusion, show (Tag.skip gap).len = gap from rfl]
    omega

/-- An inner record gets shorter, and what it gives back is to be skipped. -/
theorem split (hc : r.Cell rec pre t post m stop) (ht' : t'.stage? = some s)
    (hpass : passedByInput t = false) (hspan : span t'.len < span t.len)
    (hr' : r' = (r.withTag (nextRecord (r.fold m) t'.len) (.skip (nextRecord (r.fold m) t.len -
      nextRecord (r.fold m) t'.len - Tag.width))).withTag (r.fold m) t') :
    r'.Sound ∧ r.Continues 0 r' ∧ r'.records =
      revise rec.handle (fun e => ⟨e.handle, s, r.bytesAt e.handle.offset t'.len⟩) r.records := by
  obtain ⟨-, hf, hpost, hend⟩ := hc.laid.cell hc.tiled
  obtain ⟨hmod, hle, -, -, -⟩ := hc.laid.position hc.tiled
  obtain ⟨hstop, hstop', -⟩ := hc.laid.stop_room
  have hfits := hc.laid.fits
  have hlap : r.lap = r.limit + align := rfl
  have hwidth : Tag.width = 2 ∧ align = 4 := by decide
  have hmax := hc.maxLen
  have hwspan := width_le_span t'.len
  have hspan₁ := span_mod t'.len
  have hspan₂ := span_mod t.len
  have hle₂ := span_le t.len
  have hpost' := hpost.le
  have hb₁ := behind_of_ne (r := r) (u := m) hc.ne_startOver
  have hf₁ := hf.of_ne hc.ne_startOver
  have hend := hend hc.ne_startOver
  simp only [align] at hmod hspan₁ hspan₂
  simp only [nextRecord] at hr'
  generalize hgap : r.fold m + span t.len - (r.fold m + span t'.len) - Tag.width = gap at hr'
  have hgaplen : gap ≤ Tag.maxLen := by simp only [Tag.maxLen] at hmax ⊢; omega
  have hlen' : t'.len ≤ Tag.maxLen := by omega
  have hgapspan : span t'.len + span gap = span t.len := by
    simp only [span, align, Tag.width] at *
    omega
  have hx : r.fold m + Tag.width ≤ r.fold m + span t'.len := by omega
  have hx' : r.fold m + span t'.len + Tag.width ≤ r.arena.length := by omega
  obtain ⟨hlength, hbyte, htag, hgaptag⟩ := withTag_withTag t' (.skip gap) hx hx' hlen' hgaplen
  rw [← hr'] at hlength hbyte htag hgaptag
  have hlimit : r'.limit = r.limit := by rw [hr']; rfl
  have hb : r.Beside r' := ⟨hlimit, hlength, by rw [hr']; rfl, by rw [hr']; rfl⟩
  have hout : ∀ y, y < r.fold m ∨ r.fold m + span t.len ≤ y → r'.arena[y]? = r.arena[y]? :=
    fun y hy => hbyte y (by omega) (by omega)
  have hpre : r.AgreeOn r' r.outputReader m :=
    agreeOn_of_outside hlimit (by omega) hout (.inl ⟨Nat.le_refl m, by omega⟩)
  have hrest : r.AgreeOn r' (r.behind m t) stop :=
    agreeOn_of_outside hlimit (by omega) hout (.inr ⟨by omega, by omega⟩)
  have hmark : r'.tagAt (r.fold stop) = .ok .endOfRing := by
    rw [← hc.laid.mark]
    exact (agreeOn_of_outside hlimit (by omega) hout (.inr ⟨by omega, by omega⟩)).tagAt (by omega)
  have hnew := hc.tiled_split ht' hb hpre hlen' hgaplen hgapspan htag hgaptag
  have hne := Tag.asRead_ne_startOver (Tag.ne_startOver_of_stage ht')
  obtain ⟨hlaid, hcont, -, hrecs⟩ := hc.laid.patch hc.tiled hb (by rw [hr']; rfl) hpre hrest hmark
    hnew (by simpa using hne.symm) fun h => absurd h (by rw [hpass]; decide)
  refine ⟨hlaid.sound, hcont, ?_⟩
  have hpayload : r'.bytesAt (r.fold m) t'.len = r.bytesAt (r.fold m) t'.len :=
    take_drop_congr fun j hj => hbyte _ (by omega) (by omega)
  -- what is left of the cell is no record
  rw [hrecs, hc.revise_records, contents_cons, contents_singleton,
    recordsAt_of_none (t := .skip gap) rfl, List.append_nil, hc.recordsAt_asRead hb ht' hpayload]

end Cell

theorem discard_spec (hr : r.Sound) (hrec : rec ∈ r.records) (hs : rec.stage = .unfinished) :
    ∃ r', (discard rec.handle).on r = (.ok (), r') ∧ r'.Sound ∧ r.Continues 0 r' ∧
      r'.records = remove rec.handle r.records := by
  obtain ⟨pre, t, post, m, stop, hc⟩ := hr.exists_cell hrec
  have ht : t.stage? = some .unfinished := hs ▸ hc.stage
  rw [discard, Op.on_bind_ok (on_unfinishedLen hc.tagAt ht), Op.on_bind_ok (Op.on_get r)]
  by_cases hw : r.writer = nextRecord rec.handle.offset t.len
  · rw [if_pos hw, Op.on_bind_ok (Op.on_modify _ _)]
    rw [hc.handle] at hw ⊢
    refine ⟨_, on_setTag hc.room (Nat.zero_le _), ?_⟩
    have := hc.discard_last (passedByInput_unfinished ht) hw
    rwa [hc.handle] at this
  · rw [if_neg hw]
    obtain ⟨hon, hlaid, -, hcont, hrecs⟩ := hc.skip
    refine ⟨_, ?_, hlaid.sound, hcont, hrecs⟩
    rw [hc.handle]
    exact hon

theorem on_giveBack_last {x old : Nat} (hne : nextRecord x len ≠ nextRecord x old)
    (hw : r.writer = nextRecord x old) (hx : nextRecord x len + Tag.width ≤ r.arena.length) :
    (giveBack x old len).on r =
      (.ok (), { r with writer := nextRecord x len }.withTag (nextRecord x len) .endOfRing) := by
  rw [giveBack, if_neg hne, Op.on_bind_ok (Op.on_get r), if_pos hw,
    Op.on_bind_ok (Op.on_modify _ r)]
  exact on_setTag hx (Nat.zero_le _)

theorem on_giveBack_inner {x old : Nat} (hne : nextRecord x len ≠ nextRecord x old)
    (hw : r.writer ≠ nextRecord x old) (hx : nextRecord x len + Tag.width ≤ r.arena.length)
    (hgap : nextRecord x old - nextRecord x len - Tag.width ≤ Tag.maxLen) :
    (giveBack x old len).on r = (.ok (), r.withTag (nextRecord x len)
      (.skip (nextRecord x old - nextRecord x len - Tag.width))) := by
  rw [giveBack, if_neg hne, Op.on_bind_ok (Op.on_get r), if_neg hw]
  exact on_setTag hx hgap

/-- Write the tag of a record that gets shorter, once the space behind it is given back. -/
theorem Cell.shorten (t' : Tag) (hc : r.Cell rec pre t post m stop)
    (hpass : passedByInput t = false)
    (ht' : t'.stage? = some s) (hlen : t'.len ≤ Tag.maxLen) (hspan : span t'.len ≤ span t.len) :
    ∃ r', (do giveBack (r.fold m) t.len t'.len; setTag (r.fold m) t').on r = (.ok (), r') ∧
      r'.Sound ∧ r.Continues 0 r' ∧ r'.records =
        revise rec.handle (fun e => ⟨e.handle, s, r.bytesAt e.handle.offset t'.len⟩) r.records := by
  obtain ⟨-, hf, hpost, hend⟩ := hc.laid.cell hc.tiled
  have hend := hend hc.ne_startOver
  have hfits := hc.laid.fits
  have hlap : r.lap = r.limit + align := rfl
  have hwidth : Tag.width = 2 ∧ align = 4 := by decide
  have hx : nextRecord (r.fold m) t'.len + Tag.width ≤ r.arena.length := by
    unfold nextRecord; omega
  have hx' : ∀ t₂, r.fold m + Tag.width ≤
      (r.withTag (nextRecord (r.fold m) t'.len) t₂).arena.length := fun t₂ => by
    rw [length_withTag hx]; exact hc.room
  by_cases heq : nextRecord (r.fold m) t'.len = nextRecord (r.fold m) t.len
  · -- The record still fills its cell.
    have heq' : span t'.len = span t.len := by unfold nextRecord at heq; omega
    obtain ⟨hon, hlaid, -, hcont, hrecs⟩ := hc.laid.retag t' hc.tiled hc.ne_startOver
      (Tag.ne_startOver_of_stage ht') hlen heq' fun h => absurd h (by rw [hpass]; decide)
    rw [giveBack, if_pos heq, Op.on_bind_ok (Op.on_pure _ _)]
    refine ⟨_, hon, hlaid.sound, hcont, ?_⟩
    rw [hrecs, hc.revise_records, recordsAt_of_stage ((Tag.stage?_asRead t').trans ht'),
      Tag.len_asRead, hc.handle]
    rfl
  have hlt : span t'.len < span t.len := by unfold nextRecord at heq; omega
  by_cases hw : r.writer = nextRecord (r.fold m) t.len
  · rw [Op.on_bind_ok (on_giveBack_last heq hw hx)]
    refine ⟨_, on_setTag (hx' _) hlen, ?_⟩
    have hpost' := hpost.le
    have hb₁ := behind_of_ne (r := r) (u := m) hc.ne_startOver
    have hap := hc.laid.apart
    have hf₁ := hf.of_ne hc.ne_startOver
    exact hc.relength t' hpass hw ht' hlen (by omega) (by omega) rfl
  · have hmax := hc.maxLen
    have hle₁ := span_le t.len
    have hal := align_le_span t'.len
    have hgap : nextRecord (r.fold m) t.len - nextRecord (r.fold m) t'.len - Tag.width ≤
        Tag.maxLen := by unfold nextRecord; simp only [Tag.maxLen] at hmax ⊢; omega
    rw [Op.on_bind_ok (on_giveBack_inner heq hw hx hgap)]
    exact ⟨_, on_setTag (hx' _) hlen, hc.split ht' hpass hlt rfl⟩

theorem shrink_spec (hr : r.Sound) (hrec : rec ∈ r.records) (hs : rec.stage ≠ .output)
    (hlen : len ≤ rec.payload.length) :
    ∃ r', (shrink rec.handle len).on r = (.ok (), r') ∧ r'.Sound ∧ r.Continues 0 r' ∧ r'.records =
      revise rec.handle (fun e => { e with payload := e.payload.take len }) r.records := by
  obtain ⟨pre, t, post, m, stop, hc⟩ := hr.exists_cell hrec
  have hle : len ≤ t.len := hc.len ▸ hlen
  have hspan : span len ≤ span t.len := by simp only [span, Tag.width, align]; omega
  have hmax := hc.maxLen
  have hrev : revise rec.handle (fun e => ⟨e.handle, rec.stage, r.bytesAt e.handle.offset len⟩)
      r.records = revise rec.handle (fun e => { e with payload := e.payload.take len })
        r.records := by
    rw [hc.revise_records, hc.revise_records, hc.payload, List.take_take, Nat.min_eq_left hle,
      hc.handle]
    rfl
  rw [shrink, Op.on_bind_ok (Op.on_get r), hc.tagAt, Op.on_bind_ok (Op.on_lift _ r),
    if_neg (Nat.not_lt.2 hle), ← hrev]
  cases hst : rec.stage with
  | unfinished =>
    have ht : t.stage? = some .unfinished := hst ▸ hc.stage
    obtain ⟨r', hon, hsound, hcont, hrecs⟩ := hc.shorten (.pending len)
      (passedByInput_unfinished ht) rfl (by simp only [Tag.len]; omega) hspan
    refine ⟨r', ?_, hsound, hcont, hrecs⟩
    rw [hc.handle, ← hon]
    obtain he | he := Tag.eq_of_unfinished ht <;> rw [he] <;> rfl
  | input =>
    have ht : t.stage? = some .input := hst ▸ hc.stage
    obtain ⟨r', hon, hsound, hcont, hrecs⟩ := hc.shorten (.input len)
      (passedByInput_input ht) rfl (by simp only [Tag.len]; omega) hspan
    refine ⟨r', ?_, hsound, hcont, hrecs⟩
    rw [hc.handle, ← hon, Tag.eq_input ht]
    rfl
  | output => exact absurd hst hs

end Reflector.Ring
