import Reflector.Proofs.Ring.Layout
/-!
Where a record is: each record of a sound ring has one cell, and no other record has its handle.
-/
namespace Reflector.Ring

variable {r r' : Ring} {t t' : Tag} {tags pre post : List Tag} {stop u v m : Nat} {rec : Record}
  {h : Handle}

def revise (h : Handle) (f : Record → Record) (l : List Record) : List Record :=
  l.map fun rec => if rec.handle = h then f rec else rec

def remove (h : Handle) (l : List Record) : List Record := l.filter fun rec => rec.handle ≠ h

/-- The cells of the ring are laid out in order. -/
def Sound (r : Ring) : Prop := ∃ tags stop, r.Laid tags stop

theorem Laid.sound (hl : r.Laid tags stop) : r.Sound := ⟨tags, stop, hl⟩

theorem revise_append {a b : List Record} {f : Record → Record}
    (hn : ∀ e ∈ a ++ b, e.handle ≠ rec.handle) :
    revise rec.handle f (a ++ [rec] ++ b) = a ++ [f rec] ++ b := by
  have hid : ∀ l : List Record, (∀ e ∈ l, e.handle ≠ rec.handle) →
      l.map (fun e => if e.handle = rec.handle then f e else e) = l := by
    intro l hl
    exact (List.map_congr_left fun e he => if_neg (hl e he)).trans (List.map_id l)
  simp only [revise, List.map_append, List.map_cons, List.map_nil, if_pos]
  rw [hid a fun e he => hn e (List.mem_append_left b he),
    hid b fun e he => hn e (List.mem_append_right a he)]

theorem remove_append {a b : List Record} (hn : ∀ e ∈ a ++ b, e.handle ≠ rec.handle) :
    remove rec.handle (a ++ [rec] ++ b) = a ++ b := by
  have hid : ∀ l : List Record, (∀ e ∈ l, e.handle ≠ rec.handle) →
      l.filter (fun e => decide (e.handle ≠ rec.handle)) = l := by
    intro l hl
    exact List.filter_eq_self.2 fun e he => decide_eq_true (hl e he)
  simp only [remove, List.filter_append]
  rw [hid a fun e he => hn e (List.mem_append_left b he),
    hid b fun e he => hn e (List.mem_append_right a he)]
  simp

theorem recordsAt_of_stage {x : Nat} {s : Stage} (ht : t.stage? = some s) :
    r.recordsAt x t = [⟨⟨x⟩, s, (r.arena.drop (x + Tag.width)).take t.len⟩] := by
  simp only [recordsAt, ht, Option.toList_some, List.map_cons, List.map_nil]

theorem recordsAt_of_none {x : Nat} (ht : t.stage? = none) : r.recordsAt x t = [] := by
  simp only [recordsAt, ht, Option.toList_none, List.map_nil]

theorem Tag.ne_startOver_of_stage {s : Stage} (ht : t.stage? = some s) : t ≠ .startOver := by
  rintro rfl
  cases ht

theorem exists_cell (ht : r.Tiled u tags v) (hrec : rec ∈ r.contents u tags) :
    ∃ pre t post m, tags = pre ++ t :: post ∧ r.Tiled u pre m ∧ rec ∈ r.recordsAt (r.fold m) t := by
  induction tags generalizing u with
  | nil => simp [contents, cells] at hrec
  | cons t tags ih =>
    obtain ⟨ht₀, hf, hr⟩ := ht
    rw [contents_cons, List.mem_append] at hrec
    cases hrec with
    | inl hrec => exact ⟨[], t, tags, u, rfl, rfl, hrec⟩
    | inr hrec =>
      obtain ⟨pre, t', post, m, rfl, hm, hmem⟩ := ih hr hrec
      exact ⟨t :: pre, t', post, m, rfl, ⟨ht₀, hf, hm⟩, hmem⟩

theorem exists_position (ht : r.Tiled u tags v) (hrec : rec ∈ r.contents u tags) :
    ∃ p, u ≤ p ∧ p < v ∧ rec.handle = ⟨r.fold p⟩ := by
  obtain ⟨pre, t, post, p, rfl, hp, hmem⟩ := exists_cell ht hrec
  obtain ⟨p', hp', -, hf, hpost⟩ := Tiled.append_iff.1 ht
  obtain rfl := hp.unique hp'
  have := hp.le
  have := hf.align_le
  have := hpost.le
  refine ⟨p, by omega, by simp only [align] at *; omega, ?_⟩
  simp only [recordsAt, List.mem_map] at hmem
  obtain ⟨s, -, rfl⟩ := hmem
  rfl

structure Cell (r : Ring) (rec : Record) (pre : List Tag) (t : Tag) (post : List Tag)
    (m stop : Nat) : Prop where
  laid : r.Laid (pre ++ t :: post) stop
  tiled : r.Tiled r.outputReader pre m
  stage : t.stage? = some rec.stage
  handle : rec.handle = ⟨r.fold m⟩
  payload : rec.payload = (r.arena.drop (r.fold m + Tag.width)).take t.len
  len : rec.payload.length = t.len

namespace Laid

theorem cell (hl : r.Laid (pre ++ t :: post) stop) (hm : r.Tiled r.outputReader pre m) :
    r.tagAt (r.fold m) = .ok t ∧ r.Fits m t ∧ r.Tiled (r.behind m t) post stop ∧
      (t ≠ .startOver → r.fold m + span t.len ≤ r.limit) := by
  obtain ⟨m', hm', ht, hf, hpost⟩ := Tiled.append_iff.1 hl.tiled
  obtain rfl := hm.unique hm'
  refine ⟨ht, hf, hpost, fun hn => ?_⟩
  have hroom := hf.of_ne hn
  have hpost := hpost.le
  rw [behind_of_ne hn] at hpost
  have := hl.apart
  have := hl.first_le
  unfold fold
  split <;> omega

theorem handle_ne (hl : r.Laid (pre ++ t :: post) stop) (hm : r.Tiled r.outputReader pre m)
    {e : Record}
    (he : e ∈ r.contents r.outputReader pre ++ r.contents (r.behind m t) post) :
    e.handle ≠ ⟨r.fold m⟩ := by
  obtain ⟨-, hf, hpost, -⟩ := hl.cell hm
  have hap := hl.apart
  have hle := hm.le
  have hle' := hpost.le
  have hal := hf.align_le
  simp only [align] at hal
  cases List.mem_append.1 he with
  | inl he =>
    obtain ⟨p, hp, hpm, hh⟩ := exists_position hm he
    rw [hh]
    exact fun heq => fold_ne hpm (by omega) (Handle.mk.inj heq)
  | inr he =>
    obtain ⟨p, hp, hps, hh⟩ := exists_position hpost he
    rw [hh]
    exact fun heq => fold_ne (r := r) (u := m) (v := p) (by omega) (by omega)
      (Handle.mk.inj heq).symm

theorem locate (hl : r.Laid tags stop) (hrec : rec ∈ r.records) :
    ∃ pre t post m, tags = pre ++ t :: post ∧ r.Cell rec pre t post m stop := by
  rw [hl.records_eq] at hrec
  obtain ⟨pre, t, post, m, rfl, hm, hmem⟩ := exists_cell hl.tiled hrec
  simp only [recordsAt, List.mem_map, Option.mem_toList] at hmem
  obtain ⟨s, hs, rfl⟩ := hmem
  refine ⟨pre, t, post, m, rfl, hl, hm, hs, rfl, rfl, ?_⟩
  have hroom := (hl.cell hm).2.2.2 (Tag.ne_startOver_of_stage hs)
  have := width_le_span t.len
  have := hl.fits
  simp only [List.length_take, List.length_drop, lap] at *
  omega

theorem retag (t' : Tag) (hl : r.Laid (pre ++ t :: post) stop) (hm : r.Tiled r.outputReader pre m)
    (ht : t ≠ .startOver) (ht' : t' ≠ .startOver) (hlen : t'.len ≤ Tag.maxLen)
    (hspan : span t'.len = span t.len)
    (hpass : passedByInput t = true → passedByInput t' = true) :
    (setTag (r.fold m) t').on r = (.ok (), r.withTag (r.fold m) t') ∧
      (r.withTag (r.fold m) t').Laid (pre ++ [t'.asRead] ++ post) stop ∧
      (r.withTag (r.fold m) t').Tiled r.outputReader (pre ++ [t'.asRead]) (r.behind m t) ∧
      r.Continues 0 (r.withTag (r.fold m) t') ∧
      (r.withTag (r.fold m) t').records = r.contents r.outputReader pre ++
        r.recordsAt (r.fold m) t'.asRead ++ r.contents (r.behind m t) post := by
  obtain ⟨-, hf, hpost, -⟩ := hl.cell hm
  obtain ⟨-, hle, -, hends, hfold⟩ := hl.position hm
  obtain ⟨hroom', hends', -⟩ := hl.stop_room
  have hfits := hl.fits
  have hal := hf.align_le
  have hpost' := hpost.le
  have hw : Tag.width ≤ align := by decide
  have hx : r.fold m + Tag.width ≤ r.arena.length := by omega
  have hb := beside_withTag (t := t') hx
  have hbehind : r.behind m t'.asRead = r.behind m t := by
    rw [behind_of_ne (Tag.asRead_ne_startOver ht'), behind_of_ne ht, Tag.len_asRead, hspan]
  have hf' : r.Fits m t'.asRead := by
    refine ⟨by rw [Tag.len_asRead]; exact hlen, ?_⟩
    rw [if_neg (Tag.asRead_ne_startOver ht'), Tag.len_asRead, hspan]
    exact hf.of_ne ht
  have hpre : r.AgreeOn (r.withTag (r.fold m) t') r.outputReader m :=
    agreeOn_withTag hx (by omega) (.inl ⟨Nat.le_refl _, by omega⟩)
  have hnew : (r.withTag (r.fold m) t').Tiled m [t'.asRead] (r.behind m t) :=
    ⟨tagAt_withTag hx hlen, hf', hbehind⟩
  have hmark : (r.withTag (r.fold m) t').tagAt (r.fold stop) = .ok .endOfRing := by
    rw [← hl.mark]
    exact (agreeOn_withTag hx (by omega) (.inr ⟨by omega, by omega⟩)).tagAt (by omega)
  have hplain : Tag.startOver ∉ [t'.asRead] := fun h =>
    Tag.asRead_ne_startOver ht' (List.mem_singleton.1 h).symm
  obtain ⟨hlaid, hcont, -, hrec⟩ := hl.patch hm hb rfl hpre
    (agreeOn_withTag hx (by omega) (.inr ⟨by omega, by omega⟩)) hmark hnew hplain fun h t₁ ht₁ => by
      rw [List.mem_singleton.1 ht₁, Tag.passedByInput_asRead]
      exact hpass h
  refine ⟨on_setTag hx hlen, hlaid, (hm.congr hpre).1.append hnew, hcont, ?_⟩
  have hrecords : (r.withTag (r.fold m) t').recordsAt (r.fold m) t'.asRead =
      r.recordsAt (r.fold m) t'.asRead := by
    simp only [recordsAt, drop_withTag hx (Nat.le_refl _)]
  rw [hrec, contents_cons, hb.fold_eq, hrecords]
  simp [contents, cells]

end Laid

namespace Cell

theorem ne_startOver (hc : r.Cell rec pre t post m stop) : t ≠ .startOver :=
  Tag.ne_startOver_of_stage hc.stage

theorem tagAt (hc : r.Cell rec pre t post m stop) : r.tagAt rec.handle.offset = .ok t := by
  rw [hc.handle]
  exact (hc.laid.cell hc.tiled).1

theorem records (hc : r.Cell rec pre t post m stop) :
    r.records = r.contents r.outputReader pre ++ [rec] ++ r.contents (r.behind m t) post := by
  have he : r.recordsAt (r.fold m) t = [rec] := by
    rw [recordsAt_of_stage hc.stage, ← hc.handle, ← hc.payload]
  calc r.records
    _ = r.contents r.outputReader (pre ++ t :: post) := hc.laid.records_eq
    _ = r.contents r.outputReader pre ++ (r.recordsAt (r.fold m) t ++
          r.contents (r.behind m t) post) := by rw [contents_append hc.tiled, contents_cons]
    _ = r.contents r.outputReader pre ++ [rec] ++ r.contents (r.behind m t) post := by
      rw [he, List.append_assoc]

theorem handle_ne (hc : r.Cell rec pre t post m stop) (e : Record)
    (he : e ∈ r.contents r.outputReader pre ++ r.contents (r.behind m t) post) :
    e.handle ≠ rec.handle := by
  rw [hc.handle]
  exact hc.laid.handle_ne hc.tiled he

theorem revise_records {f : Record → Record} (hc : r.Cell rec pre t post m stop) :
    revise rec.handle f r.records = r.contents r.outputReader pre ++ [f rec] ++
      r.contents (r.behind m t) post := by
  rw [hc.records, revise_append hc.handle_ne]

theorem remove_records (hc : r.Cell rec pre t post m stop) :
    remove rec.handle r.records = r.contents r.outputReader pre ++
      r.contents (r.behind m t) post := by
  rw [hc.records, remove_append hc.handle_ne]

end Cell

theorem nodup_handles (ht : r.Tiled u tags v) (hv : v < u + r.lap) :
    ((r.contents u tags).map Record.handle).Nodup := by
  induction tags generalizing u with
  | nil => exact List.nodup_nil
  | cons t tags ih =>
    obtain ⟨-, hf, hr⟩ := ht
    have hu := hf.align_le
    simp only [align] at hu
    have hrest := ih hr (by omega)
    rw [contents_cons, List.map_append]
    cases hs : t.stage? with
    | none => rwa [recordsAt_of_none hs]
    | some s =>
      rw [recordsAt_of_stage hs]
      refine List.nodup_cons.2 ⟨fun hmem => ?_, hrest⟩
      obtain ⟨e, he, heq⟩ := List.mem_map.1 hmem
      obtain ⟨p, hp, hpv, hh⟩ := exists_position hr he
      rw [hh] at heq
      exact fold_ne (r := r) (u := u) (v := p) (by omega) (by omega) (Handle.mk.inj heq).symm

theorem Sound.exists_cell (hs : r.Sound) (hrec : rec ∈ r.records) :
    ∃ pre t post m stop, r.Cell rec pre t post m stop := by
  obtain ⟨tags, stop, hl⟩ := hs
  obtain ⟨pre, t, post, m, -, hc⟩ := hl.locate hrec
  exact ⟨pre, t, post, m, stop, hc⟩

/-- The output reader stays at a record that is still there. -/
theorem Continues.outputReader_eq {n : Nat} (h : r.Continues n r') (hs : r'.Sound)
    (hrec : rec ∈ r'.records) (hread : r.outputReader = rec.handle.offset) :
    r'.outputReader = rec.handle.offset := by
  obtain ⟨pre, t, post, m, stop, hc⟩ := hs.exists_cell hrec
  have hcell : (rec.handle.offset, t) ∈ r'.layout := by
    rw [hc.laid.layout_eq, cells_append hc.tiled, hc.handle]
    exact List.mem_append_right _ List.mem_cons_self
  rw [← hread] at hcell ⊢
  exact h.steady t hcell

theorem Sound.nodup (hs : r.Sound) : (r.records.map Record.handle).Nodup := by
  obtain ⟨tags, stop, hl⟩ := hs
  rw [hl.records_eq]
  exact nodup_handles hl.tiled hl.apart

section

variable {pre post : List Record} (hs : r.Sound) (hl : r.records = pre ++ rec :: post)

include hs hl

theorem Sound.handle_ne : ∀ e ∈ pre ++ post, e.handle ≠ rec.handle := by
  have hn := hs.nodup
  rw [hl, List.map_append, List.map_cons] at hn
  obtain ⟨-, hpost, hpre⟩ := List.nodup_append.1 hn
  intro e he heq
  cases List.mem_append.1 he with
  | inl h => exact hpre _ (List.mem_map.2 ⟨e, h, rfl⟩) _ (.head _) heq
  | inr h => exact (List.nodup_cons.1 hpost).1 (heq ▸ List.mem_map.2 ⟨e, h, rfl⟩)

theorem Sound.revise_eq (f : Record → Record) :
    revise rec.handle f r.records = pre ++ f rec :: post := by
  rw [hl, List.append_cons, revise_append (hs.handle_ne hl), ← List.append_cons]

theorem Sound.remove_eq : remove rec.handle r.records = pre ++ post := by
  rw [hl, List.append_cons, remove_append (hs.handle_ne hl)]

end

end Reflector.Ring
