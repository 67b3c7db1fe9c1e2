import Reflector.Proofs.Ring.Queues
/-!
The payload of a record is read and changed in place.
-/
namespace Reflector.Ring

variable {α : Type} {r : Ring} {t : Tag} {pre post : List Tag} {stop m : Nat} {rec : Record}

def withPayload (r : Ring) (h : Handle) (new : Bytes) : Ring :=
  { r with arena := r.arena.put (h.offset + Tag.width) new }

namespace Cell

theorem payload_room (hc : r.Cell rec pre t post m stop) :
    r.fold m + Tag.width + t.len ≤ r.arena.length := by
  have hend := (hc.laid.cell hc.tiled).2.2.2 hc.ne_startOver
  have hspan := width_le_span t.len
  have hfits := hc.laid.fits
  have hlap : r.lap = r.limit + align := rfl
  omega

theorem on_payload (hc : r.Cell rec pre t post m stop) :
    r.payload rec.handle = .ok rec.payload := by
  have hroom := hc.payload_room
  have hoff : rec.handle.offset = r.fold m := by rw [hc.handle]
  have hlen : r.len rec.handle = .ok t.len := by
    rw [Ring.len, hc.tagAt]
    rfl
  rw [Ring.payload, hlen]
  dsimp only [bind, Except.bind]
  rw [Bytes.slice_of_le (by omega) (by omega), List.drop_take, Nat.add_sub_cancel_left, hoff,
    hc.payload]

theorem withPayload (hc : r.Cell rec pre t post m stop) {new : Bytes} (hnew : new.length = t.len) :
    (r.withPayload rec.handle new).Laid (pre ++ t :: post) stop ∧
      r.Continues 0 (r.withPayload rec.handle new) ∧
      (r.withPayload rec.handle new).records =
        revise rec.handle (fun e => { e with payload := new }) r.records := by
  obtain ⟨htag, hf, hpost, -⟩ := hc.laid.cell hc.tiled
  obtain ⟨-, hle, -, -, -⟩ := hc.laid.position hc.tiled
  obtain ⟨hstop, hstop', -⟩ := hc.laid.stop_room
  have hin := hc.payload_room
  have hspan := width_le_span t.len
  have hlap : r.lap = r.limit + align := rfl
  have hwidth : Tag.width = 2 ∧ align = 4 := by decide
  have hpost' := hpost.le
  have hf' := hf.of_ne hc.ne_startOver
  have hbehind := behind_of_ne (r := r) (u := m) hc.ne_startOver
  generalize hr' : r.withPayload rec.handle new = r'
  have hin' : r.fold m + Tag.width + new.length ≤ r.arena.length := by omega
  have hbyte : ∀ y, y < r.fold m + Tag.width ∨ r.fold m + Tag.width + t.len ≤ y →
      r'.arena[y]? = r.arena[y]? := fun y hy => by
    rw [← hr', Ring.withPayload, hc.handle, Bytes.getElem?_put hin', if_neg (by omega)]
  have hb : r.Beside r' := by
    rw [← hr']
    exact ⟨rfl, by rw [Ring.withPayload, hc.handle]; exact Bytes.length_put hin', rfl, rfl⟩
  have hout : ∀ y, y < r.fold m ∨ r.fold m + span t.len ≤ y → r'.arena[y]? = r.arena[y]? :=
    fun y hy => hbyte y (by omega)
  have hpre : r.AgreeOn r' r.outputReader m :=
    agreeOn_of_outside hb.limit (by omega) hout (.inl ⟨Nat.le_refl m, by omega⟩)
  have hrest : r.AgreeOn r' (r.behind m t) stop :=
    agreeOn_of_outside hb.limit (by omega) hout (.inr ⟨by omega, by omega⟩)
  have hmark : r'.tagAt (r.fold stop) = .ok .endOfRing := by
    rw [← hc.laid.mark]
    exact (agreeOn_of_outside hb.limit (by omega) hout (.inr ⟨by omega, by omega⟩)).tagAt (by omega)
  have htag' : r'.tagAt (r.fold m) = .ok t := by
    rw [← htag]
    exact tagAt_congr (hbyte _ (by omega)) (hbyte _ (by omega))
  have hcell : r'.Tiled m [t] (r.behind m t) :=
    ⟨by rwa [hb.fold_eq], hpre.fits_iff.2 hf, hpre.behind_eq⟩
  obtain ⟨hlaid, hcont, -, hrecs⟩ := hc.laid.patch hc.tiled hb (by rw [← hr']; rfl) hpre hrest
    hmark hcell (by simpa using hc.ne_startOver.symm)
    fun hpass t₁ ht₁ => List.mem_singleton.1 ht₁ ▸ hpass
  refine ⟨by simpa using hlaid, hcont, ?_⟩
  have hbytes : (r'.arena.drop (r.fold m + Tag.width)).take t.len = new := by
    refine List.ext_getElem? fun j => ?_
    rw [List.getElem?_take, List.getElem?_drop]
    split
    · rw [← hr', Ring.withPayload, hc.handle, Bytes.getElem?_put hin', if_pos (by omega),
        Nat.add_sub_cancel_left]
    · next hj => exact (List.getElem?_eq_none (by omega)).symm
  have hcontents : r'.contents m [t] = [{ rec with payload := new }] := by
    calc r'.contents m [t]
      _ = r'.recordsAt (r.fold m) t := by rw [contents_singleton, hb.fold_eq]
      _ = [⟨⟨r.fold m⟩, rec.stage, new⟩] := by rw [recordsAt_of_stage hc.stage, hbytes]
      _ = [{ rec with payload := new }] := by rw [hc.handle]
  rw [hrecs, hc.revise_records, hcontents]

end Cell

theorem payload_of_mem (hr : r.Sound) (hrec : rec ∈ r.records) :
    r.payload rec.handle = .ok rec.payload := by
  obtain ⟨pre, t, post, m, stop, hc⟩ := hr.exists_cell hrec
  exact hc.on_payload

theorem take_of_payload {h : Handle} {b : Bytes} (hb : r.payload h = .ok b) :
    (r.arena.drop (h.offset + Tag.width)).take b.length = b := by
  unfold Ring.payload at hb
  cases hn : r.len h with
  | error e =>
    rw [hn] at hb
    cases hb
  | ok n =>
    rw [hn] at hb
    dsimp only [bind, Except.bind, Bytes.slice] at hb
    split at hb
    · next hin =>
      cases hb
      rw [List.length_drop, List.length_take, List.drop_take]
      congr 1
      omega
    · cases hb

theorem on_editPayload {h : Handle} {e : Edit α} {b : Bytes} (hb : r.payload h = .ok b)
    (hlen : (e.on b).2.length = b.length) :
    (editPayload h e).on r = ((e.on b).1, r.withPayload h (e.on b).2) := by
  have hview : (Op.view fun r : Ring => r.payload h).on r = (.ok b, r) := by rw [Op.on_view, hb]
  rw [editPayload, Op.on_bind_ok hview, editArena, Op.on_focus, Edit.within, Op.on_focus,
    take_of_payload hb]
  rw [withPayload, Bytes.put, hlen]

theorem editPayload_spec (hr : r.Sound) (hrec : rec ∈ r.records) {e : Edit α}
    (hlen : (e.on rec.payload).2.length = rec.payload.length) :
    ∃ r', (editPayload rec.handle e).on r = ((e.on rec.payload).1, r') ∧ r'.Sound ∧
      r.Continues 0 r' ∧ r'.records =
        revise rec.handle (fun old => { old with payload := (e.on rec.payload).2 }) r.records := by
  obtain ⟨pre, t, post, m, stop, hc⟩ := hr.exists_cell hrec
  obtain ⟨hlaid, hcont, hrecs⟩ := hc.withPayload (hlen.trans hc.len)
  exact ⟨_, on_editPayload hc.on_payload hlen, hlaid.sound, hcont, hrecs⟩

end Reflector.Ring
