import Reflector.Proofs.Ring.Room
/-!
Abandoned records. A record that is given up costs no room, and one that is given up before anything
else happened leaves the room that there was without it. That holds although the cursors may not be
back where they were: after a wrap the writer stays at the front, but what has no room there is
longer than the record that had none at the end of the arena.
-/
namespace Reflector.Ring

variable {α : Type} {r r' : Ring} {rec : Record} {h : Handle} {payload : Bytes} {p : Place}
  {len n : Nat}

structure Unspent (r r' : Ring) : Prop where
  records : r'.records = r.records
  allocates : ∀ n, r'.Allocates n ↔ r.Allocates n

theorem Unspent.refl (r : Ring) : r.Unspent r := ⟨rfl, fun _ => Iff.rfl⟩

theorem discard_cursors (hr : r.Sound) (hrec : rec ∈ r.records) (hs : rec.stage = .unfinished)
    (hon : (discard rec.handle).on r = (.ok (), r')) :
    r'.outputReader = r.outputReader ∧ r'.writer =
      if r.writer = nextRecord rec.handle.offset rec.payload.length then rec.handle.offset
      else r.writer := by
  obtain ⟨pre, t, post, m, stop, hc⟩ := hr.exists_cell hrec
  have ht : t.stage? = some .unfinished := hs ▸ hc.stage
  rw [discard, Op.on_bind_ok (on_unfinishedLen hc.tagAt ht), Op.on_bind_ok (Op.on_get r)] at hon
  rw [hc.len]
  have hoff : rec.handle.offset = r.fold m := by rw [hc.handle]
  rw [hoff] at hon ⊢
  split at hon
  · next hw =>
    rw [Op.on_bind_ok (Op.on_modify _ _),
      on_setTag (r := { r with writer := r.fold m }) hc.room (Nat.zero_le _)] at hon
    cases hon
    exact ⟨rfl, (if_pos hw).symm⟩
  · next hw =>
    rw [on_setTag (t := .skip t.len) hc.room hc.maxLen] at hon
    cases hon
    exact ⟨rfl, (if_neg hw).symm⟩

/-- The writer is on the same side of the output reader as the last record. -/
theorem Cell.last_side {pre post : List Tag} {t : Tag} {m stop : Nat}
    (hc : r.Cell rec pre t post m stop) (hw : r.writer = nextRecord (r.fold m) t.len) :
    r.outputReader ≤ r.fold m ∨ r.writer < r.outputReader := by
  obtain ⟨hstop, -⟩ := hc.last hw
  obtain ⟨-, hf, -, -⟩ := hc.laid.cell hc.tiled
  have hfits := hf.of_ne hc.ne_startOver
  rw [behind_of_ne hc.ne_startOver] at hstop
  have hle := hc.tiled.le
  have hap := hc.laid.apart
  have hwriter := hc.laid.writer
  have hlap : r.lap = r.limit + align := rfl
  unfold fold at hwriter ⊢
  split at hwriter <;> split <;> omega

/-- Giving up a record never takes the room of another one. -/
theorem discard_allocates (hr : r.Sound) (hrec : rec ∈ r.records) (hs : rec.stage = .unfinished)
    (hon : (discard rec.handle).on r = (.ok (), r')) (hn : r.Allocates n) : r'.Allocates n := by
  obtain ⟨r'', hon', hr', hcont, -⟩ := discard_spec hr hrec hs
  cases hon.symm.trans hon'
  obtain ⟨hout, hwriter⟩ := discard_cursors hr hrec hs hon
  obtain ⟨hfit, hplace⟩ := hr.allocates_iff.1 hn
  refine hr'.allocates_iff.2 ⟨by rwa [lenFits, hcont.limit], ?_⟩
  rw [ne_eq, place_eq_none_iff] at hplace ⊢
  rw [hcont.limit, hout]
  split at hwriter
  · next hw =>
    obtain ⟨pre, t, post, m, stop, hc⟩ := hr.exists_cell hrec
    have hoff : rec.handle.offset = r.fold m := by rw [hc.handle]
    rw [hc.len, hoff] at hw
    have hside := hc.last_side hw
    rw [hwriter, hoff]
    simp only [nextRecord] at *
    omega
  · rwa [hwriter]

/-- A record was opened in the first of the rings, and nothing but its bytes was touched since. -/
structure Opens (r : Ring) (h : Handle) (payload : Bytes) (r' : Ring) : Prop where
  leads : r.Leads r'
  records : r'.records = r.records ++ [⟨h, .unfinished, payload⟩]
  place : ∃ p, r.place payload.length = some p ∧ h.offset = r.startOf p ∧
    r'.writer = nextRecord h.offset payload.length ∧
    r'.outputReader = if p = .restart then 0 else r.outputReader

theorem allocate_opens (hr : r.Sound) (hon : (allocate len).on r = (.ok (some h), r')) :
    ∃ payload, payload.length = len ∧ r.Opens h payload r' := by
  obtain ⟨hfit, hplace⟩ := hr.allocates_iff.1 ⟨h, r', hon⟩
  obtain ⟨p, hp⟩ := Option.ne_none_iff_exists'.1 hplace
  obtain ⟨r'', hon', -, -, happ, payload, rfl, hrecs⟩ := allocate_at hr hfit hp
  cases hon.symm.trans hon'
  have hleads : r.Leads r' := .call (c := .allocate _) .refl trivial (Op.on_bind_ok hon)
  exact ⟨payload, rfl, hleads, hrecs, p, hp, rfl, happ.writer, happ.output⟩

theorem place_eq_restart (hp : r.place len = some .restart) : r.writer = r.outputReader := by
  unfold place at hp
  grind

theorem place_eq_wrap (hp : r.place len = some .wrap) : r.outputReader < r.writer ∧
    r.limit < nextRecord r.writer len ∧ nextRecord 0 len < r.outputReader := by
  unfold place at hp
  grind

/-- Back at a place for some record, the writer finds places for just the records it had one for
before. -/
theorem place_eq_none_back (hp : r.place len = some p) (hlimit : r'.limit = r.limit)
    (hwriter : r'.writer = r.startOf p)
    (hout : r'.outputReader = if p = .restart then 0 else r.outputReader) :
    r'.place n = none ↔ r.place n = none := by
  rw [place_eq_none_iff, place_eq_none_iff, hlimit, hwriter, hout]
  cases p with
  | next => exact Iff.rfl
  | restart =>
    have := place_eq_restart hp
    simp only [startOf, if_true]
    omega
  | wrap =>
    have := place_eq_wrap hp
    simp only [startOf, reduceCtorEq, if_false, nextRecord] at *
    omega

namespace Opens

variable (hr : r.Sound) (ho : r.Opens h payload r')

include ho

theorem mem : ⟨h, .unfinished, payload⟩ ∈ r'.records := by simp [ho.records]

include hr

theorem edit {e : Edit α} (hlen : (e.on payload).2.length = payload.length) :
    ∃ r'', (editPayload h e).on r' = ((e.on payload).1, r'') ∧
      r.Opens h (e.on payload).2 r'' := by
  have hr' := ho.leads.sound hr
  obtain ⟨p, hp, hoff, hwriter, hout⟩ := ho.place
  obtain ⟨r'', hedit, -, -, hrecs⟩ := editPayload_spec hr' ho.mem hlen
  rw [hr'.revise_eq ho.records] at hrecs
  have hraw := on_editPayload (payload_of_mem hr' ho.mem) hlen
  cases hedit.symm.trans hraw
  refine ⟨_, hedit, ho.leads.trans (.edit hr' ho.mem hlen hedit), hrecs, p, ?_⟩
  rw [hlen]
  exact ⟨hp, hoff, hwriter, hout⟩

theorem discard : ∃ r'', (discard h).on r' = (.ok (), r'') ∧ r.Leads r'' ∧ r.Unspent r'' := by
  have hr' := ho.leads.sound hr
  obtain ⟨p, hp, hoff, hw, hout⟩ := ho.place
  obtain ⟨r'', hon, hr'', hcont, hrecs⟩ := discard_spec hr' ho.mem rfl
  rw [hr'.remove_eq ho.records, List.append_nil] at hrecs
  obtain ⟨hout', hwriter⟩ := discard_cursors hr' ho.mem rfl hon
  rw [if_pos hw] at hwriter
  have hlimit : r''.limit = r.limit := hcont.limit.trans (ho.leads.limit hr)
  have hback (n : Nat) : r''.place n = none ↔ r.place n = none :=
    place_eq_none_back hp hlimit (hwriter.trans hoff) (hout'.trans hout)
  have hleads := ho.leads.call (c := .discard h) ⟨_, List.mem_map_of_mem ho.mem, rfl, rfl⟩
    (Op.on_bind_ok hon)
  refine ⟨r'', hon, hleads, hrecs, fun n => ?_⟩
  rw [hr''.allocates_iff, hr.allocates_iff, ne_eq, ne_eq, hback, lenFits, lenFits, hlimit]

end Opens

end Reflector.Ring
