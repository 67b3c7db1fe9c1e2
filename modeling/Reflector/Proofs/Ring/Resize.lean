import Reflector.Proofs.Ring.Append
import Reflector.Proofs.Ring.Payload
/-!
Changing the length of a record that is still being written. It keeps its first bytes, in place or
at the end of the ring.
-/
namespace Reflector.Ring

variable {r r' : Ring} {t : Tag} {pre post : List Tag} {stop m len : Nat} {rec : Record} {p : Place}
  {payload : Bytes}

def Keeps (old new : Bytes) : Prop := new.take old.length = old.take new.length

theorem keeps_bytesAt {x old : Nat} (hold : x + Tag.width + old ≤ r.arena.length)
    (hnew : x + Tag.width + len ≤ r.arena.length) : Keeps (r.bytesAt x old) (r.bytesAt x len) := by
  rw [Keeps, length_bytesAt hold, length_bytesAt hnew, bytesAt, bytesAt]
  calc ((r.arena.drop (x + Tag.width)).take len).take old
    _ = (r.arena.drop (x + Tag.width)).take (min old len) := List.take_take
    _ = (r.arena.drop (x + Tag.width)).take (min len old) := by rw [Nat.min_comm]
    _ = ((r.arena.drop (x + Tag.width)).take old).take len := List.take_take.symm

theorem keeps_of_prefix {old new : Bytes} (hlen : old.length ≤ new.length)
    (h : ∀ j < old.length, new[j]? = old[j]?) : Keeps old new := by
  unfold Keeps
  rw [List.take_of_length_le hlen]
  refine List.ext_getElem? fun j => ?_
  rw [List.getElem?_take]
  split
  · next hj => exact h j hj
  · next hj => exact (List.getElem?_eq_none (by omega)).symm

namespace Cell

theorem payload_eq (hc : r.Cell rec pre t post m stop) : rec.payload = r.bytesAt (r.fold m) t.len :=
  hc.payload

theorem revise_bytesAt (hc : r.Cell rec pre t post m stop) (hs : rec.stage = .unfinished)
    (hroom : r.fold m + span len ≤ r.limit) (hrecs : r'.records = revise rec.handle
      (fun e => ⟨e.handle, .unfinished, r.bytesAt e.handle.offset len⟩) r.records) :
    ∃ payload, payload.length = len ∧ Keeps rec.payload payload ∧
      r'.records = revise rec.handle (fun e => { e with payload }) r.records := by
  have hspan := width_le_span len
  have hfits := hc.laid.fits
  have hlap : r.lap = r.limit + align := rfl
  have hnew : r.fold m + Tag.width + len ≤ r.arena.length := by omega
  refine ⟨r.bytesAt (r.fold m) len, length_bytesAt hnew, ?_, ?_⟩
  · rw [hc.payload_eq]
    exact keeps_bytesAt hc.payload_room hnew
  · rw [hrecs, hc.revise_records, hc.revise_records, hs, hc.handle]

theorem grow_room (hc : r.Cell rec pre t post m stop)
    (hb : if r.fold m < r.outputReader then nextRecord (r.fold m) len < r.outputReader
      else nextRecord (r.fold m) len ≤ r.limit) :
    (m + span len ≤ r.limit ∨ r.lap ≤ m) ∧ m + span len < r.outputReader + r.lap ∧
      r.fold m + span len ≤ r.limit := by
  obtain ⟨-, hle, hroom, -, -⟩ := hc.laid.position hc.tiled
  have hfirst := hc.laid.first_le
  have hlap : r.lap = r.limit + align := rfl
  have halign : 0 < align := by decide
  simp only [nextRecord] at hb
  by_cases hm : m < r.lap
  · rw [fold_of_lt hm] at hb ⊢
    rw [if_neg (by omega)] at hb
    omega
  · rw [fold_of_le (by omega)] at hb ⊢
    rw [if_pos (by omega)] at hb
    omega

end Cell

theorem getElem?_withTag_congr {x y : Nat} (hx : x + Tag.width ≤ r.arena.length)
    (hlen : r'.arena.length = r.arena.length) (hy : r'.arena[y]? = r.arena[y]?) :
    (r'.withTag x t).arena[y]? = (r.withTag x t).arena[y]? := by
  have hx' : x + t.bytes.length ≤ r'.arena.length := hlen ▸ hx
  rw [withTag, withTag, Bytes.getElem?_put hx', Bytes.getElem?_put hx, hy]

def withMoved (r : Ring) (old oldLen new : Nat) (data : Bytes) : Ring :=
  { r.withTag old (.skip oldLen) with
    arena := (r.withTag old (.skip oldLen)).arena.put (new + Tag.width) data }

theorem on_movePayload (new : Nat) {old oldLen : Nat} {data : Bytes}
    (hold : old + Tag.width ≤ r.arena.length) (hlen : oldLen ≤ Tag.maxLen)
    (hend : old + Tag.width + oldLen ≤ r.arena.length)
    (hdata : r.bytesAt old oldLen = data) (hnew : new + Tag.width + oldLen ≤ r.arena.length) :
    (movePayload old oldLen new).on r = (.ok (), r.withMoved old oldLen new data) := by
  have hlength := length_withTag (t := .skip oldLen) hold
  have hdlen : data.length = oldLen := by rw [← hdata, length_bytesAt hend]
  have hslice : (r.withTag old (.skip oldLen)).arena.slice (old + Tag.width)
      (old + Tag.width + oldLen) = .ok data := by
    rw [Bytes.slice_of_le (by omega) (by omega), List.drop_take, Nat.add_sub_cancel_left,
      drop_withTag hold (Nat.le_refl _)]
    exact congrArg Except.ok hdata
  have hview : (Op.view fun r : Ring => r.arena.slice (old + Tag.width)
      (old + Tag.width + oldLen)).on (r.withTag old (.skip oldLen)) =
      (.ok data, r.withTag old (.skip oldLen)) := by
    rw [Op.on_view, hslice]
  rw [movePayload, Op.on_bind_ok (on_setTag (t := .skip oldLen) hold hlen)]
  dsimp only
  rw [Op.on_bind_ok hview, editArena, Op.on_focus, Edit.on_write (by omega)]
  rfl

theorem getElem?_withMoved {old oldLen new y : Nat} {data : Bytes}
    (hold : old + Tag.width ≤ r.arena.length)
    (hnew : new + Tag.width + data.length ≤ r.arena.length) :
    (r.withMoved old oldLen new data).arena[y]? =
      if new + Tag.width ≤ y ∧ y < new + Tag.width + data.length then
        data[y - (new + Tag.width)]?
      else (r.withTag old (.skip oldLen)).arena[y]? := by
  have hlength := length_withTag (t := .skip oldLen) hold
  exact Bytes.getElem?_put (by omega)

theorem keeps_withMoved {old : Nat} (oldLen new : Nat) {data : Bytes}
    (hold : old + Tag.width ≤ r.arena.length) (hlen : data.length ≤ len)
    (hnew : nextRecord new len + Tag.width ≤ r.arena.length) :
    Keeps data (((r.withMoved old oldLen new data).withTag (nextRecord new len) .endOfRing).bytesAt
      new len) := by
  have hspan := width_le_span len
  have hnext : nextRecord new len = new + span len := rfl
  have hskipped := length_withTag (t := .skip oldLen) hold
  have hlength : (r.withMoved old oldLen new data).arena.length = r.arena.length := by
    rw [withMoved, Bytes.length_put (by omega), hskipped]
  have hn : nextRecord new len + Tag.width ≤ (r.withMoved old oldLen new data).arena.length := by
    omega
  refine keeps_of_prefix ?_ fun j hj => ?_
  · rw [length_bytesAt (by rw [length_withTag hn]; omega)]
    exact hlen
  · rw [bytesAt, List.getElem?_take_of_lt (by omega), List.getElem?_drop]
    refine (getElem?_withTag hn (by omega)).trans ?_
    rw [getElem?_withMoved hold (by omega), if_pos (by omega), Nat.add_sub_cancel_left]

namespace Cell

/-- The tags of a new record do not touch the bytes of another one. -/
theorem opened_payload (hc : r.Cell rec pre t post m stop) (hp : r.place len = some p)
    (ho : Opened r (r.opened p len) p len) :
    (r.opened p len).bytesAt (r.fold m) t.len = rec.payload := by
  obtain ⟨hapart, hbefore, -⟩ := hc.place_apart hp
  have hwidth : Tag.width = 2 ∧ align = 4 := by decide
  have hspan := width_le_span len
  have hspan' := width_le_span t.len
  have hnext : nextRecord (r.startOf p) len = r.startOf p + span len := rfl
  rw [hc.payload]
  refine take_drop_congr fun j hj => ho.byte _ (by omega) fun hwrap => ?_
  have := hbefore hwrap
  omega

/-- Once its bytes are moved, a record is one to be skipped, with a new one behind all others. -/
theorem appended_moved (hc : r.Cell rec pre t post m stop) (hp : r.place len = some p)
    (ho : Opened r (r.opened p len) p len) (hlen : t.len ≤ len) {r₁ : Ring}
    (hr₁ : (r.opened p len).withMoved (r.fold m) t.len (r.startOf p) rec.payload = r₁) :
    r₁.arena.length = r.arena.length ∧ Appended (r.withTag (r.fold m) (.skip t.len))
      { r₁.withTag (nextRecord (r.startOf p) len) .endOfRing with
        writer := nextRecord (r.startOf p) len } p len := by
  obtain ⟨hapart, hbefore, -⟩ := hc.place_apart hp
  have hwidth : Tag.width = 2 ∧ align = 4 := by decide
  have hspan := width_le_span len
  have hspan' := width_le_span t.len
  have hin := ho.inside
  have hlength := ho.length
  have hroom := hc.payload_room
  have hdlen := hc.len
  have hnext : nextRecord (r.startOf p) len = r.startOf p + span len := rfl
  have hold : r.fold m + Tag.width ≤ (r.opened p len).arena.length := by omega
  have hskipped := length_withTag (t := .skip t.len) hold
  have hlength₁ : r₁.arena.length = r.arena.length := by
    calc r₁.arena.length
      _ = ((r.opened p len).withTag (r.fold m) (.skip t.len)).arena.length := by
        rw [← hr₁, withMoved, Bytes.length_put (by omega)]
      _ = (r.opened p len).arena.length := hskipped
      _ = r.arena.length := hlength
  have hout : ∀ y, y < r.startOf p + Tag.width ∨ r.startOf p + Tag.width + t.len ≤ y →
      r₁.arena[y]? = ((r.opened p len).withTag (r.fold m) (.skip t.len)).arena[y]? := fun y hy => by
    rw [← hr₁, getElem?_withMoved hold (by omega), if_neg (by omega)]
  have hkept : ∀ y, y < r.startOf p + Tag.width ∨ r.startOf p + Tag.width + t.len ≤ y →
      y < r.fold m ∨ r.fold m + Tag.width ≤ y → r₁.arena[y]? = (r.opened p len).arena[y]? :=
    fun y hy hy' => (hout y hy).trans (getElem?_withTag hold hy')
  have htag := ho.tag ▸ tagAt_congr (hkept (r.startOf p) (by omega) (by omega))
    (hkept _ (by omega) (by omega))
  have hmarker : p = .wrap → r₁.tagAt r.writer = .ok .startOver := fun hwrap => by
    have := hbefore hwrap
    have := ho.far hwrap
    rw [← ho.marker hwrap]
    exact tagAt_congr (hkept _ (by omega) (by omega)) (hkept _ (by omega) (by omega))
  have hbyte : ∀ y, y < r.startOf p ∨ r.startOf p + span len ≤ y →
      (p = .wrap → y < r.writer ∨ r.writer + Tag.width ≤ y) →
      r₁.arena[y]? = (r.withTag (r.fold m) (.skip t.len)).arena[y]? := fun y hy hy' =>
    (hout y (by omega)).trans (getElem?_withTag_congr hc.room hlength (ho.byte y (by omega) hy'))
  have hstart : (r.withTag (r.fold m) (.skip t.len)).startOf p = r.startOf p := by cases p <;> rfl
  rw [← hstart] at htag hbyte
  have hbase := length_withTag (t := .skip t.len) hc.room
  have happ := appended_of_mark r₁ (by rw [← hr₁]; cases p <;> rfl)
    (hlength₁.trans hbase.symm) (by rw [← hr₁]; cases p <;> rfl) (by rw [← hr₁]; cases p <;> rfl)
    hbyte htag hmarker (by rw [hstart, hbase]; omega) (by rw [hstart]; exact ho.far)
  rw [hstart] at happ
  exact ⟨hlength₁, happ⟩

theorem move (hc : r.Cell rec pre t post m stop) (hfit : r.lenFits len = true)
    (hp : r.place len = some p) (hlen : t.len ≤ len) :
    ∃ r', (appendAt p len (some (r.fold m, t.len))).on r = (.ok ⟨r.startOf p⟩, r') ∧ r'.Sound ∧
      r.Continues len r' ∧ (⟨r.startOf p⟩ : Handle) ≠ rec.handle ∧
      ∃ payload, payload.length = len ∧ Keeps rec.payload payload ∧ r'.records =
        remove rec.handle r.records ++ [⟨⟨r.startOf p⟩, .unfinished, payload⟩] := by
  obtain ⟨-, hlaid, -, hcont, hrecs⟩ := hc.skip
  obtain ⟨hapart, -, -⟩ := hc.place_apart hp
  have ho := hc.laid.opened hfit hp
  have hwidth : Tag.width = 2 ∧ align = 4 := by decide
  have hspan := width_le_span len
  have hspan' := width_le_span t.len
  have hin := ho.inside
  have hw := ho.writer
  have hlength := ho.length
  have hroom := hc.payload_room
  have hdlen := hc.len
  have hnext : nextRecord (r.startOf p) len = r.startOf p + span len := rfl
  have hold : r.fold m + Tag.width ≤ (r.opened p len).arena.length := by omega
  have hmove := on_movePayload (r.startOf p) hold hc.maxLen (by omega) (hc.opened_payload hp ho)
    (by omega)
  have hfits : rec.payload.length ≤ len := hdlen ▸ hlen
  have hkeeps := keeps_withMoved t.len (r.startOf p) hold hfits (by omega)
  generalize hr₁ : (r.opened p len).withMoved (r.fold m) t.len (r.startOf p) rec.payload = r₁
    at hmove hkeeps
  obtain ⟨hlength₁, happ⟩ := hc.appended_moved hp ho hlen hr₁
  have hon := on_appendAt (some (r.fold m, t.len)) hw (by omega) ho.lenLe hmove (by omega)
  have hstart : (r.withTag (r.fold m) (.skip t.len)).startOf p = r.startOf p := by cases p <;> rfl
  obtain ⟨hsound, hcont', hrecs'⟩ := hlaid.appended hfit hp happ
  rw [hstart, hrecs] at hrecs'
  refine ⟨_, hon, hsound, hcont.trans rfl hcont', ?_, _, ?_, hkeeps, hrecs'⟩
  · rw [hc.handle]
    intro heq
    have := Handle.mk.inj heq
    omega
  · have hn : nextRecord (r.startOf p) len + Tag.width ≤ r₁.arena.length := by omega
    refine length_bytesAt ?_
    rw [length_withTag hn]
    omega

theorem append_moved (hc : r.Cell rec pre t post m stop) (hfit : r.lenFits len = true)
    (hlen : t.len ≤ len) :
    (r.place len = none ∧ (append len (some (r.fold m, t.len))).on r = (.ok none, r)) ∨
      ∃ h r', r.place len ≠ none ∧
        (append len (some (r.fold m, t.len))).on r = (.ok (some h), r') ∧ r'.Sound ∧
        r.Continues len r' ∧ h ≠ rec.handle ∧
        ∃ payload, payload.length = len ∧ Keeps rec.payload payload ∧ r'.records =
          remove rec.handle r.records ++ [⟨h, .unfinished, payload⟩] := by
  rw [append, Op.on_bind_ok (Op.on_get r)]
  cases hp : r.place len with
  | none => exact .inl ⟨rfl, rfl⟩
  | some p =>
    obtain ⟨r', hon, hmoved⟩ := hc.move hfit hp hlen
    exact .inr ⟨⟨r.startOf p⟩, r', Option.some_ne_none p, Op.on_bind_ok hon, hmoved⟩

theorem grow (hc : r.Cell rec pre t post m stop) (hs : rec.stage = .unfinished)
    (hpass : passedByInput t = false) (hmax : len ≤ Tag.maxLen)
    (hw : nextRecord (r.fold m) t.len = r.writer)
    (hbound : if r.fold m < r.outputReader then nextRecord (r.fold m) len < r.outputReader
      else nextRecord (r.fold m) len ≤ r.limit) :
    ∃ r', r'.Sound ∧ r.Continues 0 r' ∧ (do
        setTag (nextRecord (r.fold m) len) .endOfRing
        setTag (r.fold m) (.pending len)
        modify fun s => { s with writer := nextRecord (r.fold m) len } : Op Ring Unit).on r =
          (.ok (), r') ∧
      ∃ payload, payload.length = len ∧ Keeps rec.payload payload ∧
        r'.records = revise rec.handle (fun e => { e with payload }) r.records := by
  obtain ⟨hends, hapart, hroom⟩ := hc.grow_room hbound
  have hfits := hc.laid.fits
  have hlap : r.lap = r.limit + align := rfl
  have hwidth : Tag.width ≤ align := by decide
  have hx : nextRecord (r.fold m) len + Tag.width ≤ r.arena.length := by
    unfold nextRecord
    omega
  have hx' : r.fold m + Tag.width ≤
      (r.withTag (nextRecord (r.fold m) len) .endOfRing).arena.length := by
    rw [length_withTag hx]
    exact hc.room
  obtain ⟨hr', hcont, hrecs⟩ :=
    hc.relength (.pending len) hpass hw.symm rfl hmax hends hapart rfl
  refine ⟨_, hr', hcont, ?_, hc.revise_bytesAt hs hroom hrecs⟩
  rw [Op.on_bind_ok (on_setTag hx (Nat.zero_le _)),
    Op.on_bind_ok (on_setTag (t := .pending len) hx' hmax)]
  rfl

end Cell

/-- A record has room for another length where it is: in its cell, or behind it if it is the last
one. -/
def Stretches (r : Ring) (rec : Record) (len : Nat) : Prop :=
  nextRecord rec.handle.offset len ≤ nextRecord rec.handle.offset rec.payload.length ∨
    nextRecord rec.handle.offset rec.payload.length = r.writer ∧
      if rec.handle.offset < r.outputReader then nextRecord rec.handle.offset len < r.outputReader
      else nextRecord rec.handle.offset len ≤ r.limit

theorem Cell.stretches_iff (hc : r.Cell rec pre t post m stop) : r.Stretches rec len ↔
    nextRecord (r.fold m) len ≤ nextRecord (r.fold m) t.len ∨
      nextRecord (r.fold m) t.len = r.writer ∧
        if r.fold m < r.outputReader then nextRecord (r.fold m) len < r.outputReader
        else nextRecord (r.fold m) len ≤ r.limit := by
  rw [Stretches, hc.handle, hc.len]

def RoomFor (r : Ring) (rec : Record) (len : Nat) : Prop :=
  r.lenFits len = true ∧ (r.Stretches rec len ∨ r.place len ≠ none)

/-- A record that changes its length keeps its place if there is room, or else moves behind all
others. Without room there the old handle comes back. -/
theorem resize_spec (len : Nat) (hr : r.Sound) (hrec : rec ∈ r.records)
    (hs : rec.stage = .unfinished) :
    ∃ reply r', (resize rec.handle len).on r = (.ok reply, r') ∧ r'.Sound ∧ r.Continues len r' ∧
      match reply with
      | .error h => h = rec.handle ∧ r' = r ∧ ¬r.RoomFor rec len
      | .ok h => r.RoomFor rec len ∧ (h = rec.handle ↔ r.Stretches rec len) ∧
          ∃ payload, payload.length = len ∧ Keeps rec.payload payload ∧ r'.records =
            if h = rec.handle then revise rec.handle (fun e => { e with payload }) r.records
            else remove rec.handle r.records ++ [⟨h, .unfinished, payload⟩] := by
  have hsound := hr
  obtain ⟨pre, t, post, m, stop, hc⟩ := hr.exists_cell hrec
  have ht : t.stage? = some .unfinished := hs ▸ hc.stage
  have hpass := passedByInput_unfinished ht
  rw [resize, Op.on_bind_ok (on_unfinishedLen hc.tagAt ht), Op.on_bind_ok (Op.on_get r)]
  cases hfit : r.lenFits len with
  | false =>
    refine ⟨.error rec.handle, r, rfl, hsound, .refl r len, rfl, rfl, fun hroom => ?_⟩
    exact Bool.noConfusion (hfit.symm.trans hroom.1)
  | true =>
  obtain ⟨hmax, -⟩ := lenFits_iff.1 hfit
  have hend := (hc.laid.cell hc.tiled).2.2.2 hc.ne_startOver
  have hoff : rec.handle.offset = r.fold m := by rw [hc.handle]
  have hstretches : r.Stretches rec len ↔ _ := hc.stretches_iff
  rw [if_neg (by decide)]
  dsimp only
  rw [hoff]
  by_cases hle : nextRecord (r.fold m) len ≤ nextRecord (r.fold m) t.len
  · -- the record still ends within its cell
    rw [if_pos hle]
    have hspan : span len ≤ span t.len := by unfold nextRecord at hle; omega
    obtain ⟨r', hon, hr', hcont, hrecs⟩ := hc.shorten (.pending len) hpass rfl hmax hspan
    obtain ⟨payload, hlen, hkeeps, hrecs⟩ := hc.revise_bytesAt hs
      (Nat.le_trans (Nat.add_le_add_left hspan _) hend) hrecs
    have hstays := hstretches.2 (.inl hle)
    refine ⟨.ok rec.handle, r', ?_, hr', hcont.mono (Nat.zero_le len), ⟨hfit, .inl hstays⟩,
      iff_of_true rfl hstays, payload, hlen, hkeeps, by rw [if_pos rfl, hrecs]⟩
    rw [← bind_assoc]
    exact Op.on_bind_ok hon
  rw [if_neg hle]
  have hlt : t.len < len := by
    simp only [nextRecord, span, Tag.width, align] at hle
    omega
  by_cases hgrow : nextRecord (r.fold m) t.len = r.writer ∧
      if r.fold m < r.outputReader then nextRecord (r.fold m) len < r.outputReader
      else nextRecord (r.fold m) len ≤ r.limit
  · -- nothing is behind the record but room
    rw [if_pos hgrow]
    obtain ⟨r', hr', hcont, hon, payload, hlen, hkeeps, hrecs⟩ :=
      hc.grow hs hpass hmax hgrow.1 hgrow.2
    have hstays := hstretches.2 (.inr hgrow)
    refine ⟨.ok rec.handle, r', ?_, hr', hcont.mono (Nat.zero_le len), ⟨hfit, .inl hstays⟩,
      iff_of_true rfl hstays, payload, hlen, hkeeps, by rw [if_pos rfl, hrecs]⟩
    have hall := Op.on_bind_ok
      (f := fun _ => (pure (.ok rec.handle) : Op Ring (Except Handle Handle))) hon
    simp only [bind_assoc] at hall
    exact hall
  · rw [if_neg hgrow]
    have hmoves : ¬r.Stretches rec len := fun h => (hstretches.1 h).elim hle hgrow
    obtain ⟨hp, hon⟩ | ⟨h, r', hplace, hon, hr', hcont, hne, payload, hlen, hkeeps, hrecs⟩ :=
      hc.append_moved hfit (Nat.le_of_lt hlt)
    · have hfull : ¬r.RoomFor rec len := fun hroom =>
        hroom.2.elim hmoves fun hplace => hplace hp
      exact ⟨.error rec.handle, r, Op.on_bind_ok hon, hsound, .refl r len, rfl, rfl, hfull⟩
    · exact ⟨.ok h, r', Op.on_bind_ok hon, hr', hcont, ⟨hfit, .inr hplace⟩, iff_of_false hne hmoves,
        payload, hlen, hkeeps, by rw [if_neg hne, hrecs]⟩

section Refusal

variable (hr : r.Sound) (hrec : rec ∈ r.records) (hs : rec.stage = .unfinished)
include hr hrec

theorem roomFor_of_le (hlen : len ≤ rec.payload.length) :
    r.RoomFor rec len ∧ r.Stretches rec len := by
  obtain ⟨pre, t, post, m, stop, hc⟩ := hr.exists_cell hrec
  have hspan : span len ≤ span t.len := span_mono (hc.len ▸ hlen)
  have hend := (hc.laid.cell hc.tiled).2.2.2 hc.ne_startOver
  have hfit : r.lenFits len = true := by
    refine lenFits_iff.2 ⟨?_, ?_⟩
    · calc len
        _ ≤ rec.payload.length := hlen
        _ = t.len := hc.len
        _ ≤ Tag.maxLen := hc.maxLen
    · calc span len
        _ ≤ span t.len := hspan
        _ ≤ r.fold m + span t.len := Nat.le_add_left ..
        _ ≤ r.limit := hend
  have hstays : r.Stretches rec len := .inl (Nat.add_le_add_left (span_mono hlen) _)
  exact ⟨⟨hfit, .inl hstays⟩, hstays⟩

include hs

theorem resize_refused_iff :
    (resize rec.handle len).on r = (.ok (.error rec.handle), r) ↔ ¬r.RoomFor rec len := by
  obtain ⟨reply, r', hon, -, -, hreply⟩ := resize_spec len hr hrec hs
  cases reply with
  | error h =>
    obtain ⟨rfl, rfl, hfull⟩ := hreply
    exact iff_of_true hon hfull
  | ok h => exact iff_of_false (fun h => nomatch hon.symm.trans h) (not_not_intro hreply.1)

theorem resize_in_place (hlen : len ≤ rec.payload.length) :
    ∃ r', (resize rec.handle len).on r = (.ok (.ok rec.handle), r') := by
  obtain ⟨hroom, hstays⟩ := roomFor_of_le hr hrec hlen
  obtain ⟨reply, r', hon, -, -, hreply⟩ := resize_spec len hr hrec hs
  cases reply with
  | error h => exact absurd hroom hreply.2.2
  | ok h =>
    obtain rfl := hreply.2.1.2 hstays
    exact ⟨r', hon⟩

end Refusal

end Reflector.Ring
