import Reflector.Proofs.Ring.Tiling
/-!
The layout of a ring: its cells tile the positions from the output reader to the writer, less than
a lap, and the input reader is at one of them, behind nothing but what it may pass.
-/
namespace Reflector.Ring

variable {r r' : Ring} {t t' : Tag} {tags pre old new post : List Tag} {stop stop' u v m n : Nat}

def InputAt (r : Ring) (tags : List Tag) : Prop :=
  ∃ passed waiting mid, tags = passed ++ waiting ∧ r.Tiled r.outputReader passed mid ∧
    r.fold mid = r.inputReader ∧ ∀ t ∈ passed, passedByInput t = true

structure Laid (r : Ring) (tags : List Tag) (stop : Nat) : Prop where
  unit : r.limit % align = 0
  fits : r.lap ≤ r.arena.length
  first : r.outputReader % align = 0
  first_le : r.outputReader ≤ r.limit
  tiled : r.Tiled r.outputReader tags stop
  ends : stop ≤ r.limit ∨ r.lap ≤ stop
  apart : stop < r.outputReader + r.lap
  writer : r.fold stop = r.writer
  mark : r.tagAt (r.fold stop) = .ok .endOfRing
  input : r.InputAt tags

/-- A ring that comes from another one when a length is asked for. A new marker is where a record of
that length ends behind the limit, and the output reader stays where a cell still is. -/
structure Continues (r : Ring) (asked : Nat) (r' : Ring) : Prop where
  limit : r'.limit = r.limit
  marks : ∀ x, (x, Tag.startOver) ∈ r'.layout →
    (x, Tag.startOver) ∈ r.layout ∨ r.limit < x + span asked
  steady : ∀ t, (r.outputReader, t) ∈ r'.layout → r'.outputReader = r.outputReader

theorem not_marks {ts : List Tag} (h : Tag.startOver ∉ ts) (x : Nat)
    (hx : (x, Tag.startOver) ∈ r.cells u ts) : r.limit < x + span n :=
  absurd (mem_of_mem_cells hx) h

namespace Continues

theorem refl (r : Ring) (n : Nat) : r.Continues n r := ⟨rfl, fun _ hx => .inl hx, fun _ _ => rfl⟩

theorem mono (h : r.Continues m r') (hmn : m ≤ n) : r.Continues n r' := by
  have hspan := span_mono hmn
  exact ⟨h.limit, fun x hx => (h.marks x hx).imp_right fun hx => by omega, h.steady⟩

theorem trans {r'' : Ring} (h : r.Continues 0 r') (ho : r'.outputReader = r.outputReader)
    (h' : r'.Continues n r'') : r.Continues n r'' := by
  refine ⟨h'.limit.trans h.limit, fun x hx => ?_, fun t ht => (h'.steady t (ho ▸ ht)).trans ho⟩
  obtain hx | hx := h'.marks x hx
  · exact (h.mono (Nat.zero_le n)).marks x hx
  · exact .inr (h.limit ▸ hx)

end Continues

/-- A ring that differs at most in the writer and in bytes of the arena. -/
structure Beside (r r' : Ring) : Prop where
  limit : r'.limit = r.limit
  length : r'.arena.length = r.arena.length
  input : r'.inputReader = r.inputReader
  output : r'.outputReader = r.outputReader

theorem beside_withTag (hx : m + Tag.width ≤ r.arena.length) : r.Beside (r.withTag m t) :=
  ⟨rfl, length_withTag hx, rfl, rfl⟩

theorem Beside.lap_eq (h : r.Beside r') : r'.lap = r.lap := by unfold lap; rw [h.limit]

theorem Beside.fold_eq (h : r.Beside r') : r'.fold = r.fold := by
  funext j
  unfold fold
  rw [h.lap_eq]

theorem fold_le (h : m ≤ r.limit ∨ r.lap ≤ m) (h' : m ≤ r.lap + r.limit) : r.fold m ≤ r.limit := by
  cases h with
  | inl h =>
    rw [fold_of_lt (by simp only [lap, align]; omega)]
    exact h
  | inr h =>
    rw [fold_of_le h]
    omega

theorem agreeOn_of_outside (hl : r'.limit = r.limit) (hm : m + n ≤ r.lap ∨ r.lap ≤ m)
    (hb : ∀ y, y < r.fold m ∨ r.fold m + n ≤ y → r'.arena[y]? = r.arena[y]?)
    (hw : v ≤ m ∧ m + n ≤ u + r.lap ∨ m + n ≤ u ∧ v ≤ m + r.lap) : r.AgreeOn r' u v := by
  refine ⟨hl, fun j hj hj' => hb _ ?_⟩
  by_cases hlt : r.fold j < r.fold m
  · exact .inl hlt
  · by_cases hge : r.fold m + n ≤ r.fold j
    · exact .inr hge
    · -- The byte would be one of the `n`, at a position less than a lap away.
      have hk : r.fold (m + (r.fold j - r.fold m)) = r.fold j := by
        rw [fold_add (by omega)]
        omega
      cases hw with
      | inl hw => exact absurd hk.symm (fold_ne (by omega) (by omega))
      | inr hw => exact absurd hk (fold_ne (by omega) (by omega))

theorem agreeOn_withTag (hx : r.fold m + Tag.width ≤ r.arena.length)
    (hm : m + Tag.width ≤ r.lap ∨ r.lap ≤ m)
    (hw : v ≤ m ∧ m + Tag.width ≤ u + r.lap ∨ m + Tag.width ≤ u ∧ v ≤ m + r.lap) :
    r.AgreeOn (r.withTag (r.fold m) t) u v :=
  agreeOn_of_outside rfl hm (fun _ hy => getElem?_withTag hx hy) hw

theorem AgreeOn.tagAt (h : r.AgreeOn r' m (m + Tag.width))
    (hm : m + Tag.width ≤ r.lap ∨ r.lap ≤ m) : r'.tagAt (r.fold m) = r.tagAt (r.fold m) := by
  have hw : 1 < Tag.width := by decide
  have h₁ := h.2 (m + 1) (by omega) (by omega)
  rw [fold_add (by omega)] at h₁
  exact tagAt_congr (h.2 m (Nat.le_refl m) (by omega)) h₁

namespace InputAt

theorem of_append (h : r.InputAt (pre ++ old)) (ho : ∀ t ∈ old, passedByInput t = false) :
    r.InputAt pre := by
  obtain ⟨passed, waiting, mid, he, hp, hi, hpass⟩ := h
  obtain ⟨a, rfl, ha⟩ | ⟨a, ha, -⟩ := List.append_eq_append_iff.1 he
  · cases a with
    | nil => exact ⟨pre, [], mid, by simp, by simpa using hp, hi, by simpa using hpass⟩
    | cons t a =>
      have h₁ := hpass t (by simp)
      rw [ho t (by simp [ha])] at h₁
      exact absurd h₁ (by decide)
  · exact ⟨passed, a, mid, ha, hp, hi, hpass⟩

theorem append (h : r.InputAt pre) (hb : r.Beside r') (hpre : r.Tiled r.outputReader pre m)
    (ha : r.AgreeOn r' r.outputReader m) : r'.InputAt (pre ++ new) := by
  obtain ⟨passed, waiting, mid, rfl, hp, hi, hpass⟩ := h
  obtain ⟨mid', hp', hw⟩ := Tiled.append_iff.1 hpre
  obtain rfl := hp.unique hp'
  have hle := hw.le
  refine ⟨passed, waiting ++ new, mid, List.append_assoc .., ?_, ?_, hpass⟩
  · rw [hb.output]
    exact (hp.congr (ha.mono (Nat.le_refl _) (by omega))).1
  · rw [ha.fold_eq, hb.input, hi]

theorem patch (h : r.InputAt (pre ++ t :: post)) (hb : r.Beside r')
    (hpre : r.Tiled r.outputReader pre m) (hpost : r.Tiled (r.behind m t) post stop)
    (ha : r.AgreeOn r' r.outputReader m) (ha' : r.AgreeOn r' (r.behind m t) stop)
    (hnew : r'.Tiled m new (r.behind m t))
    (hpass' : passedByInput t = true → ∀ t ∈ new, passedByInput t = true) :
    r'.InputAt (pre ++ new ++ post) := by
  obtain ⟨passed, waiting, mid, he, hp, hi, hpass⟩ := h
  obtain ⟨a, rfl, ha₁⟩ | ⟨a, rfl, -⟩ := List.append_eq_append_iff.1 he
  · cases a with
    | nil =>
      rw [List.append_assoc]
      rw [List.append_nil] at hp hpass
      exact append ⟨pre, [], mid, by simp, hp, hi, hpass⟩ hb hpre ha
    | cons t₁ a =>
      -- The reader is behind the patched cell.
      obtain ⟨rfl, rfl⟩ := List.cons.inj ha₁
      obtain ⟨m', hpre', -, -, hrest⟩ := Tiled.append_iff.1 hp
      obtain rfl := hpre.unique hpre'
      obtain ⟨mid', hrest', hw⟩ := Tiled.append_iff.1 hpost
      obtain rfl := hrest.unique hrest'
      have hle := hw.le
      refine ⟨pre ++ new ++ a, waiting, mid, by simp, ?_, ?_, ?_⟩
      · rw [hb.output]
        exact ((hpre.congr ha).1.append hnew).append
          (hrest.congr (ha'.mono (Nat.le_refl _) (by omega))).1
      · rw [ha.fold_eq, hb.input, hi]
      · intro t₂ ht₂
        have ht := hpass' (hpass t (by simp))
        simp only [List.mem_append] at ht₂
        obtain (ht₂ | ht₂) | ht₂ := ht₂
        · exact hpass t₂ (by simp [ht₂])
        · exact ht t₂ ht₂
        · exact hpass t₂ (by simp [ht₂])
  · rw [List.append_assoc (passed ++ a)]
    exact append ⟨passed, a, mid, rfl, hp, hi, hpass⟩ hb hpre ha

end InputAt

namespace Laid

theorem lap_mod (h : r.Laid tags stop) : r.lap % align = 0 := by
  have := h.unit
  simp only [lap, align] at this ⊢
  omega

theorem stop_mod (h : r.Laid tags stop) : stop % align = 0 := h.tiled.mod h.first h.unit

theorem position (h : r.Laid (pre ++ post) stop) (hm : r.Tiled r.outputReader pre m) :
    m % align = 0 ∧ r.outputReader ≤ m ∧ m + align ≤ r.outputReader + r.lap ∧
      (m + align ≤ r.lap ∨ r.lap ≤ m) ∧ r.fold m + align ≤ r.lap := by
  obtain ⟨m', hm', hpost⟩ := Tiled.append_iff.1 h.tiled
  obtain rfl := hm.unique hm'
  have hmod := hm.mod h.first h.unit
  have hle := hm.le
  have hle' := hpost.le
  have hap := h.apart
  have hfirst := h.first
  have hfirst_le := h.first_le
  have hlap := h.lap_mod
  have hends : m ≤ r.limit ∨ r.lap ≤ m := by
    cases post with
    | nil =>
      rw [show m = stop from hpost]
      exact h.ends
    | cons t post =>
      have hf := hpost.2.1
      by_cases ht : t = .startOver
      · subst ht
        exact .inl hf.2
      · have := hf.of_ne ht
        omega
  have hfold := fold_le hends (by simp only [lap, align] at *; omega)
  simp only [lap, align] at *
  omega

theorem stop_room (h : r.Laid tags stop) :
    stop + align ≤ r.outputReader + r.lap ∧ (stop + align ≤ r.lap ∨ r.lap ≤ stop) ∧
      r.fold stop + align ≤ r.lap := by
  have h' : r.Laid (tags ++ []) stop := by rwa [List.append_nil]
  obtain ⟨-, -, hroom, hends, hfold⟩ := h'.position h.tiled
  exact ⟨hroom, hends, hfold⟩

theorem fold_outputReader (h : r.Laid tags stop) : r.fold r.outputReader = r.outputReader := by
  have := h.first_le
  exact fold_of_lt (by simp only [lap, align]; omega)

theorem first_cell (h : r.Laid (pre ++ post) stop) (hm : r.Tiled r.outputReader pre m)
    (ho : r.outputReader = r.fold m) : m = r.outputReader ∧ pre = [] := by
  obtain ⟨-, hle, hroom, -, -⟩ := h.position hm
  have hlap : 0 < align ∧ align ≤ r.lap := ⟨by decide, Nat.le_add_left ..⟩
  obtain rfl : r.outputReader = m :=
    fold_inj (h.fold_outputReader.trans ho) (by omega) (by omega)
  have hlen := hm.le
  exact ⟨rfl, List.eq_nil_of_length_eq_zero (by simp only [align] at hlen; omega)⟩

theorem layout_eq (h : r.Laid tags stop) : r.layout = r.cells r.outputReader tags := by
  have hle := h.tiled.le
  have hap := h.apart
  have hfits := h.fits
  have hn : tags.length ≤ r.arena.length := by simp only [align] at hle; omega
  have := cellsFrom_of_tiled h.tiled (by omega) h.writer hn
  rwa [h.fold_outputReader] at this

theorem records_eq (h : r.Laid tags stop) : r.records = r.contents r.outputReader tags := by
  rw [records, recordsFrom_eq_cellsFrom]
  exact congrArg (List.flatMap _) h.layout_eq

/-- Where the output reader stays, only the cells matter. -/
theorem continues {tags' : List Tag} (h : r.Laid tags stop) (h' : r'.Laid tags' stop')
    (hl : r'.limit = r.limit) (ho : r'.outputReader = r.outputReader)
    (hmarks : ∀ x, (x, Tag.startOver) ∈ r.cells r.outputReader tags' →
      (x, Tag.startOver) ∈ r.cells r.outputReader tags ∨ r.limit < x + span n) :
    r.Continues n r' := by
  refine ⟨hl, fun x hx => ?_, fun _ _ => ho⟩
  rw [h'.layout_eq, ho, cells_of_limit hl] at hx
  rw [h.layout_eq]
  exact hmarks x hx

/-- Replace one cell by cells over the same positions. -/
theorem patch (h : r.Laid (pre ++ t :: post) stop) (hm : r.Tiled r.outputReader pre m)
    (hb : r.Beside r') (hw : r'.writer = r.writer)
    (ha : r.AgreeOn r' r.outputReader m) (ha' : r.AgreeOn r' (r.behind m t) stop)
    (hmark : r'.tagAt (r.fold stop) = .ok .endOfRing)
    (hnew : r'.Tiled m new (r.behind m t)) (hplain : Tag.startOver ∉ new)
    (hpass : passedByInput t = true → ∀ t ∈ new, passedByInput t = true) :
    r'.Laid (pre ++ new ++ post) stop ∧ r.Continues 0 r' ∧
      r.records = r.contents r.outputReader pre ++ r.recordsAt (r.fold m) t ++
        r.contents (r.behind m t) post ∧
      r'.records = r.contents r.outputReader pre ++ r'.contents m new ++
        r.contents (r.behind m t) post := by
  obtain ⟨m', hm', hf, -, hpost⟩ := Tiled.append_iff.1 h.tiled
  obtain rfl := hm.unique hm'
  obtain ⟨hpre₁, hpre₂⟩ := hm.congr ha
  obtain ⟨hpost₁, hpost₂⟩ := hpost.congr ha'
  have hlap := ha.lap_eq
  have hlaid : r'.Laid (pre ++ new ++ post) stop :=
    { unit := by rw [hb.limit]; exact h.unit
      fits := by rw [hlap, hb.length]; exact h.fits
      first := by rw [hb.output]; exact h.first
      first_le := by rw [hb.output, hb.limit]; exact h.first_le
      tiled := by rw [hb.output]; exact (hpre₁.append hnew).append hpost₁
      ends := by rw [hb.limit, hlap]; exact h.ends
      apart := by rw [hb.output, hlap]; exact h.apart
      writer := by rw [ha.fold_eq, hw]; exact h.writer
      mark := by rw [ha.fold_eq]; exact hmark
      input := h.input.patch hb hm hpost ha ha' hnew hpass }
  refine ⟨hlaid, h.continues hlaid hb.limit hb.output fun x hx => .inl ?_, ?_, ?_⟩
  · rw [← cells_of_limit hb.limit, cells_append (hpre₁.append hnew), cells_append hpre₁,
      cells_of_limit hb.limit, cells_of_limit hb.limit, cells_of_limit hb.limit, List.mem_append,
      List.mem_append] at hx
    rw [cells_append hm, cells]
    obtain (hx | hx) | hx := hx
    · exact List.mem_append_left _ hx
    · exact absurd (mem_of_mem_cells hx) hplain
    · exact List.mem_append_right _ (List.mem_cons_of_mem _ hx)
  · rw [h.records_eq, contents_append hm, contents_cons, List.append_assoc]
  · calc r'.records
      _ = r'.contents r.outputReader (pre ++ new ++ post) := by rw [hlaid.records_eq, hb.output]
      _ = r'.contents r.outputReader pre ++ r'.contents m new ++
          r'.contents (r.behind m t) post := by
        rw [contents_append (hpre₁.append hnew), contents_append hpre₁]
      _ = r.contents r.outputReader pre ++ r'.contents m new ++
          r.contents (r.behind m t) post := by rw [hpre₂, hpost₂]

/-- Replace what is at the end of the cells, moving the end. -/
theorem retail (new : List Tag) (stop' : Nat) (h : r.Laid (pre ++ old) stop)
    (hm : r.Tiled r.outputReader pre m)
    (hb : r.Beside r') (hw : r'.writer = r.fold stop')
    (ha : r.AgreeOn r' r.outputReader m) (hold : ∀ t ∈ old, passedByInput t = false)
    (hnew : r'.Tiled m new stop') (hends : stop' ≤ r.limit ∨ r.lap ≤ stop')
    (hapart : stop' < r.outputReader + r.lap)
    (hmark : r'.tagAt (r.fold stop') = .ok .endOfRing)
    (hmarks : ∀ x, (x, Tag.startOver) ∈ r.cells m new → r.limit < x + span n) :
    r'.Laid (pre ++ new) stop' ∧ r.Continues n r' ∧
      r.records = r.contents r.outputReader pre ++ r.contents m old ∧
      r'.records = r.contents r.outputReader pre ++ r'.contents m new := by
  obtain ⟨hpre₁, hpre₂⟩ := hm.congr ha
  have hlap := ha.lap_eq
  have hlaid : r'.Laid (pre ++ new) stop' :=
    { unit := by rw [hb.limit]; exact h.unit
      fits := by rw [hlap, hb.length]; exact h.fits
      first := by rw [hb.output]; exact h.first
      first_le := by rw [hb.output, hb.limit]; exact h.first_le
      tiled := by rw [hb.output]; exact hpre₁.append hnew
      ends := by rw [hb.limit, hlap]; exact hends
      apart := by rw [hb.output, hlap]; exact hapart
      writer := by rw [ha.fold_eq, hw]
      mark := by rw [ha.fold_eq]; exact hmark
      input := (h.input.of_append hold).append hb hm ha }
  refine ⟨hlaid, h.continues hlaid hb.limit hb.output fun x hx => ?_, ?_, ?_⟩
  · rw [cells_append hm, List.mem_append] at hx ⊢
    exact hx.imp .inl (hmarks x)
  · rw [h.records_eq, contents_append hm]
  · rw [hlaid.records_eq, hb.output, contents_append hpre₁, hpre₂]

/-- Both readers move on, the output reader over the first cells. Behind the end of a lap all
positions are counted from the front again. -/
theorem advance {passed waiting : List Tag} {mid : Nat} (r' : Ring)
    (h : r.Laid (pre ++ (passed ++ waiting)) stop) (hm : r.Tiled r.outputReader pre m)
    (hp : r.Tiled m passed mid) (hpass : ∀ t ∈ passed, passedByInput t = true)
    (ho : r'.outputReader = r.fold m) (hi : r'.inputReader = r.fold mid)
    (hw : r'.writer = r.writer) (hl : r'.limit = r.limit) (ha : r'.arena = r.arena) :
    (∃ stop', r'.Laid (passed ++ waiting) stop') ∧ r.Continues 0 r' ∧
      r.records = r.contents r.outputReader pre ++ r'.records := by
  obtain ⟨hmod, hle, -, -, hfold⟩ := h.position hm
  obtain ⟨m', hm', hrest⟩ := Tiled.append_iff.1 h.tiled
  obtain rfl := hm.unique hm'
  obtain ⟨mid', hp', hwait⟩ := Tiled.append_iff.1 hrest
  obtain rfl := hp.unique hp'
  have hlap := h.lap_mod
  have hends := h.ends
  have hapart := h.apart
  have hfirst := h.first_le
  have hstop := hrest.le
  have hmid := hwait.le
  have hv : stop ≤ r.lap + r.limit := by omega
  have hsame : ∀ u v, r.AgreeOn r' u v := fun u v => ⟨hl, fun _ _ _ => by rw [ha]⟩
  have hlap' : r'.lap = r.lap := (hsame 0 0).lap_eq
  have hfold' : r'.fold = r.fold := (hsame 0 0).fold_eq
  -- the new output reader is the first position again, also if it went around the end
  obtain ⟨ht, hc, hf⟩ := hrest.folded hv
  obtain ⟨htp, -, hfp⟩ := hp.folded (by omega)
  have hlaid : r'.Laid (passed ++ waiting) (r.fold m + (stop - m)) :=
    { unit := by rw [hl]; exact h.unit
      fits := by rw [hlap', ha]; exact h.fits
      first := by
        rw [ho]
        unfold fold
        simp only [align] at *
        split <;> omega
      first_le := by rw [ho, hl]; simp only [lap] at hfold; omega
      tiled := by rw [ho]; exact (ht.congr (hsame _ _)).1
      ends := by
        rw [hl, hlap']
        unfold fold
        split <;> omega
      apart := by rw [ho, hlap']; omega
      writer := by rw [hfold', hf, hw]; exact h.writer
      mark := by
        rw [hfold', hf]
        unfold tagAt
        rw [ha]
        exact h.mark
      input := ⟨passed, waiting, r.fold m + (mid - m), rfl, by
        rw [ho]; exact (htp.congr (hsame _ _)).1, by rw [hfold', hfp, hi], hpass⟩ }
  have hcells : r'.layout = r.cells m (passed ++ waiting) := by
    rw [hlaid.layout_eq, ho, cells_of_limit hl, hc]
  refine ⟨⟨_, hlaid⟩, ⟨hl, fun x hx => .inl ?_, fun t hx => ?_⟩, ?_⟩
  · rw [h.layout_eq, cells_append hm]
    exact List.mem_append_right _ (hcells ▸ hx)
  · -- No cell behind the ones passed is where the reader was.
    rw [hcells] at hx
    obtain ⟨_, p, hp, hf, hpv, hx⟩ := exists_position_of_mem_cells hrest hx
    have hpm := hp.le
    have hal := hf.align_le
    simp only [align] at hpm hal
    obtain rfl : r.outputReader = p :=
      fold_inj (h.fold_outputReader.trans hx) (by omega) (by omega)
    rw [ho, hx, Nat.le_antisymm hle (by omega)]
  · rw [h.records_eq, contents_append hm, hlaid.records_eq, ho, (ht.congr (hsame _ _)).2]
    exact congrArg (_ ++ List.flatMap _ ·) hc.symm

theorem passed_of_input (h : r.Laid (pre ++ post) stop) (hm : r.Tiled r.outputReader pre m)
    (hi : r.inputReader = r.fold m) : ∀ t ∈ pre, passedByInput t = true := by
  obtain ⟨passed, waiting, mid, he, hp, hmid, hpass⟩ := h.input
  have hap := h.apart
  have hle := hm.le
  have hle' := hp.le
  obtain ⟨m', hm', hpost⟩ := Tiled.append_iff.1 h.tiled
  obtain rfl := hm.unique hm'
  obtain ⟨mid', hp', hwait⟩ := Tiled.append_iff.1 (he ▸ h.tiled)
  obtain rfl := hp.unique hp'
  have := hpost.le
  have := hwait.le
  obtain rfl : mid = m := fold_inj (hmid.trans hi) (by omega) (by omega)
  obtain ⟨a, rfl, -⟩ | ⟨a, rfl, -⟩ := List.append_eq_append_iff.1 he
  · exact fun t ht => hpass t (List.mem_append_left a ht)
  · obtain ⟨m₁, hm₁, ha⟩ := Tiled.append_iff.1 hm
    obtain rfl := hp.unique hm₁
    have hlen := ha.le
    have : a = [] := List.eq_nil_of_length_eq_zero (by simp only [align] at hlen; omega)
    subst this
    simpa using hpass

theorem moveInput {passed waiting : List Tag} {mid : Nat} (h : r.Laid (passed ++ waiting) stop)
    (hp : r.Tiled r.outputReader passed mid) (hpass : ∀ t ∈ passed, passedByInput t = true) :
    ({ r with inputReader := r.fold mid } : Ring).Laid (passed ++ waiting) stop ∧
      r.Continues 0 { r with inputReader := r.fold mid } ∧
      ({ r with inputReader := r.fold mid } : Ring).records = r.records := by
  have hsame : ∀ u v, r.AgreeOn { r with inputReader := r.fold mid } u v :=
    fun u v => ⟨rfl, fun _ _ _ => rfl⟩
  obtain ⟨ht, hc⟩ := h.tiled.congr (hsame _ _)
  have hlaid : ({ r with inputReader := r.fold mid } : Ring).Laid (passed ++ waiting) stop :=
    { h with
      tiled := ht
      input := ⟨passed, waiting, mid, rfl, (hp.congr (hsame _ _)).1, rfl, hpass⟩ }
  exact ⟨hlaid, h.continues hlaid rfl rfl fun x hx => .inl hx,
    by rw [hlaid.records_eq, h.records_eq, hc]⟩

end Laid

end Reflector.Ring
