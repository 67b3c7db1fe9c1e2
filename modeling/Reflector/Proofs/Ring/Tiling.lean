import Reflector.Proofs.Ring.Tags
/-!
The arena unrolled. A position counts on behind the end of the arena, so that the cells from the
output reader to the writer tile one interval of positions also after the writer started over.
-/
namespace Reflector.Ring

variable {r r' : Ring} {t : Tag} {ts ts' : List Tag} {u v m : Nat}

theorem width_le_span (n : Nat) : n + Tag.width ≤ span n := by
  simp only [span, Tag.width, align]; omega

theorem span_le (n : Nat) : span n ≤ n + 5 := by
  simp only [span, Tag.width, align]; omega

theorem span_mono (h : m ≤ u) : span m ≤ span u := by
  simp only [span, Tag.width, align]; omega

theorem span_mod (n : Nat) : span n % align = 0 := by
  simp only [span, align]; omega

theorem align_le_span (n : Nat) : align ≤ span n := by
  simp only [span, Tag.width, align]; omega

/-- The arena as far as it is used, with the reserved unit at its end. -/
def lap (r : Ring) : Nat := r.limit + align

/-- The arena offset of a position. -/
def fold (r : Ring) (u : Nat) : Nat := if u < r.lap then u else u - r.lap

/-- The position behind a cell. A marker takes the rest of the lap. -/
def behind (r : Ring) (u : Nat) : Tag → Nat
  | .startOver => r.lap
  | t => u + span t.len

/-- A record ends before the reserved unit of its lap. Only a marker may start on it. -/
def Fits (r : Ring) (u : Nat) (t : Tag) : Prop :=
  t.len ≤ Tag.maxLen ∧
    if t = .startOver then u ≤ r.limit else u + span t.len ≤ r.limit ∨ r.lap ≤ u

def Tiled (r : Ring) : Nat → List Tag → Nat → Prop
  | u, [], v => u = v
  | u, t :: ts, v => r.tagAt (r.fold u) = .ok t ∧ r.Fits u t ∧ r.Tiled (r.behind u t) ts v

def cells (r : Ring) : Nat → List Tag → List (Nat × Tag)
  | _, [] => []
  | u, t :: ts => (r.fold u, t) :: r.cells (r.behind u t) ts

def cellsFrom (r : Ring) : Nat → Nat → List (Nat × Tag)
  | 0, _ => []
  | steps + 1, offset =>
    if offset = r.writer then []
    else match r.tagAt offset with
      | .ok tag => (offset, tag) :: r.cellsFrom steps (tag.successor offset)
      | .error _ => []

def layout (r : Ring) : List (Nat × Tag) := r.cellsFrom r.arena.length r.outputReader

def contents (r : Ring) (u : Nat) (ts : List Tag) : List Record :=
  (r.cells u ts).flatMap fun (x, t) => r.recordsAt x t

theorem fold_of_lt (h : u < r.lap) : r.fold u = u := if_pos h

theorem fold_of_le (h : r.lap ≤ u) : r.fold u = u - r.lap := if_neg (Nat.not_lt.2 h)

theorem fold_add {k : Nat} (h : u + k < r.lap ∨ r.lap ≤ u) : r.fold (u + k) = r.fold u + k := by
  unfold fold
  split <;> split <;> omega

theorem fold_ne (huv : u < v) (hv : v < u + r.lap) : r.fold u ≠ r.fold v := by
  unfold fold
  split <;> split <;> omega

theorem fold_inj (h : r.fold u = r.fold v) (hu : u < v + r.lap) (hv : v < u + r.lap) : u = v := by
  obtain huv | huv | huv := Nat.lt_trichotomy u v
  · exact absurd h (fold_ne huv hv)
  · exact huv
  · exact absurd h.symm (fold_ne huv hu)

theorem behind_of_ne (h : t ≠ .startOver) : r.behind u t = u + span t.len := by
  cases t with
  | startOver => exact absurd rfl h
  | _ => rfl

theorem Fits.of_ne (h : r.Fits u t) (ht : t ≠ .startOver) :
    u + span t.len ≤ r.limit ∨ r.lap ≤ u := by
  have := h.2
  rwa [if_neg ht] at this

theorem Fits.align_le (h : r.Fits u t) : u + align ≤ r.behind u t := by
  by_cases ht : t = .startOver
  · subst ht
    have hu : u ≤ r.limit := h.2
    simp only [behind, lap]
    omega
  · have := align_le_span t.len
    rw [behind_of_ne ht]
    omega

theorem fold_behind (h : r.Fits u t) : r.fold (r.behind u t) = t.successor (r.fold u) := by
  by_cases ht : t = .startOver
  · subst ht
    simp only [behind, Tag.successor, fold_of_le (Nat.le_refl _), Nat.sub_self]
  · have hs : t.successor (r.fold u) = r.fold u + span t.len := by
      cases t with
      | startOver => exact absurd rfl ht
      | _ => rfl
    have hu := h.of_ne ht
    rw [behind_of_ne ht, hs, fold_add]
    unfold lap at hu ⊢
    simp only [align] at hu ⊢
    omega

theorem Fits.span_le (h : r.Fits u t) : u + span t.len ≤ r.behind u t := by
  cases t with
  | startOver => exact h.align_le
  | _ => exact Nat.le_refl _

theorem Fits.fold_add (h : r.Fits u t) {k : Nat} (hk : k < span t.len) :
    r.fold (u + k) = r.fold u + k := by
  refine Ring.fold_add ?_
  by_cases ht : t = .startOver
  · subst ht
    have hu : u ≤ r.limit := h.2
    have hk : k < align := hk
    simp only [lap]
    omega
  · have := h.of_ne ht
    unfold lap at this ⊢
    omega

theorem behind_mod (hu : u % align = 0) (hl : r.limit % align = 0) : r.behind u t % align = 0 := by
  by_cases ht : t = .startOver
  · subst ht
    simp only [behind, lap, align] at hl ⊢
    omega
  · have := span_mod t.len
    rw [behind_of_ne ht]
    simp only [align] at hu this ⊢
    omega

namespace Tiled

theorem le (h : r.Tiled u ts v) : u + align * ts.length ≤ v := by
  induction ts generalizing u with
  | nil => exact Nat.le_of_eq h
  | cons t ts ih =>
    obtain ⟨-, hf, hr⟩ := h
    have := hf.align_le
    have := ih hr
    rw [List.length_cons, Nat.mul_succ]
    omega

theorem mod (h : r.Tiled u ts v) (hu : u % align = 0) (hl : r.limit % align = 0) :
    v % align = 0 := by
  induction ts generalizing u with
  | nil => exact h ▸ hu
  | cons t ts ih => exact ih h.2.2 (behind_mod hu hl)

theorem unique {v' : Nat} (h : r.Tiled u ts v) (h' : r.Tiled u ts v') : v = v' := by
  induction ts generalizing u with
  | nil => exact h.symm.trans h'
  | cons t ts ih => exact ih h.2.2 h'.2.2

theorem append_iff : r.Tiled u (ts ++ ts') v ↔ ∃ m, r.Tiled u ts m ∧ r.Tiled m ts' v := by
  induction ts generalizing u with
  | nil => simp only [List.nil_append, Tiled, exists_eq_left']
  | cons t ts ih =>
    simp only [List.cons_append, Tiled, ih]
    constructor
    · rintro ⟨h, hf, m, hm, hr⟩
      exact ⟨m, ⟨h, hf, hm⟩, hr⟩
    · rintro ⟨m, ⟨h, hf, hm⟩, hr⟩
      exact ⟨h, hf, m, hm, hr⟩

theorem append (h : r.Tiled u ts m) (h' : r.Tiled m ts' v) : r.Tiled u (ts ++ ts') v :=
  append_iff.2 ⟨m, h, h'⟩

theorem single (ht : r.tagAt (r.fold u) = .ok t) (hf : r.Fits u t) :
    r.Tiled u [t] (r.behind u t) := ⟨ht, hf, rfl⟩

end Tiled

theorem cells_append (h : r.Tiled u ts m) :
    r.cells u (ts ++ ts') = r.cells u ts ++ r.cells m ts' := by
  induction ts generalizing u with
  | nil => rw [show u = m from h]; rfl
  | cons t ts ih => simp only [List.cons_append, cells, ih h.2.2]

theorem map_snd_cells (u : Nat) (ts : List Tag) : (r.cells u ts).map Prod.snd = ts := by
  induction ts generalizing u with
  | nil => rfl
  | cons t ts ih => simp only [cells, List.map_cons, ih]

theorem mem_of_mem_cells {x : Nat} (hx : (x, t) ∈ r.cells u ts) : t ∈ ts :=
  map_snd_cells (r := r) u ts ▸ List.mem_map_of_mem hx

theorem exists_position_of_mem_cells {x : Nat} (ht : r.Tiled u ts v)
    (hx : (x, t) ∈ r.cells u ts) :
    ∃ pre p, r.Tiled u pre p ∧ r.Fits p t ∧ r.behind p t ≤ v ∧ x = r.fold p := by
  induction ts generalizing u with
  | nil => simp [cells] at hx
  | cons t' ts ih =>
    obtain ⟨ht', hf, hr⟩ := ht
    cases List.mem_cons.1 hx with
    | inl hx =>
      obtain ⟨rfl, rfl⟩ := Prod.mk.inj hx
      have hle := hr.le
      exact ⟨[], u, rfl, hf, by omega, rfl⟩
    | inr hx =>
      obtain ⟨pre, p, hp, hfp, hpv, rfl⟩ := ih hr hx
      exact ⟨t' :: pre, p, ⟨ht', hf, hp⟩, hfp, hpv, rfl⟩

theorem contents_append (h : r.Tiled u ts m) :
    r.contents u (ts ++ ts') = r.contents u ts ++ r.contents m ts' := by
  simp only [contents, cells_append h, List.flatMap_append]

theorem contents_cons :
    r.contents u (t :: ts) = r.recordsAt (r.fold u) t ++ r.contents (r.behind u t) ts := rfl

theorem contents_singleton : r.contents u [t] = r.recordsAt (r.fold u) t := List.append_nil _

def AgreeOn (r r' : Ring) (u v : Nat) : Prop :=
  r'.limit = r.limit ∧ ∀ j, u ≤ j → j < v → r'.arena[r.fold j]? = r.arena[r.fold j]?

namespace AgreeOn

theorem mono {u' v' : Nat} (h : r.AgreeOn r' u v) (hu : u ≤ u') (hv : v' ≤ v) :
    r.AgreeOn r' u' v' :=
  ⟨h.1, fun j hj hj' => h.2 j (by omega) (by omega)⟩

theorem lap_eq (h : r.AgreeOn r' u v) : r'.lap = r.lap := by unfold lap; rw [h.1]

theorem fold_eq (h : r.AgreeOn r' u v) : r'.fold = r.fold := by
  funext j
  unfold fold
  rw [h.lap_eq]

theorem behind_eq (h : r.AgreeOn r' u v) : r'.behind m t = r.behind m t := by
  cases t with
  | startOver => exact h.lap_eq
  | _ => rfl

theorem fits_iff (h : r.AgreeOn r' u v) : r'.Fits m t ↔ r.Fits m t := by
  unfold Fits
  rw [h.1, h.lap_eq]

theorem byte (h : r.AgreeOn r' u (r.behind u t)) (hf : r.Fits u t) {k : Nat}
    (hk : k < span t.len) : r'.arena[r.fold u + k]? = r.arena[r.fold u + k]? := by
  have := hf.span_le
  rw [← hf.fold_add hk]
  exact h.2 _ (by omega) (by omega)

theorem tagAt_eq (h : r.AgreeOn r' u (r.behind u t)) (hf : r.Fits u t) :
    r'.tagAt (r.fold u) = r.tagAt (r.fold u) := by
  have := align_le_span t.len
  simp only [align] at this
  exact tagAt_congr (h.byte hf (k := 0) (by omega)) (h.byte hf (k := 1) (by omega))

theorem recordsAt_eq (h : r.AgreeOn r' u (r.behind u t)) (hf : r.Fits u t) :
    r'.recordsAt (r.fold u) t = r.recordsAt (r.fold u) t := by
  have hs := width_le_span t.len
  have hp : (r'.arena.drop (r.fold u + Tag.width)).take t.len =
      (r.arena.drop (r.fold u + Tag.width)).take t.len := by
    refine List.ext_getElem? fun j => ?_
    simp only [List.getElem?_take, List.getElem?_drop, Nat.add_assoc]
    split
    · exact h.byte hf (by omega)
    · rfl
  simp only [recordsAt, hp]

end AgreeOn

theorem cells_of_limit (hl : r'.limit = r.limit) (u : Nat) (ts : List Tag) :
    r'.cells u ts = r.cells u ts := by
  have hsame : r.AgreeOn r' 0 0 := ⟨hl, fun _ _ hj => absurd hj (Nat.not_lt_zero _)⟩
  induction ts generalizing u with
  | nil => rfl
  | cons t ts ih => rw [cells, cells, hsame.fold_eq, hsame.behind_eq, ih]

theorem Tiled.congr (h : r.Tiled u ts v) (ha : r.AgreeOn r' u v) :
    r'.Tiled u ts v ∧ r'.contents u ts = r.contents u ts := by
  induction ts generalizing u with
  | nil => exact ⟨h, rfl⟩
  | cons t ts ih =>
    obtain ⟨ht, hf, hr⟩ := h
    have hu := hf.align_le
    have hv := hr.le
    have hcell : r.AgreeOn r' u (r.behind u t) := ha.mono (Nat.le_refl u) (by omega)
    obtain ⟨hr', hc⟩ := ih hr (ha.mono (by omega) (Nat.le_refl v))
    rw [Tiled, contents_cons, contents_cons, ha.fold_eq, ha.behind_eq, ha.fits_iff,
      hcell.tagAt_eq hf, hcell.recordsAt_eq hf, hc]
    exact ⟨⟨ht, hf, hr'⟩, rfl⟩

/-- Positions of the second lap may be counted from its start. -/
theorem Tiled.rebase (h : r.Tiled u ts v) (hu : r.lap ≤ u) (hv : v ≤ r.lap + r.limit) :
    r.Tiled (u - r.lap) ts (v - r.lap) ∧ r.cells (u - r.lap) ts = r.cells u ts := by
  induction ts generalizing u with
  | nil => exact ⟨congrArg (· - r.lap) h, rfl⟩
  | cons t ts ih =>
    obtain ⟨ht, hf, hr⟩ := h
    have hal := hf.align_le
    have hle := hr.le
    have hlap : r.limit < r.lap := by simp only [lap, align]; omega
    have hn : t ≠ .startOver := by
      rintro rfl
      have hlim : u ≤ r.limit := hf.2
      omega
    have hb := behind_of_ne (r := r) (u := u) hn
    have hb' : r.behind (u - r.lap) t = r.behind u t - r.lap := by
      rw [behind_of_ne hn, hb]; omega
    have hfold : r.fold (u - r.lap) = r.fold u := by
      rw [fold_of_lt (by omega), fold_of_le hu]
    have hf' : r.Fits (u - r.lap) t := by
      refine ⟨hf.1, ?_⟩
      rw [if_neg hn]
      omega
    obtain ⟨hr', hc⟩ := ih hr (by omega)
    rw [Tiled, cells, cells, hb', hfold, hc]
    exact ⟨⟨ht, hf', hr'⟩, rfl⟩

theorem Tiled.folded (h : r.Tiled u ts v) (hv : v ≤ r.lap + r.limit) :
    r.Tiled (r.fold u) ts (r.fold u + (v - u)) ∧ r.cells (r.fold u) ts = r.cells u ts ∧
      r.fold (r.fold u + (v - u)) = r.fold v := by
  have hle := h.le
  by_cases hu : u < r.lap
  · have hv' : u + (v - u) = v := by omega
    rw [fold_of_lt hu, hv']
    exact ⟨h, rfl, rfl⟩
  · have hu := Nat.not_lt.1 hu
    have hv' : u - r.lap + (v - u) = v - r.lap := by omega
    have hlap : r.limit < r.lap := by simp only [lap, align]; omega
    obtain ⟨ht, hc⟩ := h.rebase hu hv
    rw [fold_of_le hu, hv', fold_of_le (u := v) (by omega), fold_of_lt (by omega)]
    exact ⟨ht, hc, rfl⟩

theorem cellsFrom_of_tiled {n : Nat} (h : r.Tiled u ts v) (hv : v < u + r.lap)
    (hw : r.fold v = r.writer) (hn : ts.length ≤ n) : r.cellsFrom n (r.fold u) = r.cells u ts := by
  induction ts generalizing u n with
  | nil =>
    rw [show u = v from h, hw]
    cases n with
    | zero => rfl
    | succ n => rw [cellsFrom, if_pos rfl]; rfl
  | cons t ts ih =>
    obtain ⟨ht, hf, hr⟩ := h
    have hu := hf.align_le
    have hle := hr.le
    simp only [align] at hu
    cases n with
    | zero => simp at hn
    | succ n =>
      have hne : r.fold u ≠ r.writer := hw ▸ fold_ne (by omega) hv
      rw [cellsFrom, if_neg hne, cells, ht]
      dsimp only
      rw [← fold_behind hf, ih hr (by omega) (Nat.le_of_succ_le_succ hn)]

theorem recordsFrom_eq_cellsFrom (n x : Nat) :
    r.recordsFrom n x = (r.cellsFrom n x).flatMap fun (x, t) => r.recordsAt x t := by
  induction n generalizing x with
  | zero => rfl
  | succ n ih =>
    rw [recordsFrom, cellsFrom]
    split
    · rfl
    · cases r.tagAt x with
      | error e => rfl
      | ok t => simp only [List.flatMap_cons, ih]

/-- A walk stops at the first cell that it may not pass, else at the end mark. -/
theorem walkUpTo_of_tiled {passes : Tag → Bool} {n : Nat} (h : r.Tiled u ts v)
    (hv : r.tagAt (r.fold v) = .ok .endOfRing) (hp : passes .endOfRing = false)
    (hn : ts.length ≤ n) :
    ∃ pre rest m, ts = pre ++ rest ∧ r.Tiled u pre m ∧ (∀ t ∈ pre, passes t = true) ∧
      passes (rest.headD .endOfRing) = false ∧
      r.walkUpTo passes n (r.fold u) =
        ⟨r.cells u pre, r.fold m, .ok (rest.headD .endOfRing)⟩ := by
  induction ts generalizing u n with
  | nil =>
    obtain rfl : u = v := h
    refine ⟨[], [], u, rfl, rfl, by simp, hp, ?_⟩
    cases n with
    | zero => simp only [walkUpTo, hv]; rfl
    | succ n => simp only [walkUpTo, hv, hp]; rfl
  | cons t ts ih =>
    obtain ⟨ht, hf, hr⟩ := h
    cases n with
    | zero => simp at hn
    | succ n =>
      by_cases hpass : passes t = true
      · obtain ⟨pre, rest, m, rfl, hm, hpre, hrest, hwalk⟩ := ih hr (Nat.le_of_succ_le_succ hn)
        refine ⟨t :: pre, rest, m, rfl, ⟨ht, hf, hm⟩, ?_, hrest, ?_⟩
        · exact List.forall_mem_cons.2 ⟨hpass, hpre⟩
        · rw [walkUpTo, ht]
          dsimp only
          rw [if_pos hpass, ← fold_behind hf, hwalk]
          rfl
      · refine ⟨[], t :: ts, u, rfl, rfl, by simp, Bool.eq_false_iff.2 hpass, ?_⟩
        rw [walkUpTo, ht]
        dsimp only
        rw [if_neg hpass]
        rfl

end Reflector.Ring
