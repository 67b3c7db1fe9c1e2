import Reflector.Proofs.Ring.Location
/-!
The readers: what is next in each queue, and that reading leaves the records alone.
-/
namespace Reflector.Ring

variable {r r' : Ring} {t t' : Tag} {tags pre rest post passed waiting : List Tag}
  {stop u v m mid : Nat} {rec : Record}

def nextOutput (l : List Record) : Option Handle :=
  (l.head?.filter fun rec => rec.stage == .output).map Record.handle

def nextInput (l : List Record) : Option Handle :=
  ((l.find? fun rec => rec.stage != .output).filter fun rec => rec.stage == .input).map
    Record.handle

theorem head_of_nextOutput {l : List Record} {h : Handle} (hn : nextOutput l = some h) :
    ∃ payload, l.head? = some ⟨h, .output, payload⟩ := by
  cases l with
  | nil => cases hn
  | cons rec l =>
    obtain ⟨h', s, payload⟩ := rec
    cases s with
    | output => cases hn; exact ⟨payload, rfl⟩
    | unfinished => cases hn
    | input => cases hn

theorem head_of_nextOutput_none {l : List Record} (hn : nextOutput l = none)
    (hrec : l.head? = some rec) : rec.stage ≠ .output := by
  intro hs
  simp [nextOutput, hrec, hs] at hn

theorem split_of_nextInput {l : List Record} {h : Handle} (hn : nextInput l = some h) :
    ∃ pre payload post, l = pre ++ ⟨h, .input, payload⟩ :: post ∧ ∀ e ∈ pre, e.stage = .output := by
  induction l with
  | nil => cases hn
  | cons rec l ih =>
    obtain ⟨h', s, payload⟩ := rec
    cases s with
    | output =>
      obtain ⟨pre, payload', post, rfl, hpre⟩ := ih hn
      refine ⟨⟨h', .output, payload⟩ :: pre, payload', post, rfl, fun e he => ?_⟩
      cases List.mem_cons.1 he with
      | inl he => rw [he]
      | inr he => exact hpre e he
    | unfinished => cases hn
    | input => cases hn; exact ⟨[], payload, l, rfl, fun e he => nomatch he⟩

theorem Laid.walk (passes : Tag → Bool) (hl : r.Laid tags stop) (hp : passes .endOfRing = false)
    (hm : r.Tiled m waiting stop) (hlen : waiting.length ≤ tags.length) :
    ∃ pre rest m', waiting = pre ++ rest ∧ r.Tiled m pre m' ∧ (∀ t ∈ pre, passes t = true) ∧
      passes (rest.headD .endOfRing) = false ∧
      r.walk passes (r.fold m) = ⟨r.cells m pre, r.fold m', .ok (rest.headD .endOfRing)⟩ := by
  refine walkUpTo_of_tiled hm hl.mark hp ?_
  have := hl.tiled.le
  have := hl.apart
  have := hl.fits
  simp only [align] at *
  omega

theorem contents_of_passedByOutput (h : ∀ t ∈ tags, passedByOutput t = true) :
    r.contents u tags = [] := by
  induction tags generalizing u with
  | nil => rfl
  | cons t tags ih =>
    have ht := h t (by simp)
    rw [contents_cons, ih fun t' ht' => h t' (List.mem_cons_of_mem t ht'), List.append_nil]
    exact recordsAt_of_none (by cases t <;> first | rfl | cases ht)

theorem passedByOutput_of_contents (h : r.contents u tags = []) :
    ∀ t ∈ tags, passedByOutput t = true := by
  induction tags generalizing u with
  | nil => simp
  | cons t tags ih =>
    rw [contents_cons, List.append_eq_nil_iff] at h
    refine List.forall_mem_cons.2 ⟨?_, ih h.2⟩
    cases t with
    | skip n => rfl
    | startOver => rfl
    | _ => simp [recordsAt, Tag.stage?] at h

theorem nextOutput_contents (h : passedByOutput (rest.headD .endOfRing) = false) :
    nextOutput (r.contents m rest) =
      match rest.headD .endOfRing with
      | .output _ => some ⟨r.fold m⟩
      | _ => none := by
  cases rest with
  | nil => rfl
  | cons t rest => cases t <;> first | rfl | cases h

/-- An input reader in front of the place that the output reader goes to is met on the way. -/
theorem meet_input {a : List Tag} (hm : r.Tiled r.outputReader (passed ++ a) m)
    (hp : r.Tiled r.outputReader passed mid) (hmid : r.fold mid = r.inputReader) :
    (if (r.cells r.outputReader (passed ++ a)).any fun x => x.1 == r.inputReader then r.fold m
      else r.inputReader) = r.fold m := by
  cases a with
  | nil =>
    rw [List.append_nil] at hm
    rw [← hmid, hp.unique hm, ite_self]
  | cons t a =>
    -- The cell that the input reader is at is among those passed.
    rw [if_pos]
    rw [cells_append hp, List.any_append, cells, List.any_cons, hmid]
    simp only [BEq.rfl, Bool.true_or, Bool.or_true]

theorem Laid.passOutput (hl : r.Laid (pre ++ rest) stop) (hm : r.Tiled r.outputReader pre m)
    (hpre : ∀ t ∈ pre, passedByOutput t = true) (hr' : r' = { r with
      outputReader := r.fold m
      inputReader := if (r.cells r.outputReader pre).any fun x => x.1 == r.inputReader then r.fold m
        else r.inputReader }) :
    r'.Sound ∧ r.Continues 0 r' ∧ r'.records = r.records := by
  obtain ⟨passed, waiting, mid, he, hp, hmid, hpass⟩ := hl.input
  have hap := hl.apart
  obtain ⟨mid', hp', hwait⟩ := Tiled.append_iff.1 (he ▸ hl.tiled)
  obtain rfl := hp.unique hp'
  have hwait := hwait.le
  obtain ⟨a, rfl, rfl⟩ | ⟨a, rfl, rfl⟩ := List.append_eq_append_iff.1 he
  · -- The input reader is not met on the way.
    obtain ⟨m', hm', ha⟩ := Tiled.append_iff.1 hp
    obtain rfl := hm.unique hm'
    have := ha.le
    have hany : (r.cells r.outputReader pre).any (fun x => x.1 == r.inputReader) = false := by
      refine List.any_eq_false.2 fun x hx => ?_
      obtain ⟨_, p, hop, hf, hpm, hxp⟩ := exists_position_of_mem_cells hm hx
      have hop := hop.le
      have hal := hf.align_le
      simp only [align] at hop hal
      rw [hxp, ← hmid, beq_iff_eq]
      exact fold_ne (by omega) (by omega)
    rw [hany] at hr'
    obtain ⟨⟨stop', hlaid⟩, hcont, hrecs⟩ := hl.advance { r with
        outputReader := r.fold m
        inputReader := r.inputReader } hm ha
      (fun t ht => hpass t (List.mem_append_right pre ht)) rfl hmid.symm rfl rfl rfl
    rw [contents_of_passedByOutput hpre, List.nil_append] at hrecs
    exact hr' ▸ ⟨hlaid.sound, hcont, hrecs.symm⟩
  · rw [meet_input hm hp hmid] at hr'
    have hl₀ : r.Laid (passed ++ a ++ ([] ++ rest)) stop := hl
    obtain ⟨⟨stop', hlaid⟩, hcont, hrecs⟩ := hl₀.advance { r with
        outputReader := r.fold m
        inputReader := r.fold m } hm rfl (by simp) rfl rfl rfl rfl rfl
    rw [contents_of_passedByOutput hpre, List.nil_append] at hrecs
    exact hr' ▸ ⟨hlaid.sound, hcont, hrecs.symm⟩

theorem Laid.nextOutput_eq (hl : r.Laid (pre ++ rest) stop) (hm : r.Tiled r.outputReader pre m)
    (hpre : ∀ t ∈ pre, passedByOutput t = true)
    (hrest : passedByOutput (rest.headD .endOfRing) = false) :
    nextOutput r.records = match rest.headD .endOfRing with
      | .output _ => some ⟨r.fold m⟩
      | _ => none := by
  calc nextOutput r.records
    _ = nextOutput (r.contents r.outputReader pre ++ r.contents m rest) := by
      rw [hl.records_eq, contents_append hm]
    _ = nextOutput (r.contents m rest) := by
      rw [contents_of_passedByOutput hpre, List.nil_append]
    _ = _ := nextOutput_contents hrest

theorem Laid.on_getOutput (hl : r.Laid tags stop) :
    ∃ pre rest m, tags = pre ++ rest ∧ r.Tiled r.outputReader pre m ∧
      (∀ t ∈ pre, passedByOutput t = true) ∧ passedByOutput (rest.headD .endOfRing) = false ∧
      getOutput.on r = (.ok (nextOutput r.records), { r with
        outputReader := r.fold m
        inputReader := if (r.cells r.outputReader pre).any fun x => x.1 == r.inputReader
          then r.fold m else r.inputReader }) := by
  have hfold := hl.fold_outputReader
  obtain ⟨pre, rest, m, rfl, hm, hpre, hrest, hwalk⟩ :=
    hl.walk passedByOutput rfl hl.tiled (Nat.le_refl _)
  rw [hfold] at hwalk
  refine ⟨pre, rest, m, rfl, hm, hpre, hrest, ?_⟩
  rw [getOutput, Op.on_bind_ok (Op.on_get r), hwalk, hl.nextOutput_eq hm hpre hrest]
  dsimp only
  rw [Op.on_bind_ok (Op.on_lift _ r), Op.on_bind_ok (Op.on_set _ _)]
  generalize rest.headD .endOfRing = t
  cases t <;> rfl

theorem getOutput_spec (hr : r.Sound) :
    ∃ r', getOutput.on r = (.ok (nextOutput r.records), r') ∧ r'.Sound ∧ r.Continues 0 r' ∧
      r'.records = r.records := by
  obtain ⟨tags, stop, hl⟩ := hr
  obtain ⟨pre, rest, m, rfl, hm, hpre, -, hon⟩ := hl.on_getOutput
  exact ⟨_, hon, hl.passOutput hm hpre rfl⟩

theorem getOutput_stops (hr : r.Sound) {h : Handle} (hon : getOutput.on r = (.ok (some h), r')) :
    r'.outputReader = h.offset := by
  obtain ⟨tags, stop, hl⟩ := hr
  obtain ⟨pre, rest, m, rfl, hm, hpre, hrest, hon'⟩ := hl.on_getOutput
  rw [hl.nextOutput_eq hm hpre hrest, hon] at hon'
  obtain ⟨hans, rfl⟩ := Prod.mk.inj hon'
  generalize rest.headD .endOfRing = t at hans
  cases t with
  | output n => cases hans; rfl
  | _ => cases hans

/-- In a ring without records both readers go on to the writer. -/
theorem getOutput_idle (hr : r.Sound) (hempty : r.records = []) :
    ∃ r', getOutput.on r = (.ok none, r') ∧ r'.Sound ∧ r.Continues 0 r' ∧ r'.isIdle = true := by
  obtain ⟨tags, stop, hl⟩ := hr
  have hall := passedByOutput_of_contents (hl.records_eq.symm.trans hempty)
  obtain ⟨passed, waiting, mid, he, hp, hmid, -⟩ := hl.input
  obtain ⟨pre, rest, m, rfl, hm, hpre, hrest, hon⟩ := hl.on_getOutput
  obtain rfl : rest = [] := by
    cases rest with
    | nil => rfl
    | cons t rest => exact absurd (hall t (by simp)) (Bool.eq_false_iff.1 hrest)
  rw [List.append_nil] at he
  have hmeet := meet_input (he ▸ hm) hp hmid
  obtain ⟨hr', hcont, -⟩ := hl.passOutput hm hpre rfl
  rw [hempty] at hon
  refine ⟨_, hon, hr', hcont, ?_⟩
  have hwriter : r.fold m = r.writer := hm.unique (by simpa using hl.tiled) ▸ hl.writer
  rw [hwriter] at hmeet
  simp only [isIdle, he, hwriter, hmeet, BEq.rfl, Bool.and_self]

theorem nextInput_contents (h : passedByInput (rest.headD .endOfRing) = false) :
    nextInput (r.contents m rest) =
      match rest.headD .endOfRing with
      | .input _ => some ⟨r.fold m⟩
      | _ => none := by
  cases rest with
  | nil => rfl
  | cons t rest => cases t <;> first | rfl | cases h

theorem stage_of_passed (h : ∀ t ∈ passed, passedByInput t = true)
    (hrec : rec ∈ r.contents u passed) : rec.stage = .output := by
  induction passed generalizing u with
  | nil => simp [contents, cells] at hrec
  | cons t passed ih =>
    rw [contents_cons, List.mem_append] at hrec
    cases hrec with
    | inl hrec =>
      have ht := h t (by simp)
      cases t with
      | output n =>
        rw [recordsAt_of_stage rfl, List.mem_singleton] at hrec
        rw [hrec]
      | skip n => simp [recordsAt, Tag.stage?] at hrec
      | startOver => simp [recordsAt, Tag.stage?] at hrec
      | _ => cases ht
    | inr hrec => exact ih (fun t' ht' => h t' (List.mem_cons_of_mem t ht')) hrec

theorem nextInput_passed {l : List Record} (h : ∀ t ∈ passed, passedByInput t = true) :
    nextInput (r.contents u passed ++ l) = nextInput l := by
  have hnone : (r.contents u passed).find? (fun rec => rec.stage != .output) = none := by
    refine List.find?_eq_none.2 fun rec hrec => ?_
    rw [stage_of_passed h hrec]
    decide
  rw [nextInput, nextInput, List.find?_append, hnone, Option.none_or]

theorem first_output (ht : r.Tiled u tags v) (h : ∀ t ∈ tags, passedByInput t = true) :
    ∃ pre rest p, tags = pre ++ rest ∧ r.Tiled u pre p ∧ r.Tiled p rest v ∧
      (∀ t ∈ pre, passedByOutput t = true) ∧
      (((r.cells u tags).find? fun (_, tag) => isOutput tag).map (·.1)).getD (r.fold v) =
        r.fold p := by
  induction tags generalizing u with
  | nil => exact ⟨[], [], u, rfl, rfl, ht, by simp, congrArg r.fold (ht : u = v).symm⟩
  | cons t tags ih =>
    obtain ⟨ht₀, hf, hr⟩ := ht
    cases hout : isOutput t with
    | true =>
      refine ⟨[], t :: tags, u, rfl, rfl, ⟨ht₀, hf, hr⟩, by simp, ?_⟩
      simp only [cells, List.find?_cons, hout, Option.map_some, Option.getD_some]
    | false =>
      have hpass : passedByOutput t = true := by
        have := h t (by simp)
        cases t with
        | output n => cases hout
        | skip n => rfl
        | startOver => rfl
        | _ => cases this
      obtain ⟨pre, rest, p, rfl, hp, hrest, hpre, hfirst⟩ :=
        ih hr fun t' ht' => h t' (List.mem_cons_of_mem t ht')
      refine ⟨t :: pre, rest, p, rfl, ⟨ht₀, hf, hp⟩, hrest, ?_, ?_⟩
      · exact List.forall_mem_cons.2 ⟨hpass, hpre⟩
      · simp only [cells, List.find?_cons, hout]
        exact hfirst

/-- The input reader goes on behind what it passes, with an output reader that is at the same place,
if the cells it may pass are those before `p`. -/
theorem Laid.passInput {skipped kept : List Tag} {p : Nat}
    (hl : r.Laid (passed ++ (skipped ++ kept) ++ rest) stop) (hp : r.Tiled r.outputReader passed mid)
    (hmid : r.fold mid = r.inputReader) (hm : r.Tiled mid (skipped ++ kept) m)
    (hsk : r.Tiled mid skipped p) (hke : r.Tiled p kept m)
    (hpass : ∀ t ∈ passed, passedByInput t = true)
    (hpre : ∀ t ∈ skipped ++ kept, passedByInput t = true)
    (hskip : ∀ t ∈ skipped, passedByOutput t = true) (hr' : r' = { r with
      inputReader := r.fold m
      outputReader := if r.outputReader == r.inputReader then r.fold p else r.outputReader }) :
    r'.Sound ∧ r.Continues 0 r' ∧ r'.records = r.records := by
  by_cases hdrag : r.outputReader = r.inputReader
  · have hfront : r.Laid (passed ++ (skipped ++ kept ++ rest)) stop := by simpa using hl
    obtain ⟨rfl, rfl⟩ := hfront.first_cell hp (hdrag.trans hmid.symm)
    rw [if_pos (beq_iff_eq.2 hdrag)] at hr'
    have hl₀ : r.Laid (skipped ++ (kept ++ rest)) stop := by simpa using hl
    obtain ⟨⟨stop', hlaid⟩, hcont, hrecs⟩ := hl₀.advance
      { r with outputReader := r.fold p, inputReader := r.fold m } hsk hke
      (fun t ht => hpre t (List.mem_append_right _ ht)) rfl rfl rfl rfl rfl
    rw [contents_of_passedByOutput hskip, List.nil_append] at hrecs
    exact hr' ▸ ⟨hlaid.sound, hcont, hrecs.symm⟩
  · rw [if_neg (by rwa [beq_iff_eq])] at hr'
    obtain ⟨hlaid, hcont, hrecs⟩ := hl.moveInput (hp.append hm) fun t ht => by
        cases List.mem_append.1 ht with
        | inl ht => exact hpass t ht
        | inr ht => exact hpre t ht
    exact hr' ▸ ⟨hlaid.sound, hcont, hrecs⟩

theorem getInput_spec (hr : r.Sound) :
    ∃ r', getInput.on r = (.ok (nextInput r.records), r') ∧ r'.Sound ∧ r.Continues 0 r' ∧
      r'.records = r.records := by
  obtain ⟨tags, stop, hl⟩ := hr
  obtain ⟨passed, waiting, mid, rfl, hp, hmid, hpass⟩ := hl.input
  obtain ⟨mid', hp', hwait⟩ := Tiled.append_iff.1 hl.tiled
  obtain rfl := hp.unique hp'
  obtain ⟨pre, rest, m, rfl, hm, hpre, hrest, hwalk⟩ :=
    hl.walk passedByInput rfl hwait (by simp)
  rw [hmid] at hwalk
  have hans : nextInput r.records = match rest.headD .endOfRing with
      | .input _ => some ⟨r.fold m⟩
      | _ => none := by
    calc nextInput r.records
      _ = nextInput (r.contents r.outputReader passed ++ r.contents mid (pre ++ rest)) := by
        rw [hl.records_eq, contents_append hp]
      _ = nextInput (r.contents mid pre ++ r.contents m rest) := by
        rw [nextInput_passed hpass, contents_append hm]
      _ = nextInput (r.contents m rest) := nextInput_passed hpre
      _ = _ := nextInput_contents hrest
  rw [getInput, Op.on_bind_ok (Op.on_get r), hwalk, hans]
  dsimp only
  rw [Op.on_bind_ok (Op.on_set _ _), Op.on_bind_ok (Op.on_lift _ _),
    Op.on_bind_ok (Op.on_modify _ _)]
  obtain ⟨skipped, kept, p, rfl, hsk, hke, hskip, hfirst⟩ := first_output hm hpre
  have hl₀ : r.Laid (passed ++ (skipped ++ kept) ++ rest) stop := by simpa using hl
  refine ⟨_, ?_, hl₀.passInput hp hmid hm hsk hke hpass hpre hskip rfl⟩
  rw [← hfirst]
  generalize ((r.cells mid (skipped ++ kept)).find? fun (_, tag) => isOutput tag).map (·.1) = first
  generalize rest.headD .endOfRing = t
  cases r.outputReader == r.inputReader <;> cases first <;> cases t <;> rfl

end Reflector.Ring
