import Reflector.Proofs.Ring.Location
/-!
Handing records over: finishing them, taking them out of the queues and giving them back. Only the
stage of the record at hand changes, or it goes.
-/
namespace Reflector.Ring

variable {r r' : Ring} {t t' : Tag} {tags pre post passed waiting : List Tag}
  {stop u v m mid : Nat} {rec : Record} {s : Stage} {otherwise : Tag → Fault}

theorem Tag.eq_of_unfinished (ht : t.stage? = some .unfinished) :
    t = .endOfRing ∨ t = .pending t.len := by
  cases t with
  | endOfRing => exact .inl rfl
  | pending n => exact .inr rfl
  | _ => cases ht

theorem Tag.eq_input (ht : t.stage? = some .input) : t = .input t.len := by
  cases t with
  | input n => rfl
  | _ => cases ht

theorem Tag.eq_output (ht : t.stage? = some .output) : t = .output t.len := by
  cases t with
  | output n => rfl
  | _ => cases ht

theorem on_unfinishedLen {h : Handle} (ht : r.tagAt h.offset = .ok t)
    (hs : t.stage? = some .unfinished) : (unfinishedLen h otherwise).on r = (.ok t.len, r) := by
  rw [unfinishedLen, Op.on_bind_ok (Op.on_get r), ht, Op.on_bind_ok (Op.on_lift _ r)]
  obtain he | he := Tag.eq_of_unfinished hs
  · rw [he]; rfl
  · rw [he]; rfl

theorem on_inputLen {h : Handle} (ht : r.tagAt h.offset = .ok t) (hs : t.stage? = some .input) :
    (inputLen h otherwise).on r = (.ok t.len, r) := by
  rw [inputLen, Op.on_bind_ok (Op.on_get r), ht, Op.on_bind_ok (Op.on_lift _ r), Tag.eq_input hs]
  rfl

namespace Cell

theorem maxLen (hc : r.Cell rec pre t post m stop) : t.len ≤ Tag.maxLen :=
  (hc.laid.cell hc.tiled).2.1.1

theorem room (hc : r.Cell rec pre t post m stop) : r.fold m + Tag.width ≤ r.arena.length := by
  obtain ⟨-, -, -, -, hfold⟩ := hc.laid.position hc.tiled
  have := hc.laid.fits
  have hw : Tag.width ≤ align := by decide
  omega

theorem nextRecord_eq (hc : r.Cell rec pre t post m stop) :
    nextRecord (r.fold m) t.len = r.fold (r.behind m t) := by
  rw [fold_behind (hc.laid.cell hc.tiled).2.1]
  have := hc.ne_startOver
  cases t with
  | startOver => exact absurd rfl this
  | _ => rfl

theorem restage (t' : Tag) (hc : r.Cell rec pre t post m stop) (ht' : t'.stage? = some s)
    (hlen : t'.len = t.len) (hpass : passedByInput t = true → passedByInput t' = true) :
    (setTag (r.fold m) t').on r = (.ok (), r.withTag (r.fold m) t') ∧
      (r.withTag (r.fold m) t').Laid (pre ++ [t'.asRead] ++ post) stop ∧
      (r.withTag (r.fold m) t').Tiled r.outputReader (pre ++ [t'.asRead]) (r.behind m t) ∧
      r.Continues 0 (r.withTag (r.fold m) t') ∧
      (r.withTag (r.fold m) t').records =
        revise rec.handle (fun e => { e with stage := s }) r.records := by
  obtain ⟨hon, hlaid, htiled, hcont, hrec⟩ := hc.laid.retag t' hc.tiled hc.ne_startOver
    (Tag.ne_startOver_of_stage ht') (hlen ▸ hc.maxLen) (by rw [hlen]) hpass
  refine ⟨hon, hlaid, htiled, hcont, ?_⟩
  rw [hrec, hc.revise_records, recordsAt_of_stage ((Tag.stage?_asRead t').trans ht'),
    Tag.len_asRead, hlen, hc.handle, hc.payload]

theorem skip (hc : r.Cell rec pre t post m stop) :
    (setTag (r.fold m) (.skip t.len)).on r = (.ok (), r.withTag (r.fold m) (.skip t.len)) ∧
      (r.withTag (r.fold m) (.skip t.len)).Laid (pre ++ [.skip t.len] ++ post) stop ∧
      (r.withTag (r.fold m) (.skip t.len)).Tiled r.outputReader (pre ++ [.skip t.len])
        (r.behind m t) ∧
      r.Continues 0 (r.withTag (r.fold m) (.skip t.len)) ∧
      (r.withTag (r.fold m) (.skip t.len)).records = remove rec.handle r.records := by
  obtain ⟨hon, hlaid, htiled, hcont, hrec⟩ := hc.laid.retag (.skip t.len) hc.tiled hc.ne_startOver
    Tag.noConfusion hc.maxLen rfl fun _ => rfl
  refine ⟨hon, hlaid, htiled, hcont, ?_⟩
  rw [hrec, hc.remove_records, recordsAt_of_none rfl, List.append_nil]

end Cell

theorem Sound.payload_le (hr : r.Sound) (hrec : rec ∈ r.records) :
    rec.payload.length ≤ Tag.maxLen := by
  obtain ⟨pre, t, post, m, stop, hc⟩ := hr.exists_cell hrec
  rw [hc.len]
  exact hc.maxLen

theorem passedByInput_unfinished (hs : t.stage? = some .unfinished) : passedByInput t = false := by
  obtain he | he := Tag.eq_of_unfinished hs <;> rw [he] <;> rfl

theorem passedByInput_input (hs : t.stage? = some .input) : passedByInput t = false := by
  rw [Tag.eq_input hs]; rfl

theorem putInput_spec (hr : r.Sound) (hrec : rec ∈ r.records) (hs : rec.stage = .unfinished) :
    ∃ r', (putInput rec.handle).on r = (.ok (), r') ∧ r'.Sound ∧ r.Continues 0 r' ∧
      r'.records = revise rec.handle (fun e => { e with stage := .input }) r.records := by
  obtain ⟨pre, t, post, m, stop, hc⟩ := hr.exists_cell hrec
  have ht : t.stage? = some .unfinished := hs ▸ hc.stage
  obtain ⟨hon, hlaid, -, hcont, hrecs⟩ := hc.restage (.input t.len) (s := .input) rfl rfl
    fun h => absurd h (by rw [passedByInput_unfinished ht]; decide)
  refine ⟨_, ?_, hlaid.sound, hcont, hrecs⟩
  rw [putInput, Op.on_bind_ok (on_unfinishedLen hc.tagAt ht), hc.handle]
  exact hon

theorem putOutput_spec (hr : r.Sound) (hrec : rec ∈ r.records) (hs : rec.stage = .unfinished) :
    ∃ r', (putOutput rec.handle).on r = (.ok (), r') ∧ r'.Sound ∧ r.Continues 0 r' ∧
      r'.records = revise rec.handle (fun e => { e with stage := .output }) r.records := by
  obtain ⟨pre, t, post, m, stop, hc⟩ := hr.exists_cell hrec
  have ht : t.stage? = some .unfinished := hs ▸ hc.stage
  obtain ⟨hon, hlaid, -, hcont, hrecs⟩ :=
    hc.restage (.output t.len) (s := .output) rfl rfl fun _ => rfl
  refine ⟨_, ?_, hlaid.sound, hcont, hrecs⟩
  rw [putOutput, Op.on_bind_ok (on_unfinishedLen hc.tagAt ht), hc.handle]
  exact hon

theorem reattachOutput_spec (hr : r.Sound) (hrec : rec ∈ r.records) (hs : rec.stage = .input) :
    ∃ r', (reattachOutput rec.handle).on r = (.ok (), r') ∧ r'.Sound ∧ r.Continues 0 r' ∧
      r'.records = revise rec.handle (fun e => { e with stage := .output }) r.records := by
  obtain ⟨pre, t, post, m, stop, hc⟩ := hr.exists_cell hrec
  have ht : t.stage? = some .input := hs ▸ hc.stage
  obtain ⟨hon, hlaid, htiled, hcont, hrecs⟩ :=
    hc.restage (.output t.len) (s := .output) rfl rfl fun _ => rfl
  rw [reattachOutput, Op.on_bind_ok (on_inputLen hc.tagAt ht), hc.handle, Op.on_bind_ok hon,
    Op.on_bind_ok (Op.on_get _)]
  by_cases hi : r.inputReader = r.fold m
  · -- The input reader passes the record, which is an answer now.
    have hpass : ∀ t' ∈ pre ++ [.output t.len], passedByInput t' = true := by
      intro t' ht'
      cases List.mem_append.1 ht' with
      | inl ht' => exact hc.laid.passed_of_input hc.tiled hi t' ht'
      | inr ht' => rw [List.mem_singleton.1 ht']; rfl
    obtain ⟨hlaid', hcont', hrecs'⟩ := hlaid.moveInput htiled hpass
    refine ⟨_, ?_, hlaid'.sound, hcont.trans rfl hcont', by rw [hrecs', hrecs, hc.handle]⟩
    rw [if_pos (show (r.withTag (r.fold m) (.output t.len)).inputReader = _ from hi), Op.on_modify,
      hc.nextRecord_eq]
    rfl
  · refine ⟨_, ?_, hlaid.sound, hcont, hc.handle ▸ hrecs⟩
    rw [if_neg (show ¬(r.withTag (r.fold m) (.output t.len)).inputReader = _ from hi), Op.on_pure]

/-- A record that the output reader is at goes without a trace. -/
theorem Cell.drop (hc : r.Cell rec pre t post m stop) (ho : r.outputReader = r.fold m)
    (hi : r'.inputReader = r.fold mid) (hpost : post = passed ++ waiting)
    (hp : r.Tiled (r.behind m t) passed mid) (hpass : ∀ t ∈ passed, passedByInput t = true)
    (ho' : r'.outputReader = r.fold (r.behind m t)) (hw : r'.writer = r.writer)
    (hl : r'.limit = r.limit) (ha : r'.arena = r.arena) :
    r'.Sound ∧ r.Continues 0 r' ∧ r'.records = remove rec.handle r.records := by
  obtain ⟨rfl, rfl⟩ := hc.laid.first_cell hc.tiled ho
  subst hpost
  obtain ⟨htag, hf, -, -⟩ := hc.laid.cell hc.tiled
  have hlaid₀ : r.Laid ([t] ++ (passed ++ waiting)) stop := hc.laid
  obtain ⟨⟨stop', hlaid⟩, hcont, hrecs⟩ := hlaid₀.advance r' (Tiled.single htag hf) hp hpass ho' hi
    hw hl ha
  have hone : r.contents r.outputReader [t] = [rec] := by
    rw [contents_cons, recordsAt_of_stage hc.stage, ← hc.handle, ← hc.payload]
    rfl
  rw [hone] at hrecs
  refine ⟨hlaid.sound, hcont, ?_⟩
  rw [hc.remove_records]
  exact List.append_cancel_left (hrecs.symm.trans hc.records)

theorem releaseInput_spec (hr : r.Sound) (hrec : rec ∈ r.records) (hs : rec.stage = .input) :
    ∃ r', (releaseInput rec.handle).on r = (.ok (), r') ∧ r'.Sound ∧ r.Continues 0 r' ∧
      r'.records = remove rec.handle r.records := by
  obtain ⟨pre, t, post, m, stop, hc⟩ := hr.exists_cell hrec
  have ht : t.stage? = some .input := hs ▸ hc.stage
  rw [releaseInput, Op.on_bind_ok (on_inputLen hc.tagAt ht), Op.on_bind_ok (Op.on_get r)]
  by_cases hboth : r.inputReader = rec.handle.offset ∧ r.outputReader = rec.handle.offset
  · rw [if_pos hboth, Op.on_set]
    have hnext : nextRecord rec.handle.offset t.len = r.fold (r.behind m t) := by
      rw [hc.handle]
      exact hc.nextRecord_eq
    have ho : r.outputReader = r.fold m := by rw [hboth.2, hc.handle]
    refine ⟨_, rfl, ?_⟩
    exact hc.drop ho hnext (List.nil_append _).symm rfl (by simp) hnext rfl rfl rfl
  · rw [if_neg hboth, Op.on_bind_ok (Op.on_set _ _)]
    obtain ⟨-, hlaid, htiled, hcont, hrecs⟩ := hc.skip
    have hx : rec.handle.offset + Tag.width ≤ r.arena.length := by rw [hc.handle]; exact hc.room
    refine ⟨_, on_setTag hx hc.maxLen, ?_⟩
    rw [← hrecs, hc.handle]
    by_cases hi : r.inputReader = r.fold m
    · have hpass : ∀ t' ∈ pre ++ [.skip t.len], passedByInput t' = true := by
        intro t' ht'
        cases List.mem_append.1 ht' with
        | inl ht' => exact hc.laid.passed_of_input hc.tiled hi t' ht'
        | inr ht' => rw [List.mem_singleton.1 ht']; rfl
      obtain ⟨hlaid', hcont', hrecs'⟩ := hlaid.moveInput htiled hpass
      rw [if_pos hi, hc.nextRecord_eq]
      exact ⟨hlaid'.sound, hcont.trans rfl hcont', hrecs'⟩
    · rw [if_neg hi]
      exact ⟨hlaid.sound, hcont, rfl⟩

theorem releaseOutput_spec (hr : r.Sound) (hrec : rec ∈ r.records) (hs : rec.stage = .output) :
    ∃ r', (releaseOutput rec.handle).on r = (.ok (), r') ∧ r'.Sound ∧ r.Continues 0 r' ∧
      r'.records = remove rec.handle r.records := by
  obtain ⟨pre, t, post, m, stop, hc⟩ := hr.exists_cell hrec
  have ht : t = .output t.len := Tag.eq_output (hs ▸ hc.stage)
  have hnext : nextRecord rec.handle.offset t.len = r.fold (r.behind m t) := by
    rw [hc.handle]
    exact hc.nextRecord_eq
  rw [releaseOutput, Op.on_bind_ok (Op.on_get r), hc.tagAt, Op.on_bind_ok (Op.on_lift _ r), ht]
  dsimp only
  by_cases ho : r.outputReader = rec.handle.offset
  · rw [if_pos ho]
    have ho' : r.outputReader = r.fold m := by rw [ho, hc.handle]
    obtain ⟨rfl, rfl⟩ := hc.laid.first_cell hc.tiled ho'
    by_cases hi : r.inputReader = rec.handle.offset
    · rw [if_pos hi]
      refine ⟨_, rfl, ?_⟩
      exact hc.drop ho' hnext (List.nil_append _).symm rfl (by simp) hnext rfl rfl rfl
    · rw [if_neg hi]
      obtain ⟨passed, waiting, mid, he, hp, hmid, hpass⟩ := hc.laid.input
      cases passed with
      | nil =>
        have heq : r.outputReader = mid := hp
        rw [← heq, ← ho', ho] at hmid
        exact absurd hmid.symm hi
      | cons t' passed =>
        obtain ⟨rfl, rfl⟩ := List.cons.inj he
        refine ⟨_, rfl, ?_⟩
        exact hc.drop ho' hmid.symm rfl hp.2.2
          (fun t₁ ht₁ => hpass t₁ (List.mem_cons_of_mem t ht₁)) hnext rfl rfl rfl
  · rw [if_neg ho]
    obtain ⟨hon, hlaid, -, hcont, hrecs⟩ := hc.skip
    refine ⟨_, ?_, hlaid.sound, hcont, hrecs⟩
    rw [hc.handle]
    exact hon

end Reflector.Ring
