import Reflector.Proofs.Ring.Refinement
/-!
The representation of a ring in its arena, along every run of permitted calls, and what follows for
the calls: loops end, nothing is out of bounds, and a handle names its record until it is consumed.
-/
namespace Reflector.Ring

variable {r r₀ r' : Ring} {t : Tag} {tags ts : List Tag} {stop u v m n k : Nat} {live : List Entry}
  {held : List (Handle × Stage)} {h : Handle} {c : Call} {reply : Reply}

def Path (r : Ring) : Nat → List (Nat × Tag) → Nat → Prop
  | x, [], y => x = y
  | x, (z, t) :: cs, y => z = x ∧ r.tagAt x = .ok t ∧ r.Path (t.successor x) cs y

def Apart (a b : Nat × Tag) : Prop := a.1 + span a.2.len ≤ b.1 ∨ b.1 + span b.2.len ≤ a.1

structure WellFormed (r : Ring) (live : List Entry) : Prop where
  storage : r.capacity + align ≤ r.arena.length
  writer : r.writer % align = 0 ∧ r.writer ≤ r.capacity
  input : r.inputReader % align = 0 ∧ r.inputReader ≤ r.capacity
  output : r.outputReader % align = 0 ∧ r.outputReader ≤ r.capacity
  path : r.Path r.outputReader r.layout r.writer
  apart : r.layout.Pairwise Apart
  inside : ∀ x t, (x, t) ∈ r.layout → x % align = 0 ∧ t.len ≤ Tag.maxLen ∧
    if t = .startOver then x ≤ r.capacity else x + span t.len ≤ r.capacity
  ahead : ∀ cell ∈ r.layout, Apart cell (r.writer, .endOfRing)
  passed : ∃ passed waiting, r.layout = passed ++ waiting ∧
    r.Path r.outputReader passed r.inputReader ∧ r.Path r.inputReader waiting r.writer ∧
    ∀ cell ∈ passed, cell.1 ≠ r.inputReader ∧ passedByInput cell.2 = true
  mark : r.tagAt r.writer = .ok .endOfRing
  entries : r.entries = live
  full : r.writer = r.outputReader → live = []

theorem path_of_tiled (ht : r.Tiled u ts v) : r.Path (r.fold u) (r.cells u ts) (r.fold v) := by
  induction ts generalizing u with
  | nil => exact congrArg r.fold ht
  | cons t ts ih =>
    obtain ⟨ht, hf, hr⟩ := ht
    exact ⟨rfl, ht, fold_behind hf ▸ ih hr⟩

/-- Stretches that follow each other within a lap are apart in the arena. -/
theorem fold_apart (hv : u + n ≤ v) (hlap : v + k ≤ u + r.lap) :
    r.fold u + n ≤ r.fold v ∨ r.fold v + k ≤ r.fold u := by
  unfold fold
  split <;> split <;> omega

theorem apart_of_tiled (ht : r.Tiled u ts v) (hv : v ≤ u + r.lap) :
    (r.cells u ts).Pairwise Apart := by
  induction ts generalizing u with
  | nil => exact .nil
  | cons t ts ih =>
    obtain ⟨-, hf, hr⟩ := ht
    have hspan := hf.span_le
    refine .cons (fun cell hcell => ?_) (ih hr (by omega))
    obtain ⟨_, p, hp, hfp, hpv, hx⟩ :=
      exists_position_of_mem_cells (t := cell.2) (x := cell.1) hr hcell
    have hle := hp.le
    have hspan' := hfp.span_le
    rw [Apart, hx]
    dsimp only
    exact fold_apart (by omega) (by omega)

namespace Laid

theorem fold_mod (hl : r.Laid tags stop) (hm : m % align = 0) : r.fold m % align = 0 := by
  have hlap := hl.lap_mod
  simp only [align] at *
  unfold fold
  split <;> omega

theorem reader (hl : r.Laid (tags ++ ts) stop) (hm : r.Tiled r.outputReader tags m) :
    r.fold m % align = 0 ∧ r.fold m ≤ r.capacity := by
  obtain ⟨hmod, -, -, -, hfold⟩ := hl.position hm
  refine ⟨hl.fold_mod hmod, ?_⟩
  simp only [lap, capacity] at *
  omega

theorem inside (hl : r.Laid tags stop) {x : Nat} (hx : (x, t) ∈ r.layout) :
    x % align = 0 ∧ t.len ≤ Tag.maxLen ∧
      if t = .startOver then x ≤ r.capacity else x + span t.len ≤ r.capacity := by
  rw [hl.layout_eq] at hx
  obtain ⟨pre, p, hp, hf, hpv, rfl⟩ := exists_position_of_mem_cells hl.tiled hx
  refine ⟨hl.fold_mod (hp.mod hl.first hl.unit), hf.1, ?_⟩
  have hap := hl.apart
  have hfirst := hl.first_le
  have hspan := hf.span_le
  have hlap : r.lap = r.limit + align := rfl
  have halign : 0 < align := by decide
  simp only [capacity]
  split
  · next ht =>
    have hle : p ≤ r.limit := by simpa only [if_pos ht] using hf.2
    rwa [fold_of_lt (by omega)]
  · next ht =>
    have hroom := hf.of_ne ht
    unfold fold
    split <;> omega

theorem ahead (hl : r.Laid tags stop) {cell : Nat × Tag} (hcell : cell ∈ r.layout) :
    Apart cell (r.writer, .endOfRing) := by
  rw [hl.layout_eq] at hcell
  obtain ⟨pre, p, hp, hf, hpv, hx⟩ :=
    exists_position_of_mem_cells (t := cell.2) (x := cell.1) hl.tiled hcell
  obtain ⟨hroom, -, -⟩ := hl.stop_room
  have hle := hp.le
  have hspan := hf.span_le
  have hunit : span (Tag.endOfRing).len = align := rfl
  rw [Apart, hx, ← hl.writer]
  dsimp only
  exact fold_apart (by omega) (by omega)

theorem passed_ne (hl : r.Laid (tags ++ ts) stop) (hm : r.Tiled r.outputReader tags m)
    {cell : Nat × Tag} (hcell : cell ∈ r.cells r.outputReader tags) : cell.1 ≠ r.fold m := by
  obtain ⟨pre, p, hp, hf, hpv, hx⟩ :=
    exists_position_of_mem_cells (t := cell.2) (x := cell.1) hm hcell
  obtain ⟨-, -, hroom, -, -⟩ := hl.position hm
  have hle := hp.le
  have hal := hf.align_le
  have halign : 0 < align := by decide
  rw [hx]
  exact fold_ne (by omega) (by omega)

theorem wellFormed (hl : r.Laid tags stop) (hlive : r.entries = live) : r.WellFormed live := by
  have hwhole : r.Laid (tags ++ []) stop := by rwa [List.append_nil]
  have hwriter := hwhole.reader hl.tiled
  have hfold := hl.fold_outputReader
  have hnone : r.Laid ([] ++ tags) stop := hl
  have houtput := hnone.reader rfl
  have hmark := hl.mark
  have hpath := path_of_tiled hl.tiled
  have hap := hl.apart
  rw [hl.writer] at hwriter hpath hmark
  rw [hfold] at houtput hpath
  obtain ⟨passed, waiting, mid, rfl, hp, hmid, hpass⟩ := hl.input
  obtain ⟨mid', hp', hwait⟩ := Tiled.append_iff.1 hl.tiled
  obtain rfl := hp.unique hp'
  have hinput := hl.reader hp
  have hpath₁ := path_of_tiled hp
  have hpath₂ := path_of_tiled hwait
  have hlayout := hl.layout_eq
  rw [hmid] at hinput hpath₁ hpath₂
  rw [hfold] at hpath₁
  rw [hl.writer] at hpath₂
  refine
    { storage := hl.fits
      writer := hwriter
      input := hinput
      output := houtput
      path := hlayout ▸ hpath
      apart := hlayout ▸ apart_of_tiled hl.tiled (by omega)
      inside := fun _ _ => hl.inside
      ahead := fun _ => hl.ahead
      passed := ⟨_, _, hlayout.trans (cells_append hp), hpath₁, hpath₂, fun cell hcell => ⟨?_, ?_⟩⟩
      mark := hmark
      entries := hlive
      full := fun heq => ?_ }
  · rw [← hmid]
    exact hl.passed_ne hp hcell
  · refine hpass cell.2 ?_
    rw [← map_snd_cells (r := r) r.outputReader passed]
    exact List.mem_map_of_mem hcell
  · rw [← hlive, entries, records, ← heq, recordsFrom_writer, List.map_nil]

end Laid

/-- The handles after a call: those returned and not consumed, with the stages they were returned
at. A reader that returns a record once more returns the same handle. -/
def Call.custody : Call → Reply → List (Handle × Stage) → List (Handle × Stage)
  | allocate _, .handle (some h), held => (h, .unfinished) :: held
  | resize h _, .resized (.ok h'), held => (h', .unfinished) :: held.filter fun p => p.1 ≠ h
  | getInput, .handle (some h), held => (h, .input) :: held
  | getOutput, .handle (some h), held => (h, .output) :: held
  | discard h, _, held | putInput h, _, held | putOutput h, _, held => held.filter fun p => p.1 ≠ h
  | releaseInput h, _, held | releaseOutput h, _, held | reattachOutput h, _, held =>
    held.filter fun p => p.1 ≠ h
  | _, _, held => held

/-- The states after runs of permitted calls, with the list that they follow and the handles. -/
inductive Reached (r₀ : Ring) : Ring → List Entry → List (Handle × Stage) → Prop
  | start : Reached r₀ r₀ [] []
  | call {r r' : Ring} {live : List Entry} {held : List (Handle × Stage)} {c : Call}
      {reply : Reply} : Reached r₀ r live held → c.Permits live → c.run.on r = (.ok reply, r') →
      Reached r₀ r' (c.act reply live) (c.custody reply held)

def Holds (live : List Entry) (p : Handle × Stage) : Prop :=
  ∃ e ∈ live, e.handle = p.1 ∧ e.stage = p.2

section Custody

variable {p : Handle × Stage} {f : Entry → Entry}

theorem Holds.alter (hp : Holds live p)
    (hf : ∀ e, (f e).handle = e.handle ∧ (p.1 = h → (f e).stage = e.stage)) :
    Holds (alter h f live) p := by
  obtain ⟨e, he, hh, hs⟩ := hp
  refine ⟨_, List.mem_map_of_mem he, ?_⟩
  by_cases heq : e.handle = h
  · rw [if_pos heq, (hf e).1, (hf e).2 (hh.symm.trans heq)]
    exact ⟨hh, hs⟩
  · rw [if_neg heq]
    exact ⟨hh, hs⟩

theorem Holds.without (hp : Holds live p) (hne : p.1 ≠ h) : Holds (without h live) p := by
  obtain ⟨e, he, hh, hs⟩ := hp
  exact ⟨e, List.mem_filter.2 ⟨he, decide_eq_true (hh ▸ hne)⟩, hh, hs⟩

theorem holds_firstInput (hh : firstInput live = some h) : Holds live (h, .input) := by
  induction live with
  | nil => cases hh
  | cons e live ih =>
    obtain ⟨h', s, n⟩ := e
    cases s with
    | output =>
      obtain ⟨e, he, heq⟩ := ih hh
      exact ⟨e, List.mem_cons_of_mem _ he, heq⟩
    | input => exact ⟨_, List.mem_cons_self, Option.some.inj hh, rfl⟩
    | unfinished => cases hh

theorem holds_firstOutput (hh : firstOutput live = some h) : Holds live (h, .output) := by
  cases live with
  | nil => cases hh
  | cons e live =>
    obtain ⟨h', s, n⟩ := e
    cases s with
    | output => exact ⟨_, List.mem_cons_self, Option.some.inj hh, rfl⟩
    | _ => cases hh

theorem Holds.append {new : List Entry} (hp : Holds live p) : Holds (live ++ new) p := by
  obtain ⟨e, he, heq⟩ := hp
  exact ⟨e, List.mem_append_left _ he, heq⟩

theorem holds_filter (hheld : ∀ p ∈ held, Holds live p)
    (hp : p ∈ held.filter fun p => p.1 ≠ h) : Holds live p ∧ p.1 ≠ h := by
  obtain ⟨hmem, hne⟩ := List.mem_filter.1 hp
  exact ⟨hheld p hmem, of_decide_eq_true hne⟩

theorem Call.holds_custody (hc : c.Permits live) (hans : c.Answers live reply)
    (hheld : ∀ p ∈ held, Holds live p) :
    ∀ p ∈ c.custody reply held, Holds (c.act reply live) p := by
  cases c with
  | allocate len =>
    cases reply with
    | handle found =>
      cases found with
      | none => exact hheld
      | some h =>
        refine List.forall_mem_cons.2 ⟨?_, fun p hp => (hheld p hp).append⟩
        exact ⟨_, List.mem_append_right _ List.mem_cons_self, rfl, rfl⟩
    | _ => exact hheld
  | resize h len =>
    cases reply with
    | resized result =>
      cases result with
      | error h' => exact hheld
      | ok h' =>
        rw [act]
        by_cases heq : h' = h
        · rw [if_pos heq]
          refine List.forall_mem_cons.2 ⟨?_, fun p hp => ?_⟩
          · exact Holds.alter (heq ▸ hc) fun e => ⟨rfl, fun _ => rfl⟩
          · exact (holds_filter hheld hp).1.alter fun e => ⟨rfl, fun _ => rfl⟩
        · rw [if_neg heq]
          refine List.forall_mem_cons.2 ⟨?_, fun p hp => ?_⟩
          · exact ⟨_, List.mem_append_right _ List.mem_cons_self, rfl, rfl⟩
          · obtain ⟨hp, hne⟩ := holds_filter hheld hp
            exact (hp.without hne).append
    | _ => exact hheld
  | shrink h len => exact fun p hp => (hheld p hp).alter fun e => ⟨rfl, fun _ => rfl⟩
  | getInput =>
    cases reply with
    | handle found =>
      cases found with
      | none => exact hheld
      | some h => exact List.forall_mem_cons.2 ⟨holds_firstInput hans.symm, hheld⟩
    | _ => exact hheld
  | getOutput =>
    cases reply with
    | handle found =>
      cases found with
      | none => exact hheld
      | some h => exact List.forall_mem_cons.2 ⟨holds_firstOutput hans.symm, hheld⟩
    | _ => exact hheld
  | edit h f => exact hheld
  | discard h | releaseInput h | releaseOutput h =>
    intro p hp
    obtain ⟨hp, hne⟩ := holds_filter hheld hp
    exact hp.without hne
  | putInput h | putOutput h | reattachOutput h =>
    intro p hp
    obtain ⟨hp, hne⟩ := holds_filter hheld hp
    exact hp.alter fun e => ⟨rfl, fun heq => absurd heq hne⟩

end Custody

theorem Reached.sound (hr₀ : r₀.Sound) (h₀ : r₀.entries = []) (h : Reached r₀ r live held) :
    r.Sound ∧ r.entries = live ∧ ∀ p ∈ held, Holds live p := by
  induction h with
  | start => exact ⟨hr₀, h₀, by simp⟩
  | @call r r' live held c reply _ hc hon ih =>
    obtain ⟨hr, rfl, hheld⟩ := ih
    obtain ⟨reply', r'', hon', hr', hans, hact⟩ := Call.step hr hc
    rw [hon] at hon'
    obtain ⟨hreply, rfl⟩ := Prod.mk.inj hon'
    obtain rfl := Except.ok.inj hreply
    exact ⟨hr', hact, Call.holds_custody hc hans hheld⟩

def Reachable (r : Ring) : Prop :=
  ∃ storage r₀ live held, new storage = .ok r₀ ∧ Reached r₀ r live held

theorem sound_of_new {storage : Bytes} (hnew : new storage = .ok r) : r.Sound ∧ r.entries = [] := by
  have hunits : 2 * align ≤ storage.length := by
    simp only [new] at hnew
    split at hnew
    · cases hnew
    · next hunits =>
      simp only [align] at *
      omega
  obtain ⟨r', hnew', hr, hrecs⟩ := exists_new storage hunits
  cases Except.ok.inj (hnew.symm.trans hnew')
  exact ⟨hr, by rw [entries, hrecs, List.map_nil]⟩

theorem Reachable.sound (h : r.Reachable) : r.Sound := by
  obtain ⟨storage, r₀, live, held, hnew, hreached⟩ := h
  obtain ⟨hr₀, hentries⟩ := sound_of_new hnew
  exact (hreached.sound hr₀ hentries).1

theorem Leads.reachable (h : r.Leads r') (hr : r.Reachable) : r'.Reachable := by
  induction h with
  | refl => exact hr
  | call _ hc hon ih =>
    obtain ⟨storage, r₀, live, held, hnew, hreached⟩ := ih
    obtain ⟨hr₀, hrecs⟩ := sound_of_new hnew
    obtain ⟨-, rfl, -⟩ := hreached.sound hr₀ hrecs
    exact ⟨storage, r₀, _, _, hnew, hreached.call hc hon⟩

/-- What the calls rely on: the loops of the readers end at a tag that they may not pass, permitted
calls do not fault, and no offset or gap leaves its range. -/
structure Safe (r : Ring) (live : List Entry) : Prop where
  inputLoop : ∃ t, (r.walk passedByInput r.inputReader).tag = .ok t ∧ passedByInput t = false
  outputLoop : ∃ t, (r.walk passedByOutput r.outputReader).tag = .ok t ∧ passedByOutput t = false
  calls : ∀ c : Call, c.Permits live → ∃ reply r', c.run.on r = (.ok reply, r')
  ends : ∀ e ∈ live, e.len ≤ Tag.maxLen ∧ nextRecord e.handle.offset e.len ≤ r.capacity
  sums : ∀ len ≤ Tag.maxLen, nextRecord r.writer len ≤ r.capacity + span Tag.maxLen ∧
    ∀ e ∈ live, nextRecord e.handle.offset len ≤ r.capacity + span Tag.maxLen
  gaps : ∀ e ∈ live, ∀ len, nextRecord e.handle.offset len < nextRecord e.handle.offset e.len →
    nextRecord e.handle.offset len + Tag.width ≤ nextRecord e.handle.offset e.len ∧
      nextRecord e.handle.offset e.len - nextRecord e.handle.offset len - Tag.width ≤ Tag.maxLen

/-- A record that gets shorter by units leaves a gap for a tag, no longer than the record was. -/
theorem gap_of_lt {x old len : Nat} (hold : old ≤ Tag.maxLen)
    (hlt : nextRecord x len < nextRecord x old) :
    nextRecord x len + Tag.width ≤ nextRecord x old ∧
      nextRecord x old - nextRecord x len - Tag.width ≤ Tag.maxLen := by
  have hmod := span_mod len
  have hmod' := span_mod old
  have hle := span_le old
  have hal := align_le_span len
  simp only [nextRecord, align, Tag.width, Tag.maxLen] at *
  omega

theorem Laid.loops (hl : r.Laid tags stop) :
    (∃ t, (r.walk passedByInput r.inputReader).tag = .ok t ∧ passedByInput t = false) ∧
      ∃ t, (r.walk passedByOutput r.outputReader).tag = .ok t ∧ passedByOutput t = false := by
  obtain ⟨_, rest, _, -, -, -, hrest, hwalk⟩ :=
    hl.walk passedByOutput rfl hl.tiled (Nat.le_refl _)
  obtain ⟨passed, waiting, mid, rfl, hp, hmid, -⟩ := hl.input
  obtain ⟨mid', hp', hwait⟩ := Tiled.append_iff.1 hl.tiled
  obtain rfl := hp.unique hp'
  obtain ⟨_, rest', _, -, -, -, hrest', hwalk'⟩ :=
    hl.walk passedByInput rfl hwait (by simp)
  rw [hl.fold_outputReader] at hwalk
  rw [hmid] at hwalk'
  exact ⟨⟨_, by rw [hwalk'], hrest'⟩, ⟨_, by rw [hwalk], hrest⟩⟩

theorem Sound.end_le (hr : r.Sound) {e : Entry} (he : e ∈ r.entries) :
    e.len ≤ Tag.maxLen ∧ nextRecord e.handle.offset e.len ≤ r.capacity := by
  obtain ⟨rec, hrec, rfl⟩ := List.mem_map.1 he
  obtain ⟨pre, t, post, m, stop, hc⟩ := hr.exists_cell hrec
  have hend := (hc.laid.cell hc.tiled).2.2.2 hc.ne_startOver
  simp only [Record.entry, hc.len, hc.handle]
  exact ⟨hc.maxLen, hend⟩

theorem Sound.safe (hr : r.Sound) : r.Safe r.entries := by
  have hends := fun e he => hr.end_le (e := e) he
  obtain ⟨tags, stop, hl⟩ := hr
  obtain ⟨hinput, houtput⟩ := hl.loops
  have hwriter := (hl.wellFormed rfl).writer
  refine
    { inputLoop := hinput
      outputLoop := houtput
      calls := fun c hc => ?_
      ends := hends
      sums := fun len hlen => ⟨?_, fun e he => ?_⟩
      gaps := fun e he len hlt => gap_of_lt (hends e he).1 hlt }
  · obtain ⟨reply, r', hon, -⟩ := Call.step hl.sound hc
    exact ⟨reply, r', hon⟩
  · exact Nat.add_le_add hwriter.2 (span_mono hlen)
  · exact Nat.add_le_add (Nat.le_trans (Nat.le_add_right ..) (hends e he).2) (span_mono hlen)

/-- Every state that calls on a new ring lead to is well formed and safe, and the record of a handle
that is not consumed is still at the stage at which the handle was returned. -/
theorem reached_wellFormed (storage : Bytes) (h : 2 * align ≤ storage.length) :
    ∃ r₀, new storage = .ok r₀ ∧ ∀ r live held, Reached r₀ r live held →
      r.WellFormed live ∧ r.Safe live ∧ ∀ p ∈ held, Holds live p := by
  obtain ⟨r₀, hnew, hr₀, hrecs⟩ := exists_new storage h
  refine ⟨r₀, hnew, fun r live held hreached => ?_⟩
  obtain ⟨hr, rfl, hheld⟩ := hreached.sound hr₀ (by rw [entries, hrecs, List.map_nil])
  have hsafe := hr.safe
  obtain ⟨tags, stop, hl⟩ := hr
  exact ⟨hl.wellFormed rfl, hsafe, hheld⟩

set_option maxRecDepth 1000 in
theorem reached_wellFormed_queued :
    2 * align ≤ (List.replicate 16 (0 : UInt8)).length ∧ ∃ r₀ r,
      new (List.replicate 16 0) = .ok r₀ ∧
      Reached r₀ r [⟨⟨0⟩, .input, 3⟩] [(⟨0⟩, .input)] ∧
      r.WellFormed [⟨⟨0⟩, .input, 3⟩] ∧ r.Safe [⟨⟨0⟩, .input, 3⟩] ∧
      Holds [⟨⟨0⟩, .input, 3⟩] (⟨0⟩, .input) := by
  refine ⟨by decide, ?_⟩
  obtain ⟨r₀, hnew, hall⟩ := reached_wellFormed (List.replicate 16 0) (by decide)
  obtain rfl : r₀ = ⟨List.replicate 16 0, 12, 0, 0, 0⟩ := Except.ok.inj (hnew.symm.trans rfl)
  have hstart : Reached ⟨List.replicate 16 0, 12, 0, 0, 0⟩ _ _ _ := .start
  have hallocate := Reached.call (c := .allocate 3) hstart trivial rfl
  have hput := Reached.call (c := .putInput ⟨0⟩) hallocate ⟨_, .head _, rfl, rfl⟩ rfl
  have hget := Reached.call (c := .getInput) hput trivial rfl
  obtain ⟨hwell, hsafe, hheld⟩ := hall _ _ _ hget
  exact ⟨_, _, hnew, hget, hwell, hsafe, hheld _ (.head _)⟩

end Reflector.Ring
