import Mathlib.Control.Monad.Basic
import Reflector.Proofs.Ring.Readers
import Reflector.Proofs.Ring.Resize
/-!
Calls to a ring. Each operation succeeds on a record at the stage it is for, and acts on the list of
records alone.
-/
namespace Reflector.Ring

variable {r r' : Ring} {rec : Record} {l l' : List Record} {h : Handle}

/-- What is asked of a ring. The bytes of a record may be changed to any others. -/
inductive Call where
  | allocate (len : Nat)
  | resize (h : Handle) (len : Nat)
  | shrink (h : Handle) (len : Nat)
  | discard (h : Handle)
  | putInput (h : Handle)
  | putOutput (h : Handle)
  | getInput
  | getOutput
  | releaseInput (h : Handle)
  | releaseOutput (h : Handle)
  | reattachOutput (h : Handle)
  | edit (h : Handle) (f : Bytes → Bytes)

inductive Reply where
  | done
  | handle (h : Option Handle)
  | resized (h : Except Handle Handle)
  deriving DecidableEq

structure Entry where
  handle : Handle
  stage : Stage
  len : Nat
  deriving DecidableEq, Repr

def Record.entry (rec : Record) : Entry := ⟨rec.handle, rec.stage, rec.payload.length⟩

def entries (r : Ring) : List Entry := r.records.map Record.entry

namespace Call

def run : Call → Op Ring Reply
  | allocate len => do return .handle (← Ring.allocate len)
  | resize h len => do return .resized (← Ring.resize h len)
  | shrink h len => do Ring.shrink h len; return .done
  | discard h => do Ring.discard h; return .done
  | putInput h => do Ring.putInput h; return .done
  | putOutput h => do Ring.putOutput h; return .done
  | getInput => do return .handle (← Ring.getInput)
  | getOutput => do return .handle (← Ring.getOutput)
  | releaseInput h => do Ring.releaseInput h; return .done
  | releaseOutput h => do Ring.releaseOutput h; return .done
  | reattachOutput h => do Ring.reattachOutput h; return .done
  | edit h f => do editPayload h (modify f); return .done

/-- The handle names a record at the stage that the operation is for, as a handle does from its
return until it is consumed. A record only shrinks, and its bytes stay as many when they are
edited. -/
def Permits (l : List Entry) : Call → Prop
  | allocate _ | getInput | getOutput => True
  | resize h _ | discard h | putInput h | putOutput h =>
    ∃ e ∈ l, e.handle = h ∧ e.stage = .unfinished
  | shrink h len => ∃ e ∈ l, e.handle = h ∧ e.stage ≠ .output ∧ len ≤ e.len
  | releaseInput h | reattachOutput h => ∃ e ∈ l, e.handle = h ∧ e.stage = .input
  | releaseOutput h => ∃ e ∈ l, e.handle = h ∧ e.stage = .output
  | edit h f => (∃ e ∈ l, e.handle = h) ∧ ∀ b, (f b).length = b.length

def asked : Call → Nat
  | allocate len | resize _ len => len
  | _ => 0

def Effect (l : List Record) : Call → Reply → List Record → Prop
  | allocate _, .handle none, l' => l' = l
  | allocate len, .handle (some h), l' =>
    ∃ payload, payload.length = len ∧ l' = l ++ [⟨h, .unfinished, payload⟩]
  | resize h len, .resized (.error h'), l' =>
    h' = h ∧ l' = l ∧ ∃ rec ∈ l, rec.handle = h ∧ rec.payload.length < len
  | resize h len, .resized (.ok h'), l' =>
    ∃ rec ∈ l, rec.handle = h ∧ ∃ payload, payload.length = len ∧ Keeps rec.payload payload ∧
      l' = if h' = h then revise h (fun e => { e with payload }) l
        else remove h l ++ [⟨h', .unfinished, payload⟩]
  | shrink h len, .done, l' => l' = revise h (fun e => { e with payload := e.payload.take len }) l
  | putInput h, .done, l' => l' = revise h (fun e => { e with stage := .input }) l
  | putOutput h, .done, l' | reattachOutput h, .done, l' =>
    l' = revise h (fun e => { e with stage := .output }) l
  | getInput, .handle h, l' => h = nextInput l ∧ l' = l
  | getOutput, .handle h, l' => h = nextOutput l ∧ l' = l
  | discard h, .done, l' | releaseInput h, .done, l' | releaseOutput h, .done, l' =>
    l' = remove h l
  | edit h f, .done, l' => l' = revise h (fun e => { e with payload := f e.payload }) l
  | _, _, _ => False

end Call

theorem revise_congr {f g : Record → Record} (hfg : ∀ e ∈ l, e.handle = h → f e = g e) :
    revise h f l = revise h g l := by
  refine List.map_congr_left fun e he => ?_
  split
  · next heq => exact hfg e he heq
  · rfl

theorem Sound.eq_of_handle (hr : r.Sound) (hrec : rec ∈ r.records) {e : Record}
    (he : e ∈ r.records) (hh : e.handle = rec.handle) : e = rec := by
  obtain ⟨pre, t, post, m, stop, hc⟩ := hr.exists_cell hrec
  rw [hc.records, List.append_assoc, List.mem_append, List.mem_append] at he
  obtain he | he | he := he
  · exact absurd hh (hc.handle_ne e (List.mem_append_left _ he))
  · exact List.mem_singleton.1 he
  · exact absurd hh (hc.handle_ne e (List.mem_append_right _ he))

theorem exists_record {p : Entry → Prop} (hp : ∃ e ∈ r.entries, p e) :
    ∃ rec ∈ r.records, p rec.entry := by
  obtain ⟨e, he, hpe⟩ := hp
  obtain ⟨rec, hrec, rfl⟩ := List.mem_map.1 he
  exact ⟨rec, hrec, hpe⟩

/-- A permitted call succeeds, and the cells continue those before. -/
theorem Call.continues (hr : r.Sound) {c : Call} (hc : c.Permits r.entries) :
    ∃ reply r', c.run.on r = (.ok reply, r') ∧ r'.Sound ∧ r.Continues c.asked r' ∧
      c.Effect r.records reply r'.records := by
  cases c with
  | allocate len =>
    obtain ⟨reply, r', hon, hr', hcont, hrecs⟩ := allocate_spec len hr
    refine ⟨.handle reply, r', Op.on_bind_ok hon, hr', hcont, ?_⟩
    cases reply with
    | none => rw [hrecs]; rfl
    | some h => exact hrecs
  | resize h len =>
    obtain ⟨rec, hrec, rfl, hs⟩ := exists_record hc
    obtain ⟨reply, r', hon, hr', hcont, hrecs⟩ := resize_spec len hr hrec hs
    refine ⟨.resized reply, r', Op.on_bind_ok hon, hr', hcont, ?_⟩
    cases reply with
    | error h =>
      obtain ⟨rfl, rfl, hfull⟩ := hrecs
      have hgrows : rec.payload.length < len :=
        Nat.lt_of_not_le fun hle => hfull (roomFor_of_le hr hrec hle).1
      exact ⟨rfl, rfl, rec, hrec, rfl, hgrows⟩
    | ok h => exact ⟨rec, hrec, rfl, hrecs.2.2⟩
  | shrink h len =>
    obtain ⟨rec, hrec, rfl, hs, hlen⟩ := exists_record hc
    obtain ⟨r', hon, hr', hcont, hrecs⟩ := shrink_spec hr hrec hs hlen
    exact ⟨.done, r', Op.on_bind_ok hon, hr', hcont, hrecs⟩
  | discard h =>
    obtain ⟨rec, hrec, rfl, hs⟩ := exists_record hc
    obtain ⟨r', hon, hr', hcont, hrecs⟩ := discard_spec hr hrec hs
    exact ⟨.done, r', Op.on_bind_ok hon, hr', hcont, hrecs⟩
  | putInput h =>
    obtain ⟨rec, hrec, rfl, hs⟩ := exists_record hc
    obtain ⟨r', hon, hr', hcont, hrecs⟩ := putInput_spec hr hrec hs
    exact ⟨.done, r', Op.on_bind_ok hon, hr', hcont, hrecs⟩
  | putOutput h =>
    obtain ⟨rec, hrec, rfl, hs⟩ := exists_record hc
    obtain ⟨r', hon, hr', hcont, hrecs⟩ := putOutput_spec hr hrec hs
    exact ⟨.done, r', Op.on_bind_ok hon, hr', hcont, hrecs⟩
  | getInput =>
    obtain ⟨r', hon, hr', hcont, hrecs⟩ := getInput_spec hr
    exact ⟨.handle (nextInput r.records), r', Op.on_bind_ok hon, hr', hcont, rfl, hrecs⟩
  | getOutput =>
    obtain ⟨r', hon, hr', hcont, hrecs⟩ := getOutput_spec hr
    exact ⟨.handle (nextOutput r.records), r', Op.on_bind_ok hon, hr', hcont, rfl, hrecs⟩
  | releaseInput h =>
    obtain ⟨rec, hrec, rfl, hs⟩ := exists_record hc
    obtain ⟨r', hon, hr', hcont, hrecs⟩ := releaseInput_spec hr hrec hs
    exact ⟨.done, r', Op.on_bind_ok hon, hr', hcont, hrecs⟩
  | releaseOutput h =>
    obtain ⟨rec, hrec, rfl, hs⟩ := exists_record hc
    obtain ⟨r', hon, hr', hcont, hrecs⟩ := releaseOutput_spec hr hrec hs
    exact ⟨.done, r', Op.on_bind_ok hon, hr', hcont, hrecs⟩
  | reattachOutput h =>
    obtain ⟨rec, hrec, rfl, hs⟩ := exists_record hc
    obtain ⟨r', hon, hr', hcont, hrecs⟩ := reattachOutput_spec hr hrec hs
    exact ⟨.done, r', Op.on_bind_ok hon, hr', hcont, hrecs⟩
  | edit h f =>
    obtain ⟨hp, hlen⟩ := hc
    obtain ⟨rec, hrec, rfl⟩ := exists_record hp
    obtain ⟨r', hon, hr', hcont, hrecs⟩ := editPayload_spec (e := modify f) hr hrec (hlen _)
    refine ⟨.done, r', Op.on_bind_ok hon, hr', hcont, hrecs.trans (revise_congr fun e he hh => ?_)⟩
    rw [hr.eq_of_handle hrec he hh]
    rfl

theorem Call.spec (hr : r.Sound) {c : Call} (hc : c.Permits r.entries) :
    ∃ reply r', c.run.on r = (.ok reply, r') ∧ r'.Sound ∧ c.Effect r.records reply r'.records := by
  obtain ⟨reply, r', hon, hr', -, heffect⟩ := Call.continues hr hc
  exact ⟨reply, r', hon, hr', heffect⟩

inductive Leads (r : Ring) : Ring → Prop
  | refl : Leads r r
  | call {c : Call} {reply : Reply} {r' r'' : Ring} : Leads r r' → c.Permits r'.entries →
      c.run.on r' = (.ok reply, r'') → Leads r r''

namespace Leads

theorem trans {r'' : Ring} (h : r.Leads r') (h' : r'.Leads r'') : r.Leads r'' := by
  induction h' with
  | refl => exact h
  | call _ hc hon ih => exact ih.call hc hon

theorem sound (h : r.Leads r') (hr : r.Sound) : r'.Sound := by
  induction h with
  | refl => exact hr
  | call _ hc hon ih =>
    obtain ⟨reply, r'', hon', hr', -⟩ := Call.spec ih hc
    cases hon.symm.trans hon'
    exact hr'

theorem limit (h : r.Leads r') (hr : r.Sound) : r'.limit = r.limit := by
  induction h with
  | refl => rfl
  | call h hc hon ih =>
    obtain ⟨reply, r'', hon', -, hcont, -⟩ := Call.continues (h.sound hr) hc
    cases hon.symm.trans hon'
    exact hcont.limit.trans ih

theorem edit {α : Type} {e : Edit α} {x : Except Fault α} (hr : r.Sound) (hrec : rec ∈ r.records)
    (hlen : (e.on rec.payload).2.length = rec.payload.length)
    (hon : (editPayload rec.handle e).on r = (x, r')) : r.Leads r' := by
  -- Payloads of other lengths do not occur, but the call has to keep their length as well.
  let f (b : Bytes) : Bytes := if (e.on b).2.length = b.length then (e.on b).2 else b
  have hf : f rec.payload = (e.on rec.payload).2 := if_pos hlen
  have hkeeps (b : Bytes) : (f b).length = b.length := by
    simp only [f]
    split
    · assumption
    · rfl
  have hpayload := payload_of_mem hr hrec
  rw [on_editPayload hpayload hlen] at hon
  have hmodify : (editPayload rec.handle (modify f)).on r = (.ok (), r') := by
    rw [on_editPayload (e := modify f) hpayload (hkeeps _), ← (Prod.mk.inj hon).2, ← hf]
    rfl
  have hpermits : (Call.edit rec.handle f).Permits r.entries :=
    ⟨⟨_, List.mem_map_of_mem hrec, rfl⟩, hkeeps⟩
  exact .call .refl hpermits (Op.on_bind_ok hmodify)

end Leads

theorem exists_new (storage : Bytes) (h : 2 * align ≤ storage.length) :
    ∃ r, new storage = .ok r ∧ r.Sound ∧ r.records = [] := by
  have hunits : ¬storage.length / align < 2 := by simp only [align] at *; omega
  have hput : 0 + (Bytes.ofHalf Tag.endOfRing.toWord).length ≤ storage.length := by
    simp only [align] at h
    simp only [Bytes.ofHalf, List.length_cons, List.length_nil]
    omega
  have hnew : new storage = .ok ⟨storage.put 0 (Bytes.ofHalf Tag.endOfRing.toWord),
      (storage.length / align - 1) * align, 0, 0, 0⟩ := by
    simp only [new, if_neg hunits]
  have hlen := Bytes.length_put hput
  have hmark : Tag.read (storage.put 0 (Bytes.ofHalf Tag.endOfRing.toWord)) 0 = .ok .endOfRing :=
    Tag.read_of_bytes (t := .endOfRing) (Nat.zero_le _) fun j hj => by
      have hj' : 0 ≤ 0 + j ∧ 0 + j < 0 + (Bytes.ofHalf Tag.endOfRing.toWord).length :=
        ⟨Nat.zero_le _, Nat.add_lt_add_left hj 0⟩
      rw [Bytes.getElem?_put hput, if_pos hj', Nat.zero_add]
      rfl
  refine ⟨_, hnew, ⟨[], 0, ?_⟩, records_new hnew⟩
  have hfold : ∀ r : Ring, r.fold 0 = 0 := fun r => fold_of_lt (by simp only [lap, align]; omega)
  exact
    { unit := Nat.mul_mod_left ..
      fits := by simp only [lap, align, hlen] at *; omega
      first := rfl
      first_le := Nat.zero_le _
      tiled := rfl
      ends := .inl (Nat.zero_le _)
      apart := by simp only [lap, align]; omega
      writer := hfold _
      mark := by rw [hfold]; exact hmark
      input := ⟨[], [], 0, rfl, rfl, hfold _, by simp⟩ }

end Reflector.Ring
