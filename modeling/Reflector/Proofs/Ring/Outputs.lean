import Reflector.Proofs.Ring.Calls
/-!
The records that wait for transmission. Calls on other records leave them as they are, and add those
that they queue.
-/
namespace Reflector.Ring

variable {r r' : Ring} {rec : Record} {l l' pre post : List Record} {c : Call} {reply : Reply}

def outputs (l : List Record) : List Record := l.filter fun rec => rec.stage = .output

/-- A call on other records than those that wait for transmission. -/
def Call.Foreign (l : List Entry) : Call → Prop
  | releaseOutput _ => False
  | edit h _ => ∀ e ∈ l, e.handle = h → e.stage ≠ .output
  | _ => True

def Call.queued (l : List Record) : Call → List Record
  | putOutput h | reattachOutput h => l.filter fun rec => rec.handle = h
  | _ => []

/-- Records come in behind the others, or one is replaced as well. Neither this one nor those behind
wait for transmission, so that all that is queued takes the place of the one. -/
inductive Spliced : List Record → List Record → List Record → Prop
  | grown {l new : List Record} (hnew : ∀ e ∈ new, e.stage ≠ .output) : Spliced [] l (l ++ new)
  | replaced {pre own post new : List Record} {rec : Record} (hrec : rec.stage ≠ .output)
      (hnew : ∀ e ∈ new, e.stage ≠ .output) :
      Spliced (outputs own) (pre ++ rec :: post) (pre ++ (own ++ (post ++ new)))

theorem outputs_append (l l' : List Record) : outputs (l ++ l') = outputs l ++ outputs l' :=
  List.filter_append ..

theorem outputs_cons_of_output (hs : rec.stage = .output) :
    outputs (rec :: l) = rec :: outputs l :=
  List.filter_cons_of_pos (decide_eq_true hs)

theorem outputs_cons_of_ne (hs : rec.stage ≠ .output) : outputs (rec :: l) = outputs l :=
  List.filter_cons_of_neg (by rwa [decide_eq_true_eq])

theorem outputs_of_ne (h : ∀ e ∈ l, e.stage ≠ .output) : outputs l = [] :=
  List.filter_eq_nil_iff.2 fun e he => by rw [decide_eq_true_eq]; exact h e he

theorem Sound.filter_handle (hs : r.Sound) (hl : r.records = pre ++ rec :: post) :
    r.records.filter (fun e => e.handle = rec.handle) = [rec] := by
  have hne := hs.handle_ne hl
  have hnone : ∀ part : List Record, (∀ e ∈ part, e.handle ≠ rec.handle) →
      part.filter (fun e => e.handle = rec.handle) = [] := by
    intro part hpart
    exact List.filter_eq_nil_iff.2 fun e he => by rw [decide_eq_true_eq]; exact hpart e he
  have hpre := hnone pre fun e he => hne e (List.mem_append_left _ he)
  have hpost := hnone post fun e he => hne e (List.mem_append_right _ he)
  calc r.records.filter (fun e => e.handle = rec.handle)
    _ = pre.filter (fun e => e.handle = rec.handle) ++
        rec :: post.filter (fun e => e.handle = rec.handle) := by
      rw [hl, List.filter_append, List.filter_cons, if_pos (decide_eq_true rfl)]
    _ = [rec] := by rw [hpre, hpost, List.nil_append]

namespace Spliced

theorem same (h : l' = l) : Spliced [] l l' := by
  have hgrown : Spliced [] l (l ++ []) := .grown (List.forall_mem_nil _)
  rw [List.append_nil] at hgrown
  rwa [h]

theorem revised {f : Record → Record} (hr : r.Sound) (hrec : rec ∈ r.records)
    (hs : rec.stage ≠ .output) (h : l' = revise rec.handle f r.records) :
    Spliced (outputs [f rec]) r.records l' := by
  obtain ⟨pre, post, hl⟩ := List.append_of_mem hrec
  rw [h, hr.revise_eq hl, hl]
  have hspliced : Spliced (outputs [f rec]) (pre ++ rec :: post)
      (pre ++ ([f rec] ++ (post ++ []))) := .replaced hs (List.forall_mem_nil _)
  rwa [List.append_nil] at hspliced

theorem changed {f : Record → Record} (hr : r.Sound) (hrec : rec ∈ r.records)
    (hs : rec.stage ≠ .output) (hf : (f rec).stage ≠ .output)
    (h : l' = revise rec.handle f r.records) : Spliced [] r.records l' := by
  have := revised hr hrec hs h
  rwa [outputs_cons_of_ne hf] at this

theorem removed {new : List Record} (hr : r.Sound) (hrec : rec ∈ r.records)
    (hs : rec.stage ≠ .output) (hnew : ∀ e ∈ new, e.stage ≠ .output)
    (h : l' = remove rec.handle r.records ++ new) : Spliced [] r.records l' := by
  obtain ⟨pre, post, hl⟩ := List.append_of_mem hrec
  rw [h, hr.remove_eq hl, hl, List.append_assoc]
  exact (.replaced hs hnew :
    Spliced (outputs []) (pre ++ rec :: post) (pre ++ ([] ++ (post ++ new))))

theorem queuing (hr : r.Sound) (hr' : r'.Sound) (hrec : rec ∈ r.records)
    (hs : rec.stage ≠ .output)
    (h : r'.records = revise rec.handle (fun e => { e with stage := .output }) r.records) :
    Spliced (r'.records.filter fun e => e.handle = rec.handle) r.records r'.records := by
  obtain ⟨pre, post, hl⟩ := List.append_of_mem hrec
  have hfound := hr'.filter_handle (h.trans (hr.revise_eq hl _))
  dsimp only at hfound
  rw [hfound]
  exact revised hr hrec hs h

/-- The records to transmit stay, and those queued are among them. -/
theorem outputs_perm {queued : List Record} (h : Spliced queued l l') :
    (outputs l').Perm (outputs l ++ queued) := by
  cases h with
  | grown hnew =>
    rw [outputs_append, outputs_of_ne hnew]
  | @replaced pre own post new rec hrec hnew =>
    simp only [outputs_append, outputs_cons_of_ne hrec, outputs_of_ne hnew, List.append_nil,
      List.append_assoc]
    exact List.perm_append_comm.append_left _

end Spliced

theorem exists_other {h : Handle} {s : Stage}
    (hp : ∃ e ∈ r.entries, e.handle = h ∧ e.stage = s) (hs : s ≠ .output) :
    ∃ rec ∈ r.records, rec.handle = h ∧ rec.stage ≠ .output := by
  obtain ⟨rec, hrec, hh, rfl⟩ := exists_record hp
  exact ⟨rec, hrec, hh, hs⟩

theorem Call.spliced (hr : r.Sound) (hr' : r'.Sound) (hc : c.Permits r.entries)
    (hforeign : c.Foreign r.entries) (he : c.Effect r.records reply r'.records) :
    Spliced (c.queued r'.records) r.records r'.records := by
  cases c with
  | allocate len =>
    cases reply with
    | handle found =>
      cases found with
      | none => exact .same he
      | some h =>
        obtain ⟨payload, -, hrecs⟩ := he
        rw [hrecs]
        exact .grown fun e he => by rw [List.mem_singleton.1 he]; exact Stage.noConfusion
    | _ => exact he.elim
  | resize h len =>
    obtain ⟨rec, hrec, rfl, hs⟩ := exists_other hc Stage.noConfusion
    cases reply with
    | resized result =>
      cases result with
      | error h' => exact .same he.2.1
      | ok h' =>
        obtain ⟨-, -, -, payload, -, -, hrecs⟩ := he
        split at hrecs
        · exact .changed hr hrec hs hs hrecs
        · refine .removed hr hrec hs (fun e he => ?_) hrecs
          rw [List.mem_singleton.1 he]
          exact Stage.noConfusion
    | _ => exact he.elim
  | getInput | getOutput =>
    cases reply with
    | handle h => exact .same he.2
    | _ => exact he.elim
  | shrink h len =>
    obtain ⟨rec, hrec, rfl, hs, -⟩ := exists_record hc
    cases reply with
    | done => exact .changed hr hrec hs hs he
    | _ => exact he.elim
  | edit h f =>
    obtain ⟨rec, hrec, rfl⟩ := exists_record hc.1
    have hs := hforeign _ (List.mem_map_of_mem hrec) rfl
    cases reply with
    | done => exact .changed hr hrec hs hs he
    | _ => exact he.elim
  | discard h | releaseInput h =>
    obtain ⟨rec, hrec, rfl, hs⟩ := exists_other hc Stage.noConfusion
    cases reply with
    | done => exact .removed hr hrec hs (List.forall_mem_nil _) (he.trans (List.append_nil _).symm)
    | _ => exact he.elim
  | putInput h =>
    obtain ⟨rec, hrec, rfl, hs⟩ := exists_other hc Stage.noConfusion
    cases reply with
    | done => exact .changed hr hrec hs Stage.noConfusion he
    | _ => exact he.elim
  | putOutput h | reattachOutput h =>
    obtain ⟨rec, hrec, rfl, hs⟩ := exists_other hc Stage.noConfusion
    cases reply with
    | done => exact .queuing hr hr' hrec hs he
    | _ => exact he.elim
  | releaseOutput h => exact hforeign.elim

end Reflector.Ring
