import Reflector.Proofs.Link.Slots
import Reflector.Proofs.Link.Storing
/-!
The receiver next to its ring: no fragment makes it fault, the frame it stores stays in its record
whatever else happens to the ring, and a complete frame has the bytes that arrived.
-/
namespace Reflector.Link

open Reflector.Ring (Record Sound Stage)

variable {a b mid new pre post l l' : List Record} {rec : Record} {ring : Ring}
  {rx : Receiver} {f : Filter} {arrived : List Bytes} {fragment payload : Bytes}

def Ordered (l : List Record) : Prop :=
  l.Pairwise fun a b => a.stage = .unfinished → b.stage = .output

namespace Ordered

theorem split (h : Ordered l) (hrec : rec ∈ l) (hs : rec.stage = .unfinished) :
    ∃ pre post, l = pre ++ rec :: post ∧ (∀ e ∈ pre, e.stage ≠ .unfinished) ∧
      ∀ e ∈ post, e.stage = .output := by
  obtain ⟨pre, post, rfl⟩ := List.append_of_mem hrec
  obtain ⟨-, hpost, hcross⟩ := List.pairwise_append.1 h
  refine ⟨pre, post, rfl, fun e he hu => ?_, fun e he => (List.pairwise_cons.1 hpost).1 e he hs⟩
  have := hcross e he rec (.head _) hu
  rw [hs] at this
  cases this

theorem of_closed (h : ∀ e ∈ l, e.stage ≠ .unfinished) : Ordered l :=
  List.pairwise_of_forall_mem_list fun a ha _ _ hu => absurd hu (h a ha)

theorem of_split (hpre : ∀ e ∈ pre, e.stage ≠ .unfinished)
    (hpost : ∀ e ∈ post, e.stage = .output) : Ordered (pre ++ rec :: post) := by
  refine List.pairwise_append.2 ⟨of_closed hpre, ?_, fun e he _ _ hu => absurd hu (hpre e he)⟩
  refine List.pairwise_cons.2 ⟨fun e he _ => hpost e he, of_closed fun e he hu => ?_⟩
  rw [hpost e he] at hu
  cases hu

/-- Records to transmit may take the place of any others. -/
theorem replace (h : Ordered (a ++ mid ++ b)) (hnew : ∀ e ∈ new, e.stage = .output) :
    Ordered (a ++ new ++ b) := by
  obtain ⟨hfront, hb, hcross⟩ := List.pairwise_append.1 h
  obtain ⟨ha, -, -⟩ := List.pairwise_append.1 hfront
  have hclosed : ∀ e ∈ new, e.stage ≠ .unfinished := by
    intro e he hu
    rw [hnew e he] at hu
    cases hu
  refine List.pairwise_append.2 ⟨List.pairwise_append.2 ⟨ha, of_closed hclosed, ?_⟩, hb, ?_⟩
  · intro e _ e' he' _
    exact hnew e' he'
  · intro e he e' he' hu
    cases List.mem_append.1 he with
    | inl he => exact hcross e (List.mem_append_left _ he) e' he' hu
    | inr he => exact absurd hu (hclosed e he)

theorem no_input (h : Ordered l) (hn : Ring.nextInput l = none) : ∀ e ∈ l, e.stage ≠ .input := by
  induction l with
  | nil => exact fun _ he => nomatch he
  | cons rec l ih =>
    obtain ⟨hrec, hl⟩ := List.pairwise_cons.1 h
    obtain ⟨h', s, payload⟩ := rec
    cases s with
    | output => exact List.forall_mem_cons.2 ⟨Stage.noConfusion, ih hl hn⟩
    | unfinished =>
      refine List.forall_mem_cons.2 ⟨Stage.noConfusion, fun e he => ?_⟩
      rw [hrec e he rfl]
      exact Stage.noConfusion
    | input => cases hn

end Ordered

def Kept (l l' : List Record) : Prop :=
  ∀ rec, l.head? = some rec → rec.stage = .output → l'.head? = some rec

namespace Kept

theorem append (l new : List Record) : Kept l (l ++ new) := by
  intro rec hrec _
  rw [List.head?_append, hrec]
  rfl

theorem behind (hs : rec.stage ≠ .output) : Kept (pre ++ rec :: post) (pre ++ new) := by
  intro e he ho
  cases pre with
  | nil => cases he; exact absurd ho hs
  | cons e' pre => exact he

end Kept

def Progress.Holds (f : Filter) (arrived : List Bytes) (l : List Record) : Progress → Prop
  | .reading h len written => ∃ payload, ⟨h, .unfinished, payload⟩ ∈ l ∧ payload.length = len ∧
      written ≤ len ∧ payload.take written = arrived.flatten.take len ∧
      arrived ≠ [] ∧ f.expected arrived = len
  | .waiting | .skipping => arrived = [] ∧ ∀ e ∈ l, e.stage ≠ .unfinished

/-- Records to transmit may take the place of any but the one being written. -/
theorem Progress.Holds.replace {p : Progress} (h : p.Holds f arrived (a ++ mid ++ b))
    (hmid : ∀ e ∈ mid, e.stage ≠ .unfinished) (hnew : ∀ e ∈ new, e.stage = .output) :
    p.Holds f arrived (a ++ new ++ b) := by
  have hkeep : ∀ e, e.stage = .unfinished → (e ∈ a ++ mid ++ b ↔ e ∈ a ++ new ++ b) := by
    intro e he
    have h₁ : e ∉ mid := fun hm => hmid e hm he
    have h₂ : e ∉ new := fun hm => by
      have := (hnew e hm).symm.trans he
      cases this
    simp only [List.mem_append, h₁, h₂]
  cases p with
  | reading h len written =>
    obtain ⟨payload, hmem, hrest⟩ := h
    exact ⟨payload, (hkeep _ rfl).1 hmem, hrest⟩
  | waiting => exact ⟨h.1, fun e he hu => h.2 e ((hkeep e hu).2 he) hu⟩
  | skipping => exact ⟨h.1, fun e he hu => h.2 e ((hkeep e hu).2 he) hu⟩

namespace Receiver

variable {r : Ring} {r' : Ring}

structure Follows (f : Filter) (r r' : Ring) (p : Progress) (line : Line) : Prop where
  sound : r'.Sound
  kept : Kept r.records r'.records
  ordered : Ordered r'.records
  holds : p.Holds f line.arrived r'.records
  shows : slots r' = line.slots

theorem begun_notMem (h : ∀ e ∈ l, e.stage ≠ .unfinished) : Slot.begun ∉ l.map slotOf := by
  intro hm
  obtain ⟨e, he, heq⟩ := List.mem_map.1 hm
  unfold slotOf at heq
  split at heq
  · next hs => exact h e he hs
  · cases heq
  · cases heq

theorem closed_of_output (h : ∀ e ∈ l, e.stage = .output) : ∀ e ∈ l, e.stage ≠ .unfinished := by
  intro e he
  rw [h e he]
  exact Stage.noConfusion

theorem slots_of_output (h : ∀ e ∈ l, e.stage = .output) :
    l.map slotOf = (l.map Record.payload).map .queued := by
  rw [List.map_map]
  apply List.map_congr_left
  intro e he
  rw [slotOf, h e he]
  rfl

theorem slots_split (hl : r.records = pre ++ rec :: post) :
    slots r = pre.map slotOf ++ slotOf rec :: post.map slotOf := by
  rw [slots, hl, List.map_append, List.map_cons]

theorem Follows.removed {line : Line} (hr' : r'.Sound) (hkept : Kept r.records r'.records)
    (hopened : line.opened = pre.map slotOf ++ .begun :: post.map slotOf)
    (hpre : ∀ e ∈ pre, e.stage ≠ .unfinished) (hpost : ∀ e ∈ post, e.stage = .output)
    (hrecs : r'.records = pre ++ post) : Follows f r r' .waiting ⟨[], Slot.giveUp line.slots⟩ := by
  have hclosed : ∀ e ∈ r'.records, e.stage ≠ .unfinished := by
    intro e he
    rw [hrecs] at he
    cases List.mem_append.1 he with
    | inl he => exact hpre e he
    | inr he => exact closed_of_output hpost e he
  refine ⟨hr', hkept, Ordered.of_closed hclosed, ⟨rfl, hclosed⟩, ?_⟩
  calc slots r'
    _ = pre.map slotOf ++ post.map slotOf := by rw [slots, hrecs, List.map_append]
    _ = Slot.giveUp line.opened := by
      rw [hopened, Slot.giveUp_split (begun_notMem hpre) (begun_notMem (closed_of_output hpost))]
    _ = Slot.giveUp line.slots := line.giveUp_opened

theorem Follows.stored {h : Handle} {n : Nat} {own : List Record} {reply : Received} {p : Progress}
    {line : Line} {last : Bool} (hr' : r'.Sound) (hkept : Kept r.records r'.records)
    (hopened : line.opened = pre.map slotOf ++ .begun :: post.map slotOf)
    (hpre : ∀ e ∈ pre, e.stage ≠ .unfinished) (hpost : ∀ e ∈ post, e.stage = .output)
    (hrecs : r'.records = pre ++ own ++ post)
    (hn : f.expected (line.arrived ++ [fragment]) = n)
    (hstored : Stored h n (line.arrived.flatten ++ fragment) last reply p own) :
    Follows f r r' p (line.next f fragment reply) := by
  have hflat : (line.arrived ++ [fragment]).flatten = line.arrived.flatten ++ fragment := by simp
  cases hstored with
  | @goesOn payload hlen hbytes =>
    rw [List.append_assoc, List.singleton_append] at hrecs
    refine ⟨hr', hkept, hrecs ▸ Ordered.of_split hpre hpost, ?_, ?_⟩
    · refine ⟨payload, by simp [hrecs], hlen, Nat.min_le_left .., ?_, by simp [Line.next], hn⟩
      rw [take_min_length hlen, hbytes, Line.next, hflat]
    · rw [slots_split hrecs]
      exact hopened.symm
  | truncated _ =>
    rw [List.append_nil] at hrecs
    exact Follows.removed hr' hkept hopened hpre hpost hrecs
  | complete _ =>
    rw [List.append_assoc, List.singleton_append] at hrecs
    have hclosed : ∀ e ∈ r'.records, e.stage ≠ .unfinished := by
      intro e he
      rw [hrecs] at he
      cases List.mem_append.1 he with
      | inl he => exact hpre e he
      | inr he =>
        cases List.mem_cons.1 he with
        | inl he => rw [he]; exact Stage.noConfusion
        | inr he => exact closed_of_output hpost e he
    refine ⟨hr', hkept, Ordered.of_closed hclosed, ⟨rfl, hclosed⟩, ?_⟩
    calc slots r'
      _ = pre.map slotOf ++ .received ((line.arrived.flatten ++ fragment).take n) ::
          post.map slotOf := slots_split hrecs
      _ = pre.map slotOf ++ .received (f.assemble (line.arrived ++ [fragment])) ::
          post.map slotOf := by rw [Filter.assemble, hn, hflat]
      _ = Slot.complete (f.assemble (line.arrived ++ [fragment])) line.opened := by
        rw [hopened,
          Slot.complete_split (begun_notMem hpre) (begun_notMem (closed_of_output hpost))]

theorem Follows.idle {line : Line} {p : Progress} (hr : r.Sound)
    (hclosed : ∀ e ∈ r.records, e.stage ≠ .unfinished) (hs : slots r = line.slots)
    (hp : p.record = none) : Follows f r r p ⟨[], Slot.giveUp line.slots⟩ where
  sound := hr
  kept := fun _ h _ => h
  ordered := Ordered.of_closed hclosed
  holds := by
    cases p with
    | reading => cases hp
    | waiting | skipping => exact ⟨rfl, hclosed⟩
  shows := by rw [← hs, slots, Slot.giveUp_of_closed (begun_notMem hclosed)]

/-- The frame that a fragment goes to has the last slot before the ones to transmit. -/
theorem opened_split {line : Line} {p : Progress} (ho : Ordered r.records)
    (hh : p.Holds f line.arrived r.records) (hs : slots r = line.slots) :
    ∃ a b, line.opened = a ++ .begun :: b ∧ .begun ∉ a ∧ .begun ∉ b ∧ Slot.waiting b = [] := by
  have fresh (harrived : line.arrived = []) (hclosed : ∀ e ∈ r.records, e.stage ≠ .unfinished) :
      ∃ a b, line.opened = a ++ .begun :: b ∧ .begun ∉ a ∧ .begun ∉ b ∧ Slot.waiting b = [] := by
    refine ⟨slots r, [], ?_, begun_notMem hclosed, List.not_mem_nil, rfl⟩
    rw [Line.opened, if_pos harrived, hs]
  cases p with
  | reading h len written =>
    obtain ⟨payload, hmem, -, -, -, hne, -⟩ := hh
    obtain ⟨pre, post, hl, hpre, hpost⟩ := ho.split hmem rfl
    refine ⟨pre.map slotOf, post.map slotOf, ?_, begun_notMem hpre,
      begun_notMem (closed_of_output hpost), ?_⟩
    · rw [Line.opened, if_neg hne, ← hs, slots_split hl]
      rfl
    · rw [slots_of_output hpost, Slot.waiting_queued]
  | waiting => exact fresh hh.1 hh.2
  | skipping => exact fresh hh.1 hh.2

/-- Only a complete frame is one more that waits for the protocols, behind all others. -/
theorem waiting_next (line : Line) {p : Progress} (ho : Ordered r.records)
    (hh : p.Holds f line.arrived r.records) (hs : slots r = line.slots) (fragment : Bytes)
    (reply : Received) :
    Slot.waiting (line.next f fragment reply).slots = Slot.waiting line.slots ++
      if reply = .complete then [f.assemble (line.arrived ++ [fragment])] else [] := by
  have hopened : Slot.waiting line.opened = Slot.waiting line.slots := by
    unfold Line.opened
    split
    · rw [Slot.waiting_append]
      exact List.append_nil _
    · rfl
  cases reply with
  | stored => exact hopened.trans (List.append_nil _).symm
  | complete =>
    obtain ⟨a, b, hab, ha, hb, hwaiting⟩ := opened_split ho hh hs
    have hcons (s : Slot) : Slot.waiting (s :: b) = Slot.waiting [s] ++ Slot.waiting b :=
      Slot.waiting_append (l := [s])
    have hbegun : Slot.waiting line.slots = Slot.waiting a := by
      rw [← hopened, hab, Slot.waiting_append, hcons, hwaiting]
      exact List.append_nil _
    calc Slot.waiting (line.next f fragment .complete).slots
      _ = Slot.waiting (a ++ .received (f.assemble (line.arrived ++ [fragment])) :: b) := by
        rw [Line.next, hab, Slot.complete_split ha hb]
      _ = Slot.waiting a ++ [f.assemble (line.arrived ++ [fragment])] := by
        rw [Slot.waiting_append, hcons, hwaiting]
        rfl
      _ = Slot.waiting line.slots ++ [f.assemble (line.arrived ++ [fragment])] := by rw [hbegun]
  | dropped => exact (Slot.waiting_giveUp _).trans (List.append_nil _).symm
  | stalled => exact (List.append_nil _).symm

theorem written_eq {written n : Nat} (hlen : payload.length = n) (hwritten : written ≤ n)
    (hbytes : payload.take written = arrived.flatten.take n) :
    written = min n arrived.flatten.length ∧
      payload.take arrived.flatten.length = arrived.flatten.take n := by
  have hmin : written = min n arrived.flatten.length := by
    rw [← List.length_take, ← hbytes, List.length_take]
    omega
  refine ⟨hmin, ?_⟩
  rw [← take_min_length hlen, ← hmin, hbytes]

/-- The receiver never faults, and does to the ring what it says it did. -/
theorem receive_spec (line : Line) (hr : r.Sound) (ho : Ordered r.records)
    (hh : rx.progress.Holds rx.filter line.arrived r.records) (hs : slots r = line.slots)
    (fragment : Bytes) :
    ∃ reply p r', (receive fragment).on (rx, r) = (.ok reply, ({ rx with progress := p }, r')) ∧
      Follows rx.filter r r' p (line.next rx.filter fragment reply) := by
  cases hp : rx.progress with
  | reading h len written =>
    rw [hp] at hh
    obtain ⟨payload, hmem, hlen, hwritten, hbytes, hne, hexpected⟩ := hh
    obtain ⟨pre, post, hl, hpre, hpost⟩ := ho.split hmem rfl
    obtain ⟨rfl, htaken⟩ := written_eq hlen hwritten hbytes
    obtain ⟨reply, p, own, r', hstore, hleads, hrecs, hstored⟩ :=
      rx.store_step hr hl hlen htaken fragment (fragment.length < rx.fragmentSize)
    refine ⟨reply, p, r', (receive_reading hp).trans hstore, Follows.stored (hleads.sound hr) ?_ ?_
      hpre hpost hrecs ((Filter.expected_append hne).trans hexpected) hstored⟩
    · rw [hl, hrecs, List.append_assoc]
      exact Kept.behind Stage.noConfusion
    · rw [Line.opened, if_neg hne, ← hs, slots_split hl]
      rfl
  | skipping =>
    rw [hp] at hh
    exact ⟨_, _, r, receive_skipping hp, Follows.idle hr hh.2 hs rx.record_passing⟩
  | waiting =>
    rw [hp] at hh
    obtain ⟨harrived, hclosed⟩ := hh
    obtain ⟨found, hfound, -⟩ := rx.filter.frameLen_succeeds fragment
    cases found with
    | none => exact ⟨_, _, r, receive_refused hp hfound,
      Follows.idle hr hclosed hs rx.record_passing⟩
    | some len =>
      have hself := setProgress_self hp
      by_cases hshort : fragment.length < rx.fragmentSize ∧ fragment.length < len
      · exact ⟨.dropped, .waiting, r, hself.symm ▸ receive_short hp hfound hshort,
          Follows.idle hr hclosed hs rfl⟩
      -- the frame opens a record behind all others, if there is room for it
      obtain ⟨-, hstalled⟩ | ⟨-, h, reply, p, own, r', hopens, hleads, hrecs, hstored⟩ :=
        receive_opens hr hp hfound hshort
      · exact ⟨.stalled, .waiting, r, hself.symm ▸ hstalled,
          ⟨hr, fun _ h _ => h, ho, ⟨harrived, hclosed⟩, hs⟩⟩
      · have hrecs' : r'.records = r.records ++ own ++ [] := by rw [List.append_nil, hrecs]
        have hopened : line.opened = r.records.map slotOf ++ .begun :: [].map slotOf := by
          rw [Line.opened, if_pos harrived, ← hs]
          rfl
        have hexpected : rx.filter.expected (line.arrived ++ [fragment]) = len := by
          rw [harrived]
          exact Filter.expected_single hfound
        have harrived' : fragment = line.arrived.flatten ++ fragment := by rw [harrived]; rfl
        rw [harrived'] at hstored
        exact ⟨reply, p, r', hopens, Follows.stored (hleads.sound hr) (hrecs ▸ Kept.append _ _)
          hopened hclosed (List.forall_mem_nil _) hrecs' hexpected hstored⟩

theorem reset_spec (line : Line) (hr : r.Sound) (ho : Ordered r.records)
    (hh : rx.progress.Holds rx.filter line.arrived r.records) (hs : slots r = line.slots) :
    ∃ r', reset.on (rx, r) = (.ok (), ({ rx with progress := .waiting }, r')) ∧
      Follows rx.filter r r' .waiting ⟨[], Slot.giveUp line.slots⟩ := by
  cases hp : rx.progress with
  | reading h len written =>
    rw [hp] at hh
    obtain ⟨payload, hmem, -, -, -, hne, -⟩ := hh
    obtain ⟨pre, post, hl, hpre, hpost⟩ := ho.split hmem rfl
    obtain ⟨r', hreset, hleads, hrecs⟩ := reset_reading hr hp hl rfl rfl
    refine ⟨r', hreset, Follows.removed (hleads.sound hr) ?_ ?_ hpre hpost hrecs⟩
    · rw [hl, hrecs]
      exact Kept.behind Stage.noConfusion
    · rw [Line.opened, if_neg hne, ← hs, slots_split hl]
      rfl
  | skipping =>
    rw [hp] at hh
    exact ⟨r, reset_idle (by rw [hp]; rfl), Follows.idle hr hh.2 hs rfl⟩
  | waiting =>
    rw [hp] at hh
    exact ⟨r, reset_idle (by rw [hp]; rfl), Follows.idle hr hh.2 hs rfl⟩

end Receiver

end Reflector.Link
