import Reflector.Link.Fragment
import Reflector.Proofs.Interface.Answers
import Reflector.Proofs.Link.Storing
import Reflector.Proofs.Ring.Isolation
import Reflector.Proofs.Ring.WellFormed
/-!
Whole frames, offered to a receiver while others use its ring. What becomes of a frame is up to its
bytes and the room in the ring alone, and the receiver is left as it was before.
-/
namespace Reflector.Link

open Reflector.Ring (Call Record Reply)

variable {size : Nat} {frame fragment : Bytes} {taken rest : List Bytes}

theorem flatten_fragments (size : Nat) (frame : Bytes) : (fragments size frame).flatten = frame := by
  fun_induction fragments size frame with
  | case1 frame _ ih => rw [List.flatten_cons, ih, List.take_append_drop]
  | case2 frame _ => exact List.flatten_singleton

theorem fragments_ne_nil (size : Nat) (frame : Bytes) : fragments size frame ≠ [] := by
  fun_cases fragments size frame <;> exact List.cons_ne_nil _ _

theorem short_iff_last (hsize : 0 < size) (h : taken ++ fragment :: rest = fragments size frame) :
    fragment.length < size ↔ rest = [] := by
  fun_induction fragments size frame generalizing taken with
  | case1 frame hlong ih =>
    cases taken with
    | nil =>
      obtain ⟨rfl, rfl⟩ := List.cons.inj h
      have hfull : (frame.take size).length = size := by
        rw [List.length_take]
        omega
      simp only [hfull, Nat.lt_irrefl, fragments_ne_nil]
    | cons first taken => exact ih (List.cons.inj h).2
  | case2 frame hshort =>
    cases taken with
    | nil =>
      obtain ⟨rfl, rfl⟩ := List.cons.inj h
      exact iff_of_true (by omega) rfl
    | cons first taken => simp at h

theorem first_fragment (hsize : 0 < size) (h : fragment :: rest = fragments size frame) :
    fragment = frame.take size := by
  rw [fragments] at h
  split at h
  · exact (List.cons.inj h).1
  · rw [(List.cons.inj h).1, List.take_of_length_le (by omega)]

structure Turn where
  fragment : Bytes
  reply : Received
  before : List Record
  after : List Record

/-- Fragments are offered to a receiver, and others call its ring, on any records but the one that a
frame is being stored in. A fragment that stalls is not taken: it is to be offered again. -/
inductive Interleaves (s : Receiver × Ring) : List Turn → Receiver × Ring → Prop
  | start : Interleaves s [] s
  | call {turns : List Turn} {rx : Receiver} {r r' : Ring} {c : Call} {reply : Reply} :
      Interleaves s turns (rx, r) → c.Permits r.entries →
      (∀ h, rx.progress.record = some h → c.target ≠ some h) → c.run.on r = (.ok reply, r') →
      Interleaves s turns (rx, r')
  | stalled {turns : List Turn} {rx rx' : Receiver} {r r' : Ring} {fragment : Bytes} :
      Interleaves s turns (rx, r) →
      (Receiver.receive fragment).on (rx, r) = (.ok .stalled, (rx', r')) →
      Interleaves s turns (rx', r')
  | fragment {turns : List Turn} {rx rx' : Receiver} {r r' : Ring} {fragment : Bytes}
      {reply : Received} : Interleaves s turns (rx, r) →
      (Receiver.receive fragment).on (rx, r) = (.ok reply, (rx', r')) → reply ≠ .stalled →
      Interleaves s (turns ++ [⟨fragment, reply, r.records, r'.records⟩]) (rx', r')

namespace Turn

def Idle (t : Turn) : Prop := t.reply = .dropped ∧ t.after = t.before

def bytes (turns : List Turn) : Bytes := (turns.map Turn.fragment).flatten

/-- Out of nothing the turns made these records, and all others they left as they were. -/
inductive Makes : List Turn → List Record → Prop
  | nothing : Makes [] []
  | turn {turns : List Turn} {t : Turn} {own own' pre post : List Record} : Makes turns own →
      t.before = pre ++ own ++ post → t.after = pre ++ own' ++ post → Makes (turns ++ [t]) own'

def End (frame : Bytes) (turns : List Turn) : Option Nat → Prop
  | none => ∀ t ∈ turns, t.Idle
  | some n => ∃ init last, turns = init ++ [last] ∧ (∀ t ∈ init, t.reply = .stored) ∧
      if n ≤ frame.length then last.reply = .complete ∧ ∃ h, Makes turns [⟨h, .input, frame.take n⟩]
      else last.reply = .dropped ∧ Makes turns []

theorem bytes_append (turns : List Turn) (t : Turn) :
    bytes (turns ++ [t]) = bytes turns ++ t.fragment := by
  simp [bytes]

theorem forall_append {p : Turn → Prop} {turns : List Turn} {last : Turn} (h : ∀ t ∈ turns, p t)
    (hlast : p last) : ∀ t ∈ turns ++ [last], p t := by
  intro t ht
  cases List.mem_append.1 ht with
  | inl ht => exact h t ht
  | inr ht => exact List.mem_singleton.1 ht ▸ hlast

end Turn

open Turn (Makes bytes)

/-- What a receiver made of a frame of which it took some fragments and others are to come, by the
length that the filter finds for it, and what it has in the ring meanwhile. -/
inductive Stands (rx : Receiver) (frame : Bytes) :
    Option Nat → List Turn → List Bytes → Receiver → List Record → Prop
  | fresh {len : Option Nat} {rest : List Bytes} {l : List Record} :
      Stands rx frame len [] rest rx l
  | passing {turns : List Turn} {rest : List Bytes} {l : List Record} : rest ≠ [] →
      (∀ t ∈ turns, t.Idle) →
      Stands rx frame none turns rest { rx with progress := .skipping } l
  | passed {turns : List Turn} {l : List Record} : (∀ t ∈ turns, t.Idle) →
      Stands rx frame none turns [] rx l
  | storing {n : Nat} {turns : List Turn} {rest : List Bytes} {h : Handle} {payload : Bytes}
      {l : List Record} : turns ≠ [] → rest ≠ [] → (∀ t ∈ turns, t.reply = .stored) →
      Makes turns [⟨h, .unfinished, payload⟩] → ⟨h, .unfinished, payload⟩ ∈ l →
      payload.length = n → payload.take (bytes turns).length = (bytes turns).take n →
      Stands rx frame (some n) turns rest
        { rx with progress := .reading h n (min n (bytes turns).length) } l
  | ended {n : Nat} {turns : List Turn} {l : List Record} : Turn.End frame turns (some n) →
      Stands rx frame (some n) turns [] rx l

namespace Stands

variable {rx rx' : Receiver} {len : Option Nat} {turns : List Turn} {l l' pre own post : List Record}
  {r r' : Ring} {n : Nat} {reply : Received} {p : Progress} {h : Handle} {last : Bool}

/-- Others may do what they want with their records. -/
theorem persist (hs : Stands rx frame len turns rest rx' l)
    (hkeep : ∀ e ∈ l, rx'.progress.record = some e.handle → e ∈ l') :
    Stands rx frame len turns rest rx' l' := by
  cases hs with
  | fresh => exact .fresh
  | passing hrest hidle => exact .passing hrest hidle
  | passed hidle => exact .passed hidle
  | storing hturns hrest hstored hmakes hmem hlen hbytes =>
    exact .storing hturns hrest hstored hmakes (hkeep _ hmem rfl) hlen hbytes
  | ended hend => exact .ended hend

theorem refused (hw : rx.progress = .waiting) (hidle : ∀ t ∈ turns, t.Idle)
    (hlast : fragment.length < rx.fragmentSize ↔ rest = []) :
    Stands rx frame none (turns ++ [⟨fragment, .dropped, l, l⟩]) rest
      { rx with progress := rx.passing fragment } l := by
  have hidle' : ∀ t ∈ turns ++ [⟨fragment, .dropped, l, l⟩], t.Idle :=
    Turn.forall_append hidle ⟨rfl, rfl⟩
  by_cases hrest : rest = []
  · cases hrest
    rw [Receiver.passing, if_pos (hlast.2 rfl), Receiver.setProgress_self hw]
    exact .passed hidle'
  · rw [Receiver.passing, if_neg (mt hlast.1 hrest)]
    exact .passing hrest hidle'

theorem stored (hw : rx.progress = .waiting) (hall : ∀ t ∈ turns, t.reply = .stored)
    (hmakes : Makes turns own) (hl : l = pre ++ own ++ post) {own' : List Record}
    (hl' : l' = pre ++ own' ++ post) (hlast : last = true ↔ rest = [])
    (hframe : bytes turns ++ fragment ++ rest.flatten = frame)
    (hstored : Stored h n (bytes turns ++ fragment) last reply p own') :
    Stands rx frame (some n) (turns ++ [⟨fragment, reply, l, l'⟩]) rest { rx with progress := p }
      l' := by
  have hmakes' : Makes (turns ++ [⟨fragment, reply, l, l'⟩]) own' := hmakes.turn hl hl'
  have hbytes := Turn.bytes_append turns ⟨fragment, reply, l, l'⟩
  cases hstored with
  | goesOn hlen htaken =>
    rw [← hbytes] at htaken ⊢
    have hrest : rest ≠ [] := fun heq => Bool.noConfusion (hlast.2 heq)
    exact .storing (by simp) hrest (Turn.forall_append hall rfl) hmakes' (by simp [hl']) hlen htaken
  | truncated hshort =>
    obtain rfl := hlast.1 rfl
    rw [List.flatten_nil, List.append_nil] at hframe
    rw [Receiver.setProgress_self hw]
    refine .ended ⟨turns, _, rfl, hall, ?_⟩
    rw [if_neg (by rw [← hframe]; omega)]
    exact ⟨rfl, hmakes'⟩
  | complete hfull =>
    obtain rfl := hlast.1 rfl
    rw [List.flatten_nil, List.append_nil] at hframe
    rw [hframe] at hfull hmakes'
    rw [Receiver.setProgress_self hw]
    refine .ended ⟨turns, _, rfl, hall, ?_⟩
    rw [if_pos hfull]
    exact ⟨rfl, h, hmakes'⟩

/-- Every fragment is answered. One that stalls changes nothing. -/
theorem answers (hs : Stands rx frame len turns rest rx' r.records) (hw : rx.progress = .waiting)
    (hr : r.Sound) (fragment : Bytes) :
    ∃ reply s, (Receiver.receive fragment).on (rx', r) = (.ok reply, s) ∧
      (reply = .stalled → rx'.progress = .waiting ∧ s = (rx', r)) := by
  have hwaiting : ∃ reply s, (Receiver.receive fragment).on (rx, r) = (.ok reply, s) ∧
      (reply = .stalled → rx.progress = .waiting ∧ s = (rx, r)) := by
    obtain ⟨found, hfound, -⟩ := rx.filter.frameLen_succeeds fragment
    cases found with
    | none => exact ⟨_, _, Receiver.receive_refused hw hfound, fun h => nomatch h⟩
    | some n =>
      by_cases hshort : fragment.length < rx.fragmentSize ∧ fragment.length < n
      · exact ⟨_, _, Receiver.receive_short hw hfound hshort, fun h => nomatch h⟩
      obtain ⟨-, hstalled⟩ | ⟨-, h, reply, p, own, r', hopens, -, -, hstored⟩ :=
        Receiver.receive_opens hr hw hfound hshort
      · exact ⟨_, _, hstalled, fun _ => ⟨hw, rfl⟩⟩
      · exact ⟨_, _, hopens, fun h => absurd h hstored.ne_stalled⟩
  cases hs with
  | fresh => exact hwaiting
  | passed _ => exact hwaiting
  | ended _ => exact hwaiting
  | passing _ _ => exact ⟨_, _, Receiver.receive_skipping rfl, fun h => nomatch h⟩
  | storing _ _ _ _ hmem hlen hbytes =>
    obtain ⟨pre, post, hl⟩ := List.append_of_mem hmem
    obtain ⟨reply, p, own, r', hstore, -, -, hstored⟩ :=
      rx.store_step hr hl hlen hbytes fragment (fragment.length < rx.fragmentSize)
    exact ⟨_, _, (Receiver.receive_reading rfl).trans hstore, fun h => absurd h hstored.ne_stalled⟩

theorem first (hw : rx.progress = .waiting) (hr : r.Sound)
    (hlen : rx.filter.frameLen fragment = .ok len)
    (hlast : fragment.length < rx.fragmentSize ↔ rest = [])
    (hframe : fragment ++ rest.flatten = frame) {s : Receiver × Ring}
    (hon : (Receiver.receive fragment).on (rx, r) = (.ok reply, s)) (hreply : reply ≠ .stalled) :
    r.Leads s.2 ∧ Stands rx frame len ([] ++ [⟨fragment, reply, r.records, s.2.records⟩]) rest
      s.1 s.2.records := by
  have hnone : r.records = r.records ++ [] ++ [] := by simp
  have hall : ∀ t ∈ ([] : List Turn), t.reply = .stored := fun _ ht => nomatch ht
  cases len with
  | none =>
    cases hon.symm.trans (Receiver.receive_refused hw hlen)
    have hidle : ∀ t ∈ ([] : List Turn), t.Idle := fun _ ht => nomatch ht
    exact ⟨.refl, refused hw hidle hlast⟩
  | some n =>
    by_cases hshort : fragment.length < rx.fragmentSize ∧ fragment.length < n
    · cases hon.symm.trans (Receiver.receive_short hw hlen hshort)
      -- No record was opened, so that any handle may stand for the one of the frame.
      have hstored : Stored (⟨0⟩ : Handle) n (bytes [] ++ fragment) true .dropped .waiting [] :=
        .truncated hshort.2
      have hstands := stored hw hall .nothing hnone hnone
        (iff_of_true rfl (hlast.1 hshort.1)) hframe hstored
      rw [Receiver.setProgress_self hw] at hstands
      exact ⟨.refl, hstands⟩
    obtain ⟨-, hstalled⟩ | ⟨-, h, reply', p, own, r₁, hopens, hleads, hrecs, hstored⟩ :=
      Receiver.receive_opens hr hw hlen hshort
    · cases hon.symm.trans hstalled
      exact absurd rfl hreply
    · cases hon.symm.trans hopens
      have hlast' : decide (fragment.length < rx.fragmentSize) = true ↔ rest = [] := by
        rw [decide_eq_true_eq, hlast]
      exact ⟨hleads, stored hw hall .nothing hnone (by rw [hrecs, List.append_nil]) hlast' hframe
        hstored⟩

theorem next (hs : Stands rx frame len turns (fragment :: rest) rx' r.records)
    (hw : rx.progress = .waiting) (hsize : Filter.headerLen ≤ rx.fragmentSize)
    (hlen : rx.filter.frameLen frame = .ok len) (hr : r.Sound)
    (hfragments : turns.map Turn.fragment ++ fragment :: rest = fragments rx.fragmentSize frame)
    {s : Receiver × Ring} (hon : (Receiver.receive fragment).on (rx', r) = (.ok reply, s))
    (hreply : reply ≠ .stalled) :
    r.Leads s.2 ∧ Stands rx frame len (turns ++ [⟨fragment, reply, r.records, s.2.records⟩]) rest
      s.1 s.2.records := by
  have hpos : 0 < rx.fragmentSize := Nat.lt_of_lt_of_le (by decide) hsize
  have hlast := short_iff_last hpos hfragments
  have hframe : bytes turns ++ fragment ++ rest.flatten = frame := by
    rw [← flatten_fragments rx.fragmentSize frame, ← hfragments, bytes]
    simp
  cases hs with
  | fresh =>
    have hfirst : rx.filter.frameLen fragment = .ok len := by
      rw [first_fragment hpos hfragments, Filter.frameLen_take hsize, hlen]
    exact first hw hr hfirst hlast hframe hon hreply
  | passing _ hidle =>
    cases hon.symm.trans (Receiver.receive_skipping rfl)
    exact ⟨.refl, refused hw hidle hlast⟩
  | storing _ _ hall hmakes hmem hpayload hbytes =>
    obtain ⟨pre, post, hl⟩ := List.append_of_mem hmem
    obtain ⟨reply', p, own, r₁, hstore, hleads, hrecs, hstored⟩ :=
      rx.store_step hr hl hpayload hbytes fragment (fragment.length < rx.fragmentSize)
    cases hon.symm.trans ((Receiver.receive_reading rfl).trans hstore)
    have hlast' : decide (fragment.length < rx.fragmentSize) = true ↔ rest = [] := by
      rw [decide_eq_true_eq, hlast]
    exact ⟨hleads, stored hw hall hmakes (by simp [hl]) hrecs hlast' hframe hstored⟩

end Stands

theorem Interleaves.stands {rx : Receiver} {r : Ring} {len : Option Nat} {turns : List Turn}
    {s : Receiver × Ring} (h : Interleaves (rx, r) turns s) (hr : r.Sound)
    (hw : rx.progress = .waiting) (hsize : Filter.headerLen ≤ rx.fragmentSize)
    (hlen : rx.filter.frameLen frame = .ok len)
    (hfragments : turns.map Turn.fragment ++ rest = fragments rx.fragmentSize frame) :
    r.Leads s.2 ∧ Stands rx frame len turns rest s.1 s.2.records := by
  induction h generalizing rest with
  | start => exact ⟨.refl, .fresh⟩
  | call _ hc htarget hon ih =>
    obtain ⟨hleads, hstands⟩ := ih hfragments
    obtain ⟨reply, r₂, hon₂, -, heffect⟩ := Call.spec (hleads.sound hr) hc
    cases hon.symm.trans hon₂
    exact ⟨hleads.call hc hon,
      hstands.persist fun e he hrecord => heffect.mem_of_ne he (htarget _ hrecord)⟩
  | stalled _ hon ih =>
    obtain ⟨hleads, hstands⟩ := ih hfragments
    obtain ⟨reply, s, hon', hsame⟩ := hstands.answers hw (hleads.sound hr) _
    cases hon.symm.trans hon'
    cases (hsame rfl).2
    exact ⟨hleads, hstands⟩
  | fragment _ hon hreply ih =>
    rw [List.map_append, List.append_assoc] at hfragments
    obtain ⟨hleads, hstands⟩ := ih hfragments
    obtain ⟨hleads', hstands'⟩ :=
      hstands.next hw hsize hlen (hleads.sound hr) hfragments hon hreply
    exact ⟨hleads.trans hleads', hstands'⟩

/-- What is left when a receiver took some fragments of a frame and others are to come. -/
structure Reassembles (rx : Receiver) (frame : Bytes) (len : Option Nat) (turns : List Turn)
    (rest : List Bytes) (rx' : Receiver) (r' : Ring) : Prop where
  ring : r'.Reachable
  /-- Every fragment is answered. One that stalls changes nothing, and only the first of a frame
  does. -/
  answers : ∀ fragment, ∃ reply s, (Receiver.receive fragment).on (rx', r') = (.ok reply, s) ∧
    (reply = .stalled → rx'.progress = .waiting ∧ s = (rx', r'))
  /-- While the frame is being stored it has one record, which is unfinished, and which a reset gives
  back. -/
  owns : rx'.isReceiving = true → ∃ own pre post r'', rx'.progress.record = some own.handle ∧
    own.stage = .unfinished ∧ Makes turns [own] ∧ r'.records = pre ++ own :: post ∧
    Receiver.reset.on (rx', r') = (.ok (), (rx, r'')) ∧ r''.records = pre ++ post
  receiving : rx'.isReceiving = true ↔ turns ≠ [] ∧ rest ≠ [] ∧ len ≠ none
  /-- After the last fragment the receiver is what it was before the first one. -/
  ends : rest = [] → rx' = rx ∧ Turn.End frame turns len

/-- Of a frame whose fragments arrive between calls of others to the ring, exactly the part that the
filter announced is stored, if it is there. -/
theorem receive_reassembles {rx : Receiver} {r : Ring} (frame : Bytes) (hr : r.Reachable)
    (hw : rx.progress = .waiting) (hsize : Filter.headerLen ≤ rx.fragmentSize) :
    ∃ len, rx.filter.frameLen frame = .ok len ∧
      ∀ turns rest rx' r', Interleaves (rx, r) turns (rx', r') →
        turns.map Turn.fragment ++ rest = fragments rx.fragmentSize frame →
        Reassembles rx frame len turns rest rx' r' := by
  obtain ⟨len, hlen, -⟩ := rx.filter.frameLen_succeeds frame
  refine ⟨len, hlen, fun turns rest rx' r' hinterleaves hfragments => ?_⟩
  obtain ⟨hleads, hstands⟩ := hinterleaves.stands hr.sound hw hsize hlen hfragments
  dsimp only at hleads hstands
  have hsound := hleads.sound hr.sound
  have hidle : rx.isReceiving = false := by rw [Receiver.isReceiving, hw]
  refine ⟨hleads.reachable hr, hstands.answers hw hsound, ?_, ?_, ?_⟩
  · intro hreceiving
    cases hstands with
    | @storing n _ _ h payload _ _ _ _ hmakes hmem _ _ =>
      obtain ⟨pre, post, hl⟩ := List.append_of_mem hmem
      have hp : ({ rx with progress := .reading h n (min n (bytes turns).length) } :
          Receiver).progress = .reading h n (min n (bytes turns).length) := rfl
      obtain ⟨r'', hreset, -, hrecs⟩ := Receiver.reset_reading hsound hp hl rfl rfl
      rw [Receiver.setProgress_self hw] at hreset
      exact ⟨_, pre, post, r'', rfl, rfl, hmakes, hl, hreset, hrecs⟩
    | passing _ _ => cases hreceiving
    | fresh | passed _ | ended _ => cases hreceiving.symm.trans hidle
  · cases hstands with
    | storing hturns hrest _ _ _ _ _ => simp [Receiver.isReceiving, hturns, hrest]
    | passing _ _ => simp [Receiver.isReceiving]
    | fresh | passed _ | ended _ => simp [hidle]
  · rintro rfl
    cases hstands with
    | storing _ hrest _ _ _ _ _ => exact absurd rfl hrest
    | passing hrest _ => exact absurd rfl hrest
    | fresh => exact absurd hfragments.symm (fragments_ne_nil _ _)
    | passed hidle => exact ⟨rfl, hidle⟩
    | ended hend => exact ⟨rfl, hend⟩

set_option maxRecDepth 2000 in
/-- A question in two fragments, with a record that someone else opens between them. -/
theorem receive_reassembles_question : ∃ (rx : Receiver) (r : Ring), r.Reachable ∧
    rx.progress = .waiting ∧ Filter.headerLen ≤ rx.fragmentSize ∧ ∃ turns r',
      Interleaves (rx, r) turns (rx, r') ∧ turns.map Turn.reply = [.stored, .complete] ∧
      Turn.End Interface.question turns (some 42) := by
  have hreachable : (⟨List.replicate 128 0, 124, 0, 0, 0⟩ : Ring).Reachable :=
    ⟨List.replicate 128 0, _, _, _, rfl, .start⟩
  have hwaiting : (⟨.new Config.standard.hardware, 24, .waiting⟩ : Receiver).progress = .waiting :=
    rfl
  have hsize : Filter.headerLen ≤
      (⟨.new Config.standard.hardware, 24, .waiting⟩ : Receiver).fragmentSize := by decide
  obtain ⟨len, hlen, hall⟩ := receive_reassembles Interface.question hreachable hwaiting hsize
  obtain rfl : some 42 = len := Except.ok.inj (Eq.trans rfl hlen)
  have hstart : Interleaves (⟨.new Config.standard.hardware, 24, .waiting⟩,
      ⟨List.replicate 128 0, 124, 0, 0, 0⟩) [] _ := .start
  have hfirst : Interleaves _ ([] ++ [⟨Interface.question.take 24, .stored, _, _⟩]) _ :=
    .fragment hstart rfl (by decide)
  have hother := hfirst.call (c := .allocate 2) trivial (fun _ _ ht => nomatch ht) rfl
  have hboth : Interleaves _ (_ ++ [⟨Interface.question.drop 24, .complete, _, _⟩]) _ :=
    .fragment hother rfl (by decide)
  have hfragments : fragments 24 Interface.question =
      [Interface.question.take 24, Interface.question.drop 24] := by
    rw [fragments, if_pos (by decide), fragments, if_neg (by decide)]
  exact ⟨_, _, hreachable, hwaiting, hsize, _, _, hboth, rfl,
    ((hall _ [] _ _ hboth hfragments.symm).ends rfl).2⟩

end Reflector.Link
