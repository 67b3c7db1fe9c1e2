import Reflector.Proofs.Link.Transmitter
import Reflector.Proofs.Ring.Outputs
import Reflector.Proofs.Ring.WellFormed
/-!
Exact transmission. Whatever others ask of the ring in between, the fragments sent make up frames,
one for each record of the output queue in its turn, and a record is released with its last
fragment.
-/
namespace Reflector.Link

open Reflector.Ring (Call Record Reply Spliced outputs)

theorem Kept.of_spliced {l l' queued : List Record} (h : Spliced queued l l') : Kept l l' := by
  cases h with
  | grown _ => exact Kept.append _ _
  | replaced hrec _ => exact Kept.behind hrec

namespace Transmitter

section Frames

structure Sending where
  fragment : Bytes
  before : Ring
  after : Ring

structure Frame where
  record : Record
  full : List Sending
  last : Sending

def Frame.log (f : Frame) : List Sending := f.full ++ [f.last]

def bytes (log : List Sending) : Bytes := (log.map Sending.fragment).flatten

structure Next (r : Ring) (rec : Record) : Prop where
  oldest : r.records.head? = some rec
  output : rec.stage = .output
  handed : ∃ r', Ring.getOutput.on r = (.ok (some rec.handle), r')

/-- A payload is cut into as many full parts as there can be and what is left over, which may be
empty. -/
structure Cut (size : Nat) (payload : Bytes) (full : List Bytes) (last : Bytes) : Prop where
  count : full.length = payload.length / size
  joined : full.flatten ++ last = payload
  each : ∀ part ∈ full, part.length = size
  rest : last.length = payload.length % size

/-- A full fragment of a record was sent. The record stays as it is, with the output reader. -/
structure Sending.Within (size : Nat) (rec : Record) (s : Sending) : Prop where
  next : Next s.before rec
  full : s.fragment.length = size
  stays : s.after.records = s.before.records
  reader : s.after.outputReader = rec.handle.offset

/-- A record was sent in its turn, and was released with its last fragment. -/
structure Frame.Whole (size : Nat) (f : Frame) : Prop where
  cut : Cut size f.record.payload (f.full.map Sending.fragment) f.last.fragment
  full : ∀ s ∈ f.full, s.Within size f.record
  next : Next f.last.before f.record
  released : f.last.before.records = f.record :: f.last.after.records

/-- So much of a record was sent. It is as it was when the first fragment was sent, and the output
reader is at it. -/
structure Begun (size : Nat) (begun : List Sending) (r : Ring) (rec : Record) (sent : Nat) :
    Prop where
  nonempty : begun ≠ []
  next : Next r rec
  reader : r.outputReader = rec.handle.offset
  le : sent ≤ rec.payload.length
  bytes : bytes begun = rec.payload.take sent
  within : ∀ s ∈ begun, s.Within size rec

def InFlight (size : Nat) (begun : List Sending) (r : Ring) : Option (Handle × Nat) → Prop
  | some (h, sent) => ∃ rec, rec.handle = h ∧ Begun size begun r rec sent
  | none => begun = []

end Frames

/-- Fragments are sent while others make calls on other records: the records queued for transmission
by the way, the fragments and the state that results. -/
inductive Interleaves (s : Transmitter × Ring) :
    List Record → List Sending → Transmitter × Ring → Prop
  | start : Interleaves s [] [] s
  | call {queued : List Record} {log : List Sending} {tx : Transmitter} {r r' : Ring} {c : Call}
      {reply : Reply} : Interleaves s queued log (tx, r) → c.Permits r.entries →
      c.Foreign r.entries → c.run.on r = (.ok reply, r') →
      Interleaves s (queued ++ c.queued r'.records) log (tx, r')
  | sent {queued : List Record} {log : List Sending} {tx tx' : Transmitter} {r r' : Ring}
      {outLen : Nat} {fragment : Bytes} : Interleaves s queued log (tx, r) →
      tx.fragmentSize ≤ outLen → (send outLen).on (tx, r) = (.ok (some fragment), (tx', r')) →
      Interleaves s queued (log ++ [⟨fragment, r, r'⟩]) (tx', r')
  | quiet {queued : List Record} {log : List Sending} {tx tx' : Transmitter} {r r' : Ring}
      {outLen : Nat} : Interleaves s queued log (tx, r) → tx.fragmentSize ≤ outLen →
      (send outLen).on (tx, r) = (.ok none, (tx', r')) → Interleaves s queued log (tx', r')

/-- What was sent makes up frames and the start of one, and each record that was to be transmitted
at first or was queued since has one frame or still waits. -/
structure Transmits (size : Nat) (r : Ring) (queued : List Record) (log : List Sending)
    (s : Transmitter × Ring) (done : List Frame) (begun : List Sending) : Prop where
  reachable : s.2.Reachable
  fragmentSize : s.1.fragmentSize = size
  log : log = done.flatMap Frame.log ++ begun
  whole : ∀ f ∈ done, f.Whole size
  inFlight : InFlight size begun s.2 s.1.current
  records : (done.map Frame.record ++ outputs s.2.records).Perm (outputs r.records ++ queued)

variable {tx tx' : Transmitter} {r r' : Ring} {rec : Record} {size outLen n : Nat}
  {begun : List Sending} {current : Option (Handle × Nat)} {fragment : Bytes}

theorem Next.of_head (hr : r.Sound) (hhead : r.records.head? = some rec)
    (hs : rec.stage = .output) : Next r rec := by
  obtain ⟨r', hon, -⟩ := Ring.getOutput_spec hr
  have hnext : Ring.nextOutput r.records = some rec.handle := by
    rw [Ring.nextOutput, hhead, Option.filter_some, if_pos (beq_iff_eq.2 hs), Option.map_some]
  exact ⟨hhead, hs, r', hnext ▸ hon⟩

theorem Sends.exists_current {b : Bytes} {l : List Record} (h : Sends b l current) (hb : b ≠ []) :
    ∃ handle sent, current = some (handle, sent) := by
  cases current with
  | none => exact absurd h hb
  | some current => exact ⟨current.1, current.2, rfl⟩

theorem length_flatten_of_full {full : List Bytes} (h : ∀ part ∈ full, part.length = size) :
    full.flatten.length = size * full.length := by
  induction full with
  | nil => rfl
  | cons part full ih =>
    obtain ⟨hpart, hfull⟩ := List.forall_mem_cons.1 h
    calc (part :: full).flatten.length
      _ = part.length + full.flatten.length := List.length_append
      _ = size + size * full.length := by rw [hpart, ih hfull]
      _ = size * (full.length + 1) := Nat.add_comm _ _

theorem Cut.of_short {full : List Bytes} {last : Bytes}
    (hfull : ∀ part ∈ full, part.length = size) (hlast : last.length < size) :
    Cut size (full.flatten ++ last) full last := by
  have hlen : (full.flatten ++ last).length = size * full.length + last.length := by
    rw [List.length_append, length_flatten_of_full hfull]
  refine ⟨?_, rfl, hfull, ?_⟩
  · rw [hlen, Nat.mul_add_div (Nat.zero_lt_of_lt hlast), Nat.div_eq_of_lt hlast, Nat.add_zero]
  · rw [hlen, Nat.mul_add_mod, Nat.mod_eq_of_lt hlast]

namespace InFlight

theorem sends (h : InFlight size begun r current) : Sends (bytes begun) r.records current := by
  cases current with
  | none =>
    obtain rfl : begun = [] := h
    rfl
  | some current =>
    obtain ⟨⟨_, stage, payload⟩, rfl, hb⟩ := h
    obtain rfl : stage = .output := hb.next.output
    exact ⟨payload, hb.next.oldest, hb.le, hb.bytes⟩

theorem atReader (h : InFlight size begun r current) : AtReader r current := by
  cases current with
  | none => trivial
  | some current =>
    obtain ⟨rec, hhandle, hb⟩ := h
    exact hb.reader.trans (congrArg Handle.offset hhandle)

theorem within (h : InFlight size begun r current) (hhead : r.records.head? = some rec) :
    ∀ s ∈ begun, s.Within size rec := by
  cases current with
  | none =>
    obtain rfl : begun = [] := h
    exact List.forall_mem_nil _
  | some current =>
    obtain ⟨rec', -, hb⟩ := h
    cases hhead.symm.trans hb.next.oldest
    exact hb.within

theorem eq_none (h : InFlight size begun r current)
    (hhead : ∀ rec, r.records.head? = some rec → rec.stage ≠ .output) :
    begun = [] ∧ current = none := by
  cases current with
  | none => exact ⟨h, rfl⟩
  | some current =>
    obtain ⟨rec, -, hb⟩ := h
    exact absurd hb.next.output (hhead rec hb.next.oldest)

/-- A call on other records leaves the record in flight and the output reader. -/
theorem call (h : InFlight size begun r current) (hr' : r'.Sound) (hcont : r.Continues n r')
    (hkept : Kept r.records r'.records) : InFlight size begun r' current := by
  cases current with
  | none => exact h
  | some current =>
    obtain ⟨rec, hhandle, hb⟩ := h
    have hhead := hkept rec hb.next.oldest hb.next.output
    have hreader := hcont.outputReader_eq hr' (List.mem_of_head? hhead) hb.reader
    exact ⟨rec, hhandle,
      { hb with next := .of_head hr' hhead hb.next.output, reader := hreader }⟩

theorem more (h : InFlight size begun r tx.current) (hsize : 0 < size) (hr : r.Sound)
    (hr' : r'.Sound) (hreader : AtReader r' current) (hlen : fragment.length = size)
    (hrecs : r'.records = r.records) (hsends : Sends (bytes begun ++ fragment) r.records current) :
    InFlight size (begun ++ [⟨fragment, r, r'⟩]) r' current := by
  obtain ⟨handle, sent, rfl⟩ := hsends.exists_current (List.append_ne_nil_of_right_ne_nil _
    (List.ne_nil_of_length_pos (hlen ▸ hsize)))
  obtain ⟨payload, hhead, hle, hbytes⟩ := hsends
  refine ⟨⟨handle, .output, payload⟩, rfl, ?_⟩
  exact
    { nonempty := by simp
      next := .of_head hr' (hrecs ▸ hhead) rfl
      reader := hreader
      le := hle
      bytes := calc bytes (begun ++ [⟨fragment, r, r'⟩])
        _ = bytes begun ++ [fragment].flatten := by
          rw [bytes, List.map_append, List.flatten_append]
          rfl
        _ = bytes begun ++ fragment := by rw [List.flatten_singleton]
        _ = payload.take sent := hbytes
      within := List.forall_mem_append.2 ⟨h.within hhead, List.forall_mem_singleton.2
        ⟨.of_head hr hhead rfl, hlen, hrecs, hreader⟩⟩ }

theorem last {handle : Handle} (h : InFlight size begun r tx.current) (hr : r.Sound)
    (hshort : fragment.length < size)
    (hl : r.records = ⟨handle, .output, bytes begun ++ fragment⟩ :: r'.records) :
    Frame.Whole size ⟨⟨handle, .output, bytes begun ++ fragment⟩, begun, ⟨fragment, r, r'⟩⟩ := by
  have hhead : r.records.head? = some ⟨handle, .output, bytes begun ++ fragment⟩ := by rw [hl]; rfl
  have hwithin := h.within hhead
  refine ⟨Cut.of_short (fun part hpart => ?_) hshort, hwithin, .of_head hr hhead rfl, hl⟩
  obtain ⟨s, hs, rfl⟩ := List.mem_map.1 hpart
  exact (hwithin s hs).full

end InFlight

theorem Sent.head {l l' : List Record} {b : Bytes} (h : Sent size b l current l' (some fragment))
    (hsize : 0 < size) : ∃ rec, l.head? = some rec ∧ rec.stage = .output := by
  obtain ⟨-, -, handle, rfl⟩ | ⟨hlen, -, hsends⟩ := h
  · exact ⟨_, rfl, rfl⟩
  · obtain ⟨handle, sent, rfl⟩ := hsends.exists_current (List.append_ne_nil_of_right_ne_nil _
      (List.ne_nil_of_length_pos (hlen ▸ hsize)))
    obtain ⟨payload, hhead, -⟩ := hsends
    exact ⟨_, hhead, rfl⟩

/-- There is always an answer, and it is a fragment unless there is nothing to send. -/
theorem InFlight.answers (h : InFlight tx.fragmentSize begun r tx.current)
    (hsize : 0 < tx.fragmentSize) (hr : r.Sound) (hout : tx.fragmentSize ≤ outLen) :
    ∃ reply s, (send outLen).on (tx, r) = (.ok reply, s) ∧
      (reply = none ↔ tx.isSending = false ∧ ∃ r', Ring.getOutput.on r = (.ok none, r')) := by
  obtain ⟨reply, current, r', hsend, -, -, hsent⟩ := send_spec hr h.sends hout
  refine ⟨reply, _, hsend, ?_⟩
  cases reply with
  | none =>
    obtain ⟨-, -, -, hhead⟩ := hsent
    obtain ⟨r'', hget, -⟩ := Ring.getOutput_spec hr
    have hnone : Ring.nextOutput r.records = none := by
      refine Option.eq_none_iff_forall_ne_some.2 fun handle hn => ?_
      obtain ⟨payload, hhead'⟩ := Ring.head_of_nextOutput hn
      exact hhead _ hhead' rfl
    have hidle : tx.isSending = false := by rw [isSending, (h.eq_none hhead).2]; rfl
    exact iff_of_true rfl ⟨hidle, r'', hnone ▸ hget⟩
  | some fragment =>
    obtain ⟨rec, hhead, hs⟩ := Sent.head hsent hsize
    obtain ⟨r'', hget⟩ := (Next.of_head hr hhead hs).handed
    refine iff_of_false (Option.some_ne_none fragment) fun hquiet => ?_
    obtain ⟨-, r'', hget'⟩ := hquiet
    cases hget.symm.trans hget'

namespace Transmits

variable {queued : List Record} {log : List Sending} {done : List Frame} {r₀ : Ring} {c : Call}
  {reply : Reply}

theorem start (hr : r.Reachable) (hidle : tx.current = none) (hsize : tx.fragmentSize = size) :
    Transmits size r [] [] (tx, r) [] [] where
  reachable := hr
  fragmentSize := hsize
  log := rfl
  whole := List.forall_mem_nil _
  inFlight := by rw [hidle]; rfl
  records := by simp

theorem call (h : Transmits size r₀ queued log (tx, r) done begun) (hc : c.Permits r.entries)
    (hforeign : c.Foreign r.entries) (hon : c.run.on r = (.ok reply, r')) :
    Transmits size r₀ (queued ++ c.queued r'.records) log (tx, r') done begun := by
  have hr := h.reachable.sound
  obtain ⟨reply', r'', hon', hr', hcont, heffect⟩ := Call.continues hr hc
  cases hon.symm.trans hon'
  have hspliced := Call.spliced hr hr' hc hforeign heffect
  have houtputs := hspliced.outputs_perm.append_left (done.map Frame.record)
  refine
    { h with
      reachable := Ring.Leads.reachable (.call .refl hc hon) h.reachable
      inFlight := h.inFlight.call hr' hcont (Kept.of_spliced hspliced)
      records := ?_ }
  rw [← List.append_assoc] at houtputs ⊢
  exact houtputs.trans (h.records.append_right _)

theorem sent (h : Transmits size r₀ queued log (tx, r) done begun) (hsize : 0 < size)
    (hout : tx.fragmentSize ≤ outLen)
    (hon : (send outLen).on (tx, r) = (.ok (some fragment), (tx', r'))) :
    ∃ done' begun',
      Transmits size r₀ queued (log ++ [⟨fragment, r, r'⟩]) (tx', r') done' begun' := by
  have hr := h.reachable.sound
  have hflight := h.inFlight
  obtain rfl : tx.fragmentSize = size := h.fragmentSize
  obtain ⟨reply, current, r'', hsend, hleads, hreader, hsent⟩ := send_spec hr hflight.sends hout
  cases hon.symm.trans hsend
  have hreachable := hleads.reachable h.reachable
  obtain ⟨hshort, rfl, handle, hl⟩ | ⟨hlen, hrecs, hsends⟩ := hsent
  · -- What was in flight is one more frame, and its record goes over to the frames.
    have hwhole := hflight.last hr hshort hl
    refine ⟨done ++ [_], [],
      { reachable := hreachable
        fragmentSize := rfl
        log := ?_
        whole := List.forall_mem_append.2 ⟨h.whole, List.forall_mem_singleton.2 hwhole⟩
        inFlight := rfl
        records := ?_ }⟩
    · rw [h.log, List.flatMap_append, List.flatMap_singleton, Frame.log]
      simp only [List.append_assoc, List.append_nil]
    · have hrecords := h.records
      rw [hl, Ring.outputs_cons_of_output rfl] at hrecords
      rwa [List.map_append, List.append_assoc]
  · refine ⟨done, begun ++ [⟨fragment, r, r'⟩],
      { h with
        reachable := hreachable
        fragmentSize := rfl
        log := by rw [h.log, List.append_assoc]
        inFlight := hflight.more hsize hr hreachable.sound (hreader hflight.atReader) hlen hrecs
          hsends
        records := hrecs ▸ h.records }⟩

theorem quiet (h : Transmits size r₀ queued log (tx, r) done begun)
    (hout : tx.fragmentSize ≤ outLen)
    (hon : (send outLen).on (tx, r) = (.ok none, (tx', r'))) :
    Transmits size r₀ queued log (tx', r') done begun := by
  obtain rfl : tx.fragmentSize = size := h.fragmentSize
  obtain ⟨reply, current, r'', hsend, hleads, -, hsent⟩ :=
    send_spec h.reachable.sound h.inFlight.sends hout
  cases hon.symm.trans hsend
  obtain ⟨hrecs, rfl, -, hhead⟩ := hsent
  exact
    { h with
      reachable := hleads.reachable h.reachable
      fragmentSize := rfl
      inFlight := (h.inFlight.eq_none hhead).1
      records := hrecs ▸ h.records }

end Transmits

theorem Interleaves.transmits {queued : List Record} {log : List Sending} {s : Transmitter × Ring}
    (h : Interleaves (tx, r) queued log s) (hr : r.Reachable) (hidle : tx.current = none)
    (hsize : tx.fragmentSize = size) (hpos : 0 < size) :
    ∃ done begun, Transmits size r queued log s done begun := by
  induction h with
  | start => exact ⟨[], [], .start hr hidle hsize⟩
  | call _ hc hforeign hon ih =>
    obtain ⟨done, begun, h⟩ := ih
    exact ⟨done, begun, h.call hc hforeign hon⟩
  | sent _ hout hon ih =>
    obtain ⟨done, begun, h⟩ := ih
    exact h.sent hpos hout hon
  | quiet _ hout hon ih =>
    obtain ⟨done, begun, h⟩ := ih
    exact ⟨done, begun, h.quiet hout hon⟩

/-- Transmission is exact: whatever others ask of the ring in between, what is sent are the records
of the output queue, one frame each in the order of the ring, and there is a fragment as long as
there is anything to send. -/
theorem interleaves_exact (hpos : 0 < size) (hr : r.Reachable) :
    ∃ tx, new size = .ok tx ∧ ∀ queued log s, Interleaves (tx, r) queued log s →
      (∃ done begun, Transmits size r queued log s done begun) ∧
      ∀ outLen, size ≤ outLen → ∃ reply s', (send outLen).on s = (.ok reply, s') ∧
        (reply = none ↔
          s.1.isSending = false ∧ ∃ r', Ring.getOutput.on s.2 = (.ok none, r')) := by
  refine ⟨⟨size, none⟩, if_neg (Nat.ne_of_gt hpos), fun queued log s h => ?_⟩
  obtain ⟨done, begun, ht⟩ := h.transmits hr rfl rfl hpos
  refine ⟨⟨done, begun, ht⟩, fun outLen hout => ?_⟩
  obtain ⟨tx, r'⟩ := s
  obtain rfl : tx.fragmentSize = size := ht.fragmentSize
  exact ht.inFlight.answers hpos ht.reachable.sound hout

set_option maxRecDepth 1000 in
/-- A record of one full fragment ends with an empty one. Another one is queued before that. -/
theorem interleaves_exact_empty :
    ∃ r tx queued log s, (0 < 2 ∧ r.Reachable) ∧ new 2 = .ok tx ∧
      Interleaves (tx, r) queued log s ∧ log.map Sending.fragment = [[2, 3], [], [6]] ∧
      (∃ done begun, Transmits 2 r queued log s done begun) ∧
      ∀ outLen, 2 ≤ outLen → ∃ reply s', (send outLen).on s = (.ok reply, s') ∧
        (reply = none ↔
          s.1.isSending = false ∧ ∃ r', Ring.getOutput.on s.2 = (.ok none, r')) := by
  have hreachable : Ring.Reachable ⟨[0, 0, 2, 3, 4, 5, 6, 7, 8, 9, 10, 11], 8, 0, 0, 0⟩ :=
    ⟨[0, 1, 2, 3, 4, 5, 6, 7, 8, 9, 10, 11], _, _, _, rfl, .start⟩
  obtain ⟨tx, hnew, hall⟩ := interleaves_exact (Nat.zero_lt_two) hreachable
  obtain rfl : tx = ⟨2, none⟩ := Except.ok.inj (hnew.symm.trans rfl)
  have hstart : Interleaves (⟨2, none⟩, ⟨[0, 0, 2, 3, 4, 5, 6, 7, 8, 9, 10, 11], 8, 0, 0, 0⟩)
    _ _ _ := .start
  have hfirst := hstart.call (c := .allocate 2) trivial trivial rfl
  have hqueued := hfirst.call (c := .putOutput ⟨0⟩) ⟨_, .head _, rfl, rfl⟩ trivial rfl
  have hsent := hqueued.sent (Nat.le_refl 2) rfl
  have hsecond := hsent.call (c := .allocate 1) trivial trivial rfl
  have hboth := hsecond.call (c := .putOutput ⟨4⟩) ⟨_, .tail _ (.head _), rfl, rfl⟩ trivial rfl
  have hended := hboth.sent (Nat.le_refl 2) rfl
  have hshort := hended.sent (Nat.le_refl 2) rfl
  have hquiet := hshort.quiet (Nat.le_refl 2) rfl
  exact ⟨_, _, _, _, _, ⟨by decide, hreachable⟩, hnew, hquiet, rfl, hall _ _ _ hquiet⟩

end Transmitter

end Reflector.Link
