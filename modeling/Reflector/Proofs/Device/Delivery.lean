import Reflector.Proofs.Device.Steps
/-!
Whatever the order of steps, the device never faults, loses no frame, hands none out twice or torn,
and keeps their order.
-/
namespace Reflector.Device

open Link (Filter Line Received Slot Ordered Kept slotOf)
open Reflector.Ring (Record Sound Stage nextInput)

variable {σ α : Type} {f : Filter} {size : Nat} {events : List Event} {d : Device σ}
  {l l' : List Record}

/-- What is left to do after a step that found nothing to do. -/
def Rests (d : Device σ) : Event → Prop
  | .idle => ∀ e ∈ d.ring.records, e.stage ≠ .input
  | .quiet => d.transmitter.current = none ∧
      ∀ rec, d.ring.records.head? = some rec → rec.stage ≠ .output
  | _ => True

/-- What the history of a run tells about the device that it led to. -/
structure Tracks (f : Filter) (size : Nat) (events : List Event) (d : Device σ) : Prop where
  sound : d.ring.Sound
  ordered : Ordered d.ring.records
  filter : d.receiver.filter = f
  fragmentSize : d.transmitter.fragmentSize = size
  holds : d.receiver.progress.Holds f (history f events).line.arrived d.ring.records
  sends : Link.Transmitter.Sends (begun size events) d.ring.records d.transmitter.current
  line : (history f events).line.slots =
    (emitted size events).map .queued ++ Link.slots d.ring
  received : (history f events).completed =
    (history f events).handed ++ Slot.waiting (Link.slots d.ring)
  rests : ∀ event, events.getLast? = some event → Rests d event

theorem fragments_append {event : Event} (h : ∀ fragment, event ≠ .sent fragment) :
    fragments (events ++ [event]) = fragments events := by
  rw [fragments, List.filterMap_append]
  cases event with
  | sent fragment => exact absurd rfl (h fragment)
  | _ => exact List.append_nil _

theorem fragments_sent (fragment : Bytes) :
    fragments (events ++ [.sent fragment]) = fragments events ++ [fragment] := by
  rw [fragments, List.filterMap_append]
  rfl

theorem joined_last (events : List Event) {fragment : Bytes} (h : fragment.length < size) :
    emitted size (events ++ [.sent fragment]) =
        emitted size events ++ [begun size events ++ fragment] ∧
      begun size (events ++ [.sent fragment]) = [] := by
  simp only [emitted, begun, fragments_sent, Link.joinFragments_append, if_pos h, and_self]

theorem joined_more (events : List Event) {fragment : Bytes} (h : size ≤ fragment.length) :
    emitted size (events ++ [.sent fragment]) = emitted size events ∧
      begun size (events ++ [.sent fragment]) = begun size events ++ fragment := by
  simp only [emitted, begun, fragments_sent, Link.joinFragments_append, if_neg (Nat.not_lt.2 h),
    and_self]

theorem rests_append {event : Event} (h : Rests d event) :
    ∀ e, (events ++ [event]).getLast? = some e → Rests d e := by
  intro e he
  rw [List.getLast?_concat] at he
  exact Option.some.inj he ▸ h

def present (f : Filter) (events : List Event) (d : Device σ) : Line :=
  ⟨(history f events).line.arrived, Link.slots d.ring⟩

namespace Tracks

/-- A step that sends nothing: what is sent and what the transmitter holds stay as they are. -/
theorem unsent {event : Event} {d' : Device σ} (arrived : List Bytes) (h : Tracks f size events d)
    (hevent : ∀ fragment, event ≠ .sent fragment) (hsound : d'.ring.Sound)
    (hordered : Ordered d'.ring.records) (hfilter : d'.receiver.filter = f)
    (htransmitter : d'.transmitter = d.transmitter) (hkept : Kept d.ring.records d'.ring.records)
    (hline : ((history f events).next f event).line =
      ⟨arrived, (emitted size events).map .queued ++ Link.slots d'.ring⟩)
    (hholds : d'.receiver.progress.Holds f arrived d'.ring.records)
    (hreceived : ((history f events).next f event).completed =
      ((history f events).next f event).handed ++ Slot.waiting (Link.slots d'.ring))
    (hrests : Rests d' event) : Tracks f size (events ++ [event]) d' where
  sound := hsound
  ordered := hordered
  filter := hfilter
  fragmentSize := htransmitter ▸ h.fragmentSize
  holds := by
    rw [history_append, hline]
    exact hholds
  sends := by
    rw [begun, fragments_append hevent, htransmitter]
    exact h.sends.kept hkept
  line := by rw [history_append, hline, emitted, emitted, fragments_append hevent]
  received := by rw [history_append, hreceived]
  rests := rests_append hrests

theorem line_eq (h : Tracks f size events d) : (history f events).line =
    ⟨(present f events d).arrived, (emitted size events).map .queued ++ Link.slots d.ring⟩ := by
  rw [← h.line]
  rfl

theorem receive (h : Tracks f size events d) (app : Udp.Application σ) (fragment : Bytes) :
    ∃ event d', ((Action.receive fragment).run app).on d = (.ok event, d') ∧
      Tracks f size (events ++ [event]) d' := by
  cases h.filter
  obtain ⟨reply, p, r, hreceive, hfollows⟩ := Link.Receiver.receive_spec
    (present d.receiver.filter events d) h.sound h.ordered h.holds rfl fragment
  have hwaiting := Link.Receiver.waiting_next (present d.receiver.filter events d) h.ordered
    h.holds rfl fragment reply
  have hon : (onReceiver (Link.Receiver.receive fragment)).on d = (.ok reply,
      { d with ring := r, receiver := { d.receiver with progress := p } }) := by
    rw [onReceiver, Op.on_focus, hreceive]
  refine ⟨.received fragment reply, _, Op.on_bind_ok hon,
    h.unsent _ (fun _ => Event.noConfusion) hfollows.sound hfollows.ordered rfl rfl hfollows.kept ?_
      hfollows.holds ?_ trivial⟩
  · simp only [History.next, h.line_eq, Line.next_queued, hfollows.shows]
    rfl
  · simp only [History.next, hfollows.shows, hwaiting, h.line_eq, h.received]
    split
    · rw [List.append_assoc]
      rfl
    · rw [List.append_nil]
      rfl

theorem reset (h : Tracks f size events d) (app : Udp.Application σ) :
    ∃ event d', (Action.reset.run app).on d = (.ok event, d') ∧
      Tracks f size (events ++ [event]) d' := by
  cases h.filter
  obtain ⟨r, hreset, hfollows⟩ := Link.Receiver.reset_spec
    (present d.receiver.filter events d) h.sound h.ordered h.holds rfl
  have hon : (onReceiver Link.Receiver.reset).on d = (.ok (),
      { d with ring := r, receiver := { d.receiver with progress := .waiting } }) := by
    rw [onReceiver, Op.on_focus, hreset]
  have hclosed := Slot.giveUp_of_closed (Slot.queued_closed (emitted size events))
  refine ⟨.reset, _, Op.on_bind_ok hon,
    h.unsent _ (fun _ => Event.noConfusion) hfollows.sound hfollows.ordered rfl rfl hfollows.kept ?_
      hfollows.holds ?_ trivial⟩
  · simp only [History.next, h.line_eq, Slot.giveUp_append, hclosed, hfollows.shows]
    rfl
  · simp only [History.next, hfollows.shows, Slot.waiting_giveUp, h.received]
    rfl

theorem unchanged {event : Event} {d' : Device σ} (h : Tracks f size events d)
    (hevent : ∀ fragment, event ≠ .sent fragment)
    (hnext : (history f events).next f event = history f events) (hsound : d'.ring.Sound)
    (hrecs : d'.ring.records = d.ring.records) (hreceiver : d'.receiver = d.receiver)
    (htransmitter : d'.transmitter = d.transmitter) (hrests : Rests d' event) :
    Tracks f size (events ++ [event]) d' := by
  have hslots := Link.slots_congr hrecs
  refine h.unsent _ hevent hsound (hrecs ▸ h.ordered) (hreceiver ▸ h.filter) htransmitter
    (hrecs ▸ fun _ hrec _ => hrec) ?_ (hreceiver ▸ hrecs ▸ h.holds) ?_ hrests
  · rw [hnext, hslots, ← h.line]
  · rw [hnext, hslots, h.received]

theorem queue {m : Interface → Interface.Queue α} {len : Nat} (h : Tracks f size events d)
    (hm : ∃ result r', (m d.interface).run.on d.ring = (.ok result, r') ∧
      Interface.Frames d.ring len result r') :
    ∃ event d', (queueFrame m).on d = (.ok event, d') ∧
      Tracks f size (events ++ [event]) d' := by
  obtain ⟨event, r, hon, hr, hevent⟩ := queueFrame_spec d hm
  refine ⟨event, _, hon, ?_⟩
  cases hevent with
  | inl hrefused =>
    obtain ⟨rfl, hrecs⟩ := hrefused
    exact h.unchanged (fun _ => Event.noConfusion) rfl hr hrecs rfl rfl trivial
  | inr hqueued =>
    obtain ⟨handle, frame, rfl, hrecs⟩ := hqueued
    have hnew : ∀ e ∈ [(⟨handle, .output, frame⟩ : Record)], e.stage = .output := by simp
    have hordered : Ordered (d.ring.records ++ [] ++ []) := by simpa using h.ordered
    have hholds : d.receiver.progress.Holds f (history f events).line.arrived
        (d.ring.records ++ [] ++ []) := by simpa using h.holds
    have hslots : Link.slots r = Link.slots d.ring ++ [.queued frame] := by
      rw [Link.slots, hrecs, List.map_append]
      rfl
    refine h.unsent (history f events).line.arrived (fun _ => Event.noConfusion) hr ?_ h.filter
      rfl (hrecs ▸ Kept.append _ _) ?_ ?_ ?_ trivial
    · simpa [hrecs] using hordered.replace hnew
    · rw [History.next, h.line, hslots, List.append_assoc]
    · simpa [hrecs] using hholds.replace (by simp) hnew
    · rw [History.next, h.received, hslots, Slot.waiting_append]
      exact congrArg _ (List.append_nil _).symm

/-- The oldest received frame is answered in its place, or leaves. -/
theorem poll (h : Tracks f size events d) (app : Udp.Application σ) :
    ∃ event d', (Action.poll.run app).on d = (.ok event, d') ∧
      Tracks f size (events ++ [event]) d' := by
  obtain ⟨result, r, interface, state, hon, hr, hhandles⟩ := handleOne_spec app h.sound
  unfold Action.run
  cases result with
  | none =>
    obtain ⟨hnone, hrecs⟩ := hhandles
    refine ⟨.idle, _, Op.on_bind_ok hon, ?_⟩
    refine h.unchanged (fun _ => Event.noConfusion) rfl hr hrecs rfl rfl ?_
    intro e he
    rw [hrecs] at he
    exact h.ordered.no_input hnone e he
  | some handled =>
    obtain ⟨frame, reply⟩ := handled
    obtain ⟨handle, pre, post, hl, hpre, hrecs⟩ := hhandles
    refine ⟨.handled frame reply, _, Op.on_bind_ok hon, ?_⟩
    -- What is behind the place of the request stays, whether an answer takes the place or not.
    have hnew : ∀ e ∈ (reply.map fun answer => (⟨handle, .output, answer⟩ : Record)).toList,
        e.stage = .output := by cases reply <;> simp
    have hl' := hl.trans (List.append_cons ..)
    have hslots : Link.slots d.ring =
        (pre.map Record.payload).map .queued ++ .received frame :: post.map slotOf := by
      rw [Link.Receiver.slots_split hl, Link.Receiver.slots_of_output hpre]
      rfl
    have hslots' : Link.slots r = (pre.map Record.payload).map .queued ++
        ((reply.map Slot.queued).toList ++ post.map slotOf) := by
      rw [Link.slots, hrecs, List.map_append, List.map_append, List.append_assoc,
        Link.Receiver.slots_of_output hpre]
      cases reply <;> rfl
    refine h.unsent (history f events).line.arrived (fun _ => Event.noConfusion) hr ?_ h.filter
      rfl ?_ ?_ ?_ ?_ trivial
    · exact hrecs ▸ Ordered.replace (hl' ▸ h.ordered) hnew
    · rw [hl, hrecs, List.append_assoc]
      exact Kept.behind Stage.noConfusion
    · rw [History.next, h.line, hslots, Slot.answer_queued, Slot.answer_queued, hslots']
      rfl
    · exact hrecs ▸ Link.Progress.Holds.replace (hl' ▸ h.holds) (by simp) hnew
    · have hwaiting : Slot.waiting (Link.slots d.ring) = frame :: Slot.waiting (Link.slots r) := by
        rw [hslots, hslots', Slot.waiting_append, Slot.waiting_append, Slot.waiting_append,
          Slot.waiting_queued]
        cases reply <;> simp [Slot.waiting]
      calc (history f events).completed
        _ = (history f events).handed ++ Slot.waiting (Link.slots d.ring) := h.received
        _ = (history f events).handed ++ [frame] ++ Slot.waiting (Link.slots r) := by
          rw [hwaiting, List.append_cons]

/-- A step of the transmitter: frames only leave the ring for those that were sent. -/
theorem transmitted {event : Event} {d' : Device σ} (h : Tracks f size events d)
    (hnext : (history f events).next f event = history f events) (hsound : d'.ring.Sound)
    (hordered : Ordered d'.ring.records) (hreceiver : d'.receiver = d.receiver)
    (hsize : d'.transmitter.fragmentSize = d.transmitter.fragmentSize)
    (hholds : d.receiver.progress.Holds f (history f events).line.arrived d'.ring.records)
    (hsends : Link.Transmitter.Sends (begun size (events ++ [event])) d'.ring.records
      d'.transmitter.current)
    (hslots : (emitted size events).map .queued ++ Link.slots d.ring =
      (emitted size (events ++ [event])).map .queued ++ Link.slots d'.ring)
    (hwaiting : Slot.waiting (Link.slots d.ring) = Slot.waiting (Link.slots d'.ring))
    (hrests : Rests d' event) : Tracks f size (events ++ [event]) d' where
  sound := hsound
  ordered := hordered
  filter := hreceiver ▸ h.filter
  fragmentSize := hsize.trans h.fragmentSize
  holds := by
    rw [history_append, hnext, hreceiver]
    exact hholds
  sends := hsends
  line := by rw [history_append, hnext, h.line, hslots]
  received := by rw [history_append, hnext, h.received, hwaiting]
  rests := rests_append hrests

theorem send {outLen : Nat} (h : Tracks f size events d) (app : Udp.Application σ)
    (hout : size ≤ outLen) :
    ∃ event d', ((Action.send outLen).run app).on d = (.ok event, d') ∧
      Tracks f size (events ++ [event]) d' := by
  cases h.fragmentSize
  obtain ⟨reply, current, r, hsend, hleads, -, hsent⟩ :=
    Link.Transmitter.send_spec h.sound h.sends hout
  have hr := hleads.sound h.sound
  have hon : (onTransmitter (Link.Transmitter.send outLen)).on d = (.ok reply,
      { d with ring := r, transmitter := { d.transmitter with current } }) := by
    rw [onTransmitter, Op.on_focus, hsend]
  unfold Action.run
  cases reply with
  | none =>
    obtain ⟨hrecs, rfl, hbegun, hhead⟩ := hsent
    have hslots := Link.slots_congr hrecs
    have hfragments : fragments (events ++ [.quiet]) = fragments events :=
      fragments_append fun _ => Event.noConfusion
    refine ⟨.quiet, _, Op.on_bind_ok hon, h.transmitted rfl hr (hrecs ▸ h.ordered) rfl rfl
      (hrecs ▸ h.holds) ?_ ?_ (congrArg _ hslots.symm) ⟨rfl, hrecs ▸ hhead⟩⟩
    · rw [begun, hfragments]
      exact hbegun
    · rw [emitted, emitted, hfragments, hslots]
  | some fragment =>
    refine ⟨.sent fragment, _, Op.on_bind_ok hon, ?_⟩
    cases hsent with
    | inl hlast =>
      -- the frame is complete: its slot leaves the ring and is counted as sent
      obtain ⟨hshort, rfl, handle, hl⟩ := hlast
      obtain ⟨hemitted, hbegun⟩ := joined_last events hshort
      have hl' : d.ring.records = [] ++ [⟨handle, .output, _⟩] ++ r.records := hl
      have hnew : ∀ e ∈ ([] : List Record), e.stage = .output := by simp
      have hslots : Link.slots d.ring =
          .queued (begun d.transmitter.fragmentSize events ++ fragment) :: Link.slots r := by
        rw [Link.slots, hl]
        rfl
      refine h.transmitted rfl hr (Ordered.replace (hl' ▸ h.ordered) hnew) rfl rfl
        (Link.Progress.Holds.replace (hl' ▸ h.holds) (by simp) hnew) hbegun ?_
        ((congrArg Slot.waiting hslots).trans rfl) trivial
      rw [hemitted, List.map_append, List.append_assoc, hslots]
      rfl
    | inr hmore =>
      -- the frame goes on: no slot changes, only what was sent of the first one
      obtain ⟨hlong, hrecs, hsends⟩ := hmore
      obtain ⟨hemitted, hbegun⟩ := joined_more events (Nat.le_of_eq hlong.symm)
      have hslots := Link.slots_congr hrecs
      refine h.transmitted rfl hr (hrecs ▸ h.ordered) rfl rfl (hrecs ▸ h.holds) ?_ ?_
        (congrArg _ hslots.symm) trivial
      · rw [hbegun, hrecs]
        exact hsends
      · rw [hemitted, hslots]

/-- What the device holds at the end of a run accounts for all that happened. -/
theorem delivers (h : Tracks f size events d) : Delivers f size events where
  received := by
    rw [h.received, h.line, Slot.waiting_append, Slot.waiting_queued]
    rfl
  idle hidle := by
    have hclosed : ∀ e ∈ d.ring.records, e.stage ≠ .input := h.rests _ hidle
    rw [h.line, Slot.waiting_append, Slot.waiting_queued]
    exact Link.waiting_slots hclosed
  sent := by
    refine ⟨Link.slots d.ring, h.line, ?_, fun hquiet => ?_⟩
    · have hsends := h.sends
      cases hc : d.transmitter.current with
      | none =>
        rw [hc] at hsends
        exact .inl hsends
      | some current =>
        rw [hc] at hsends
        obtain ⟨payload, hhead, -, hbegun⟩ := hsends
        refine .inr ⟨payload, ?_, hbegun ▸ List.take_prefix ..⟩
        rw [Link.slots, List.head?_map, hhead]
        rfl
    · obtain ⟨hc, hhead⟩ : Rests d .quiet := h.rests _ hquiet
      have hsends := h.sends
      rw [hc] at hsends
      refine ⟨hsends, fun frame heq => ?_⟩
      rw [Link.slots, List.head?_map] at heq
      obtain ⟨rec, hrec, hslot⟩ := Option.map_eq_some_iff.1 heq
      exact hhead rec hrec (Link.stage_of_queued hslot)

end Tracks

theorem Action.run_spec (app : Udp.Application σ) {action : Action} (h : Tracks f size events d)
    (ho : action.Offers size) :
    ∃ event d', (action.run app).on d = (.ok event, d') ∧
      Tracks f size (events ++ [event]) d' := by
  cases action with
  | receive fragment => exact h.receive app fragment
  | reset => exact h.reset app
  | poll => exact h.poll app
  | sendUdp destination port payload =>
    exact h.queue (d.interface.sendUdp_spec destination port payload h.sound)
  | broadcastUdp sourcePort payload =>
    exact h.queue (d.interface.broadcastUdp_spec sourcePort payload h.sound)
  | sendSntpRequest server => exact h.queue (d.interface.sendSntpRequest_spec server h.sound)
  | send outLen => exact h.send app ho

theorem runAll_spec (app : Udp.Application σ) {actions : List Action} (h : Tracks f size events d)
    (ho : ∀ action ∈ actions, action.Offers size) :
    ∃ events' d', (runAll app actions).on d = (.ok events', d') ∧
      Tracks f size (events ++ events') d' := by
  -- `Tracks` is the invariant. The events so far grow at the end, the actions shrink at the front.
  induction actions generalizing events d with
  | nil => exact ⟨[], d, rfl, (List.append_nil events).symm ▸ h⟩
  | cons action actions ih =>
    obtain ⟨event, d₁, hrun, h₁⟩ := Action.run_spec app h (ho action (.head _))
    obtain ⟨events', d₂, hall, h₂⟩ := ih h₁ fun a ha => ho a (.tail _ ha)
    refine ⟨event :: events', d₂, ?_, ?_⟩
    · rw [runAll, Op.on_bind_ok hrun, Op.on_bind_ok hall]
      rfl
    · rw [List.append_cons]
      exact h₂

/-- A new device, whatever its ring, its settings and its application: any steps in any order, with
buffers for whole fragments to be sent, succeed and deliver all frames. -/
theorem run_delivers (storage : Bytes) (hstorage : 2 * Ring.align ≤ storage.length) (f : Filter)
    {rxSize txSize : Nat} (hrx : Filter.headerLen ≤ rxSize) (htx : 0 < txSize)
    (interface : Interface) (app : Udp.Application σ) (state : σ) (actions : List Action)
    (ho : ∀ action ∈ actions, action.Offers txSize) :
    ∃ ring receiver transmitter events d, Ring.new storage = .ok ring ∧
      Link.Receiver.new f rxSize = .ok receiver ∧ Link.Transmitter.new txSize = .ok transmitter ∧
      (runAll app actions).on ⟨ring, interface, receiver, transmitter, state⟩ = (.ok events, d) ∧
      Delivers f txSize events := by
  obtain ⟨ring, hring, hsound, hrecs⟩ := Ring.exists_new storage hstorage
  have hreceiver : Link.Receiver.new f rxSize = .ok ⟨f, rxSize, .waiting⟩ :=
    if_neg (Nat.not_lt.2 hrx)
  have htransmitter : Link.Transmitter.new txSize = .ok ⟨txSize, none⟩ :=
    if_neg (Nat.ne_of_gt htx)
  have hslots : Link.slots ring = [] := by rw [Link.slots, hrecs]; rfl
  have hclosed : ∀ e ∈ ring.records, e.stage ≠ .unfinished := by simp [hrecs]
  have h : Tracks f txSize [] (⟨ring, interface, ⟨f, rxSize, .waiting⟩, ⟨txSize, none⟩, state⟩ :
      Device σ) :=
    { sound := hsound
      ordered := Ordered.of_closed hclosed
      filter := rfl
      fragmentSize := rfl
      holds := ⟨rfl, hclosed⟩
      sends := rfl
      line := by rw [hslots]; rfl
      received := by rw [hslots]; rfl
      rests := by
        intro event he
        cases he }
  obtain ⟨events, d, hrun, hd⟩ := runAll_spec app h ho
  exact ⟨ring, _, _, events, d, hring, hreceiver, htransmitter, hrun, hd.delivers⟩

def exchange : List Action := [
  .broadcastUdp 7 [1],
  .receive [0xff, 0xff, 0xff, 0xff, 0xff, 0xff, 2, 0, 0, 0, 0, 9, 8, 6, 0, 1, 8, 0, 6, 4, 0, 1, 2, 0,
    0, 0, 0, 9, 192, 168, 200, 9, 0, 0, 0, 0, 0, 0, 192, 168, 200, 40],
  .send 64, .poll, .send 64, .send 64]

theorem run_delivers_exchange :
    2 * Ring.align ≤ (List.replicate 100 (0 : UInt8)).length ∧ Filter.headerLen ≤ 64 ∧ 0 < 64 ∧
    (∀ action ∈ exchange, action.Offers 64) ∧
    ∃ ring receiver transmitter events d, Ring.new (List.replicate 100 0) = .ok ring ∧
      (runAll .none exchange).on
        (⟨ring, .new .standard [], receiver, transmitter, ()⟩ : Device Unit) = (.ok events, d) ∧
      Delivers (.new Config.standard.hardware) 64 events ∧
      (emitted 64 events).map List.length = [43, 42] := by
  have ho : ∀ action ∈ exchange, action.Offers 64 := by simp [exchange, Action.Offers]
  refine ⟨by decide, by decide, by decide, ho, ?_⟩
  obtain ⟨ring, receiver, transmitter, events, d, hring, hreceiver, htransmitter, hrun, hd⟩ :=
    run_delivers (List.replicate 100 0) (by decide) (.new Config.standard.hardware)
      (by decide : Filter.headerLen ≤ 64) (by decide : 0 < 64) (.new .standard []) .none () exchange
      ho
  refine ⟨ring, receiver, transmitter, events, d, hring, hrun, hd, ?_⟩
  obtain rfl : ring = ⟨List.replicate 100 0, 96, 0, 0, 0⟩ :=
    Except.ok.inj (hring.symm.trans rfl)
  cases hreceiver
  cases htransmitter
  have hevents := congrArg (fun p => p.1.toOption.map fun events =>
    (emitted 64 events).map List.length) hrun
  exact Option.some.inj (hevents.symm.trans (by decide +kernel))

end Reflector.Device
