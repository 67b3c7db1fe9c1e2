import Reflector.Proofs.Interface.Layers
/-!
Whatever arrives, processing it never faults. The buffer keeps its length, and what it is reflected
with is the answer of the layers, all of which is within the buffer.
-/
namespace Reflector

variable {σ : Type} {s : σ}

theorem Arp.Resolver.receive_total (r : Resolver) (packet : Bytes) :
    Succeeds (r.receive packet) fun h => h.Fits packet.length (r.Answers packet) := by
  by_cases hnone : ∀ m : Message, ¬m.Heads packet
  · exact ⟨_, receive_untaken hnone, .dropped rfl⟩
  · obtain ⟨m, hm⟩ := Classical.not_forall_not.1 hnone
    exact ⟨_, receive_taken hm, handle_fits hm⟩

theorem Icmp.Responder.receive_total (r : Responder) {message : Bytes}
    (h : message.length ≤ 131074) : Succeeds (r.receive message) fun p =>
      (⟨p.1, p.2, ()⟩ : Handled Unit).Fits message.length (r.Answers message) := by
  by_cases hnone : ∀ e, ¬r.Takes e message
  · exact ⟨_, receive_untaken h hnone, .dropped rfl⟩
  · obtain ⟨e, he⟩ := Classical.not_forall_not.1 hnone
    exact (receive_taken he).weaken fun _ hp => hp.1

theorem Udp.Service.receive_total (svc : Service) (app : Application σ) (ip : Ipv4.Header)
    {packet : Bytes} (h : packet.length < Length.limit) (s : σ) :
    Succeeds (svc.receive app ip packet s)
      fun h => h.Fits packet.length (svc.Answers app ip packet s) := by
  by_cases hnone : ∀ header, ¬svc.Takes ip header packet
  · exact ⟨_, receive_untaken hnone, .dropped rfl⟩
  · obtain ⟨header, ht⟩ := Classical.not_forall_not.1 hnone
    exact (receive_taken app s ht h).weaken fun _ hup => hup.1

theorem Ipv4.Host.receive_total (host : Host) {upper : Upper Header σ} {packet : Bytes}
    {above : Header → Bytes → Bytes → Prop} (h : packet.length < Length.limit)
    (hupper : ∀ header payload, header.payloadLen < 0x10000 → payload.length < Length.limit →
      Succeeds (upper header payload s) fun up => up.Fits payload.length (above header payload)) :
    Succeeds (host.receive upper packet s)
      fun h => h.Fits packet.length (host.Answers above packet) := by
  by_cases hnone : ∀ header, ¬host.Takes header packet
  · exact ⟨_, receive_untaken hnone, .dropped rfl⟩
  obtain ⟨header, ht⟩ := Classical.not_forall_not.1 hnone
  obtain ⟨up, hup, hfits⟩ := hupper header (packet.drop Packet.plainHeaderLen)
    (Nat.lt_of_le_of_lt (Nat.le_add_left _ _) ht.heads.short)
    (Nat.lt_of_le_of_lt (List.drop_sublist _ _).length_le h)
  refine ⟨_, receive_taken ht h hfits hup, hfits.headed ht.heads.plain.length ?_ ?_⟩
  · exact fun len => (host.back header len).length_bytes host.checksum
  · exact fun a ha => .under ht.heads ht.passes ht.accepted ht.unicast ha

theorem Ethernet.Station.receive_total (st : Station) {upper : Upper EtherType σ} {frame : Bytes}
    {above : EtherType → Bytes → Bytes → Prop} (h : frame.length < Length.limit)
    (hupper : ∀ etherType payload, payload.length < Length.limit →
      Succeeds (upper etherType payload s)
        fun up => up.Fits payload.length (above etherType payload)) :
    Succeeds (st.receive upper frame s)
      fun h => h.Fits frame.length (st.Answers above frame) := by
  by_cases hnone : ∀ header, ¬st.Takes header frame
  · exact ⟨_, receive_untaken hnone, .dropped rfl⟩
  obtain ⟨header, ht⟩ := Classical.not_forall_not.1 hnone
  obtain ⟨up, hup, hfits⟩ := hupper header.etherType (frame.drop Frame.headerLen)
    (Nat.lt_of_le_of_lt (List.drop_sublist _ _).length_le h)
  refine ⟨_, receive_taken ht h hfits hup, hfits.headed ht.heads.length ?_ ?_⟩
  · exact fun _ => (st.back header).length_bytes
  · exact fun a ha => .under ht.long ht.heads ht.accepted ha

namespace Interface

theorem receiveTransport_total (i : Interface) (app : Udp.Application σ) {header : Ipv4.Header}
    {payload : Bytes} (hshort : header.payloadLen < 0x10000) (h : payload.length < Length.limit) :
    Succeeds (i.receiveTransport app header payload s)
      fun up => up.Fits payload.length (i.AnswersTransport app s header payload) := by
  unfold receiveTransport
  split
  · next hprotocol =>
    have hmessage : (payload.take header.payloadLen).length ≤ 131074 := by
      rw [List.length_take]
      omega
    refine (i.responder.receive_total hmessage).bind fun p _ hp => ?_
    have hanswer := hp.mono (B := i.AnswersTransport app s header payload) fun _ => .icmp hprotocol
    have hfits := hanswer.extend (s := s) (payload.drop header.payloadLen)
    rw [← List.length_append, List.take_append_drop] at hfits
    exact Succeeds.pure hfits
  · next hprotocol =>
    exact (i.service.receive_total app header h s).weaken fun _ hup =>
      hup.mono fun _ ha => .udp hprotocol ha
  · exact Succeeds.pure (.dropped rfl)
  · exact Succeeds.pure (.dropped rfl)

theorem receiveNetwork_total (i : Interface) (app : Udp.Application σ)
    {etherType : Ethernet.EtherType} {payload : Bytes} (h : payload.length < Length.limit) :
    Succeeds (i.receiveNetwork app etherType payload (i.resolver, s))
      fun up => up.Fits payload.length (i.AnswersNetwork app s payload etherType) := by
  unfold receiveNetwork
  dsimp only
  split
  · refine (i.resolver.receive_total payload).bind fun up _ hup => ?_
    exact Succeeds.pure ⟨hup.length, (hup.mono fun _ ha => .arp ha).answer⟩
  · refine (i.host.receive_total h fun header part hshort hpart =>
      i.receiveTransport_total app hshort hpart).bind fun up _ hup => ?_
    exact Succeeds.pure ⟨hup.length, (hup.mono fun _ ha => .ipv4 ha).answer⟩
  · exact Succeeds.pure (.dropped rfl)

/-- No frame, of whatever bytes, makes the device fault. -/
theorem receive_total (i : Interface) (app : Udp.Application σ) {frame : Bytes} (s : σ)
    (h : frame.length < Length.limit) :
    Succeeds (i.receive app frame s)
      fun handled => handled.Fits frame.length (i.Answers app s frame) := by
  refine (i.station.receive_total h fun _ _ hpart => i.receiveNetwork_total app hpart).bind
    fun up _ hup => ?_
  exact Succeeds.pure ⟨hup.length, hup.answer⟩

/-- A frame is dropped, or it was overwritten with an answer of at least the shortest length. -/
theorem Answers.bounds {i : Interface} {app : Udp.Application σ} {frame : Bytes}
    {handled : Handled (Interface × σ)} (hf : handled.Fits frame.length (i.Answers app s frame)) :
    handled.outcome = .drop ∨ ∃ n, handled.outcome = .reflect n ∧
      Ethernet.Station.minFrameLen ≤ n ∧ n ≤ frame.length := by
  cases he : handled.outcome with
  | drop => exact .inl rfl
  | reflect n =>
    obtain ⟨hin, hanswer⟩ := hf.answer n he
    have hlen := hanswer.length_le
    rw [List.length_take_of_le (hf.length ▸ hin)] at hlen
    exact .inr ⟨n, rfl, hlen, hin⟩

end Interface

end Reflector
