import Reflector.Proofs.Interface.Queueing
import Reflector.Proofs.Link.Storing
/-!
Backpressure. What is refused for want of room is to be tried again once the ring has drained. That
helps with a record that fits into the ring. One that is too long for it is refused in the same way,
and again however often it is tried.
-/
namespace Reflector

variable {α : Type} {r : Ring} {len : Nat}

namespace Link.Receiver

/-- Offered to a full ring, a fragment changes nothing. Offered again to an idle one, it is stalled
just if the frame does not fit at all. -/
def Retries (rx : Receiver) (fragment : Bytes) (r : Ring) : Prop :=
  ∀ s, (receive fragment).on (rx, r) = (.ok .stalled, s) →
    s = (rx, r) ∧ ∃ len, rx.filter.frameLen fragment = .ok (some len) ∧
      ∀ r', r.Leads r' → r'.isIdle = true → ∃ reply s',
        (receive fragment).on (rx, r') = (.ok reply, s') ∧
          (reply = .stalled ↔ r.lenFits len = false)

theorem retries (rx : Receiver) (fragment : Bytes) (hr : r.Sound) : rx.Retries fragment r := by
  intro s hon
  obtain ⟨rfl, hp, len, hlen, hlong, -⟩ := receive_stalled hr hon
  refine ⟨rfl, len, hlen, fun r' hleads hidle => ?_⟩
  have hroom : r'.Allocates len ↔ r.lenFits len = true := hleads.allocates_of_isIdle hr hidle
  obtain ⟨hrefused, hstalled⟩ | ⟨hallocates, h, reply, p, own, r'', hopens, -, -, hstored⟩ :=
    receive_opens (hleads.sound hr) hp hlen hlong
  · refine ⟨_, _, hstalled, iff_of_true rfl ?_⟩
    exact Bool.eq_false_iff.2 fun hfit => hrefused (hroom.2 hfit)
  · refine ⟨_, _, hopens, iff_of_false hstored.ne_stalled ?_⟩
    rw [hroom.1 hallocates]
    exact Bool.noConfusion

end Link.Receiver

namespace Interface

/-- Made with a full ring, a call that queues a frame changes nothing. Made again with an idle one,
by the interface in whatever state, it is refused just if the frame does not fit at all. -/
def Retries (len : Nat) (q : Interface → Queue α) (r : Ring) : Prop :=
  ∀ i s, (q i).run.on r = (.ok (.error .exhausted), s) →
    s = r ∧ ∀ i' r', r.Leads r' → r'.isIdle = true → ∃ result s',
      (q i').run.on r' = (.ok result, s') ∧
        (result = .error .exhausted ↔ r.lenFits len = false)

theorem retries {q : Interface → Queue α} (hr : r.Sound)
    (hq : ∀ i {r : Ring}, r.Sound → ∃ result r', (q i).run.on r = (.ok result, r') ∧
      Frames r len result r') :
    Retries len q r := by
  intro i s hon
  obtain ⟨result, r₁, hon', hframes⟩ := hq i hr
  cases hon.symm.trans hon'
  refine ⟨hframes.kept rfl, fun i' r' hleads hidle => ?_⟩
  obtain ⟨result, r'', hagain, hframes⟩ := hq i' (hleads.sound hr)
  refine ⟨result, r'', hagain, hframes.exhausted.trans ?_⟩
  rw [hleads.allocates_of_isIdle hr hidle, Bool.not_eq_true]

end Interface

open Interface Link.Receiver

theorem refused_again (r : Ring) (h : r.Reachable) :
    (∀ (rx : Link.Receiver) (fragment : Bytes), rx.Retries fragment r) ∧
    (∀ (destination : Ipv4.Address) (port : Udp.Port) (payload : Bytes),
      Retries (udpHeadersLen + payload.length) (·.sendUdp destination port payload) r) ∧
    (∀ (sourcePort : Udp.Port) (payload : Bytes),
      Retries (udpHeadersLen + payload.length) (·.broadcastUdp sourcePort payload) r) ∧
    ∀ server : Ipv4.Address,
      Retries (udpHeadersLen + Sntp.Packet.len) (·.sendSntpRequest server) r := by
  have hr := h.sound
  refine ⟨fun rx fragment => rx.retries fragment hr, fun destination port payload => ?_,
    fun sourcePort payload => ?_, fun server => ?_⟩
  · exact retries hr fun i _ hr => i.sendUdp_spec destination port payload hr
  · exact retries hr fun i _ hr => i.broadcastUdp_spec sourcePort payload hr
  · exact retries hr fun i _ hr => i.sendSntpRequest_spec server hr

set_option maxRecDepth 2000 in
/-- A record in the ring is in the way of a frame, which finds room once that is discarded. -/
theorem refused_again_full :
    ∃ (r : Ring) (rx : Link.Receiver) (fragment : Bytes), r.Reachable ∧
      (receive fragment).on (rx, r) = (.ok .stalled, (rx, r)) ∧ rx.Retries fragment r ∧
      r.lenFits fragment.length = true := by
  have hnew : Ring.new (List.replicate 64 0) = .ok ⟨List.replicate 64 0, 60, 0, 0, 0⟩ := rfl
  have hreached := Ring.Reached.call (c := .allocate 40)
    (.start : Ring.Reached ⟨List.replicate 64 0, 60, 0, 0, 0⟩ _ _ _) trivial rfl
  have hreachable : Ring.Reachable _ := ⟨_, _, _, _, hnew, hreached⟩
  refine ⟨_, ⟨.new ⟨2, 0, 0, 0, 0, 64⟩, 64, .waiting⟩,
    [2, 0, 0, 0, 0, 64, 2, 0, 0, 0, 0, 1, 8, 0, 69, 0, 0, 28, 0, 0, 0, 0, 64, 17] ++
      List.replicate 18 0, hreachable, rfl, ?_, rfl⟩
  exact (refused_again _ hreachable).1 _ _

set_option maxRecDepth 2000 in
/-- A stalled fragment may be stalled again although the ring is idle: a frame of 60 bytes does not
fit into 64 bytes of storage. -/
theorem stalled_idle :
    ¬∀ (r r' : Ring) (rx : Link.Receiver) (fragment : Bytes) (s s' : Link.Receiver × Ring),
      r.Reachable → (receive fragment).on (rx, r) = (.ok .stalled, s) → r.Leads r' →
      r'.isIdle = true → (receive fragment).on (rx, r') ≠ (.ok .stalled, s') := by
  intro hall
  have hnew : Ring.new (List.replicate 64 0) = .ok ⟨List.replicate 64 0, 60, 0, 0, 0⟩ := rfl
  have hreachable : Ring.Reachable ⟨List.replicate 64 0, 60, 0, 0, 0⟩ :=
    ⟨_, _, _, _, hnew, .start⟩
  exact hall _ _ ⟨.new ⟨2, 0, 0, 0, 0, 64⟩, 64, .waiting⟩
    ([2, 0, 0, 0, 0, 64, 2, 0, 0, 0, 0, 1, 8, 0, 69, 0, 0, 46, 0, 0, 0, 0, 64, 17] ++
      List.replicate 36 0) _ _ hreachable rfl .refl rfl rfl

end Reflector
