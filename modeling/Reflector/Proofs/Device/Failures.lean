import Reflector.Proofs.Interface.Queueing
import Reflector.Proofs.Link.Abandonment
/-!
What failures leave behind. A refusal leaves everything as it was. What fails later on gives its
record back, and the ring keeps its records and the room for others.
-/
namespace Reflector

variable {α : Type} {r r' : Ring}

namespace Ring

variable {h h' : Handle} {len : Nat}

/-- Nothing is written before there is a place, for a new record and for one that moves. -/
theorem append_refused {moved : Option (Nat × Nat)}
    (hon : (append len moved).on r = (.ok none, r')) : r' = r := by
  rw [append, Op.on_bind_ok (Op.on_get r)] at hon
  split at hon
  · cases hon
    rfl
  · obtain ⟨_, _, _, hon⟩ := Op.of_on_bind hon
    cases hon

theorem allocate_kept (hon : (allocate len).on r = (.ok none, r')) : r' = r := by
  rw [allocate, Op.on_bind_ok (Op.on_get r)] at hon
  split at hon
  · exact append_refused hon
  · cases hon
    rfl

theorem unfinishedLen_kept {otherwise : Tag → Fault} {oldLen : Nat}
    (hon : (unfinishedLen h otherwise).on r = (.ok oldLen, r')) : r' = r := by
  rw [unfinishedLen, Op.on_bind_ok (Op.on_get r)] at hon
  obtain ⟨tag, r₁, htag, hfound⟩ := Op.of_on_bind hon
  obtain ⟨-, rfl⟩ := Prod.mk.inj htag
  split at hfound
  · cases hfound
    rfl
  · cases hfound
    rfl
  · cases hfound

/-- The handle comes back where there is no place for the record, and for a length that never fits.
In neither case was anything written. -/
theorem resize_refused (hon : (resize h len).on r = (.ok (.error h'), r')) : h' = h ∧ r' = r := by
  rw [resize] at hon
  obtain ⟨oldLen, r₁, hold, hrest⟩ := Op.of_on_bind hon
  obtain rfl := unfinishedLen_kept hold
  rw [Op.on_bind_ok (Op.on_get r₁)] at hrest
  dsimp only at hrest
  split at hrest
  · cases hrest
    exact ⟨rfl, rfl⟩
  split at hrest
  · obtain ⟨_, _, _, hrest⟩ := Op.of_on_bind hrest
    obtain ⟨_, _, _, hrest⟩ := Op.of_on_bind hrest
    cases hrest
  by_cases hgrow : nextRecord h.offset oldLen = r₁.writer ∧
      if h.offset < r₁.outputReader then nextRecord h.offset len < r₁.outputReader
      else nextRecord h.offset len ≤ r₁.limit
  · rw [if_pos hgrow] at hrest
    obtain ⟨_, _, _, hrest⟩ := Op.of_on_bind hrest
    obtain ⟨_, _, _, hrest⟩ := Op.of_on_bind hrest
    obtain ⟨_, _, _, hrest⟩ := Op.of_on_bind hrest
    cases hrest
  · rw [if_neg hgrow] at hrest
    obtain ⟨found, r₂, happend, hrest⟩ := Op.of_on_bind hrest
    split at hrest
    · cases hrest
    · cases hrest
      exact ⟨rfl, append_refused happend⟩

end Ring

namespace Interface

variable {q : Queue α} {len : Nat} {refuses : SendError → Prop} {kind : α → Bytes → Prop}
  {e : SendError}

theorem exhausted_kept
    (hq : ∃ result r', q.run.on r = (.ok result, r') ∧ Frames r len result r')
    (hon : q.run.on r = (.ok (.error .exhausted), r')) : r' = r := by
  obtain ⟨result, r₁, hon', hframes⟩ := hq
  cases hon.symm.trans hon'
  exact hframes.kept rfl

theorem error_unspent
    (hq : ∃ result r', q.run.on r = (.ok result, r') ∧ r.Leads r' ∧
      Settles r len refuses kind result r')
    (hon : q.run.on r = (.ok (.error e), r')) : r.Unspent r' := by
  obtain ⟨result, r₁, hon', -, hsettles⟩ := hq
  cases hon.symm.trans hon'
  cases hsettles with
  | exhausted => exact .refl r
  | refused _ _ _ hunspent => exact hunspent

end Interface

open Link (Receiver)

/-- Nothing that is given up costs room: neither an allocation that is discarded at once, also if it
wrapped or moved the readers of an empty ring, nor a send that fails, nor a frame that ends too
early or is reset. Discarded later, a record still leaves no less room than there was with it. -/
theorem abandoned_unspent (r : Ring) (h : r.Reachable) :
    (∀ len handle r₁, (Ring.allocate len).on r = (.ok (some handle), r₁) →
      ∃ r₂, (Ring.discard handle).on r₁ = (.ok (), r₂) ∧ r.Unspent r₂) ∧
    (∀ handle, (Ring.Call.discard handle).Permits r.entries →
      ∃ r', (Ring.discard handle).on r = (.ok (), r') ∧ ∀ n, r.Allocates n → r'.Allocates n) ∧
    (∀ (i : Interface) destination port data e r',
      (i.sendUdp destination port data).run.on r = (.ok (.error e), r') → r.Unspent r') ∧
    (∀ (i : Interface) sourcePort data e r',
      (i.broadcastUdp sourcePort data).run.on r = (.ok (.error e), r') → r.Unspent r') ∧
    (∀ (i : Interface) server e r',
      (i.sendSntpRequest server).run.on r = (.ok (.error e), r') → r.Unspent r') ∧
    ∀ (rx : Receiver) taken replies rx₁ r₁, rx.progress = .waiting →
      (Receiver.receiveAll taken).on (rx, r) = (.ok replies, (rx₁, r₁)) →
      (∀ reply ∈ replies, reply = .stored) →
        (∀ fragment rx₂ r₂, (Receiver.receive fragment).on (rx₁, r₁) = (.ok .dropped, (rx₂, r₂)) →
          r.Unspent r₂) ∧
        ∀ rx₂ r₂, Receiver.reset.on (rx₁, r₁) = (.ok (), (rx₂, r₂)) → r.Unspent r₂ := by
  have hr := h.sound
  refine ⟨fun len handle r₁ hon => ?_, fun handle hpermits => ?_,
    fun i destination port data e r' => ?_, fun i sourcePort data e r' => ?_,
    fun i server e r' => ?_, fun rx taken replies rx₁ r₁ hp hon hstored => ?_⟩
  · obtain ⟨payload, -, hopens⟩ := Ring.allocate_opens hr hon
    obtain ⟨r₂, hdiscard, -, hunspent⟩ := hopens.discard hr
    exact ⟨r₂, hdiscard, hunspent⟩
  · obtain ⟨rec, hrec, rfl, hs⟩ := Ring.exists_record hpermits
    obtain ⟨r', hdiscard, -⟩ := Ring.discard_spec hr hrec hs
    exact ⟨r', hdiscard, fun n => Ring.discard_allocates hr hrec hs hdiscard⟩
  · exact Interface.error_unspent (i.sendUdp_settles destination port data hr)
  · exact Interface.error_unspent (i.broadcastUdp_settles sourcePort data hr)
  · exact Interface.error_unspent (i.sendSntpRequest_settles server hr)
  · have hbegun : Link.Begun r rx₁.progress r₁ :=
      Receiver.receiveAll_begun hr (hp ▸ .fresh) hon hstored
    exact ⟨fun fragment rx₂ r₂ hon => (Receiver.receive_goes hr hbegun hon).dropped rfl,
      fun rx₂ r₂ => Receiver.reset_unspent hr hbegun⟩

set_option maxRecDepth 1000 in
/-- The record wrapped, and once it is discarded the writer is not where it was before. -/
theorem abandoned_unspent_wrapped : ∃ (r r₁ r₂ : Ring) (handle : Handle), r.Reachable ∧
    (Ring.allocate 2).on r = (.ok (some handle), r₁) ∧ r₁.tagAt r.writer = .ok .startOver ∧
    (Ring.discard handle).on r₁ = (.ok (), r₂) ∧ r₂.writer ≠ r.writer ∧ r.Unspent r₂ := by
  have hnew : Ring.new (List.replicate 20 0) = .ok ⟨List.replicate 20 0, 16, 0, 0, 0⟩ := rfl
  have hstart : Ring.Reachable ⟨List.replicate 20 0, 16, 0, 0, 0⟩ := ⟨_, _, _, _, hnew, .start⟩
  have hone := Ring.Leads.refl.call (r := ⟨List.replicate 20 0, 16, 0, 0, 0⟩) (c := .allocate 2)
    trivial rfl
  have htwo := hone.call (c := .allocate 2) trivial rfl
  have hthree := htwo.call (c := .allocate 2) trivial rfl
  have hfour := hthree.call (c := .allocate 2) trivial rfl
  have hfirst := hfour.call (c := .discard ⟨0⟩) ⟨_, .head _, rfl, rfl⟩ rfl
  have hsecond := hfirst.call (c := .discard ⟨4⟩) ⟨_, .head _, rfl, rfl⟩ rfl
  have hreclaimed := (hsecond.call (c := .getOutput) trivial rfl).reachable hstart
  obtain ⟨r₂, hdiscard, hunspent⟩ := (abandoned_unspent _ hreclaimed).1 2 _ _ rfl
  cases hdiscard.symm.trans rfl
  exact ⟨_, _, _, _, hreclaimed, rfl, rfl, hdiscard, by decide, hunspent⟩

/-- Refusals leave everything as it was: what is refused before anything is written was never asked
for, as far as the ring and the receiver can tell. -/
theorem refused_unchanged (r : Ring) (h : r.Reachable) :
    (∀ len r', (Ring.allocate len).on r = (.ok none, r') → r' = r) ∧
    (∀ handle len handle' r', (Ring.resize handle len).on r = (.ok (.error handle'), r') →
      handle' = handle ∧ r' = r) ∧
    (∀ (rx : Receiver) fragment s, (Receiver.receive fragment).on (rx, r) = (.ok .stalled, s) →
      s = (rx, r) ∧ ∀ {β : Type} (next : Receiver.Step β),
        (do let _ ← Receiver.receive fragment; next : Receiver.Step β).on (rx, r) =
          next.on (rx, r)) ∧
    (∀ (i : Interface) destination port data r',
      (i.sendUdp destination port data).run.on r = (.ok (.error .exhausted), r') → r' = r) ∧
    (∀ (i : Interface) sourcePort data r',
      (i.broadcastUdp sourcePort data).run.on r = (.ok (.error .exhausted), r') → r' = r) ∧
    ∀ (i : Interface) server r',
      (i.sendSntpRequest server).run.on r = (.ok (.error .exhausted), r') → r' = r := by
  have hr := h.sound
  refine ⟨fun len r' => Ring.allocate_kept, fun handle len handle' r' => Ring.resize_refused,
    fun rx fragment s hon => ?_, fun i destination port data r' => ?_,
    fun i sourcePort data r' => ?_, fun i server r' => ?_⟩
  · obtain ⟨rfl, -⟩ := Receiver.receive_stalled hr hon
    exact ⟨rfl, fun next => Op.on_bind_ok hon⟩
  · exact Interface.exhausted_kept (i.sendUdp_spec destination port data hr)
  · exact Interface.exhausted_kept (i.broadcastUdp_spec sourcePort data hr)
  · exact Interface.exhausted_kept (i.sendSntpRequest_spec server hr)

def Ring.crowded : Ring :=
  ⟨[20, 0] ++ List.replicate 22 0 ++ [20, 0] ++ List.replicate 38 0, 60, 48, 0, 0⟩

theorem Ring.crowded_reachable : crowded.Reachable := by
  have hnew : new (List.replicate 64 0) = .ok ⟨List.replicate 64 0, 60, 0, 0, 0⟩ := rfl
  have hone := Leads.refl.call (r := ⟨List.replicate 64 0, 60, 0, 0, 0⟩) (c := .allocate 20)
    trivial rfl
  have hboth : Leads ⟨List.replicate 64 0, 60, 0, 0, 0⟩ crowded :=
    hone.call (c := .allocate 20) trivial rfl
  exact hboth.reachable ⟨_, _, _, _, hnew, .start⟩

set_option maxRecDepth 2000 in
/-- One more record, a longer one, a frame and a datagram are all refused. -/
theorem refused_unchanged_crowded : Ring.crowded.Reachable ∧
    (∃ r', (Ring.allocate 20).on .crowded = (.ok none, r') ∧ r' = .crowded) ∧
    (∃ r', (Ring.resize ⟨0⟩ 30).on .crowded = (.ok (.error ⟨0⟩), r') ∧ r' = .crowded) ∧
    (∃ rx fragment s, (Receiver.receive fragment).on (rx, .crowded) = (.ok .stalled, s) ∧
      s = (rx, .crowded)) ∧
    ∃ r', (Interface.gateway.sendUdp (.ofOctets 192 168 200 40) 69 [1]).run.on .crowded =
      (.ok (.error .exhausted), r') ∧ r' = .crowded := by
  have hallocated : (Ring.allocate 20).on .crowded = (.ok none, _) := rfl
  have hresized : (Ring.resize ⟨0⟩ 30).on .crowded = (.ok (.error ⟨0⟩), _) := rfl
  have hstalled : (Receiver.receive ([2, 0, 0, 0, 0, 64, 2, 0, 0, 0, 0, 1, 8, 0] ++
      [69, 0, 0, 28, 0, 0, 0, 0, 64, 17] ++ List.replicate 18 0)).on
      (⟨.new ⟨2, 0, 0, 0, 0, 64⟩, 64, .waiting⟩, .crowded) = (.ok .stalled, _) := rfl
  have hexhausted : (Interface.gateway.sendUdp (.ofOctets 192 168 200 40) 69 [1]).run.on .crowded =
      (.ok (.error .exhausted), _) := rfl
  obtain ⟨hallocate, hresize, hreceive, hsend, -⟩ := refused_unchanged _ Ring.crowded_reachable
  exact ⟨Ring.crowded_reachable, ⟨_, hallocated, hallocate _ _ hallocated⟩,
    ⟨_, hresized, (hresize _ _ _ _ hresized).2⟩,
    ⟨_, _, _, hstalled, (hreceive _ _ _ hstalled).1⟩,
    ⟨_, hexhausted, hsend _ _ _ _ _ hexhausted⟩⟩

end Reflector
