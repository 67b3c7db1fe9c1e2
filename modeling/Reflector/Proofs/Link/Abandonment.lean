import Reflector.Proofs.Link.Storing
import Reflector.Proofs.Ring.Abandonment
/-!
Frames that are given up halfway, because they are truncated or because of a reset. As long as
nobody else uses the ring meanwhile, it is as if the frame had never begun.
-/
namespace Reflector.Link

variable {fragment payload : Bytes} {h : Handle} {r r₁ r₂ : Ring} {rx rx' : Receiver} {p : Progress}
  {reply : Received} {last : Bool} {written : Nat}

/-- A receiver that has begun no frame since the first of the rings, or that stores one in a record
opened there. -/
inductive Begun (r : Ring) : Progress → Ring → Prop
  | fresh : Begun r .waiting r
  | opened {h : Handle} {payload : Bytes} {written : Nat} {r₁ : Ring} : r.Opens h payload r₁ →
      written ≤ payload.length → Begun r (.reading h payload.length written) r₁

structure Goes (r : Ring) (reply : Received) (p : Progress) (r₂ : Ring) : Prop where
  stored : reply = .stored → Begun r p r₂
  dropped : reply = .dropped → r.Unspent r₂

namespace Goes

theorem of_dropped (h : r.Unspent r₂) : Goes r .dropped p r₂ :=
  ⟨by simp, fun _ => h⟩

theorem of_settled (hstored : reply ≠ .stored) (hdropped : reply ≠ .dropped) : Goes r reply p r₂ :=
  ⟨fun h => absurd h hstored, fun h => absurd h hdropped⟩

end Goes

namespace Receiver

theorem store_goes (hr : r.Sound) (ho : r.Opens h payload r₁) (hw : written ≤ payload.length)
    (hon : (store h payload.length written fragment last).on (rx, r₁) = (.ok reply, (rx', r₂))) :
    Goes r reply rx'.progress r₂ := by
  have hroom : written + (fragment.take (payload.length - written)).length ≤ payload.length := by
    rw [List.length_take]
    omega
  have hwrite := Edit.on_write hroom
  have hput := Bytes.length_put hroom
  obtain ⟨r', hedit, ho'⟩ := ho.edit (e := Edit.write written _) hr (by rw [hwrite]; exact hput)
  rw [hwrite] at hedit ho'
  unfold store at hon
  dsimp only at hon
  rw [Op.on_bind_ok (on_onRing hedit)] at hon
  split at hon
  · cases hon
    refine ⟨fun _ => ?_, by simp⟩
    rw [← hput] at hroom ⊢
    exact .opened ho' hroom
  · split at hon
    · obtain ⟨r'', hdiscard, -, hunspent⟩ := ho'.discard hr
      rw [Op.on_bind_ok (on_onRing hdiscard)] at hon
      cases hon
      exact .of_dropped hunspent
    · obtain ⟨-, t, -, hon⟩ := Op.of_on_bind hon
      cases hon
      exact .of_settled (by simp) (by simp)

theorem receive_goes (hr : r.Sound) (hb : Begun r rx.progress r₁)
    (hon : (receive fragment).on (rx, r₁) = (.ok reply, (rx', r₂))) :
    Goes r reply rx'.progress r₂ := by
  generalize hp : rx.progress = p at hb
  cases hb with
  | opened ho hw =>
    rw [receive_reading hp] at hon
    exact store_goes hr ho hw hon
  | fresh =>
    obtain ⟨found, hfound, -⟩ := rx.filter.frameLen_succeeds fragment
    cases found with
    | none =>
      cases hon.symm.trans (receive_refused hp hfound)
      exact .of_dropped (.refl r)
    | some len =>
      by_cases hshort : fragment.length < rx.fragmentSize ∧ fragment.length < len
      · cases hon.symm.trans (receive_short hp hfound hshort)
        exact .of_dropped (.refl r)
      rw [receive_first hp hfound] at hon
      simp only [judged, if_neg hshort] at hon
      obtain ⟨found, r', hallocate, -, -, -⟩ := Ring.allocate_spec len hr
      rw [Op.on_bind_ok (on_onRing hallocate)] at hon
      cases found with
      | none =>
        cases hon
        exact .of_settled (by simp) (by simp)
      | some h =>
        obtain ⟨payload, rfl, ho⟩ := Ring.allocate_opens hr hallocate
        exact store_goes hr ho (Nat.zero_le _) hon

theorem receiveAll_begun (hr : r.Sound) {fragments : List Bytes} {replies : List Received}
    (hb : Begun r rx.progress r₁)
    (hon : (receiveAll fragments).on (rx, r₁) = (.ok replies, (rx', r₂)))
    (hstored : ∀ reply ∈ replies, reply = .stored) : Begun r rx'.progress r₂ := by
  induction fragments generalizing rx r₁ replies with
  | nil =>
    cases hon
    exact hb
  | cons fragment rest ih =>
    obtain ⟨reply, ⟨rx₁, r'⟩, hfirst, hon⟩ := Op.of_on_bind hon
    split at hon
    · next hstalled =>
      cases hon
      exact absurd (hstalled.symm.trans (hstored _ (.head _))) (by simp)
    · obtain ⟨replies, ⟨rx₂, r''⟩, hrest, hon⟩ := Op.of_on_bind hon
      cases hon
      have hb' := (receive_goes hr hb hfirst).stored (hstored _ (.head _))
      exact ih hb' hrest fun reply hreply => hstored reply (.tail _ hreply)

theorem reset_unspent (hr : r.Sound) (hb : Begun r rx.progress r₁)
    (hon : reset.on (rx, r₁) = (.ok (), (rx', r₂))) : r.Unspent r₂ := by
  generalize hp : rx.progress = p at hb
  cases hb with
  | fresh =>
    cases hon.symm.trans (reset_idle (by rw [hp]; rfl))
    exact .refl r
  | opened ho hw =>
    obtain ⟨r', hdiscard, -, hunspent⟩ := ho.discard hr
    rw [reset, Op.on_bind_ok (Op.on_get _)] at hon
    dsimp only at hon
    rw [Op.on_bind_ok (on_setProgress .waiting), hp] at hon
    cases hon.symm.trans (on_onRing hdiscard)
    exact hunspent

end Receiver

end Reflector.Link
