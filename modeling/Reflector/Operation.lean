import Reflector.Fault
/-!
Operations on a state that may fault. A fault keeps the state reached so far: what was written
before it stays written.
-/
namespace Reflector

abbrev Op (σ : Type) := ExceptT Fault (StateM σ)

namespace Op

variable {σ τ α β : Type}

def on (m : Op σ α) (s : σ) : Except Fault α × σ := (m.run).run s

def view (f : σ → Except Fault α) : Op σ α := ExceptT.mk fun s => pure (f s, s)

def focus (get : τ → σ) (put : σ → τ → τ) (m : Op σ α) : Op τ α :=
  ExceptT.mk fun t => let (r, s) := m.on (get t); pure (r, put s t)

instance : MonadLift (Except Fault) (Op σ) where
  monadLift r := view fun _ => r

@[simp] theorem on_pure (a : α) (s : σ) : (pure a : Op σ α).on s = (.ok a, s) := rfl

@[simp] theorem on_throw (e : Fault) (s : σ) : (throw e : Op σ α).on s = (.error e, s) := rfl

@[simp] theorem on_view (f : σ → Except Fault α) (s : σ) : (view f).on s = (f s, s) := rfl

@[simp] theorem on_get (s : σ) : (get : Op σ σ).on s = (.ok s, s) := rfl

@[simp] theorem on_set (s t : σ) : (set t : Op σ PUnit).on s = (.ok ⟨⟩, t) := rfl

@[simp] theorem on_modify (f : σ → σ) (s : σ) : (modify f : Op σ PUnit).on s = (.ok ⟨⟩, f s) := rfl

@[simp] theorem on_lift (x : Except Fault α) (s : σ) : (liftM x : Op σ α).on s = (x, s) := rfl

@[simp] theorem on_focus (get : τ → σ) (put : σ → τ → τ) (m : Op σ α) (t : τ) :
    (focus get put m).on t = ((m.on (get t)).1, put (m.on (get t)).2 t) := rfl

theorem on_bind (m : Op σ α) (f : α → Op σ β) (s : σ) :
    (m >>= f).on s = match m.on s with
      | (.ok a, t) => (f a).on t
      | (.error e, t) => (.error e, t) := by
  unfold on ExceptT.run StateT.run
  simp only [bind, ExceptT.bind, ExceptT.mk, StateT.bind, ExceptT.bindCont]
  cases m s with
  | mk r t => cases r <;> rfl

theorem on_bind_ok {m : Op σ α} {f : α → Op σ β} {s t : σ} {a : α} (h : m.on s = (.ok a, t)) :
    (m >>= f).on s = (f a).on t := by
  rw [on_bind, h]

theorem on_view_bind {f : σ → Except Fault α} {g : α → Op σ β} {s : σ} {a : α} (h : f s = .ok a) :
    (view f >>= g).on s = (g a).on s :=
  on_bind_ok (congrArg (·, s) h)

theorem on_lift_bind {x : Except Fault α} {g : α → Op σ β} {s : σ} {a : α} (h : x = .ok a) :
    ((liftM x : Op σ α) >>= g).on s = (g a).on s :=
  on_bind_ok (congrArg (·, s) h)

theorem on_discard {m : Op σ α} {s t : σ} {a : α} (h : m.on s = (.ok a, t)) :
    (discard m).on s = (.ok ⟨⟩, t) := by
  unfold on ExceptT.run StateT.run at *
  simp only [discard, Functor.discard, Functor.mapConst, ExceptT.map, ExceptT.mk, bind,
    StateT.bind, Function.comp, Function.const, h]
  rfl

theorem of_on_bind {m : Op σ α} {f : α → Op σ β} {s u : σ} {b : β}
    (h : (m >>= f).on s = (.ok b, u)) : ∃ a t, m.on s = (.ok a, t) ∧ (f a).on t = (.ok b, u) := by
  rw [on_bind] at h
  cases hm : m.on s with
  | mk x t =>
    rw [hm] at h
    cases x with
    | error e => cases h
    | ok a => exact ⟨a, t, rfl, h⟩

end Op

end Reflector
