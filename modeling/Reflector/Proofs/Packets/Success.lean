import Reflector.Outcome
/-!
Success of reading packets, in triples. Reading never faults, though a packet may be found bad.
-/
namespace Reflector

variable {α β : Type}

def Succeeds (x : Except Fault α) (Q : α → Prop) : Prop := ∃ a, x = .ok a ∧ Q a

namespace Succeeds

variable {x : Except Fault α} {f : α → Except Fault β} {P Q : α → Prop} {R : β → Prop}

theorem pure {a : α} (h : Q a) : Succeeds (pure a) Q := ⟨a, rfl, h⟩

theorem bind (hx : Succeeds x Q) (hf : ∀ a, x = .ok a → Q a → Succeeds (f a) R) :
    Succeeds (x >>= f) R := by
  obtain ⟨a, rfl, hq⟩ := hx
  exact hf a rfl hq

theorem next (hx : Succeeds x Q) (hf : ∀ a, Succeeds (f a) R) : Succeeds (x >>= f) R :=
  hx.bind fun a _ _ => hf a

theorem read {a : α} (hx : x = .ok a) (hf : Succeeds (f a) R) : Succeeds (x >>= f) R := by
  subst hx
  exact hf

theorem weaken (hx : Succeeds x P) (h : ∀ a, P a → Q a) : Succeeds x Q := by
  obtain ⟨a, ha, hp⟩ := hx
  exact ⟨a, ha, h a hp⟩

theorem eq {a : α} (hx : Succeeds x (· = a)) : x = .ok a := by
  obtain ⟨_, ha, rfl⟩ := hx
  exact ha

theorem holds {a : α} (hx : Succeeds x Q) (ha : x = .ok a) : Q a := by
  obtain ⟨_, hsame, hq⟩ := hx
  exact Except.ok.inj (hsame.symm.trans ha) ▸ hq

theorem field (hx : Succeeds x Q) (g : α → β) :
    Succeeds (x >>= fun a => Pure.pure (g a)) fun _ => True :=
  hx.next fun _ => pure trivial

end Succeeds

namespace Parse

variable {x : Except Fault α} {m : Parse α} {f : α → Parse β} {Q : α → Prop} {R : β → Prop}

def Total (m : Parse α) (Q : α → Prop) : Prop := Succeeds m.run fun r => ∀ a, r = .ok a → Q a

theorem Total.pure {a : α} (h : Q a) : Total (pure a) Q :=
  Succeeds.pure fun _ ha => Except.ok.inj ha ▸ h

theorem Total.throw {e : PacketError} : Total (throw e : Parse α) Q :=
  Succeeds.pure fun _ ha => nomatch ha

theorem Total.lift (hx : Succeeds x Q) : Total (liftM x) Q := by
  obtain ⟨a, rfl, hq⟩ := hx
  exact pure hq

theorem Total.bind (hm : Total m Q) (hf : ∀ a, Q a → Total (f a) R) : Total (m >>= f) R := by
  obtain ⟨r, hr, hq⟩ := hm
  cases r with
  | ok a =>
    obtain ⟨s, hs, h⟩ := hf a (hq a rfl)
    exact ⟨s, (congrArg (· >>= ExceptT.bindCont f) hr).trans hs, h⟩
  | error e => exact ⟨.error e, congrArg (· >>= ExceptT.bindCont f) hr, fun _ ha => nomatch ha⟩

theorem Total.read (hx : Succeeds x Q) (hf : ∀ a, x = .ok a → Q a → Total (f a) R) :
    Total (liftM x >>= f) R := by
  obtain ⟨a, rfl, hq⟩ := hx
  exact hf a rfl hq

theorem Total.dispatch {g : Except PacketError α → Except Fault β} (hm : Total m Q)
    (herror : ∀ e, Succeeds (g (.error e)) R) (hok : ∀ a, Q a → Succeeds (g (.ok a)) R) :
    Succeeds (m.run >>= g) R := by
  refine Succeeds.bind hm fun r _ hr => ?_
  cases r with
  | ok a => exact hok a (hr a rfl)
  | error e => exact herror e

theorem total_guard {c : Prop} [Decidable c] {e : PacketError} {k : PUnit → Parse β}
    (h : ¬c → Total (k ⟨⟩) R) : Total (if c then (do let r ← throw e; k r) else k ⟨⟩) R := by
  split
  · exact Total.bind (Q := fun _ => False) Total.throw fun _ hf => hf.elim
  · next hc => exact h hc

def Reads (m : Parse α) (a : α) : Prop := m.run = .ok (.ok a)

section Reads

variable {a : α} {c : β}

theorem Total.of_reads (hm : Total m Q) (h : Reads m a) : Q a := by
  obtain ⟨r, hr, hq⟩ := hm
  exact hq a (Except.ok.inj (hr.symm.trans h))

theorem Reads.pure : Reads (pure a) a := rfl

theorem Reads.bind (hm : Reads m a) (hf : Reads (f a) c) : Reads (m >>= f) c :=
  (congrArg (· >>= ExceptT.bindCont f) hm).trans hf

theorem Reads.read (hx : x = .ok a) (hf : Reads (f a) c) : Reads (liftM x >>= f) c := by
  subst hx
  exact hf

theorem reads_guard {p : Prop} [Decidable p] {e : PacketError} {k : PUnit → Parse β} (hp : ¬p)
    (h : Reads (k ⟨⟩) c) : Reads (if p then (do let r ← throw e; k r) else k ⟨⟩) c := by
  rwa [if_neg hp]

end Reads

end Parse

end Reflector
