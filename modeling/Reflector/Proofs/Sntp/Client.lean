import Reflector.Proofs.Packets.Fields
import Reflector.Sntp.Client
/-!
A client of a time server. It takes the time from such payloads only, and keeps the clock to itself
in the company of other applications.
-/
namespace Reflector

variable {σ τ κ : Type} {b payload : Bytes} {source : Ipv4.Address} {port : Udp.Port} {len : Nat}

namespace Sntp

theorem Message.exists_reads (h : 48 ≤ b.length) : ∃ first stratum secs frac,
    b.octet 0 = .ok first ∧ b.word 40 = .ok secs ∧ b.word 44 = .ok frac ∧
      Parse.Reads (parse b) ⟨.ofCode (UInt8.ofNat (first.toNat / 64)),
        UInt8.ofNat (first.toNat / 8 % 8), .ofCode (UInt8.ofNat (first.toNat % 8)), stratum,
        ⟨secs, frac⟩⟩ := by
  obtain ⟨first, hfirst, -⟩ := Bytes.octet_succeeds (i := 0) h (by decide)
  obtain ⟨stratum, hstratum, -⟩ := Bytes.octet_succeeds (i := 1) h (by decide)
  obtain ⟨secs, hsecs, -⟩ := Bytes.word_succeeds (i := 40) h (by decide)
  obtain ⟨frac, hfrac, -⟩ := Bytes.word_succeeds (i := 44) h (by decide)
  have htransmit : Packet.transmit b = .ok ⟨secs, frac⟩ := by
    apply Succeeds.eq
    apply Succeeds.read (Bytes.slice_of_le (by decide) h)
    apply Succeeds.read ((Bytes.word_drop.trans (Bytes.word_take (by decide))).trans hsecs)
    apply Succeeds.read ((Bytes.word_drop.trans (Bytes.word_take (by decide))).trans hfrac)
    exact Succeeds.pure rfl
  refine ⟨first, stratum, secs, frac, hfirst, hsecs, hfrac, ?_⟩
  apply (show Parse.Reads (Packet.checkLen b) () from if_neg (Nat.not_lt.2 h)).bind
  apply Parse.Reads.read (field_iff.2 ⟨first, hfirst, rfl⟩)
  apply Parse.Reads.read (field_iff.2 ⟨first, hfirst, rfl⟩)
  apply Parse.Reads.read (field_iff.2 ⟨first, hfirst, rfl⟩)
  apply Parse.Reads.read hstratum
  apply Parse.Reads.read htransmit
  exact Parse.Reads.pure

def Serves (first : UInt8) : Prop :=
  first.toNat % 8 = 4 ∧ first.toNat / 8 % 8 = 3 ∧ first.toNat / 64 ≠ 3

theorem serves_iff {first : UInt8} : Serves first ↔
    Mode.ofCode (UInt8.ofNat (first.toNat % 8)) = .server ∧
      UInt8.ofNat (first.toNat / 8 % 8) = protocolVersion ∧
      Leap.ofCode (UInt8.ofNat (first.toNat / 64)) ≠ .alarm := by
  have hmode {code : UInt8} : Mode.ofCode code = .server ↔ code = 4 := by grind [Mode.ofCode]
  have hleap {code : UInt8} : Leap.ofCode code = .alarm ↔ code = 3 := by grind [Leap.ofCode]
  have hvalue {n m : Nat} (hn : n < 0x100) (hm : m < 0x100) :
      UInt8.ofNat n = UInt8.ofNat m ↔ n = m := by
    rw [← UInt8.toNat_inj, UInt8.toNat_ofNat_of_lt' hn, UInt8.toNat_ofNat_of_lt' hm]
  have hfirst := first.toNat_lt
  have hserver := hvalue (n := first.toNat % 8) (m := 4) (by omega) (by decide)
  have hversion := hvalue (n := first.toNat / 8 % 8) (m := 3) (by omega) (by decide)
  have halarm := hvalue (n := first.toNat / 64) (m := 3) (by omega) (by decide)
  rw [hmode, ne_eq, hleap, Serves, ← hserver, ← hversion, ne_eq, ← halarm]
  rfl

structure Tells (payload : Bytes) (t : Timestamp) : Prop where
  length : payload.length = 48
  first : ∃ first, payload.octet 0 = .ok first ∧ Serves first
  secs : payload.word 40 = .ok t.secs
  frac : payload.word 44 = .ok t.frac
  known : t ≠ ⟨0, 0⟩

namespace Settings

variable {c : Settings} {time : Time}

def timeOf (c : Settings) (t : Timestamp) : Time :=
  ⟨t.secs - c.epoch.offset, ticksOfFraction t.frac⟩

theorem process_eq {m : Message} (hlen : payload.length = 48)
    (h : Parse.Reads (Message.parse payload) m) :
    c.process payload = .ok (if (m.mode = .server ∧ m.version = protocolVersion ∧ m.leap ≠ .alarm) ∧
      m.transmit ≠ ⟨0, 0⟩ then some (c.timeOf m.transmit) else none) := by
  have hlen' : ¬payload.length ≠ Packet.len := not_not_intro hlen
  have hunknown : m.transmit.isUnknown ↔ m.transmit = ⟨0, 0⟩ := beq_iff_eq
  rw [process, if_neg hlen']
  apply Succeeds.eq
  apply Succeeds.read h
  dsimp only
  split
  · next hother =>
    rw [if_neg fun hgood => hother.elim (· hgood.1.1) (· hgood.1.2.1)]
    exact Succeeds.pure rfl
  next hours =>
    obtain ⟨hmode, hversion⟩ := not_or.1 hours
    split
    · next hlost =>
      rw [if_neg fun hgood => hlost.elim hgood.1.2.2 fun h => hgood.2 (hunknown.1 h)]
      exact Succeeds.pure rfl
    · next hknown =>
      obtain ⟨hleap, hknown⟩ := not_or.1 hknown
      rw [if_pos ⟨⟨Decidable.not_not.1 hmode, Decidable.not_not.1 hversion, hleap⟩,
        mt hunknown.2 hknown⟩]
      exact Succeeds.pure rfl

theorem process_iff :
    c.process payload = .ok (some time) ↔ ∃ t, Tells payload t ∧ time = c.timeOf t := by
  by_cases hlen : payload.length = 48
  · obtain ⟨first, stratum, secs, frac, hfirst, hsecs, hfrac, hreads⟩ :=
      Message.exists_reads (Nat.le_of_eq hlen.symm)
    rw [process_eq hlen hreads]
    constructor
    · intro h
      split at h
      · next hgood =>
        exact ⟨⟨secs, frac⟩, ⟨hlen, ⟨first, hfirst, serves_iff.2 hgood.1⟩, hsecs, hfrac, hgood.2⟩,
          (Option.some.inj (Except.ok.inj h)).symm⟩
      · exact nomatch h
    · rintro ⟨⟨secs', frac'⟩, ⟨-, ⟨first', hfirst', hserves⟩, hsecs', hfrac', hknown⟩, rfl⟩
      cases hfirst'.symm.trans hfirst
      cases hsecs'.symm.trans hsecs
      cases hfrac'.symm.trans hfrac
      rw [if_pos ⟨serves_iff.1 hserves, hknown⟩]
  · have hprocess : c.process payload = .ok none := if_pos hlen
    rw [hprocess]
    exact ⟨(nomatch ·), fun ⟨_, htells, _⟩ => absurd htells.length hlen⟩

end Settings

end Sntp

namespace Udp.Application

def within (app : Application σ) (get : τ → σ) (set : σ → τ → τ) : Application τ where
  request buffer source port len s :=
    let answer := app.request buffer source port len (get s)
    ⟨answer.written, answer.len, set answer.state s⟩
  reply payload source port len s := do
    return set (← app.reply payload source port len (get s)) s
  reply_ok payload source port len s h := by
    obtain ⟨t, ht⟩ := app.reply_ok payload source port len (get s) h
    exact ⟨set t s, field_iff.2 ⟨t, ht, rfl⟩⟩

def beside (first : Application σ) (second : Application τ) : Application (σ × τ) :=
  (first.within Prod.fst fun s p => (s, p.2)).orElse (second.within Prod.snd fun t p => (p.1, t))

/-- Each is called at most once, the second one perhaps with a buffer that was written into. -/
theorem beside_request (first : Application σ) (second : Application τ) (buffer : Bytes)
    (source : Ipv4.Address) (port : Port) (len : Nat) (p : σ × τ) :
    let after := ((first.beside second).request buffer source port len p).state
    after.1 = (first.request buffer source port len p.1).state ∧
      (after.2 = p.2 ∨ ∃ left, after.2 = (second.request left source port len p.2).state) := by
  dsimp only [beside, orElse, within]
  split
  · exact ⟨rfl, .inl rfl⟩
  · exact ⟨rfl, .inr ⟨_, rfl⟩⟩

theorem beside_reply {first : Application σ} {second : Application τ} {p q : σ × τ}
    (h : (first.beside second).reply payload source port len p = .ok q) :
    first.reply payload source port len p.1 = .ok q.1 ∧
      second.reply payload source port len p.2 = .ok q.2 := by
  obtain ⟨_, hfirst, h⟩ := read_iff.1 h
  obtain ⟨s, hs, rfl⟩ := field_iff.1 hfirst
  obtain ⟨t, ht, rfl⟩ := field_iff.1 h
  exact ⟨hs, ht⟩

end Udp.Application

namespace Sntp.Client

open Udp (Application)

/-- Applications that a client is, or is one of, and where its clock stands in their state. -/
inductive Within (c : Client) (setTime : Time → κ → κ) :
    {σ : Type} → Application σ → (σ → κ) → Prop
  | alone : c.Within setTime (c.application setTime) fun s => s
  | first {σ τ : Type} {app : Application σ} {clock : σ → κ} (h : c.Within setTime app clock)
      (other : Application τ) : c.Within setTime (app.beside other) fun p => clock p.1
  | second {σ τ : Type} {app : Application σ} {clock : σ → κ} (h : c.Within setTime app clock)
      (other : Application τ) : c.Within setTime (other.beside app) fun p => clock p.2

variable {c : Client} {setTime : Time → κ → κ} {app : Application σ} {clock : σ → κ}

theorem Within.request (h : c.Within setTime app clock) (buffer : Bytes) (source : Ipv4.Address)
    (port : Udp.Port) (len : Nat) (s : σ) :
    clock (app.request buffer source port len s).state = clock s := by
  induction h generalizing buffer with
  | alone => rfl
  | first h other ih =>
    obtain ⟨hfirst, -⟩ := Application.beside_request _ other buffer source port len s
    exact (congrArg _ hfirst).trans (ih buffer s.1)
  | second h other ih =>
    obtain ⟨-, hsame | ⟨left, hleft⟩⟩ :=
      Application.beside_request other _ buffer source port len s
    · exact congrArg _ hsame
    · exact (congrArg _ hleft).trans (ih left s.2)

/-- A reply sets the clock once, if it tells the time, and else never. -/
theorem Within.reply (h : c.Within setTime app clock) {s t : σ}
    (hreply : app.reply payload source port len s = .ok t) :
    ∃ told, c.timeOfReply payload source port len = .ok told ∧
      clock t = told.elim (clock s) fun time => setTime time (clock s) := by
  induction h with
  | alone =>
    obtain ⟨told, htold, h⟩ := read_iff.1 hreply
    refine ⟨told, htold, ?_⟩
    cases told with
    | none => exact (Except.ok.inj h).symm
    | some time => exact (Except.ok.inj h).symm
  | first h other ih => exact ih (Application.beside_reply hreply).1
  | second h other ih => exact ih (Application.beside_reply hreply).2

theorem timeOfReply_iff {time : Time} (h : len ≤ payload.length) :
    c.timeOfReply payload source port len = .ok (some time) ↔
      (source = c.server ∧ port = 123) ∧
        ∃ t, Tells (payload.take len) t ∧ time = c.settings.timeOf t := by
  unfold timeOfReply
  split
  · next hother =>
    exact ⟨(nomatch ·), fun hserver => (hother.elim (· hserver.1.1) (· hserver.1.2)).elim⟩
  · next hserver =>
    obtain ⟨hsource, hport⟩ := not_or.1 hserver
    rw [Bytes.slice_of_le (Nat.zero_le _) h]
    exact Settings.process_iff.trans
      (and_iff_right ⟨Decidable.not_not.1 hsource, Decidable.not_not.1 hport⟩).symm

end Sntp.Client

end Reflector
