import Reflector.Proofs.Ring.Calls
/-!
The ring as a list. Whatever the cursors, markers and gaps in the arena, a run of permitted calls
does to the ring what it does to a list of entries.
-/
namespace Reflector.Ring

variable {r r' : Ring} {l l' : List Record} {h : Handle} {c : Call} {reply : Reply}

def alter (h : Handle) (f : Entry → Entry) (l : List Entry) : List Entry :=
  l.map fun e => if e.handle = h then f e else e

def without (h : Handle) (l : List Entry) : List Entry := l.filter fun e => e.handle ≠ h

def firstInput : List Entry → Option Handle
  | [] => none
  | e :: l => match e.stage with
    | .output => firstInput l
    | .input => some e.handle
    | .unfinished => none

def firstOutput : List Entry → Option Handle
  | [] => none
  | e :: _ => if e.stage = .output then some e.handle else none

namespace Call

def act : Call → Reply → List Entry → List Entry
  | allocate len, .handle (some h), l => l ++ [⟨h, .unfinished, len⟩]
  | resize h len, .resized (.ok h'), l =>
    if h' = h then alter h (fun e => { e with len }) l else without h l ++ [⟨h', .unfinished, len⟩]
  | shrink h len, _, l => alter h (fun e => { e with len }) l
  | putInput h, _, l => alter h (fun e => { e with stage := .input }) l
  | putOutput h, _, l | reattachOutput h, _, l => alter h (fun e => { e with stage := .output }) l
  | discard h, _, l | releaseInput h, _, l | releaseOutput h, _, l => without h l
  | _, _, l => l

/-- The replies to a call. New handles name no other entry, and a record is only refused a length if
that is more than it has. -/
def Answers (l : List Entry) : Call → Reply → Prop
  | allocate _, .handle none => True
  | allocate _, .handle (some h) => h ∉ l.map Entry.handle
  | resize h len, .resized (.error h') => h' = h ∧ ∃ e ∈ l, e.handle = h ∧ e.len < len
  | resize h _, .resized (.ok h') => h' = h ∨ h' ∉ (without h l).map Entry.handle
  | getInput, .handle h => h = firstInput l
  | getOutput, .handle h => h = firstOutput l
  | shrink .., .done | discard _, .done | putInput _, .done | putOutput _, .done => True
  | releaseInput _, .done | releaseOutput _, .done | reattachOutput _, .done => True
  | edit .., .done => True
  | _, _ => False

def runAll : List Call → Op Ring (List Reply)
  | [] => return []
  | c :: cs => do
    let reply ← c.run
    return reply :: (← runAll cs)

def Permitted : List Call → Ring → List Entry → Prop
  | [], _, _ => True
  | c :: cs, r, l => c.Permits l ∧ match c.run.on r with
    | (.ok reply, r') => Permitted cs r' (c.act reply l)
    | (.error _, _) => True

def Follows : List Entry → List Call → List Reply → List Entry → Prop
  | l, [], [], l' => l' = l
  | l, c :: cs, reply :: replies, l' =>
    c.Answers l reply ∧ Follows (c.act reply l) cs replies l'
  | _, _, _, _ => False

end Call

theorem map_revise {f : Record → Record} {g : Entry → Entry}
    (hfg : ∀ e ∈ l, e.handle = h → (f e).entry = g e.entry) :
    (revise h f l).map Record.entry = alter h g (l.map Record.entry) := by
  simp only [revise, alter, List.map_map]
  refine List.map_congr_left fun e he => ?_
  by_cases heq : e.handle = h
  · simp only [Function.comp, if_pos heq, hfg e he heq]
    exact (if_pos heq).symm
  · simp only [Function.comp, if_neg heq]
    exact (if_neg heq).symm

theorem map_remove : (remove h l).map Record.entry = without h (l.map Record.entry) := by
  rw [remove, without, List.filter_map]
  rfl

theorem firstInput_map : firstInput (l.map Record.entry) = nextInput l := by
  induction l with
  | nil => rfl
  | cons e l ih =>
    obtain ⟨h, s, payload⟩ := e
    cases s with
    | output => exact ih
    | input => rfl
    | unfinished => rfl

theorem firstOutput_map : firstOutput (l.map Record.entry) = nextOutput l := by
  cases l with
  | nil => rfl
  | cons e l =>
    obtain ⟨h, s, payload⟩ := e
    cases s <;> rfl

theorem map_handle : (l.map Record.entry).map Entry.handle = l.map Record.handle := by
  rw [List.map_map]
  rfl

theorem alter_same (l : List Entry) : alter h (fun e => e) l = l := by
  simp only [alter, ite_self, List.map_id_fun', id]

theorem fresh_of_sound (hr : r.Sound) {payload : Bytes}
    (hrecs : r.records = l ++ [⟨h, .unfinished, payload⟩]) : h ∉ l.map Record.handle := by
  have hn := hr.nodup
  rw [hrecs, List.map_append, List.nodup_append] at hn
  exact fun hmem => hn.2.2 h hmem h (by simp) rfl

theorem Call.Effect.acts (hr : r.Sound) (hr' : r'.Sound) (hc : c.Permits r.entries)
    (he : c.Effect r.records reply r'.records) :
    c.Answers r.entries reply ∧ r'.entries = c.act reply r.entries := by
  cases c with
  | allocate len =>
    cases reply with
    | handle found =>
      cases found with
      | none => exact ⟨trivial, congrArg (List.map Record.entry) he⟩
      | some h =>
        obtain ⟨payload, hlen, hrecs⟩ := he
        refine ⟨?_, ?_⟩
        · rw [Answers, entries, map_handle]
          exact fresh_of_sound hr' hrecs
        · rw [entries, hrecs, List.map_append, ← hlen]
          rfl
    | _ => exact he.elim
  | resize h len =>
    cases reply with
    | resized result =>
      cases result with
      | error h' =>
        obtain ⟨rfl, hrecs, rec, hrec, rfl, hgrows⟩ := he
        exact ⟨⟨rfl, _, List.mem_map_of_mem hrec, rfl, hgrows⟩,
          congrArg (List.map Record.entry) hrecs⟩
      | ok h' =>
        obtain ⟨rec, -, -, payload, hlen, -, hrecs⟩ := he
        by_cases heq : h' = h
        · rw [if_pos heq] at hrecs
          refine ⟨.inl heq, ?_⟩
          rw [entries, hrecs, act, if_pos heq]
          exact map_revise fun e _ _ => by rw [← hlen]; rfl
        · rw [if_neg heq] at hrecs
          refine ⟨.inr ?_, ?_⟩
          · rw [entries, ← map_remove, map_handle]
            exact fresh_of_sound hr' hrecs
          · rw [entries, hrecs, List.map_append, act, if_neg heq, map_remove, ← hlen]
            rfl
    | _ => exact he.elim
  | shrink h len =>
    cases reply with
    | done =>
      obtain ⟨rec, hrec, rfl, -, hlen⟩ := exists_record hc
      refine ⟨trivial, ?_⟩
      rw [entries, show r'.records = _ from he]
      refine map_revise fun e he hh => ?_
      have hle : len ≤ e.payload.length := by
        rw [hr.eq_of_handle hrec he hh]
        exact hlen
      simp only [Record.entry, List.length_take, Nat.min_eq_left hle]
    | _ => exact he.elim
  | getInput =>
    cases reply with
    | handle h => exact ⟨he.1.trans firstInput_map.symm, congrArg (List.map Record.entry) he.2⟩
    | _ => exact he.elim
  | getOutput =>
    cases reply with
    | handle h => exact ⟨he.1.trans firstOutput_map.symm, congrArg (List.map Record.entry) he.2⟩
    | _ => exact he.elim
  | edit h f =>
    cases reply with
    | done =>
      refine ⟨trivial, ?_⟩
      rw [entries, show r'.records = _ from he]
      refine (map_revise (g := fun e => e) fun e _ _ => ?_).trans (alter_same _)
      simp only [Record.entry, hc.2]
    | _ => exact he.elim
  | discard h | releaseInput h | releaseOutput h =>
    cases reply with
    | done => exact ⟨trivial, (congrArg (List.map Record.entry) he).trans map_remove⟩
    | _ => exact he.elim
  | putInput h | putOutput h | reattachOutput h =>
    cases reply with
    | done =>
      exact ⟨trivial, (congrArg (List.map Record.entry) he).trans (map_revise fun _ _ _ => rfl)⟩
    | _ => exact he.elim

theorem Call.step (hr : r.Sound) (hc : c.Permits r.entries) :
    ∃ reply r', c.run.on r = (.ok reply, r') ∧ r'.Sound ∧ c.Answers r.entries reply ∧
      r'.entries = c.act reply r.entries := by
  obtain ⟨reply, r', hon, hr', he⟩ := Call.spec hr hc
  obtain ⟨hans, hact⟩ := he.acts hr hr' hc
  exact ⟨reply, r', hon, hr', hans, hact⟩

theorem Call.runAll_follows {calls : List Call} (hr : r.Sound) (hc : Permitted calls r r.entries) :
    ∃ replies r', (runAll calls).on r = (.ok replies, r') ∧ r'.Sound ∧
      Follows r.entries calls replies r'.entries := by
  induction calls generalizing r with
  | nil => exact ⟨[], r, rfl, hr, rfl⟩
  | cons c cs ih =>
    -- the list after the first call is that of the ring it leaves, which the rest starts from
    obtain ⟨hp, hrest⟩ := hc
    obtain ⟨reply, r₁, hon, hr₁, hans, hact⟩ := Call.step hr hp
    rw [hon] at hrest
    dsimp only at hrest
    rw [← hact] at hrest
    obtain ⟨replies, r', hon', hr', hfollows⟩ := ih hr₁ hrest
    rw [hact] at hfollows
    refine ⟨reply :: replies, r', ?_, hr', hans, hfollows⟩
    rw [runAll, Op.on_bind_ok hon, Op.on_bind_ok hon', Op.on_pure]

/-- From a new ring, every run of permitted calls succeeds and follows the list. -/
theorem new_refines_list (storage : Bytes) (h : 2 * align ≤ storage.length) :
    ∃ r, new storage = .ok r ∧ r.entries = [] ∧ ∀ calls, Call.Permitted calls r [] →
      ∃ replies r', (Call.runAll calls).on r = (.ok replies, r') ∧
        Call.Follows [] calls replies r'.entries := by
  obtain ⟨r, hnew, hr, hrecs⟩ := exists_new storage h
  have hempty : r.entries = [] := by rw [entries, hrecs, List.map_nil]
  refine ⟨r, hnew, hempty, fun calls hc => ?_⟩
  rw [← hempty] at hc
  obtain ⟨replies, r', hon, -, hfollows⟩ := Call.runAll_follows hr hc
  rw [hempty] at hfollows
  exact ⟨replies, r', hon, hfollows⟩

set_option maxRecDepth 1000 in
/-- Of two records the first grows and moves, the other has no room to grow and is discarded. -/
theorem new_refines_list_exchange :
    let calls : List Call := [.allocate 5, .allocate 3, .resize ⟨0⟩ 7, .resize ⟨8⟩ 7,
      .shrink ⟨16⟩ 6, .putInput ⟨16⟩, .discard ⟨8⟩, .getInput, .reattachOutput ⟨16⟩, .getOutput,
      .releaseOutput ⟨16⟩]
    let replies : List Reply := [.handle (some ⟨0⟩), .handle (some ⟨8⟩), .resized (.ok ⟨16⟩),
      .resized (.error ⟨8⟩), .done, .done, .done, .handle (some ⟨16⟩), .done, .handle (some ⟨16⟩),
      .done]
    2 * align ≤ (List.replicate 32 (0 : UInt8)).length ∧ ∃ r r', new (List.replicate 32 0) = .ok r ∧
      Call.Permitted calls r [] ∧ (Call.runAll calls).on r = (.ok replies, r') ∧
      Call.Follows [] calls replies r'.entries := by
  intro calls replies
  refine ⟨by decide, ?_⟩
  obtain ⟨r, hnew, -, hrun⟩ := new_refines_list (List.replicate 32 0) (by decide)
  obtain rfl : r = ⟨List.replicate 32 0, 28, 0, 0, 0⟩ := Except.ok.inj (hnew.symm.trans rfl)
  have hpermitted : Call.Permitted calls ⟨List.replicate 32 0, 28, 0, 0, 0⟩ [] :=
    ⟨trivial, trivial, ⟨_, .head _, rfl, rfl⟩, ⟨_, .head _, rfl, rfl⟩,
      ⟨_, .tail _ (.head _), rfl, Stage.noConfusion, by decide⟩, ⟨_, .tail _ (.head _), rfl, rfl⟩,
      ⟨_, .head _, rfl, rfl⟩, trivial, ⟨_, .head _, rfl, rfl⟩, trivial, ⟨_, .head _, rfl, rfl⟩,
      trivial⟩
  obtain ⟨replies', r', hon, hfollows⟩ := hrun calls hpermitted
  have hreplies : ((Call.runAll calls).on ⟨List.replicate 32 0, 28, 0, 0, 0⟩).1 = .ok replies := by
    decide +kernel
  cases (congrArg Prod.fst hon).symm.trans hreplies
  exact ⟨_, r', hnew, hpermitted, hon, hfollows⟩

end Reflector.Ring
