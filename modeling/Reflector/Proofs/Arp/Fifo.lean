import Reflector.Proofs.Arp.Neighbors
import Reflector.Proofs.Ipv4.Subnet
/-!
The neighbor cache as a list of known addresses in the order in which they were learned. Whatever
the slots and the one that is next, a run of calls does to the cache what it does to that list, from
which the oldest address makes way for a new one.
-/
namespace Reflector.Arp

abbrev Binding := Ipv4.Address × Ethernet.Address

/-- The addresses known on a subnet, as many as there is room for, the oldest one first. -/
structure Roster where
  subnet : Ipv4.Subnet
  capacity : Nat
  bindings : List Binding

namespace Roster

def renew (a : Ipv4.Address) (hardware : Ethernet.Address) (l : List Binding) : List Binding :=
  l.map fun b => if b.1 = a then (a, hardware) else b

def learn (q : Roster) (a : Ipv4.Address) (hardware : Ethernet.Address) :
    Except NeighborError Roster :=
  if q.subnet.contains a = false then .error .notOnLink
  else if q.capacity = 0 then .error .noSpace
  else if a ∈ q.bindings.map Prod.fst then .ok { q with bindings := renew a hardware q.bindings }
  else if q.bindings.length = q.capacity then
    .ok { q with bindings := q.bindings.tail ++ [(a, hardware)] }
  else .ok { q with bindings := q.bindings ++ [(a, hardware)] }

def find (q : Roster) (a : Ipv4.Address) : Option Ethernet.Address :=
  if q.subnet.contains a then q.bindings.lookup a else none

end Roster

namespace NeighborCache

inductive Call where
  | fill (a : Ipv4.Address) (hardware : Ethernet.Address)
  | clear
  | setSubnet (subnet : Ipv4.Subnet)
  | lookup (a : Ipv4.Address)

inductive Reply where
  | filled (error : Option NeighborError)
  | found (hardware : Option Ethernet.Address)
  | done
  deriving DecidableEq

namespace Call

def filled {α : Type} (s : α) : Except NeighborError α → Reply × α
  | .ok s => (.filled none, s)
  | .error e => (.filled (some e), s)

def run : Call → NeighborCache → Reply × NeighborCache
  | fill a hardware, c => filled c (c.fill a hardware)
  | clear, c => (.done, c.clear)
  | setSubnet subnet, c => (.done, c.setSubnet subnet)
  | lookup a, c => (.found (c.lookup a), c)

def act : Call → Roster → Reply × Roster
  | fill a hardware, q => filled q (q.learn a hardware)
  | clear, q => (.done, { q with bindings := [] })
  | setSubnet subnet, q => (.done, { q with subnet, bindings := [] })
  | lookup a, q => (.found (q.find a), q)

def runAll {α : Type} (step : Call → α → Reply × α) : List Call → α → List Reply × α
  | [], s => ([], s)
  | c :: cs, s =>
    let (reply, s) := step c s
    let (replies, s) := runAll step cs s
    (reply :: replies, s)

end Call

def neighbor (subnet : Ipv4.Subnet) (b : Binding) : Neighbor := ⟨subnet.hostPart b.1, b.2⟩

def slot (subnet : Ipv4.Subnet) (b : Binding) : Option Neighbor := some (neighbor subnet b)

/-- The slots are filled in turn: those in front of the next one hold what was learned last. Unused
ones come last, and while there are some the turn has not come round. -/
structure Turns (c : NeighborCache) (newer older : List Binding) (free : Nat) : Prop where
  slots : c.slots = (newer ++ older).map (slot c.subnet) ++ List.replicate free none
  next : c.next = newer.length
  full : older = [] ∨ free = 0
  linked : ∀ b ∈ newer ++ older, c.subnet.contains b.1 = true
  distinct : ((newer ++ older).map Prod.fst).Nodup

structure Follows (c : NeighborCache) (q : Roster) : Prop where
  subnet : q.subnet = c.subnet
  capacity : q.capacity = c.slots.length
  inside : c.Inside
  turns : ∃ newer older free, c.Turns newer older free ∧ q.bindings = older ++ newer

/-- What is seen of the cache from outside is what is in the list, of which it holds the host parts,
each of them once. -/
structure Shows (c : NeighborCache) (q : Roster) : Prop where
  subnet : c.subnet = q.subnet
  capacity : c.capacity = q.capacity
  bounded : q.bindings.length ≤ q.capacity
  lookup : ∀ a hardware, c.lookup a = some hardware ↔
    q.subnet.contains a = true ∧ (a, hardware) ∈ q.bindings
  length : c.length = q.bindings.length
  toList : c.toList.Perm q.bindings
  hostParts : (c.neighbors.map Neighbor.hostPart).Nodup

variable {c : NeighborCache} {q : Roster} {newer older l : List Binding} {free : Nat}
  {a : Ipv4.Address} {hardware : Ethernet.Address} {subnet : Ipv4.Subnet} {b : Binding}

theorem holds_slot (ha : subnet.contains a = true) (hb : subnet.contains b.1 = true) :
    holds (subnet.hostPart a) (slot subnet b) = true ↔ b.1 = a := by
  rw [slot, holds, beq_iff_eq, neighbor, Ipv4.Subnet.hostPart_inj hb ha]

theorem not_holds_slot (hl : ∀ b ∈ l, subnet.contains b.1 = true) (ha : subnet.contains a = true)
    (h : a ∉ l.map Prod.fst) :
    (l.map (slot subnet)).findIdx? (holds (subnet.hostPart a)) = none := by
  refine List.findIdx?_eq_none_iff.2 fun x hx => ?_
  obtain ⟨b, hb, rfl⟩ := List.mem_map.1 hx
  rw [← Bool.not_eq_true, holds_slot ha (hl b hb)]
  rintro rfl
  exact h (List.mem_map_of_mem hb)

theorem set_between (front back : List (Option Neighbor)) (x y : Option Neighbor) :
    (front ++ x :: back).set front.length y = front ++ y :: back := by
  rw [List.set_append_right _ _ (Nat.le_refl _), Nat.sub_self, List.set_cons_zero]

theorem renew_of_notMem (h : a ∉ l.map Prod.fst) : Roster.renew a hardware l = l := by
  refine (List.map_congr_left fun b hb => if_neg ?_).trans (List.map_id l)
  rintro rfl
  exact h (List.mem_map_of_mem hb)

theorem map_fst_renew : (Roster.renew a hardware l).map Prod.fst = l.map Prod.fst := by
  rw [Roster.renew, List.map_map]
  refine List.map_congr_left fun b _ => ?_
  simp only [Function.comp]
  split
  · next h => exact h.symm
  · rfl

theorem exists_split (hd : (l.map Prod.fst).Nodup) (h : a ∈ l.map Prod.fst) :
    ∃ front old back, l = front ++ (a, old) :: back ∧ a ∉ front.map Prod.fst ∧
      a ∉ back.map Prod.fst := by
  obtain ⟨⟨address, old⟩, hmem, rfl : address = a⟩ := List.mem_map.1 h
  obtain ⟨front, back, rfl⟩ := List.append_of_mem hmem
  rw [List.map_append, List.nodup_append] at hd
  obtain ⟨-, hback, hfront⟩ := hd
  exact ⟨front, old, back, rfl, fun hf => hfront _ hf _ (.head _) rfl, (List.nodup_cons.1 hback).1⟩

theorem set_known (hl : ∀ b ∈ l, subnet.contains b.1 = true) (hd : (l.map Prod.fst).Nodup)
    (ha : subnet.contains a = true) (h : a ∈ l.map Prod.fst) (hardware : Ethernet.Address)
    (rest : List (Option Neighbor)) :
    ∃ i, (l.map (slot subnet) ++ rest).findIdx? (holds (subnet.hostPart a)) = some i ∧
      (l.map (slot subnet) ++ rest).set i (slot subnet (a, hardware)) =
        (Roster.renew a hardware l).map (slot subnet) ++ rest := by
  obtain ⟨front, old, back, rfl, hfront, hback⟩ := exists_split hd h
  have hshape (hardware : Ethernet.Address) :
      (front ++ (a, hardware) :: back).map (slot subnet) ++ rest = front.map (slot subnet) ++
        slot subnet (a, hardware) :: (back.map (slot subnet) ++ rest) := by
    rw [List.map_append, List.map_cons, List.append_assoc, List.cons_append]
  have hrenew : Roster.renew a hardware (front ++ (a, old) :: back) =
      front ++ (a, hardware) :: back := by
    have hfront' : Roster.renew a hardware front = front := renew_of_notMem hfront
    have hback' : Roster.renew a hardware back = back := renew_of_notMem hback
    rw [Roster.renew] at hfront' hback' ⊢
    rw [List.map_append, List.map_cons, if_pos rfl, hfront', hback']
  have hmiss : (front.map (slot subnet)).findIdx? (holds (subnet.hostPart a)) = none :=
    not_holds_slot (fun b hb => hl b (List.mem_append_left _ hb)) ha hfront
  have hhit : holds (subnet.hostPart a) (slot subnet (a, old)) = true := (holds_slot ha ha).2 rfl
  refine ⟨(front.map (slot subnet)).length, ?_, ?_⟩
  · rw [hshape, List.findIdx?_append, hmiss, List.findIdx?_cons, if_pos hhit,
      Option.none_or, Option.map_some, Nat.zero_add]
  · rw [hrenew, hshape, hshape, set_between]

/-- A known address is renewed in place. -/
theorem Turns.fill_known (ht : c.Turns newer older free) (ha : c.subnet.contains a = true)
    (h : a ∈ (newer ++ older).map Prod.fst) (hardware : Ethernet.Address) :
    ∃ slots, c.fill a hardware = .ok { c with slots } ∧ slots.length = c.slots.length ∧
      Turns { c with slots } (Roster.renew a hardware newer) (Roster.renew a hardware older)
        free := by
  obtain ⟨i, hi, hset⟩ := set_known ht.linked ht.distinct ha h hardware
    (List.replicate free none)
  rw [← ht.slots] at hi hset
  refine ⟨c.slots.set i (slot c.subnet (a, hardware)), ?_, List.length_set, ?_⟩
  · rw [fill, if_pos ha]
    dsimp only
    rw [hi]
    rfl
  · have happend : Roster.renew a hardware newer ++ Roster.renew a hardware older =
        Roster.renew a hardware (newer ++ older) := List.map_append.symm
    constructor
    · rw [happend]
      exact hset
    · exact ht.next.trans (List.length_map _).symm
    · exact ht.full.imp_left fun ho => congrArg _ ho
    · rw [happend]
      intro b hb
      obtain ⟨old, hold, rfl⟩ := List.mem_map.1 hb
      dsimp only
      split
      · exact ha
      · exact ht.linked old hold
    · rw [happend, map_fst_renew]
      exact ht.distinct

/-- The next slot is that of the oldest address, or the first one that is free. -/
theorem Turns.next_slot (ht : c.Turns newer older free) (hnext : c.next < c.slots.length) :
    ∃ x, c.slots = newer.map (slot c.subnet) ++ x ::
      (older.tail.map (slot c.subnet) ++ List.replicate (free - 1) none) := by
  rw [ht.next, ht.slots] at hnext
  rw [ht.slots, List.map_append, List.append_assoc]
  cases older with
  | cons oldest older =>
    obtain rfl : free = 0 := ht.full.resolve_left (List.cons_ne_nil _ _)
    exact ⟨_, rfl⟩
  | nil =>
    cases free with
    | zero => simp at hnext
    | succ free => exact ⟨_, rfl⟩

/-- A new address takes the next slot, and the oldest one is forgotten if none was free. -/
theorem Turns.fill_unknown (ht : c.Turns newer older free) (ha : c.subnet.contains a = true)
    (h : a ∉ (newer ++ older).map Prod.fst) (hnext : c.next < c.slots.length)
    (hardware : Ethernet.Address) : ∃ slots,
      c.fill a hardware = .ok { c with slots, next := (c.next + 1) % c.slots.length } ∧
      slots.length = c.slots.length ∧ Turns { c with slots, next := c.next + 1 }
        (newer ++ [(a, hardware)]) older.tail (free - 1) := by
  refine ⟨c.slots.set c.next (slot c.subnet (a, hardware)), ?_, List.length_set, ?_⟩
  · have hnone : c.slots.findIdx? (holds (c.subnet.hostPart a)) = none := by
      rw [ht.slots, List.findIdx?_append, not_holds_slot ht.linked ha h]
      simp [holds]
    rw [fill, if_pos ha]
    dsimp only
    rw [hnone]
    exact if_pos hnext
  · have hsub : (newer ++ older.tail).Sublist (newer ++ older) :=
      (List.Sublist.refl _).append (List.tail_sublist _)
    have hperm : (newer ++ [(a, hardware)] ++ older.tail).Perm
        ((a, hardware) :: (newer ++ older.tail)) := by
      rw [List.append_assoc]
      exact List.perm_middle
    obtain ⟨x, hslots⟩ := ht.next_slot hnext
    have hnewer : c.next = (newer.map (slot c.subnet)).length :=
      ht.next.trans (List.length_map _).symm
    constructor
    · rw [hnewer, hslots, set_between]
      simp
    · rw [List.length_append, ← ht.next]
      rfl
    · rcases ht.full with rfl | rfl
      · exact .inl rfl
      · exact .inr rfl
    · intro b hb
      rcases List.mem_cons.1 (hperm.mem_iff.1 hb) with rfl | hold
      · exact ha
      · exact ht.linked b (hsub.subset hold)
    · rw [(hperm.map Prod.fst).nodup_iff]
      exact List.nodup_cons.2 ⟨fun hold => h ((hsub.map _).subset hold),
        ht.distinct.sublist (hsub.map _)⟩

theorem Turns.wrap (ht : c.Turns newer older free) (hle : c.next ≤ c.slots.length) :
    ∃ newer' older', Turns { c with next := c.next % c.slots.length } newer' older' free ∧
      older' ++ newer' = older ++ newer := by
  by_cases hlt : c.next < c.slots.length
  · rw [Nat.mod_eq_of_lt hlt]
    exact ⟨newer, older, ht, rfl⟩
  · have hnext := ht.next
    have hlen := congrArg List.length ht.slots
    simp only [List.length_append, List.length_map, List.length_replicate] at hlen
    obtain rfl : older = [] := List.eq_nil_of_length_eq_zero (by omega)
    obtain rfl : free = 0 := by omega
    have hslots := ht.slots
    rw [List.append_nil] at hslots
    refine ⟨[], newer, ⟨hslots, ?_, .inr rfl, ?_, ?_⟩, List.append_nil newer⟩
    · have hend : c.next = c.slots.length := by omega
      rw [hend, Nat.mod_self]
      rfl
    · have hlinked := ht.linked
      rwa [List.append_nil] at hlinked
    · have hdistinct := ht.distinct
      rwa [List.append_nil] at hdistinct

theorem cleared_follows (subnet : Ipv4.Subnet) (n : Nat) :
    Follows ⟨subnet, List.replicate n none, 0⟩ ⟨subnet, n, []⟩ where
  subnet := rfl
  capacity := List.length_replicate.symm
  inside := id
  turns := ⟨[], [], n, ⟨rfl, rfl, .inl rfl, by simp, by simp⟩, rfl⟩

theorem Turns.length_slots (ht : c.Turns newer older free) :
    c.slots.length = newer.length + older.length + free := by
  rw [ht.slots, List.length_append, List.length_map, List.length_append, List.length_replicate]

theorem Turns.follows (ht : c.Turns newer older free) (hc : c.Inside) :
    c.Follows ⟨c.subnet, c.slots.length, older ++ newer⟩ := ⟨rfl, rfl, hc, _, _, _, ht, rfl⟩

inductive Agrees : Except NeighborError NeighborCache → Except NeighborError Roster → Prop
  | ok {c : NeighborCache} {q : Roster} (h : c.Follows q) : Agrees (.ok c) (.ok q)
  | error (e : NeighborError) : Agrees (.error e) (.error e)

theorem Follows.fill (h : c.Follows q) (a : Ipv4.Address) (hardware : Ethernet.Address) :
    Agrees (c.fill a hardware) (q.learn a hardware) := by
  obtain ⟨subnet, capacity, bindings⟩ := q
  obtain ⟨rfl, rfl, hinside, newer, older, free, ht, rfl⟩ := h
  have hmem : a ∈ (older ++ newer).map Prod.fst ↔ a ∈ (newer ++ older).map Prod.fst :=
    (List.perm_append_comm.map _).mem_iff
  unfold Roster.learn
  dsimp only
  split
  · next hoff =>
    have hfill : c.fill a hardware = .error .notOnLink := if_neg (by rw [hoff]; decide)
    rw [hfill]
    exact .error _
  next hlink =>
  have ha : c.subnet.contains a = true := by simpa using hlink
  split
  · next hempty =>
    have hslots : c.slots = [] := List.eq_nil_of_length_eq_zero hempty
    have hfill : c.fill a hardware = .error .noSpace := by
      rw [NeighborCache.fill, if_pos ha, hslots]
      rfl
    rw [hfill]
    exact .error _
  next hroom =>
  split
  · next hknown =>
    -- the address keeps its slot, and its place in the list
    obtain ⟨slots, hfill, hlen, ht'⟩ := ht.fill_known ha (hmem.1 hknown) hardware
    rw [hfill]
    have hfollows := ht'.follows (hinside.fill hfill)
    rw [hlen, Roster.renew, Roster.renew, ← List.map_append] at hfollows
    exact .ok hfollows
  next hnew =>
  -- the next slot is that of the oldest address, unless one is free
  have hnext := hinside (Nat.pos_of_ne_zero hroom)
  obtain ⟨slots, hfill, hlen, ht'⟩ := ht.fill_unknown ha (mt hmem.2 hnew) hnext hardware
  obtain ⟨newer', older', hturns, hsame⟩ := ht'.wrap (hlen ▸ hnext)
  dsimp only at hturns
  rw [hlen] at hturns
  have hfollows := hturns.follows (hinside.fill hfill)
  rw [hlen, hsame, ← List.append_assoc] at hfollows
  have hsum := ht.length_slots
  rw [ht.next] at hnext
  rw [hfill]
  split
  · next hfull =>
    rw [List.length_append] at hfull
    have holder : older ≠ [] := by
      rintro rfl
      simp only [List.length_nil] at hsum hfull
      omega
    rw [List.tail_append_of_ne_nil holder]
    exact .ok hfollows
  · next hspare =>
    rw [List.length_append] at hspare
    obtain rfl : older = [] := ht.full.resolve_right (by omega)
    exact .ok hfollows

theorem Turns.neighbors_eq (ht : c.Turns newer older free) :
    c.neighbors = (newer ++ older).map (neighbor c.subnet) := by
  have hfree (n : Nat) : (List.replicate n (none : Option Neighbor)).filterMap id = [] := by
    simp
  calc c.neighbors
    _ = ((newer ++ older).map (slot c.subnet) ++ List.replicate free none).filterMap id := by
      rw [neighbors, ht.slots]
    _ = ((newer ++ older).map (slot c.subnet)).filterMap id := by
      rw [List.filterMap_append, hfree, List.append_nil]
    _ = (newer ++ older).filterMap (id ∘ slot c.subnet) := List.filterMap_map
    _ = (newer ++ older).map (neighbor c.subnet) := congrFun List.filterMap_eq_map _

/-- The host part tells addresses on the link apart. -/
theorem find_neighbor (hl : ∀ b ∈ l, subnet.contains b.1 = true) (ha : subnet.contains a = true) :
    ((l.map (neighbor subnet)).find? fun n => n.hostPart == subnet.hostPart a).map (·.hardware) =
      l.lookup a := by
  induction l with
  | nil => rfl
  | cons b l ih =>
    have hb : (subnet.hostPart b.1 == subnet.hostPart a) = (a == b.1) := by
      rw [Bool.eq_iff_iff, beq_iff_eq, beq_iff_eq, eq_comm,
        Ipv4.Subnet.hostPart_inj ha (hl b (.head _))]
    have hrest := ih fun b hb => hl b (.tail _ hb)
    rw [List.map_cons, List.find?_cons, neighbor, hb, List.lookup_cons]
    cases a == b.1 with
    | true => rfl
    | false => exact hrest

theorem lookup_iff (hd : (l.map Prod.fst).Nodup) :
    l.lookup a = some hardware ↔ (a, hardware) ∈ l := by
  constructor
  · intro h
    obtain ⟨front, back, rfl, -⟩ := List.lookup_eq_some_iff.1 h
    exact List.mem_append_right _ (.head _)
  · intro h
    obtain ⟨front, old, back, rfl, hfront, hback⟩ := exists_split hd (List.mem_map_of_mem h)
    have hmem : a ∈ front.map Prod.fst ∨ hardware = old ∨ a ∈ back.map Prod.fst := by
      rcases List.mem_append.1 h with h | h
      · exact .inl (List.mem_map_of_mem h)
      · rcases List.mem_cons.1 h with h | h
        · exact .inr (.inl (congrArg Prod.snd h))
        · exact .inr (.inr (List.mem_map_of_mem h))
    obtain rfl : hardware = old := (hmem.resolve_left hfront).resolve_right hback
    refine List.lookup_eq_some_iff.2 ⟨front, back, rfl, fun p hp => ?_⟩
    rw [bne_iff_ne]
    have hother : p.1 ∈ front.map Prod.fst := List.mem_map_of_mem hp
    rintro rfl
    exact hfront hother

theorem Follows.shows (h : c.Follows q) : c.Shows q := by
  obtain ⟨subnet, capacity, bindings⟩ := q
  obtain ⟨rfl, rfl, -, newer, older, free, ht, rfl⟩ := h
  have hperm : (newer ++ older).Perm (older ++ newer) := List.perm_append_comm
  have hneighbors := ht.neighbors_eq
  have hlen := ht.length_slots
  constructor
  · rfl
  · rfl
  · dsimp only
    rw [List.length_append]
    omega
  · intro a hardware
    rw [lookup]
    split
    · next ha =>
      rw [hneighbors, find_neighbor ht.linked ha, lookup_iff ht.distinct, hperm.mem_iff]
      exact (and_iff_right ha).symm
    · next ha => simp [ha]
  · rw [length, hneighbors, List.length_map, hperm.length_eq]
  · rw [toList, hneighbors, List.map_map]
    have hsame : (newer ++ older).map
        ((fun n => (⟨c.subnet.network c.subnet.address ||| n.hostPart⟩, n.hardware)) ∘
          neighbor c.subnet) = (newer ++ older).map id := by
      refine List.map_congr_left fun b hb => ?_
      exact Prod.ext (Ipv4.Subnet.rebuilt (ht.linked b hb)) rfl
    rw [hsame, List.map_id]
    exact hperm
  · rw [hneighbors, List.map_map]
    have hdistinct := ht.distinct
    rw [List.nodup_iff_pairwise_ne, List.pairwise_map] at hdistinct ⊢
    refine hdistinct.imp_of_mem fun hb hb' hne hsame => hne ?_
    exact (Ipv4.Subnet.hostPart_inj (ht.linked _ hb) (ht.linked _ hb')).1 hsame

theorem Follows.distinct (h : c.Follows q) : (q.bindings.map Prod.fst).Nodup := by
  obtain ⟨newer, older, free, ht, hbindings⟩ := h.turns
  rw [hbindings, (List.perm_append_comm.map Prod.fst).nodup_iff]
  exact ht.distinct

theorem Follows.lookup (h : c.Follows q) (a : Ipv4.Address) : c.lookup a = q.find a := by
  refine Option.ext fun hardware => ?_
  rw [h.shows.lookup, ← lookup_iff h.distinct, Roster.find]
  split
  · next ha => exact and_iff_right ha
  · next ha => simp [ha]

theorem Agrees.filled {x : Except NeighborError NeighborCache} {y : Except NeighborError Roster}
    (hxy : Agrees x y) (h : c.Follows q) :
    (Call.filled c x).1 = (Call.filled q y).1 ∧
      (Call.filled c x).2.Follows (Call.filled q y).2 := by
  cases hxy with
  | ok h' => exact ⟨rfl, h'⟩
  | error e => exact ⟨rfl, h⟩

theorem Call.follows (h : c.Follows q) (call : Call) :
    (call.run c).1 = (call.act q).1 ∧ (call.run c).2.Follows (call.act q).2 := by
  have hclear (subnet : Ipv4.Subnet) : Follows ⟨subnet, List.replicate c.slots.length none, 0⟩
      ⟨subnet, q.capacity, []⟩ := h.capacity ▸ cleared_follows subnet _
  cases call with
  | fill a hardware =>
    exact (h.fill a hardware).filled h
  | clear =>
    refine ⟨rfl, ?_⟩
    rw [act, h.subnet]
    exact hclear c.subnet
  | setSubnet subnet => exact ⟨rfl, hclear subnet⟩
  | lookup a => exact ⟨congrArg Reply.found (h.lookup a), h⟩

theorem Call.runAll_follows (calls : List Call) (h : c.Follows q) :
    (Call.runAll Call.run calls c).1 = (Call.runAll Call.act calls q).1 ∧
      (Call.runAll Call.run calls c).2.Follows (Call.runAll Call.act calls q).2 := by
  induction calls generalizing c q with
  | nil => exact ⟨rfl, h⟩
  | cons call calls ih =>
    obtain ⟨hreply, hstep⟩ := call.follows h
    obtain ⟨hreplies, hrest⟩ := ih hstep
    refine ⟨?_, hrest⟩
    dsimp only [runAll]
    rw [hreply, hreplies]

/-- A cache with unused slots is a list of as many addresses: the same calls get the same replies
and in the end the same addresses are known. -/
theorem run_eq_roster (subnet : Ipv4.Subnet) (n : Nat) (calls : List Call) :
    let (replies, c) := Call.runAll Call.run calls (new subnet (List.replicate n none))
    let (answers, q) := Call.runAll Call.act calls ⟨subnet, n, []⟩
    replies = answers ∧ c.Shows q := by
  obtain ⟨hreplies, hfollows⟩ := Call.runAll_follows calls (cleared_follows subnet n)
  exact ⟨hreplies, hfollows.shows⟩

end NeighborCache

end Reflector.Arp
