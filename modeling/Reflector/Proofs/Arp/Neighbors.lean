import Reflector.Arp.NeighborCache
/-!
What a cache does with an address that is new or known to it, whatever its slots hold.
-/
namespace Reflector.Arp.NeighborCache

variable {c c' : NeighborCache} {a : Ipv4.Address} {hardware : Ethernet.Address}

def Inside (c : NeighborCache) : Prop := 0 < c.slots.length → c.next < c.slots.length

theorem new_inside (subnet : Ipv4.Subnet) (slots : List (Option Neighbor)) :
    (new subnet slots).Inside := id

theorem clear_inside (c : NeighborCache) : c.clear.Inside := by
  intro h
  exact h

theorem setSubnet_inside (c : NeighborCache) (subnet : Ipv4.Subnet) : (c.setSubnet subnet).Inside :=
  c.clear_inside

/-- An address is written to the slot that holds it already, else to the next one. No slot in front
of it holds the address. -/
theorem fill_cases (h : c.fill a hardware = .ok c') : c.subnet.contains a = true ∧
    ∃ i next, c' = { c with slots := c.slots.set i (some ⟨c.subnet.hostPart a, hardware⟩), next } ∧
      i < c.slots.length ∧ (∀ x ∈ c.slots.take i, holds (c.subnet.hostPart a) x = false) ∧
      (next = c.next ∨ next = (c.next + 1) % c.slots.length) := by
  unfold fill at h
  split at h
  case isFalse => cases h
  next hlink =>
    refine ⟨hlink, ?_⟩
    dsimp only at h
    split at h
    · next i hi =>
      obtain ⟨hlen, -, hfront⟩ := List.findIdx?_eq_some_iff_getElem.1 hi
      refine ⟨i, c.next, (Except.ok.inj h).symm, hlen, fun x hx => ?_, .inl rfl⟩
      obtain ⟨j, hj, rfl⟩ := List.mem_take_iff_getElem.1 hx
      simpa using hfront j (by omega)
    · next hnone =>
      split at h
      case isFalse => cases h
      next hnext =>
        refine ⟨c.next, _, (Except.ok.inj h).symm, hnext, fun x hx => ?_, .inr rfl⟩
        exact List.findIdx?_eq_none_iff.1 hnone x (List.mem_of_mem_take hx)

theorem Inside.fill (hc : c.Inside) (h : c.fill a hardware = .ok c') : c'.Inside := by
  obtain ⟨-, i, next, rfl, -, -, hnext⟩ := fill_cases h
  intro hlen
  simp only [List.length_set] at hlen ⊢
  rcases hnext with rfl | rfl
  · exact hc hlen
  · exact Nat.mod_lt _ hlen

/-- On the link, a cache with a slot takes every address. -/
theorem Inside.fill_ok (hc : c.Inside) (hroom : 0 < c.slots.length)
    (ha : c.subnet.contains a = true) (hardware : Ethernet.Address) :
    ∃ c', c.fill a hardware = .ok c' := by
  unfold NeighborCache.fill
  rw [if_pos ha]
  dsimp only
  split
  · exact ⟨_, rfl⟩
  · exact ⟨_, if_pos (hc hroom)⟩

theorem fill_subnet (h : c.fill a hardware = .ok c') : c'.subnet = c.subnet := by
  obtain ⟨-, i, next, rfl, -⟩ := fill_cases h
  rfl

theorem find_neighbors (c : NeighborCache) (k : UInt32) :
    c.neighbors.find? (fun n => n.hostPart == k) = (c.slots.find? (holds k)).bind id := by
  have hholds : (fun s : Option Neighbor => (id s).any fun n => n.hostPart == k) = holds k := by
    funext s
    cases s <;> rfl
  rw [neighbors, List.find?_filterMap, hholds]

theorem lookup_fill (h : c.fill a hardware = .ok c') : c'.lookup a = some hardware := by
  obtain ⟨hlink, i, next, rfl, hi, hfront, -⟩ := fill_cases h
  have hset : c.slots.set i (some ⟨c.subnet.hostPart a, hardware⟩) =
      c.slots.take i ++ some ⟨c.subnet.hostPart a, hardware⟩ :: c.slots.drop (i + 1) :=
    List.set_eq_take_append_cons_drop.trans (if_pos hi)
  have hfront' : (c.slots.take i).find? (holds (c.subnet.hostPart a)) = none :=
    List.find?_eq_none.2 fun x hx => by rw [hfront x hx]; decide
  rw [lookup, if_pos hlink, find_neighbors]
  dsimp only
  rw [hset, List.find?_append, hfront', Option.none_or, List.find?_cons_of_pos (by simp [holds])]
  rfl

end Reflector.Arp.NeighborCache
