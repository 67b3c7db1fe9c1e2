import Reflector.Proofs.Ipv4.Netmask
/-!
An address is made of its network and its host bits; on the link the host bits alone tell it. Two
addresses are on one link if they share the network, and the last address of the link has all host
bits set.
-/
namespace Reflector.Ipv4.Subnet

variable {s : Subnet} {a b : Address}

theorem network_or_hostPart (s : Subnet) (a : Address) :
    s.network a ||| s.hostPart a = a.value := by
  rw [network, hostPart, ← UInt32.toBitVec_inj]
  ext i
  simp only [UInt32.toBitVec_or, UInt32.toBitVec_and, UInt32.toBitVec_not, BitVec.getElem_or,
    BitVec.getElem_and, BitVec.getElem_not]
  rw [← Bool.and_or_distrib_left, Bool.or_not_self, Bool.and_true]

theorem mask_eq (s : Subnet) (a : Address) : a.mask s.prefixLen = .ok ⟨s.network a⟩ :=
  if_pos s.prefixLen_le

theorem contains_iff : s.contains a = true ↔ s.network s.address = s.network a := beq_iff_eq

theorem contains_iff_mask :
    s.contains a = true ↔ s.address.mask s.prefixLen = a.mask s.prefixLen := by
  rw [mask_eq, mask_eq, Except.ok.injEq, Address.mk.injEq, contains_iff]

/-- An address on the link is rebuilt from its host bits. -/
theorem rebuilt (h : s.contains a = true) : ⟨s.network s.address ||| s.hostPart a⟩ = a := by
  rw [contains_iff.1 h, network_or_hostPart]

theorem hostPart_inj (ha : s.contains a = true) (hb : s.contains b = true) :
    s.hostPart a = s.hostPart b ↔ a = b := by
  refine ⟨fun h => ?_, congrArg _⟩
  calc a
    _ = ⟨s.network s.address ||| s.hostPart a⟩ := (rebuilt ha).symm
    _ = ⟨s.network s.address ||| s.hostPart b⟩ := by rw [h]
    _ = b := rebuilt hb

def around (s : Subnet) (a : Address) : Subnet := { s with address := a }

theorem around_contains_iff : (s.around a).contains b = true ↔ s.network a = s.network b :=
  contains_iff

theorem around_equivalence (s : Subnet) :
    Equivalence fun a b => (s.around a).contains b = true where
  refl _ := around_contains_iff.2 rfl
  symm h := around_contains_iff.2 (around_contains_iff.1 h).symm
  trans h h' := around_contains_iff.2 ((around_contains_iff.1 h).trans (around_contains_iff.1 h'))

theorem toNat_not_netmask (s : Subnet) :
    (~~~s.netmask.value).toNat = 1 <<< (32 - s.prefixLen) - 1 :=
  s.zerosBelow_netmask.toNat_not (Nat.sub_le _ _)

theorem toNat_hostPart (s : Subnet) (a : Address) :
    (s.hostPart a).toNat = a.value.toNat % 1 <<< (32 - s.prefixLen) := by
  calc (s.hostPart a).toNat
    _ = a.value.toNat &&& (~~~s.netmask.value).toNat := UInt32.toNat_and _ _
    _ = a.value.toNat &&& (1 <<< (32 - s.prefixLen) - 1) := by rw [toNat_not_netmask]
    _ = a.value.toNat % 1 <<< (32 - s.prefixLen) := by
      rw [Nat.one_shiftLeft, Nat.and_two_pow_sub_one_eq_mod]

def last (s : Subnet) (a : Address) : Address := ⟨a.value ||| ~~~s.netmask.value⟩

theorem network_last (s : Subnet) (a : Address) : s.network (s.last a) = s.network a := by
  rw [network, network, last, ← UInt32.toBitVec_inj]
  ext i
  simp only [UInt32.toBitVec_or, UInt32.toBitVec_and, UInt32.toBitVec_not, BitVec.getElem_or,
    BitVec.getElem_and, BitVec.getElem_not]
  rw [Bool.and_or_distrib_right, Bool.not_and_self, Bool.or_false]

theorem hostPart_last (s : Subnet) (a : Address) : s.hostPart (s.last a) = ~~~s.netmask.value := by
  have habsorb (x y : Bool) : ((x || y) && y) = y := by cases y <;> simp
  rw [hostPart, last, ← UInt32.toBitVec_inj]
  ext i
  simp only [UInt32.toBitVec_or, UInt32.toBitVec_and, BitVec.getElem_or, BitVec.getElem_and,
    habsorb]

theorem contains_last (h : s.contains a = true) : s.contains (s.last a) = true :=
  contains_iff.2 ((contains_iff.1 h).trans (s.network_last a).symm)

theorem last_eq (h : s.contains a = true) : s.last a = s.last s.address := by
  refine (hostPart_inj (contains_last h) (contains_last (contains_iff.2 rfl))).1 ?_
  rw [hostPart_last, hostPart_last]

structure IsLast (s : Subnet) (b : Address) : Prop where
  linked : s.contains b = true
  hostBits : (s.hostPart b).toNat = 1 <<< (32 - s.prefixLen) - 1
  largest (a : Address) : s.contains a = true → s.hostPart a ≤ s.hostPart b ∧ a.value ≤ b.value

theorem isLast_last (s : Subnet) : s.IsLast (s.last s.address) where
  linked := contains_last (contains_iff.2 rfl)
  hostBits := by rw [hostPart_last, toNat_not_netmask]
  largest a h := by
    rw [hostPart_last, ← last_eq h]
    exact ⟨UInt32.and_le_right, UInt32.left_le_or⟩

theorem broadcast_eq (h : s.prefixLen < 31) : s.broadcast = some (s.last s.address) :=
  if_pos (decide_eq_true h)

/-- What is accepted is on the link, if it is not for all links. -/
theorem accepts_cases (h : s.accepts a = true) : s.contains a = true ∨ a = .broadcast := by
  simp only [accepts, Address.isBroadcast, Bool.or_eq_true, beq_iff_eq] at h
  obtain (rfl | hdirected) | hlimited := h
  · exact .inl (contains_iff.2 rfl)
  · unfold broadcast at hdirected
    split at hdirected
    · cases hdirected
      exact .inl s.isLast_last.linked
    · cases hdirected
  · exact .inr hlimited

/-- Masks, host parts and broadcast addresses fit together, whatever the prefix. What is on the link
has the same masked address. The host part is a remainder, and together with the network it is the
address; it tells the addresses on a link apart. To be on the link is one class of an equivalence,
the same around each of its addresses. The directed broadcast address is its last one, and only the
limited broadcast is accepted from outside. -/
theorem subnet_consistent (s : Subnet) :
    (∀ a, s.contains a = true ↔ s.address.mask s.prefixLen = a.mask s.prefixLen) ∧
    (∀ a, (s.hostPart a).toNat = a.value.toNat % 1 <<< (32 - s.prefixLen)) ∧
    (∀ a, s.contains a = true →
      s.address.value &&& s.netmask.value ||| s.hostPart a = a.value) ∧
    (∀ a b, s.contains a = true → s.contains b = true → s.hostPart a = s.hostPart b → a = b) ∧
    (Equivalence fun a b => (s.around a).contains b = true) ∧
    (∀ a b, s.contains a = true → (s.contains b = true ↔ (s.around a).contains b = true)) ∧
    s.contains s.address = true ∧
    (s.prefixLen < 31 → ∃ b, s.broadcast = some b ∧ s.IsLast b) ∧
    ∀ a, s.accepts a = true → s.contains a = true ∨ a = .broadcast := by
  refine ⟨fun a => contains_iff_mask, s.toNat_hostPart,
    fun a ha => congrArg Address.value (rebuilt ha), fun a b ha hb => (hostPart_inj ha hb).1,
    s.around_equivalence, fun a b ha => ?_, contains_iff.2 rfl,
    fun h => ⟨_, broadcast_eq h, s.isLast_last⟩, fun a => accepts_cases⟩
  rw [contains_iff, around_contains_iff, contains_iff.1 ha]

def campus : Subnet := { address := .ofOctets 192 168 201 40, prefixLen := 22 }

theorem subnet_consistent_campus :
    campus.contains (.ofOctets 192 168 200 7) = true ∧
    campus.contains (.ofOctets 192 168 203 7) = true ∧
    campus.hostPart (.ofOctets 192 168 200 7) ≠ campus.hostPart (.ofOctets 192 168 203 7) ∧
    campus.address.value &&& campus.netmask.value ||| campus.hostPart (.ofOctets 192 168 203 7) =
      (Address.ofOctets 192 168 203 7).value ∧
    campus.prefixLen < 31 ∧ campus.IsLast (.ofOctets 192 168 203 255) ∧
    campus.accepts (.ofOctets 192 168 203 255) = true ∧
    (campus.contains (.ofOctets 192 168 203 255) = true ∨
      Address.ofOctets 192 168 203 255 = .broadcast) := by
  obtain ⟨-, -, hsplit, hinj, -, -, -, hlast, haccepts⟩ := subnet_consistent campus
  have hfirst : campus.contains (.ofOctets 192 168 200 7) = true := by decide
  have hfourth : campus.contains (.ofOctets 192 168 203 7) = true := by decide
  have hown : campus.accepts (.ofOctets 192 168 203 255) = true := by decide
  have hshort : campus.prefixLen < 31 := by decide
  obtain ⟨b, hb, hend⟩ := hlast hshort
  obtain rfl : .ofOctets 192 168 203 255 = b := Option.some.inj hb
  exact ⟨hfirst, hfourth, fun h => absurd (hinj _ _ hfirst hfourth h) (by decide),
    hsplit _ hfourth, hshort, hend, hown, haccepts _ hown⟩

end Reflector.Ipv4.Subnet
