import KittyOs.Lib.BitFields
import KittyOs.VirtualModel

/-!
# Addresses as digits

A virtual address is the number its fields make up, so splitting it and putting it
together are inverse to each other. The table indexes are the base-512 digits of the
page number, and going from page to page is counting: the last slot advances by one,
and the table changes when it runs out of slots.
-/

namespace KittyOs.AddressDigits

open KittyOs.Lib.BitFields KittyOs.MachineWord KittyOs.VirtualModel

set_option autoImplicit false

/-! ### The codec -/

def addressPieces (fields : VirtualAddress) : List (Field × Nat) :=
  [(⟨0, 12⟩, fields.offset.toNat), (⟨12, 9⟩, fields.pt.toNat), (⟨21, 9⟩, fields.pd.toNat),
    (⟨30, 9⟩, fields.pdp.toNat), (⟨39, 9⟩, fields.pml4.toNat), (⟨48, 16⟩, fields.canonical.toNat)]

/-- A field of the structure, masked to its own width, in its place. -/
theorem placed_to_nat {width shift : Nat} (field : BitVec width) {mask : U64}
    (ones : mask.toNat = 2 ^ width - 1) (fits : shift + width ≤ 64) :
    ((field.setWidth 64 &&& mask) <<< shift).toNat = Field.place ⟨shift, width⟩ field.toNat := by
  have small : field.toNat < 2 ^ 64 :=
    Nat.lt_of_lt_of_le field.isLt (Nat.pow_le_pow_right (by omega) (by omega))
  rw [masked_to_nat _ ones fits, BitVec.toNat_setWidth, Nat.mod_eq_of_lt small]

theorem address_packed (fields : VirtualAddress) :
    (structureToVirtualAddress fields).toNat = packed (addressPieces fields) := by
  have twelve : (0xFFF : U64).toNat = 2 ^ 12 - 1 := rfl
  have nine : (0x1FF : U64).toNat = 2 ^ 9 - 1 := rfl
  have sixteen : (0xFFFF : U64).toNat = 2 ^ 16 - 1 := rfl
  have offset : (fields.offset.setWidth 64 &&& 0xFFF : U64).toNat =
      Field.place ⟨0, 12⟩ fields.offset.toNat := by
    rw [← BitVec.shiftLeft_zero (fields.offset.setWidth 64 &&& 0xFFF)]
    exact placed_to_nat fields.offset twelve (by omega)
  rw [packed_perm (List.reverse_perm (addressPieces fields)).symm]
  simp only [structureToVirtualAddress, BitVec.toNat_or, offset,
    placed_to_nat fields.canonical sixteen (show 48 + 16 ≤ 64 by omega),
    placed_to_nat fields.pml4 nine (show 39 + 9 ≤ 64 by omega),
    placed_to_nat fields.pdp nine (show 30 + 9 ≤ 64 by omega),
    placed_to_nat fields.pd nine (show 21 + 9 ≤ 64 by omega),
    placed_to_nat fields.pt nine (show 12 + 9 ≤ 64 by omega), Nat.or_assoc]
  simp only [addressPieces, List.reverse_cons, List.reverse_nil, List.nil_append, List.cons_append,
    packed, Nat.or_zero]

/-- The address is the number with the fields as its digits. -/
theorem address_to_nat (fields : VirtualAddress) :
    (structureToVirtualAddress fields).toNat =
      fields.offset.toNat + fields.pt.toNat * 2 ^ 12 + fields.pd.toNat * 2 ^ 21 +
        fields.pdp.toNat * 2 ^ 30 + fields.pml4.toNat * 2 ^ 39 + fields.canonical.toNat * 2 ^ 48 := by
  have ascending : (addressPieces fields).Pairwise fun low high =>
      low.1.shift + low.1.size ≤ high.1.shift := by
    simp [addressPieces]
  have fits : ∀ piece ∈ addressPieces fields, piece.2 < 2 ^ piece.1.size := by
    simp only [addressPieces, List.forall_mem_cons, List.not_mem_nil, false_implies, implies_true,
      and_true]
    exact ⟨fields.offset.isLt, fields.pt.isLt, fields.pd.isLt, fields.pdp.isLt, fields.pml4.isLt,
      fields.canonical.isLt⟩
  rw [address_packed, packed_eq_sum ascending fits]
  simp only [addressPieces, List.map_cons, List.map_nil, List.sum_cons, List.sum_nil]
  simp only [Nat.shiftLeft_eq, Nat.add_assoc, Nat.add_zero, pow_zero, Nat.mul_one]

theorem split_canonical_to_nat (address : U64) :
    (splitVirtualAddressToStructure address).canonical.toNat = address.toNat / 2 ^ 48 := by
  have bound := address.isLt
  have mask : (0xFFFF : U64).toNat = 2 ^ 16 - 1 := rfl
  rw [splitVirtualAddressToStructure, BitVec.toNat_setWidth, BitVec.toNat_and,
    BitVec.toNat_ushiftRight, mask, Nat.and_two_pow_sub_one_eq_mod, Nat.shiftRight_eq_div_pow,
    Nat.mod_mod]
  omega

theorem structure_of_split (address : U64) :
    structureToVirtualAddress (splitVirtualAddressToStructure address) = address := by
  have bound := address.isLt
  apply BitVec.eq_of_toNat_eq
  rw [address_to_nat, split_canonical_to_nat, split_pml4_to_nat, split_pdp_to_nat, split_pd_to_nat,
    split_pt_to_nat, split_offset_to_nat]
  omega

theorem split_of_structure (fields : VirtualAddress) :
    splitVirtualAddressToStructure (structureToVirtualAddress fields) = fields := by
  have value := address_to_nat fields
  have canonical := fields.canonical.isLt
  have pml4 := fields.pml4.isLt
  have pdp := fields.pdp.isLt
  have pd := fields.pd.isLt
  have pt := fields.pt.isLt
  have offset := fields.offset.isLt
  have same : ∀ left right : VirtualAddress, left.canonical.toNat = right.canonical.toNat →
      left.pml4.toNat = right.pml4.toNat → left.pdp.toNat = right.pdp.toNat →
      left.pd.toNat = right.pd.toNat → left.pt.toNat = right.pt.toNat →
      left.offset.toNat = right.offset.toNat → left = right := by
    intro left right
    cases left
    cases right
    simp only [BitVec.toNat_inj, VirtualAddress.mk.injEq]
    tauto
  apply same
  · rw [split_canonical_to_nat]
    omega
  · rw [split_pml4_to_nat]
    omega
  · rw [split_pdp_to_nat]
    omega
  · rw [split_pd_to_nat]
    omega
  · rw [split_pt_to_nat]
    omega
  · rw [split_offset_to_nat]
    omega

/-! ### Pages in a row -/

/-- The digit of a number in base 512. -/
def digit (number place : Nat) : Nat := number / 512 ^ place % 512

/-- The page `k` pages after an address. -/
def pageAfter (address : U64) (k : Nat) : U64 := address + BitVec.ofNat 64 (4096 * k)

/-- No carry leaves bit 47. -/
def WithoutCarry (address : U64) (k : Nat) : Prop :=
  address.toNat % 2 ^ 48 + 4096 * k < 2 ^ 48

/-- The number of the last-level table among all there could be. -/
def tableNumber (address : U64) : Nat :=
  ((splitVirtualAddressToStructure address).pml4.toNat * 512 +
      (splitVirtualAddressToStructure address).pdp.toNat) * 512 +
    (splitVirtualAddressToStructure address).pd.toNat

/-- How the fields of the pages after an address follow each other. -/
structure CountsPages (address : U64) (k : Nat) : Prop where
  digits : (pathOf (pageAfter address k)).map BitVec.toNat =
    [digit (address.toNat / 4096 + k) 3, digit (address.toNat / 4096 + k) 2,
      digit (address.toNat / 4096 + k) 1, digit (address.toNat / 4096 + k) 0]
  canonical : (splitVirtualAddressToStructure (pageAfter address k)).canonical =
    (splitVirtualAddressToStructure address).canonical
  offset : (splitVirtualAddressToStructure (pageAfter address k)).offset = 0
  sameTable : tablePathOf (pageAfter address k) = tablePathOf address ↔
    (lastSlotOf address).toNat + k < 512
  nextSlot : (lastSlotOf (pageAfter address k)).toNat < 511 → WithoutCarry address (k + 1) →
    tablePathOf (pageAfter address (k + 1)) = tablePathOf (pageAfter address k) ∧
      (lastSlotOf (pageAfter address (k + 1))).toNat =
        (lastSlotOf (pageAfter address k)).toNat + 1
  nextTable : (lastSlotOf (pageAfter address k)).toNat = 511 → WithoutCarry address (k + 1) →
    tableNumber (pageAfter address (k + 1)) = tableNumber (pageAfter address k) + 1 ∧
      (lastSlotOf (pageAfter address (k + 1))).toNat = 0

section Pages

variable {address : U64} {k : Nat}

theorem page_after_to_nat (without : WithoutCarry address k) :
    (pageAfter address k).toNat = address.toNat + 4096 * k := by
  have bound := address.isLt
  unfold WithoutCarry at without
  rw [pageAfter, BitVec.toNat_add, of_nat_to_nat (by omega)]
  omega

theorem last_slot_to_nat (address : U64) :
    (lastSlotOf address).toNat = address.toNat / 4096 % 512 :=
  split_pt_to_nat address

theorem table_number_eq (address : U64) :
    tableNumber address = address.toNat / 2 ^ 21 % 2 ^ 27 := by
  rw [tableNumber, split_pml4_to_nat, split_pdp_to_nat, split_pd_to_nat]
  omega

theorem table_path_eq_iff (left right : U64) :
    tablePathOf left = tablePathOf right ↔ tableNumber left = tableNumber right := by
  simp only [tablePathOf, List.cons.injEq, ← BitVec.toNat_inj, and_true, tableNumber,
    split_pml4_to_nat, split_pdp_to_nat, split_pd_to_nat]
  omega

theorem counts_pages (aligned : address.toNat % 4096 = 0) (without : WithoutCarry address k) :
    CountsPages address k := by
  have here := page_after_to_nat without
  have bound : address.toNat % 2 ^ 48 + 4096 * k < 2 ^ 48 := without
  constructor
  · simp only [pathOf, VirtualAddress.path, List.map_cons, List.map_nil, split_pml4_to_nat,
      split_pdp_to_nat, split_pd_to_nat, split_pt_to_nat, digit, here, List.cons.injEq, and_true]
    omega
  · apply BitVec.eq_of_toNat_eq
    rw [split_canonical_to_nat, split_canonical_to_nat, here]
    omega
  · apply BitVec.eq_of_toNat_eq
    rw [split_offset_to_nat, here]
    exact (by omega : (address.toNat + 4096 * k) % 4096 = 0)
  · rw [table_path_eq_iff, table_number_eq, table_number_eq, last_slot_to_nat, here]
    omega
  · intro room withoutNext
    have next := page_after_to_nat withoutNext
    rw [last_slot_to_nat, here] at room
    rw [table_path_eq_iff, table_number_eq, table_number_eq, last_slot_to_nat, last_slot_to_nat,
      here, next]
    omega
  · intro full withoutNext
    have next := page_after_to_nat withoutNext
    have nextBound : address.toNat % 2 ^ 48 + 4096 * (k + 1) < 2 ^ 48 := withoutNext
    rw [last_slot_to_nat, here] at full
    rw [table_number_eq, table_number_eq, last_slot_to_nat, here, next]
    omega

end Pages

/-- Splitting and joining are inverse to each other, and pages in a row count in base
512 as long as no carry leaves bit 47. -/
theorem addresses_count_in_base_512 :
    (∀ address, structureToVirtualAddress (splitVirtualAddressToStructure address) = address) ∧
      (∀ fields, splitVirtualAddressToStructure (structureToVirtualAddress fields) = fields) ∧
      ∀ address k, address.toNat % 4096 = 0 → WithoutCarry address k → CountsPages address k := by
  refine ⟨structure_of_split, split_of_structure, ?_⟩
  intro address k aligned without
  exact counts_pages aligned without

end KittyOs.AddressDigits
