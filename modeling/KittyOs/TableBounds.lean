import KittyOs.PcieModel

/-!
# Bounds of the table walkers

Which bytes of a root table and of an MCFG table the walkers read, and which slots
of `table_addresses` they write. Both take the number of entries from the length
field, less the header, in unsigned arithmetic: a length below the header makes it
huge, and a root table of more than 256 entries runs over the array.
-/

namespace KittyOs.TableBounds

open KittyOs.Lib.ByteMemory KittyOs.MachineWord KittyOs.AcpiModel KittyOs.PcieModel

set_option autoImplicit false

/-- All bytes of the span belong to the `length` bytes from `table` on. -/
def Inside (table : U64) (length : Nat) (span : Span) : Prop :=
  ∀ index, index < span.size → (span.address + BitVec.ofNat 64 index - table).toNat < length

theorem inside_iff {table : U64} {length offset size : Nat} (positive : 0 < size)
    (bound : offset + size < 2 ^ 64) :
    Inside table length ⟨table + BitVec.ofNat 64 offset, size⟩ ↔ offset + size ≤ length := by
  have place : ∀ index, index < size →
      (table + BitVec.ofNat 64 offset + BitVec.ofNat 64 index - table).toNat = offset + index := by
    intro index below
    have shift : table + BitVec.ofNat 64 offset + BitVec.ofNat 64 index - table =
        BitVec.ofNat 64 (offset + index) := by
      rw [BitVec.ofNat_add, BitVec.add_assoc, BitVec.add_comm, BitVec.add_sub_cancel]
    rw [shift, BitVec.toNat_ofNat, Nat.mod_eq_of_lt (by omega)]
  constructor
  · intro inside
    have last := inside (size - 1) (by dsimp only; omega)
    dsimp only at last
    rw [place (size - 1) (by omega)] at last
    omega
  · intro fits index below
    dsimp only at below ⊢
    rw [place index below]
    omega

/-! ### The root table -/

theorem traverse_entries_eq (mem : Memory) (hhdm entries : U64) (width count : Nat)
    (walk : RootWalk) :
    traverseEntries mem hhdm entries width count walk =
      { tableAddresses := walk.tableAddresses ++ (List.range count).map fun index =>
          BitVec.ofNat 64 (fieldAt mem (entries + BitVec.ofNat 64 (index * width)) width) + hhdm
        reads := walk.reads ++ (List.range count).map fun index =>
          ⟨entries + BitVec.ofNat 64 (index * width), width⟩
        writes := walk.writes ++ (List.range count).map (walk.tableAddresses.length + ·) } := by
  unfold traverseEntries
  induction count with
  | zero => simp
  | succ count ih =>
      rw [List.range_succ, List.foldl_append, ih]
      simp [addTable, List.map_append]

/-- The walk stays in the table and in the array. -/
structure RootSafe (table : U64) (length : Nat) (walk : RootWalk) : Prop where
  reads : ∀ span ∈ walk.reads, Inside table length span
  writes : ∀ index ∈ walk.writes, index < 256

section Counts

variable {length : BitVec 32} {header width : U64}

theorem length_to_nat : (length.setWidth 64).toNat = length.toNat := by
  rw [BitVec.toNat_setWidth]
  omega

theorem entry_count_covered (covers : header.toNat ≤ length.toNat) :
    ((length.setWidth 64 - header) / width).toNat =
      (length.toNat - header.toNat) / width.toNat := by
  have below : header ≤ length.setWidth 64 := by
    rw [BitVec.le_def, length_to_nat]
    exact covers
  rw [BitVec.toNat_udiv, BitVec.toNat_sub_of_le below, length_to_nat]

/-- A length below the header still leaves entries to read. -/
theorem entry_count_wrapped (positive : 0 < width.toNat) (narrow : width.toNat ≤ 16)
    (small : header.toNat < 64) (short : length.toNat < header.toNat) :
    0 < ((length.setWidth 64 - header) / width).toNat := by
  rw [BitVec.toNat_udiv, BitVec.toNat_sub, length_to_nat]
  apply Nat.div_pos _ positive
  omega

end Counts

theorem inside_at {table address : U64} {length offset size : Nat}
    (place : address = table + BitVec.ofNat 64 offset) (positive : 0 < size)
    (bound : offset + size < 2 ^ 64) :
    Inside table length ⟨address, size⟩ ↔ offset + size ≤ length := by
  rw [place]
  exact inside_iff positive bound

theorem sdt_length_inside_iff {table : U64} {length : Nat} :
    Inside table length (sdtLengthSpan table) ↔ 8 ≤ length := by
  have four : 4 + 4 < 2 ^ 64 := by decide
  exact inside_iff (by decide) four

theorem entry_ends {length header width index : Nat} (covers : header ≤ length)
    (below : index < (length - header) / width) : header + index * width + width ≤ length := by
  have product : (index + 1) * width ≤ (length - header) / width * width :=
    Nat.mul_le_mul_right width below
  have whole := Nat.div_mul_le_self (length - header) width
  have expand : (index + 1) * width = index * width + width := Nat.succ_mul index width
  omega

/-- The walk over a root table, for either width of its entries. -/
theorem root_safe_iff (mem : Memory) (hhdm table : U64) {divisor : U64} {width : Nat}
    (divides : divisor.toNat = width) (positive : 0 < width) (narrow : width ≤ 8) :
    RootSafe table (sdtLength mem table).toNat
        (traverseEntries mem hhdm (table + sdtSize) width
          (((sdtLength mem table).setWidth 64 - sdtSize) / divisor).toNat
          ⟨[], [sdtLengthSpan table], []⟩) ↔
      36 ≤ (sdtLength mem table).toNat ∧ ((sdtLength mem table).toNat - 36) / width ≤ 256 := by
  generalize sdtLength mem table = length
  have bound := length.isLt
  have header : sdtSize.toNat = 36 := rfl
  have place : ∀ index, table + sdtSize + BitVec.ofNat 64 (index * width) =
      table + BitVec.ofNat 64 (36 + index * width) := by
    intro index
    rw [BitVec.ofNat_add, BitVec.add_assoc]
    rfl
  rw [traverse_entries_eq]
  constructor
  · rintro ⟨reads, writes⟩
    have covers : 36 ≤ length.toNat := by
      by_contra short
      have more := entry_count_wrapped (divides ▸ positive) (by omega) (by omega : sdtSize.toNat < 64)
        (by omega : length.toNat < sdtSize.toNat)
      have first := reads ⟨table + sdtSize + BitVec.ofNat 64 (0 * width), width⟩
        (List.mem_append_right _ (List.mem_map.mpr ⟨0, List.mem_range.mpr more, rfl⟩))
      rw [inside_at (place 0) positive (by omega)] at first
      omega
    refine ⟨covers, ?_⟩
    rw [entry_count_covered (by omega), header, divides] at writes
    by_contra many
    have last := writes 256 (by simp; omega)
    omega
  · rintro ⟨covers, few⟩
    rw [entry_count_covered (by omega), header, divides]
    constructor
    · intro span member
      rcases List.mem_append.mp member with listed | listed
      · rw [List.mem_singleton.mp listed]
        exact sdt_length_inside_iff.mpr (by omega)
      · obtain ⟨index, below, rfl⟩ := List.mem_map.mp listed
        have ends := entry_ends covers (List.mem_range.mp below)
        exact (inside_at (place index) positive (by omega)).mpr ends
    · intro index member
      simp only [List.nil_append, List.length_nil, List.mem_map, List.mem_range] at member
      obtain ⟨slot, below, rfl⟩ := member
      omega

/-! ### The MCFG table -/

theorem initialize_pcie_reads (mem : Memory) (table : U64) :
    (initializePcie mem table).reads = sdtLengthSpan table ::
      (List.range (mcfgEntryCount (sdtLength mem table)).toNat).flatMap fun index =>
        mcfgEntrySpans (table + sdtSize + 8 + BitVec.ofNat 64 (index * 16)) := by
  unfold initializePcie
  induction (mcfgEntryCount (sdtLength mem table)).toNat with
  | zero => rfl
  | succ count ih =>
      rw [List.range_succ, List.foldl_append, List.foldl_cons, List.foldl_nil, ih,
        List.flatMap_append]
      simp

theorem entry_spans_inside_iff {table : U64} {length index : Nat}
    (bound : 44 + index * 16 + 12 < 2 ^ 64) :
    (∀ span ∈ mcfgEntrySpans (table + sdtSize + 8 + BitVec.ofNat 64 (index * 16)),
      Inside table length span) ↔ 44 + index * 16 + 12 ≤ length := by
  have place : table + sdtSize + 8 + BitVec.ofNat 64 (index * 16) =
      table + BitVec.ofNat 64 (44 + index * 16) := by
    rw [BitVec.ofNat_add, ← BitVec.add_assoc, BitVec.add_assoc table]
    rfl
  have later : ∀ start, table + sdtSize + 8 + BitVec.ofNat 64 (index * 16) + BitVec.ofNat 64 start =
      table + BitVec.ofNat 64 (44 + index * 16 + start) := by
    intro start
    rw [place, BitVec.add_assoc, ← BitVec.ofNat_add]
  simp only [mcfgEntrySpans, List.forall_mem_cons, List.not_mem_nil, false_imp_iff, implies_true,
    and_true]
  have startBus : Inside table length
      ⟨table + sdtSize + 8 + BitVec.ofNat 64 (index * 16) + 10, 1⟩ ↔
        44 + index * 16 + 10 + 1 ≤ length := inside_at (later 10) (by decide) (by omega)
  have endBus : Inside table length
      ⟨table + sdtSize + 8 + BitVec.ofNat 64 (index * 16) + 11, 1⟩ ↔
        44 + index * 16 + 11 + 1 ≤ length := inside_at (later 11) (by decide) (by omega)
  rw [inside_at place (by decide) (by omega), startBus, endBus]
  omega

theorem mcfg_inside_iff (mem : Memory) (table : U64) :
    (∀ span ∈ (initializePcie mem table).reads, Inside table (sdtLength mem table).toNat span) ↔
      44 ≤ (sdtLength mem table).toNat := by
  rw [initialize_pcie_reads]
  generalize sdtLength mem table = length
  have bound := length.isLt
  have header : (sdtSize + 8).toNat = 44 := rfl
  have counted : mcfgEntryCount length = (length.setWidth 64 - (sdtSize + 8)) / 16 := by
    rw [mcfgEntryCount, BitVec.sub_sub]
  rw [counted, List.forall_mem_cons, sdt_length_inside_iff]
  constructor
  · rintro ⟨_, entries⟩
    by_contra short
    have more := entry_count_wrapped (show 0 < (16 : U64).toNat by decide) (by decide)
      (by decide : (sdtSize + 8).toNat < 64) (by omega : length.toNat < (sdtSize + 8).toNat)
    have first := (entry_spans_inside_iff (by omega)).mp fun span member =>
      entries span (List.mem_flatMap.mpr ⟨0, List.mem_range.mpr more, member⟩)
    omega
  · intro covers
    refine ⟨by omega, ?_⟩
    rw [entry_count_covered (by omega), header]
    intro span member
    obtain ⟨index, below, listed⟩ := List.mem_flatMap.mp member
    have ends := entry_ends covers (List.mem_range.mp below)
    have sixteen : (16 : U64).toNat = 16 := rfl
    rw [sixteen] at ends
    exact (entry_spans_inside_iff (by omega)).mpr (by omega) span listed

theorem walkers_inside_iff_lengths (mem : Memory) (hhdm : U64) :
    (∀ usingXsdt table,
      RootSafe table (sdtLength mem table).toNat (traverse mem hhdm usingXsdt table) ↔
        36 ≤ (sdtLength mem table).toNat ∧
          ((sdtLength mem table).toNat - 36) / (if usingXsdt then 8 else 4) ≤ 256) ∧
    ∀ table,
      (∀ span ∈ (initializePcie mem table).reads, Inside table (sdtLength mem table).toNat span) ↔
        44 ≤ (sdtLength mem table).toNat := by
  refine ⟨?_, mcfg_inside_iff mem⟩
  intro usingXsdt table
  cases usingXsdt with
  | true =>
      have eight : (8 : U64).toNat = 8 := rfl
      rw [AcpiModel.traverse, if_pos rfl, if_pos rfl]
      exact root_safe_iff mem hhdm table eight (by decide) (by decide)
  | false =>
      have four : (4 : U64).toNat = 4 := rfl
      rw [AcpiModel.traverse, if_neg Bool.false_ne_true, if_neg Bool.false_ne_true]
      exact root_safe_iff mem hhdm table four (by decide) (by decide)

/-- An RSDT whose length field says 0: its first entry lies behind the header. -/
theorem empty_root_overrun :
    (sdtLength (fun _ => 0) 0x1000).toNat = 0 ∧
      ¬RootSafe 0x1000 0 (traverse (fun _ => 0) 0 false 0x1000) := by
  have none : sdtLength (fun _ => 0) 0x1000 = 0 := by decide
  have zero : (sdtLength (fun _ => 0) 0x1000).toNat = 0 := by rw [none]; rfl
  have four : (4 : U64).toNat = 4 := rfl
  refine ⟨zero, fun safe => ?_⟩
  rw [← zero, AcpiModel.traverse, if_neg Bool.false_ne_true] at safe
  have covers := ((root_safe_iff _ 0 0x1000 four (by decide) (by decide)).mp safe).1
  omega

end KittyOs.TableBounds
