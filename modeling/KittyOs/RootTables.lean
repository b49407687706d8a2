import KittyOs.MadtRecords
import KittyOs.TableBounds

/-!
# The two kinds of root table

An RSDT and an XSDT that list the same addresses, the one in four bytes and the
other in eight, are walked to the same `table_addresses`. A lookup by signature is
then a search of the list from its start.
-/

namespace KittyOs.RootTables

open KittyOs.Lib KittyOs.Lib.ByteMemory KittyOs.MachineWord KittyOs.RuntimeBlob
open KittyOs.AcpiModel KittyOs.MadtRecords KittyOs.TableBounds

set_option autoImplicit false

/-! ### Encoded root tables -/

/-- The fields of `struct sdt` around the length. -/
structure SdtFields where
  signature : List Byte
  rest : List Byte
  signatureSize : signature.length = 4
  restSize : rest.length = 28

def encodeAddresses (width : Nat) (addresses : List (BitVec 32)) : List Byte :=
  (addresses.map fun address => LittleEndian.encode width address.toNat).flatten

def encodeRoot (fields : SdtFields) (width : Nat) (addresses : List (BitVec 32)) : List Byte :=
  fields.signature ++ (LittleEndian.encode 4 (36 + width * addresses.length) ++
    (fields.rest ++ encodeAddresses width addresses))

theorem root_held {mem : Memory} {table : U64} {fields : SdtFields} {width : Nat}
    {addresses : List (BitVec 32)} (held : Holds mem table (encodeRoot fields width addresses)) :
    Holds mem (table + 4) (LittleEndian.encode 4 (36 + width * addresses.length)) ∧
      Holds mem (table + sdtSize) (encodeAddresses width addresses) := by
  simp only [encodeRoot, holds_append, fields.signatureSize, fields.restSize,
    LittleEndian.encode_length, BitVec.add_assoc] at held
  exact ⟨held.2.1, held.2.2.2⟩

/-- The entries are read one stride after the other. -/
theorem addresses_read {mem : Memory} {entries : U64} {width : Nat} {addresses : List (BitVec 32)}
    (wide : 2 ^ 32 ≤ 256 ^ width) (held : Holds mem entries (encodeAddresses width addresses)) :
    ((List.range addresses.length).map fun index =>
        fieldAt mem (entries + BitVec.ofNat 64 (index * width)) width) =
      addresses.map BitVec.toNat := by
  induction addresses generalizing entries with
  | nil => rfl
  | cons address rest ih =>
      rw [encodeAddresses, List.map_cons, List.flatten_cons, holds_append,
        LittleEndian.encode_length] at held
      have first : fieldAt mem entries width = address.toNat := by
        rw [field_held held.1, LittleEndian.decode_encode (lt_of_lt_of_le address.isLt wide)]
      have shift : ∀ index, entries + BitVec.ofNat 64 ((index + 1) * width) =
          entries + BitVec.ofNat 64 width + BitVec.ofNat 64 (index * width) := by
        intro index
        rw [Nat.succ_mul, Nat.add_comm, BitVec.ofNat_add, BitVec.add_assoc]
      rw [List.length_cons, List.range_succ_eq_map, List.map_cons, List.map_map, List.map_cons,
        ← ih held.2]
      congr 1
      · simpa using first
      · apply List.map_congr_left
        intro index _
        rw [Function.comp_apply, Nat.succ_eq_add_one, shift]

/-! ### The walk -/

/-- The array holds the addresses of the list, in its order and within its size. -/
structure Lists (hhdm : U64) (addresses : List (BitVec 32)) (walk : RootWalk) : Prop where
  tables : walk.tableAddresses = addresses.map fun address => address.setWidth 64 + hhdm
  slots : walk.writes = List.range addresses.length
  inside : ∀ slot ∈ walk.writes, slot < 256

/-- The walk over entries of either width, for a table that counts them. -/
theorem entries_listed {mem : Memory} {table hhdm divisor : U64} {fields : SdtFields}
    {width : Nat} {addresses : List (BitVec 32)} (divides : divisor.toNat = width)
    (positive : 0 < width) (narrow : width ≤ 8) (wide : 2 ^ 32 ≤ 256 ^ width)
    (few : addresses.length ≤ 256)
    (held : Holds mem table (encodeRoot fields width addresses)) :
    Lists hhdm addresses (traverseEntries mem hhdm (table + sdtSize) width
      (((sdtLength mem table).setWidth 64 - sdtSize) / divisor).toNat
      ⟨[], [sdtLengthSpan table], []⟩) := by
  obtain ⟨lengthHeld, entriesHeld⟩ := root_held held
  have product : width * addresses.length ≤ 8 * 256 := Nat.mul_le_mul narrow few
  have length : (sdtLength mem table).toNat = 36 + width * addresses.length := by
    rw [sdtLength, field_held lengthHeld, LittleEndian.decode_encode (by omega),
      BitVec.toNat_ofNat]
    omega
  have header : sdtSize.toNat = 36 := rfl
  have count : (((sdtLength mem table).setWidth 64 - sdtSize) / divisor).toNat =
      addresses.length := by
    rw [entry_count_covered (by omega), length, header, divides, Nat.add_sub_cancel_left,
      Nat.mul_div_cancel_left _ positive]
  have read := addresses_read wide entriesHeld
  rw [count, traverse_entries_eq]
  constructor
  · have widened : (addresses.map fun address => address.setWidth 64 + hhdm) =
        (addresses.map BitVec.toNat).map fun address => BitVec.ofNat 64 address + hhdm := by
      rw [List.map_map]
      apply List.map_congr_left
      intro address _
      rw [Function.comp_apply, BitVec.ofNat_toNat]
    rw [widened, ← read, List.map_map]
    rfl
  · simp
  · intro slot member
    simp at member
    omega

theorem rsdt_listed {mem : Memory} {table hhdm : U64} {fields : SdtFields}
    {addresses : List (BitVec 32)} (few : addresses.length ≤ 256)
    (held : Holds mem table (encodeRoot fields 4 addresses)) :
    Lists hhdm addresses (AcpiModel.traverse mem hhdm false table) :=
  entries_listed rfl (by omega) (by omega) (by decide) few held

theorem xsdt_listed {mem : Memory} {table hhdm : U64} {fields : SdtFields}
    {addresses : List (BitVec 32)} (few : addresses.length ≤ 256)
    (held : Holds mem table (encodeRoot fields 8 addresses)) :
    Lists hhdm addresses (AcpiModel.traverse mem hhdm true table) :=
  entries_listed rfl (by omega) (by omega) (by decide) few held

/-! ### Lookups -/

/-- The first table with the signature, if there is one. -/
inductive FirstTable (mem : Memory) (signature : List Byte) (tables : List U64) :
    Option U64 → Prop
  | found {before after : List U64} {table : U64} (split : tables = before ++ table :: after)
      (here : bytesAt mem table 4 = signature)
      (first : ∀ earlier ∈ before, bytesAt mem earlier 4 ≠ signature) :
      FirstTable mem signature tables (some table)
  | missing (absent : ∀ table ∈ tables, bytesAt mem table 4 ≠ signature) :
      FirstTable mem signature tables none

theorem signature_compares {mem : Memory} {signature : List Byte} (four : signature.length = 4)
    (table : U64) :
    (memcmp (bytesAt mem table 4) signature == 0) = true ↔ bytesAt mem table 4 = signature := by
  have length : (bytesAt mem table 4).length = signature.length := by
    rw [four, bytesAt, List.length_map, spanFrom, List.length_map, List.length_range]
  rw [beq_iff_eq, memcmp_zero_iff length]

theorem get_acpi_table_first (mem : Memory) (tables : List U64) {signature : List Byte}
    (four : signature.length = 4) :
    FirstTable mem signature tables (getAcpiTable mem tables signature) := by
  cases result : getAcpiTable mem tables signature with
  | none =>
      apply FirstTable.missing
      intro table member same
      exact List.find?_eq_none.mp result table member ((signature_compares four table).mpr same)
  | some table =>
      obtain ⟨here, before, after, split, first⟩ := List.find?_eq_some_iff_append.mp result
      apply FirstTable.found split ((signature_compares four table).mp here)
      intro earlier member same
      have passed := first earlier member
      rw [(signature_compares four earlier).mpr same] at passed
      exact absurd passed (by simp)

/-- Both root tables are walked to the listed addresses, and a lookup in any later
memory finds the first listed table with the signature. -/
theorem root_tables_agree {mem : Memory} {rsdt xsdt : U64} {rsdtFields xsdtFields : SdtFields}
    {addresses : List (BitVec 32)} (hhdm : U64) (few : addresses.length ≤ 256)
    (rsdtHeld : Holds mem rsdt (encodeRoot rsdtFields 4 addresses))
    (xsdtHeld : Holds mem xsdt (encodeRoot xsdtFields 8 addresses)) :
    (AcpiModel.traverse mem hhdm false rsdt).tableAddresses =
        (AcpiModel.traverse mem hhdm true xsdt).tableAddresses ∧
      ∀ usingXsdt : Bool, ∀ walk,
        walk = AcpiModel.traverse mem hhdm usingXsdt (if usingXsdt then xsdt else rsdt) →
        Lists hhdm addresses walk ∧ walk.tableAddresses.length = addresses.length ∧
          ∀ later : Memory, ∀ signature : List Byte, signature.length = 4 →
            FirstTable later signature
              (addresses.map fun address => address.setWidth 64 + hhdm)
              (getAcpiTable later walk.tableAddresses signature) := by
  have rsdtLists : Lists hhdm addresses (AcpiModel.traverse mem hhdm false rsdt) :=
    rsdt_listed few rsdtHeld
  have xsdtLists : Lists hhdm addresses (AcpiModel.traverse mem hhdm true xsdt) :=
    xsdt_listed few xsdtHeld
  refine ⟨rsdtLists.tables.trans xsdtLists.tables.symm, ?_⟩
  intro usingXsdt walk walked
  have lists : Lists hhdm addresses walk := by
    rw [walked]
    cases usingXsdt with
    | false => exact rsdtLists
    | true => exact xsdtLists
  refine ⟨lists, ?_, ?_⟩
  · rw [lists.tables, List.length_map]
  · intro later signature four
    rw [lists.tables]
    exact get_acpi_table_first later _ four

def sampleFields : SdtFields := ⟨[0x52, 0x53, 0x44, 0x54], List.replicate 28 0, rfl, rfl⟩

/-- The RSDT and the XSDT of one machine, with two tables each. -/
def sampleMemory : Memory := fun place =>
  if place < 0x200 then (encodeRoot sampleFields 4 [0x1000, 0x2000]).getD (place - 0x100) 0
  else (encodeRoot sampleFields 8 [0x1000, 0x2000]).getD (place - 0x200) 0

theorem sample_roots_agree :
    (AcpiModel.traverse sampleMemory 0xffff800000000000 false 0x100).tableAddresses =
      (AcpiModel.traverse sampleMemory 0xffff800000000000 true 0x200).tableAddresses := by
  have rsdtHeld : Holds sampleMemory 0x100 (encodeRoot sampleFields 4 [0x1000, 0x2000]) := by
    unfold Holds
    decide
  have xsdtHeld : Holds sampleMemory 0x200 (encodeRoot sampleFields 8 [0x1000, 0x2000]) := by
    unfold Holds
    decide
  exact (root_tables_agree 0xffff800000000000 (by decide) rsdtHeld xsdtHeld).1

end KittyOs.RootTables
