import KittyOs.AcpiModel

/-!
# Decoding the MADT

Well-formed MADT entries with their encodings, and the tables `parse_apic_table`
makes of a memory that holds them: the first 256 entries of each kind, in the order
of the table. The walk over the encodings carries the entries done so far; the
tables are always the expected ones for these.
-/

namespace KittyOs.MadtRecords

open KittyOs.Lib KittyOs.Lib.ByteMemory KittyOs.MachineWord KittyOs.RuntimeBlob KittyOs.AcpiModel

set_option autoImplicit false

/-! ### Bytes in memory -/

theorem span_from_succ (start : U64) (count : Nat) :
    spanFrom start (count + 1) = start :: spanFrom (start + 1) count := by
  simp only [spanFrom, List.range_succ_eq_map, List.map_cons, List.map_map, BitVec.ofNat_eq_ofNat,
    BitVec.add_zero]
  congr 1
  apply List.map_congr_left
  intro index _
  simp only [Function.comp_apply]
  bv_omega

/-- A memory holds a byte sequence from an address on. -/
def Holds (mem : Memory) (address : U64) (bytes : List Byte) : Prop :=
  bytesAt mem address bytes.length = bytes

theorem holds_nil (mem : Memory) (address : U64) : Holds mem address [] := rfl

theorem holds_cons (mem : Memory) (address : U64) (byte : Byte) (bytes : List Byte) :
    Holds mem address (byte :: bytes) ↔
      mem address.toNat = byte ∧ Holds mem (address + 1) bytes := by
  simp only [Holds, bytesAt, List.length_cons, span_from_succ, List.map_cons, List.cons.injEq]

theorem holds_append (mem : Memory) (address : U64) (left right : List Byte) :
    Holds mem address (left ++ right) ↔
      Holds mem address left ∧ Holds mem (address + BitVec.ofNat 64 left.length) right := by
  induction left generalizing address with
  | nil => simp [holds_nil]
  | cons byte left ih =>
      have next : address + 1 + BitVec.ofNat 64 left.length =
          address + BitVec.ofNat 64 (byte :: left).length := by
        rw [List.length_cons]
        bv_omega
      rw [List.cons_append, holds_cons, ih, holds_cons, next, and_assoc]

theorem field_held {mem : Memory} {address : U64} {count value : Nat}
    (held : Holds mem address (LittleEndian.encode count value)) :
    fieldAt mem address count = LittleEndian.decode (LittleEndian.encode count value) := by
  unfold Holds at held
  rw [LittleEndian.encode_length] at held
  rw [fieldAt, held]

/-! ### Entries -/

def encodeLocalApic (entry : LocalApicEntry) : List Byte :=
  entry.type :: entry.length :: entry.processorId :: entry.apicId ::
    LittleEndian.encode 4 entry.flags.toNat

def encodeIoApic (entry : IoApicEntry) : List Byte :=
  entry.type :: entry.length :: entry.ioApicId :: entry.reserved ::
    (LittleEndian.encode 4 entry.ioApicAddress.toNat ++
      LittleEndian.encode 4 entry.globalSystemInterruptBase.toNat)

def encodeInterruptSourceOverride (entry : InterruptSourceOverrideEntry) : List Byte :=
  entry.type :: entry.length :: entry.bus :: entry.source ::
    (LittleEndian.encode 4 entry.globalSystemInterrupt.toNat ++
      LittleEndian.encode 2 entry.flags.toNat)

def encodeNonMaskableInterrupt (entry : NonMaskableInterruptEntry) : List Byte :=
  entry.type :: entry.length :: entry.processorId ::
    (LittleEndian.encode 2 entry.flags.toNat ++ [entry.lint])

/-- A well-formed entry: the type fits the structure and the length field counts the
structure and what follows it. -/
inductive MadtEntry where
  | localApic (entry : LocalApicEntry) (rest : List Byte) (typed : entry.type = 0)
      (sized : entry.length.toNat = 8 + rest.length)
  | ioApic (entry : IoApicEntry) (rest : List Byte) (typed : entry.type = 1)
      (sized : entry.length.toNat = 12 + rest.length)
  | interruptSourceOverride (entry : InterruptSourceOverrideEntry) (rest : List Byte)
      (typed : entry.type = 2) (sized : entry.length.toNat = 10 + rest.length)
  | nonMaskableInterrupt (entry : NonMaskableInterruptEntry) (rest : List Byte)
      (typed : entry.type = 4) (sized : entry.length.toNat = 6 + rest.length)
  | other (type length : Byte) (rest : List Byte)
      (typed : type ≠ 0 ∧ type ≠ 1 ∧ type ≠ 2 ∧ type ≠ 4)
      (sized : length.toNat = 2 + rest.length)

def MadtEntry.encode : MadtEntry → List Byte
  | .localApic entry rest _ _ => encodeLocalApic entry ++ rest
  | .ioApic entry rest _ _ => encodeIoApic entry ++ rest
  | .interruptSourceOverride entry rest _ _ => encodeInterruptSourceOverride entry ++ rest
  | .nonMaskableInterrupt entry rest _ _ => encodeNonMaskableInterrupt entry ++ rest
  | .other type length rest _ _ => type :: length :: rest

def encodeAll (entries : List MadtEntry) : List Byte := (entries.map MadtEntry.encode).flatten

def MadtEntry.localApic? : MadtEntry → Option LocalApicEntry
  | .localApic entry _ _ _ => some entry
  | _ => none

def MadtEntry.ioApic? : MadtEntry → Option IoApicEntry
  | .ioApic entry _ _ _ => some entry
  | _ => none

def MadtEntry.interruptSourceOverride? : MadtEntry → Option InterruptSourceOverrideEntry
  | .interruptSourceOverride entry _ _ _ => some entry
  | _ => none

def MadtEntry.nonMaskableInterrupt? : MadtEntry → Option NonMaskableInterruptEntry
  | .nonMaskableInterrupt entry _ _ _ => some entry
  | _ => none

/-- The first 256 entries of each kind. -/
def expected (entries : List MadtEntry) : MadtTables where
  localApics := (entries.filterMap MadtEntry.localApic?).take 256
  ioApics := (entries.filterMap MadtEntry.ioApic?).take 256
  interruptSourceOverrides := (entries.filterMap MadtEntry.interruptSourceOverride?).take 256
  nonMaskableInterrupts := (entries.filterMap MadtEntry.nonMaskableInterrupt?).take 256

/-! ### One entry -/

section Overlays

variable {mem : Memory} {place : U64}

theorem word_held {address : U64} {value : BitVec 32}
    (held : Holds mem address (LittleEndian.encode 4 value.toNat)) :
    BitVec.ofNat 32 (fieldAt mem address 4) = value := by
  rw [field_held held, LittleEndian.decode_encode_bits value (by decide)]

theorem half_held {address : U64} {value : BitVec 16}
    (held : Holds mem address (LittleEndian.encode 2 value.toNat)) :
    BitVec.ofNat 16 (fieldAt mem address 2) = value := by
  rw [field_held held, LittleEndian.decode_encode_bits value (by decide)]

theorem local_apic_held {entry : LocalApicEntry} (held : Holds mem place (encodeLocalApic entry)) :
    LocalApicEntry.at mem place = entry := by
  simp only [encodeLocalApic, holds_cons, BitVec.add_assoc] at held
  obtain ⟨type, length, processorId, apicId, flags⟩ := held
  rw [LocalApicEntry.at, type]
  exact (LocalApicEntry.mk.injEq ..).mpr ⟨rfl, length, processorId, apicId, word_held flags⟩

theorem io_apic_held {entry : IoApicEntry} (held : Holds mem place (encodeIoApic entry)) :
    IoApicEntry.at mem place = entry := by
  simp only [encodeIoApic, holds_cons, holds_append, LittleEndian.encode_length,
    BitVec.add_assoc] at held
  obtain ⟨type, length, ioApicId, reserved, ioApicAddress, gsiBase⟩ := held
  rw [IoApicEntry.at, type]
  exact (IoApicEntry.mk.injEq ..).mpr
    ⟨rfl, length, ioApicId, reserved, word_held ioApicAddress, word_held gsiBase⟩

theorem override_held {entry : InterruptSourceOverrideEntry}
    (held : Holds mem place (encodeInterruptSourceOverride entry)) :
    InterruptSourceOverrideEntry.at mem place = entry := by
  simp only [encodeInterruptSourceOverride, holds_cons, holds_append,
    LittleEndian.encode_length, BitVec.add_assoc] at held
  obtain ⟨type, length, bus, source, gsi, flags⟩ := held
  rw [InterruptSourceOverrideEntry.at, type]
  exact (InterruptSourceOverrideEntry.mk.injEq ..).mpr
    ⟨rfl, length, bus, source, word_held gsi, half_held flags⟩

theorem non_maskable_held {entry : NonMaskableInterruptEntry}
    (held : Holds mem place (encodeNonMaskableInterrupt entry)) :
    NonMaskableInterruptEntry.at mem place = entry := by
  simp only [encodeNonMaskableInterrupt, holds_cons, holds_append,
    LittleEndian.encode_length, BitVec.add_assoc] at held
  obtain ⟨type, length, processorId, flags, lint, _⟩ := held
  rw [NonMaskableInterruptEntry.at, type]
  exact (NonMaskableInterruptEntry.mk.injEq ..).mpr ⟨rfl, length, processorId, half_held flags, lint⟩

def MadtEntry.kind : MadtEntry → Option ApicEntryType
  | .localApic _ _ _ _ => some .localApic
  | .ioApic _ _ _ _ => some .ioApic
  | .interruptSourceOverride _ _ _ _ => some .interruptSourceOverride
  | .nonMaskableInterrupt _ _ _ _ => some .nonMaskableInterrupt
  | .other _ _ _ _ _ => none

theorem entry_type_other {type : Byte} (typed : type ≠ 0 ∧ type ≠ 1 ∧ type ≠ 2 ∧ type ≠ 4) :
    entryType type = none := by
  obtain ⟨notLocal, notIo, notOverride, notNmi⟩ := typed
  unfold entryType
  split <;> first | rfl | (exfalso; bv_omega)

/-- Every encoding begins with the type and the length of the whole. -/
theorem encode_head (entry : MadtEntry) :
    ∃ type length rest, entry.encode = type :: length :: rest ∧ entryType type = entry.kind ∧
      length.toNat = entry.encode.length := by
  cases entry with
  | localApic entry rest typed sized =>
      refine ⟨_, _, _, rfl, by rw [typed]; rfl, ?_⟩
      simp [sized, MadtEntry.encode, encodeLocalApic, LittleEndian.encode_length]
      omega
  | ioApic entry rest typed sized =>
      refine ⟨_, _, _, rfl, by rw [typed]; rfl, ?_⟩
      simp [sized, MadtEntry.encode, encodeIoApic, LittleEndian.encode_length]
      omega
  | interruptSourceOverride entry rest typed sized =>
      refine ⟨_, _, _, rfl, by rw [typed]; rfl, ?_⟩
      simp [sized, MadtEntry.encode, encodeInterruptSourceOverride, LittleEndian.encode_length]
      omega
  | nonMaskableInterrupt entry rest typed sized =>
      refine ⟨_, _, _, rfl, by rw [typed]; rfl, ?_⟩
      simp [sized, MadtEntry.encode, encodeNonMaskableInterrupt, LittleEndian.encode_length]
      omega
  | other type length rest typed sized =>
      refine ⟨_, _, _, rfl, entry_type_other typed, ?_⟩
      simp [sized, MadtEntry.encode]
      omega

theorem head_held {entry : MadtEntry} (held : Holds mem place entry.encode) :
    entryType (mem place.toNat) = entry.kind ∧
      (mem (place + 1).toNat).toNat = entry.encode.length := by
  obtain ⟨type, length, rest, split, typed, sized⟩ := encode_head entry
  have bytes := held
  rw [split, holds_cons, holds_cons] at bytes
  rw [bytes.1, bytes.2.1]
  exact ⟨typed, sized⟩

theorem take_snoc {Entry : Type} (entries : List Entry) (entry : Entry) :
    (entries ++ [entry]).take 256 =
      if (entries.take 256).length < 256 then entries.take 256 ++ [entry]
      else entries.take 256 := by
  rw [List.length_take]
  by_cases short : entries.length < 256
  · rw [if_pos (by omega), List.take_of_length_le (by simp; omega),
      List.take_of_length_le (by omega)]
  · rw [if_neg (by omega), List.take_append_of_le_length (by omega)]

end Overlays

/-! ### The walk -/

section Walk

variable {mem : Memory}

theorem expected_snoc (done : List MadtEntry) (entry : MadtEntry) :
    expected (done ++ [entry]) =
      { localApics := (done.filterMap MadtEntry.localApic? ++ entry.localApic?.toList).take 256
        ioApics := (done.filterMap MadtEntry.ioApic? ++ entry.ioApic?.toList).take 256
        interruptSourceOverrides :=
          (done.filterMap MadtEntry.interruptSourceOverride? ++
            entry.interruptSourceOverride?.toList).take 256
        nonMaskableInterrupts :=
          (done.filterMap MadtEntry.nonMaskableInterrupt? ++
            entry.nonMaskableInterrupt?.toList).take 256 } := by
  simp only [expected, List.filterMap_append]
  cases entry <;> rfl

theorem parse_entry_kept {place : U64} {kind : ApicEntryType}
    (typed : entryType (mem place.toNat) = some kind) (walk : MadtWalk) :
    (parseEntry mem place walk).tables =
      if walk.tables.count kind < 256 then walk.tables.store mem place kind else walk.tables := by
  simp only [parseEntry, typed]
  split_ifs <;> rfl

theorem parse_entry_skipped {place : U64} (typed : entryType (mem place.toNat) = none)
    (walk : MadtWalk) : (parseEntry mem place walk).tables = walk.tables := by
  simp only [parseEntry, typed]

/-- One round of the `switch` on an encoded entry. -/
theorem parse_entry_expected {place : U64} {entry : MadtEntry}
    (held : Holds mem place entry.encode) {done : List MadtEntry} {walk : MadtWalk}
    (tables : walk.tables = expected done) :
    (parseEntry mem place walk).tables = expected (done ++ [entry]) := by
  have kind := (head_held held).1
  cases entry with
  | localApic entry rest typed sized =>
      have read := local_apic_held ((holds_append mem place _ _).mp held).1
      rw [parse_entry_kept kind, tables, expected_snoc]
      simp only [MadtTables.count, MadtTables.store, read, expected, MadtEntry.localApic?,
        MadtEntry.ioApic?, MadtEntry.interruptSourceOverride?, MadtEntry.nonMaskableInterrupt?,
        Option.toList, List.append_nil, take_snoc]
      split_ifs <;> rfl
  | ioApic entry rest typed sized =>
      have read := io_apic_held ((holds_append mem place _ _).mp held).1
      rw [parse_entry_kept kind, tables, expected_snoc]
      simp only [MadtTables.count, MadtTables.store, read, expected, MadtEntry.localApic?,
        MadtEntry.ioApic?, MadtEntry.interruptSourceOverride?, MadtEntry.nonMaskableInterrupt?,
        Option.toList, List.append_nil, take_snoc]
      split_ifs <;> rfl
  | interruptSourceOverride entry rest typed sized =>
      have read := override_held ((holds_append mem place _ _).mp held).1
      rw [parse_entry_kept kind, tables, expected_snoc]
      simp only [MadtTables.count, MadtTables.store, read, expected, MadtEntry.localApic?,
        MadtEntry.ioApic?, MadtEntry.interruptSourceOverride?, MadtEntry.nonMaskableInterrupt?,
        Option.toList, List.append_nil, take_snoc]
      split_ifs <;> rfl
  | nonMaskableInterrupt entry rest typed sized =>
      have read := non_maskable_held ((holds_append mem place _ _).mp held).1
      rw [parse_entry_kept kind, tables, expected_snoc]
      simp only [MadtTables.count, MadtTables.store, read, expected, MadtEntry.localApic?,
        MadtEntry.ioApic?, MadtEntry.interruptSourceOverride?, MadtEntry.nonMaskableInterrupt?,
        Option.toList, List.append_nil, take_snoc]
      split_ifs <;> rfl
  | other type length rest typed sized =>
      rw [parse_entry_skipped kind, tables, expected_snoc]
      simp only [expected, MadtEntry.localApic?, MadtEntry.ioApic?,
        MadtEntry.interruptSourceOverride?, MadtEntry.nonMaskableInterrupt?, Option.toList,
        List.append_nil]

/-- The entry loop over encodings that end where the table ends. -/
theorem parse_entries_expected {tableEnd : U64} (entries : List MadtEntry) {done : List MadtEntry}
    {current : U64} {walk : MadtWalk} {fuel : Nat} (held : Holds mem current (encodeAll entries))
    (ends : current.toNat + (encodeAll entries).length = tableEnd.toNat)
    (tables : walk.tables = expected done) (enough : entries.length < fuel) :
    ∃ final, parseEntries mem tableEnd fuel current walk = some final ∧
      final.tables = expected (done ++ entries) := by
  induction entries generalizing done current walk fuel with
  | nil =>
      obtain ⟨fuel, rfl⟩ : ∃ rest, fuel = rest + 1 := ⟨fuel - 1, by simp at enough; omega⟩
      have ended : ¬current < tableEnd := by
        simp only [encodeAll, List.map_nil, List.flatten_nil, List.length_nil] at ends
        bv_omega
      exact ⟨walk, by rw [parseEntries, if_neg ended], by rw [tables, List.append_nil]⟩
  | cons entry entries ih =>
      obtain ⟨fuel, rfl⟩ : ∃ rest, fuel = rest + 1 := ⟨fuel - 1, by simp at enough; omega⟩
      have split : encodeAll (entry :: entries) = entry.encode ++ encodeAll entries := rfl
      rw [split, holds_append] at held
      rw [split, List.length_append] at ends
      obtain ⟨type, length, rest, encoded, _, sized⟩ := encode_head entry
      have positive : 0 < entry.encode.length := by
        rw [encoded, List.length_cons]
        omega
      have inside : current < tableEnd := by bv_omega
      have bound := tableEnd.isLt
      have size : (mem (current + 1).toNat).setWidth 64 =
          BitVec.ofNat 64 entry.encode.length := by
        apply BitVec.eq_of_toNat_eq
        rw [BitVec.toNat_setWidth, (head_held held.1).2, BitVec.toNat_ofNat]
      rw [parseEntries, if_pos inside, size, List.append_cons]
      apply ih held.2
      · bv_omega
      · exact parse_entry_expected held.1 tables
      · simp only [List.length_cons] at enough
        omega

/-- A memory with a MADT of these entries: its length covers them, and it ends below the
end of the address space. -/
structure HoldsMadt (mem : Memory) (table : U64) (entries : List MadtEntry) : Prop where
  length : (sdtLength mem table).toNat = 44 + (encodeAll entries).length
  bytes : Holds mem (table + 44) (encodeAll entries)
  fits : table.toNat + 44 + (encodeAll entries).length < 2 ^ 64

theorem expected_count (entries : List MadtEntry) (kind : ApicEntryType) :
    (expected entries).count kind =
      min 256 (entries.countP fun entry => entry.kind = some kind) := by
  cases kind <;>
    simp only [MadtTables.count, expected, List.length_take, List.length_filterMap_eq_countP] <;>
    congr 1 <;>
    apply List.countP_congr <;>
    intro entry _ <;>
    cases entry <;>
    simp [MadtEntry.kind, MadtEntry.localApic?, MadtEntry.ioApic?,
      MadtEntry.interruptSourceOverride?, MadtEntry.nonMaskableInterrupt?]

theorem madt_entries_decoded {state : AcpiState} {table : U64} (entries : List MadtEntry)
    (found : getAcpiTable mem state.tableAddresses apicSignature = some table)
    (fresh : state.madt = .empty) (held : HoldsMadt mem table entries) :
    (∀ fuel, entries.length < fuel → ∃ reads, parseApicTable mem fuel state =
      some ({ state with apicTable := some table, madt := expected entries }, reads)) ∧
    ∀ kind, (expected entries).count kind =
      min 256 (entries.countP fun entry => entry.kind = some kind) := by
  refine ⟨?_, expected_count entries⟩
  intro fuel enough
  have fits := held.fits
  have length := held.length
  have start : (table + apicSize).toNat = table.toNat + 44 := by
    unfold apicSize
    bv_omega
  have ends : (table + (sdtLength mem table).setWidth 64).toNat =
      table.toNat + 44 + (encodeAll entries).length := by
    rw [BitVec.toNat_add, BitVec.toNat_setWidth, length]
    omega
  have begun : (MadtWalk.mk state.madt
      [⟨table + 36, 4⟩, ⟨table + 40, 4⟩, sdtLengthSpan table]).tables = expected [] := fresh
  obtain ⟨final, ran, tables⟩ := parse_entries_expected entries held.bytes
    (by rw [ends]; exact congrArg (· + _) start) begun enough
  refine ⟨final.reads, ?_⟩
  rw [List.nil_append] at tables
  simp only [parseApicTable, found]
  rw [show table + apicSize = table + 44 from rfl, ran, Option.map_some, tables]

end Walk

/-- A MADT at 0x1000 with a record of each kind and one of a type the kernel does not know. -/
def mixedRecords : Memory := fun address =>
  ([0x41, 0x50, 0x49, 0x43, 92] ++ List.replicate 39 0 ++ [0, 8, 1, 2, 1, 0, 0, 0] ++
    [5, 12, 0, 0, 0, 0, 0xe0, 0xfe, 0, 0, 0, 0] ++ [1, 12, 4, 0, 0, 0, 0xc0, 0xfe, 24, 0, 0, 0] ++
    [2, 10, 0, 0, 2, 0, 0, 0, 0, 0] ++ [4, 6, 255, 0, 0, 1]).getD (address - 0x1000) 0

theorem mixed_records_decoded :
    ∃ reads, parseApicTable mixedRecords 6 ⟨[0x1000], none, .empty⟩ =
      some (⟨[0x1000], some 0x1000, ⟨[⟨0, 8, 1, 2, 1⟩], [⟨1, 12, 4, 0, 0xfec00000, 24⟩],
        [⟨2, 10, 0, 0, 2, 0⟩], [⟨4, 6, 255, 0, 1⟩]⟩⟩, reads) :=
  (madt_entries_decoded [.localApic ⟨0, 8, 1, 2, 1⟩ [] rfl rfl,
    .other 5 12 [0, 0, 0, 0, 0xe0, 0xfe, 0, 0, 0, 0] (by decide) rfl,
    .ioApic ⟨1, 12, 4, 0, 0xfec00000, 24⟩ [] rfl rfl,
    .interruptSourceOverride ⟨2, 10, 0, 0, 2, 0⟩ [] rfl rfl,
    .nonMaskableInterrupt ⟨4, 6, 255, 0, 1⟩ [] rfl rfl] (by decide) rfl
    ⟨by decide, by unfold Holds; decide, by decide⟩).1 6 (by decide)

end KittyOs.MadtRecords
