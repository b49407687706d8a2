import KittyOs.Lib.LittleEndian
import KittyOs.RuntimeBlob

/-!
# ACPI tables

The table walkers of `acpi/acpi.cpp`. A table is the memory behind its pointer. The
walkers take what they read from it as it comes, so beside their results they keep
the spans of memory they read and the slots of `table_addresses` they write. The
four kinds of MADT entries that are kept go through packed overlays of their own.
-/

namespace KittyOs.AcpiModel

open KittyOs.Lib KittyOs.Lib.ByteMemory KittyOs.MachineWord KittyOs.RuntimeBlob

set_option autoImplicit false

/-- A number of bytes from an address on. -/
structure Span where
  address : U64
  size : Nat
deriving DecidableEq, Repr

def bytesAt (mem : Memory) (address : U64) (count : Nat) : List Byte :=
  (spanFrom address count).map fun place => mem place.toNat

/-- A field of `size` bytes. -/
def fieldAt (mem : Memory) (address : U64) (size : Nat) : Nat :=
  LittleEndian.decode (bytesAt mem address size)

/-- `sizeof(struct sdt)`. -/
def sdtSize : U64 := 36

/-- `sdt.length`. -/
def sdtLength (mem : Memory) (table : U64) : BitVec 32 := BitVec.ofNat 32 (fieldAt mem (table + 4) 4)

def sdtLengthSpan (table : U64) : Span := ⟨table + 4, 4⟩

/-! ### The root table -/

structure RootWalk where
  tableAddresses : List U64
  reads : List Span
  writes : List Nat
deriving DecidableEq, Repr

def addTable (hhdm : U64) (walk : RootWalk) (physicalAddress : U64) : RootWalk :=
  { walk with
    tableAddresses := walk.tableAddresses ++ [physicalAddress + hhdm]
    writes := walk.writes ++ [walk.tableAddresses.length] }

/-- The loop of `traverse` over entries of `width` bytes. -/
def traverseEntries (mem : Memory) (hhdm entries : U64) (width count : Nat) (walk : RootWalk) :
    RootWalk :=
  (List.range count).foldl
    (fun walk tableIndex =>
      let address := entries + BitVec.ofNat 64 (tableIndex * width)
      addTable hhdm { walk with reads := walk.reads ++ [⟨address, width⟩] }
        (BitVec.ofNat 64 (fieldAt mem address width)))
    walk

/-- `traverse` from `table_count` 0, with the root table that `using_xsdt` selects. -/
def traverse (mem : Memory) (hhdm : U64) (usingXsdt : Bool) (table : U64) : RootWalk :=
  let walk : RootWalk := ⟨[], [sdtLengthSpan table], []⟩
  let length := (sdtLength mem table).setWidth 64
  if usingXsdt then
    traverseEntries mem hhdm (table + sdtSize) 8 ((length - sdtSize) / 8).toNat walk
  else
    traverseEntries mem hhdm (table + sdtSize) 4 ((length - sdtSize) / 4).toNat walk

/-- The first table found whose signature compares equal. -/
def getAcpiTable (mem : Memory) (tableAddresses : List U64) (signature : List Byte) : Option U64 :=
  tableAddresses.find? fun table => memcmp (bytesAt mem table 4) signature == 0

/-! ### The MADT -/

def apicSignature : List Byte := [0x41, 0x50, 0x49, 0x43]

/-- `sizeof(struct apic)`. -/
def apicSize : U64 := 44

structure LocalApicEntry where
  type : Byte
  length : Byte
  processorId : Byte
  apicId : Byte
  flags : BitVec 32
deriving DecidableEq, Repr

structure IoApicEntry where
  type : Byte
  length : Byte
  ioApicId : Byte
  reserved : Byte
  ioApicAddress : BitVec 32
  globalSystemInterruptBase : BitVec 32
deriving DecidableEq, Repr

structure InterruptSourceOverrideEntry where
  type : Byte
  length : Byte
  bus : Byte
  source : Byte
  globalSystemInterrupt : BitVec 32
  flags : BitVec 16
deriving DecidableEq, Repr

structure NonMaskableInterruptEntry where
  type : Byte
  length : Byte
  processorId : Byte
  flags : BitVec 16
  lint : Byte
deriving DecidableEq, Repr

def LocalApicEntry.at (mem : Memory) (entry : U64) : LocalApicEntry where
  type := mem entry.toNat
  length := mem (entry + 1).toNat
  processorId := mem (entry + 2).toNat
  apicId := mem (entry + 3).toNat
  flags := BitVec.ofNat 32 (fieldAt mem (entry + 4) 4)

def IoApicEntry.at (mem : Memory) (entry : U64) : IoApicEntry where
  type := mem entry.toNat
  length := mem (entry + 1).toNat
  ioApicId := mem (entry + 2).toNat
  reserved := mem (entry + 3).toNat
  ioApicAddress := BitVec.ofNat 32 (fieldAt mem (entry + 4) 4)
  globalSystemInterruptBase := BitVec.ofNat 32 (fieldAt mem (entry + 8) 4)

def InterruptSourceOverrideEntry.at (mem : Memory) (entry : U64) :
    InterruptSourceOverrideEntry where
  type := mem entry.toNat
  length := mem (entry + 1).toNat
  bus := mem (entry + 2).toNat
  source := mem (entry + 3).toNat
  globalSystemInterrupt := BitVec.ofNat 32 (fieldAt mem (entry + 4) 4)
  flags := BitVec.ofNat 16 (fieldAt mem (entry + 8) 2)

def NonMaskableInterruptEntry.at (mem : Memory) (entry : U64) : NonMaskableInterruptEntry where
  type := mem entry.toNat
  length := mem (entry + 1).toNat
  processorId := mem (entry + 2).toNat
  flags := BitVec.ofNat 16 (fieldAt mem (entry + 3) 2)
  lint := mem (entry + 5).toNat

/-- The kinds of entries `parse_apic_table` keeps. -/
inductive ApicEntryType where
  | localApic
  | ioApic
  | interruptSourceOverride
  | nonMaskableInterrupt
deriving DecidableEq, Repr

def entryType (type : Byte) : Option ApicEntryType :=
  match type.toNat with
  | 0 => some .localApic
  | 1 => some .ioApic
  | 2 => some .interruptSourceOverride
  | 4 => some .nonMaskableInterrupt
  | _ => none

/-- The size of the packed structure. -/
def ApicEntryType.size : ApicEntryType → Nat
  | .localApic => 8
  | .ioApic => 12
  | .interruptSourceOverride => 10
  | .nonMaskableInterrupt => 6

/-- The arrays up to their counts. -/
structure MadtTables where
  localApics : List LocalApicEntry
  ioApics : List IoApicEntry
  interruptSourceOverrides : List InterruptSourceOverrideEntry
  nonMaskableInterrupts : List NonMaskableInterruptEntry
deriving DecidableEq, Repr

def MadtTables.empty : MadtTables := ⟨[], [], [], []⟩

def MadtTables.count (tables : MadtTables) : ApicEntryType → Nat
  | .localApic => tables.localApics.length
  | .ioApic => tables.ioApics.length
  | .interruptSourceOverride => tables.interruptSourceOverrides.length
  | .nonMaskableInterrupt => tables.nonMaskableInterrupts.length

/-- The assignment of one `case`, with the increment of its count. -/
def MadtTables.store (mem : Memory) (entry : U64) (tables : MadtTables) :
    ApicEntryType → MadtTables
  | .localApic => { tables with localApics := tables.localApics ++ [.at mem entry] }
  | .ioApic => { tables with ioApics := tables.ioApics ++ [.at mem entry] }
  | .interruptSourceOverride =>
      { tables with
        interruptSourceOverrides := tables.interruptSourceOverrides ++ [.at mem entry] }
  | .nonMaskableInterrupt =>
      { tables with nonMaskableInterrupts := tables.nonMaskableInterrupts ++ [.at mem entry] }

structure MadtWalk where
  tables : MadtTables
  reads : List Span
deriving DecidableEq, Repr

/-- The `switch` of the entry loop. -/
def parseEntry (mem : Memory) (entry : U64) (walk : MadtWalk) : MadtWalk :=
  match entryType (mem entry.toNat) with
  | some kind =>
      if walk.tables.count kind < 256 then
        { tables := walk.tables.store mem entry kind
          reads := walk.reads ++ [⟨entry, 1⟩, ⟨entry, kind.size⟩] }
      else { walk with reads := walk.reads ++ [⟨entry, 1⟩] }
  -- the default case prints the type
  | none => { walk with reads := walk.reads ++ [⟨entry, 1⟩, ⟨entry, 1⟩] }

/-- The entry loop; `none` when the fuel is used up. -/
def parseEntries (mem : Memory) (tableEnd : U64) : Nat → U64 → MadtWalk → Option MadtWalk
  | 0, _, _ => none
  | fuel + 1, currentEntry, walk =>
      if currentEntry < tableEnd then
        let walk := parseEntry mem currentEntry walk
        parseEntries mem tableEnd fuel
          (currentEntry + (mem (currentEntry + 1).toNat).setWidth 64)
          { walk with reads := walk.reads ++ [⟨currentEntry + 1, 1⟩] }
      else some walk

structure AcpiState where
  tableAddresses : List U64
  apicTable : Option U64
  madt : MadtTables
deriving DecidableEq, Repr

/-- `parse_apic_table` with the spans it reads of the table it found. -/
def parseApicTable (mem : Memory) (fuel : Nat) (state : AcpiState) :
    Option (AcpiState × List Span) :=
  match getAcpiTable mem state.tableAddresses apicSignature with
  | none => some (state, [])
  | some table =>
      -- the address of the local controllers and the flags are printed
      let reads := [⟨table + 36, 4⟩, ⟨table + 40, 4⟩, sdtLengthSpan table]
      let tableEnd := table + (sdtLength mem table).setWidth 64
      (parseEntries mem tableEnd fuel (table + apicSize) ⟨state.madt, reads⟩).map fun walk =>
        ({ state with apicTable := some table, madt := walk.tables }, walk.reads)

end KittyOs.AcpiModel
