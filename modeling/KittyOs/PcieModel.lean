import KittyOs.AcpiModel

/-!
# PCI Express configuration space

`hal/pcie/pcie.cpp`: the entries of the MCFG table, the two nested formulas for the
address of a function's configuration space, and what is read there. `mcfg_entries`
is the list of pointers into the table; the ECAM walkers see the entries behind them.
-/

namespace KittyOs.PcieModel

open KittyOs.Lib.ByteMemory KittyOs.MachineWord KittyOs.AcpiModel

set_option autoImplicit false

structure McfgEntry where
  baseAddress : U64
  segmentGroup : BitVec 16
  startBus : Byte
  endBus : Byte
deriving DecidableEq, Repr

def McfgEntry.at (mem : Memory) (entry : U64) : McfgEntry where
  baseAddress := BitVec.ofNat 64 (fieldAt mem entry 8)
  segmentGroup := BitVec.ofNat 16 (fieldAt mem (entry + 8) 2)
  startBus := mem (entry + 10).toNat
  endBus := mem (entry + 11).toNat

/-! ### The table -/

structure McfgWalk where
  mcfgEntries : List U64
  reads : List Span
deriving DecidableEq, Repr

/-- `entry_count` of `initialize_pcie`. -/
def mcfgEntryCount (length : BitVec 32) : U64 := (length.setWidth 64 - sdtSize - 8) / 16

/-- The fields of an entry that are printed, and used again by `traverse_pcie`. -/
def mcfgEntrySpans (entry : U64) : List Span := [⟨entry, 8⟩, ⟨entry + 10, 1⟩, ⟨entry + 11, 1⟩]

/-- `initialize_pcie` on the table it found, up to the traversal. -/
def initializePcie (mem : Memory) (table : U64) : McfgWalk :=
  (List.range (mcfgEntryCount (sdtLength mem table)).toNat).foldl
    (fun walk entryIndex =>
      let entry := table + sdtSize + 8 + BitVec.ofNat 64 (entryIndex * 16)
      { mcfgEntries := walk.mcfgEntries ++ [entry]
        reads := walk.reads ++ mcfgEntrySpans entry })
    ⟨[], [sdtLengthSpan table]⟩

/-! ### The functions -/

/-- A function looked at by `traverse_pcie` on behalf of an entry. -/
structure Probe where
  entry : McfgEntry
  bus : Byte
  device : Nat
  function : Nat
  address : U64
deriving DecidableEq, Repr

/-- The loop `for (auto bus = entry->start_bus; entry->end_bus > bus; bus++)`. -/
def busesFrom (endBus bus : Byte) : List Byte :=
  if endBus > bus then bus :: busesFrom endBus (bus + 1) else []
termination_by endBus.toNat - bus.toNat
decreasing_by bv_omega

/-- The address computed in `int` and converted. -/
def probeAddress (hhdm : U64) (entry : McfgEntry) (bus : Byte) (device function : Nat) : U64 :=
  let place : BitVec 32 :=
    (bus.setWidth 32 * 256 + BitVec.ofNat 32 device * 8 + BitVec.ofNat 32 function) * 4096
  place.signExtend 64 + entry.baseAddress + hhdm

def traversePcie (hhdm : U64) (mcfgEntries : List McfgEntry) : List Probe :=
  mcfgEntries.flatMap fun entry =>
    (busesFrom entry.endBus entry.startBus).flatMap fun bus =>
      (List.range 32).flatMap fun device =>
        (List.range 8).map fun function =>
          ⟨entry, bus, device, function, probeAddress hhdm entry bus device function⟩

/-- The entry `pcie_raw_read` settles on. -/
def rawEntry (mcfgEntries : List McfgEntry) (segment : BitVec 16) (bus : Byte) :
    Option McfgEntry :=
  mcfgEntries.find? fun entry =>
    entry.segmentGroup == segment && !(bus < entry.startBus || bus > entry.endBus)

def rawAddress (hhdm : U64) (entry : McfgEntry) (bus slot function : Byte) (offset : U64) : U64 :=
  let baseAddress := entry.baseAddress + hhdm
  baseAddress + ((bus.setWidth 32 - entry.startBus.setWidth 32) <<< 20).signExtend 64 +
    (slot.setWidth 32 <<< 15).signExtend 64 + (function.setWidth 32 <<< 12).signExtend 64 + offset

/-- The bytes stored into the buffer, if any are. -/
def pcieRawRead (mem : Memory) (hhdm : U64) (mcfgEntries : List McfgEntry) (segment : BitVec 16)
    (bus slot function : Byte) (offset buffer length : U64) : Option (List Byte) :=
  if buffer = 0 ∨ length = 0 then none
  else
    (rawEntry mcfgEntries segment bus).map fun entry =>
      bytesAt mem (rawAddress hhdm entry bus slot function offset) length.toNat

end KittyOs.PcieModel
