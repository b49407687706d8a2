import KittyOs.IsrFrame
import KittyOs.Lib.ByteRuns

/-!
# Descriptor tables

`hal/gdt/gdt.h`, `hal/gdt/gdt.cpp`, `hal/gdt/load_gdt.asm`, `hal/idt/idt.h`,
`hal/idt/idt_table.cpp` and `initialize_idt`: the tables as bytes in memory, and what
the processor does with them when a segment register is loaded and when an interrupt
arrives. Loading a segment sets the accessed bit of its descriptor in memory. There is
no task state segment: what needs a stack from one faults.
-/

namespace KittyOs.DescriptorTables

open KittyOs.Lib KittyOs.Lib.ByteMemory KittyOs.Lib.ByteRuns KittyOs.MachineWord KittyOs.IsrModel

set_option autoImplicit false

/-! ### The interrupt descriptor table -/

/-- `struct gate_descriptor_64`. -/
structure GateDescriptor64 where
  offsetOne : BitVec 16
  segmentSelector : BitVec 16
  ist : BitVec 3
  reservedOne : BitVec 5
  gateType : BitVec 4
  zero : BitVec 1
  dpl : BitVec 2
  present : BitVec 1
  offsetTwo : BitVec 16
  offsetThree : BitVec 32
  reservedTwo : BitVec 32
deriving DecidableEq, Repr

/-- The packed layout; the bit fields of a byte start at its low end. -/
def GateDescriptor64.bytes (gate : GateDescriptor64) : List Byte :=
  LittleEndian.encode 2 gate.offsetOne.toNat ++ LittleEndian.encode 2 gate.segmentSelector.toNat ++
    [gate.reservedOne ++ gate.ist, gate.present ++ gate.dpl ++ gate.zero ++ gate.gateType] ++
    LittleEndian.encode 2 gate.offsetTwo.toNat ++ LittleEndian.encode 4 gate.offsetThree.toNat ++
    LittleEndian.encode 4 gate.reservedTwo.toNat

def idtGateTypeInterrupt : BitVec 8 := 0xE

def idtDefaultSegment : BitVec 16 := 0x8

def idtEntry (offset : U64) (segmentSelector : BitVec 16)
    (gateType dplLayer isPresent ist : BitVec 8) : GateDescriptor64 where
  offsetOne := (offset &&& 0xFFFF).setWidth 16
  segmentSelector := segmentSelector
  ist := ist.setWidth 3
  reservedOne := 0
  gateType := gateType.setWidth 4
  zero := 0
  dpl := dplLayer.setWidth 2
  present := isPresent.setWidth 1
  offsetTwo := ((offset &&& 0xFFFF0000) >>> 16).setWidth 16
  offsetThree := ((offset &&& 0xFFFFFFFF00000000) >>> 32).setWidth 32
  reservedTwo := 0

/-- The table, with the addresses of the stubs `idt_isr0` to `idt_isr255`. -/
def idt (isr : Nat → U64) : List GateDescriptor64 :=
  (List.range 256).map fun vector =>
    idtEntry (isr vector) idtDefaultSegment idtGateTypeInterrupt 0 1 0

/-! ### The global descriptor table -/

/-- `struct gdt_segment_descriptor`. -/
structure GdtSegmentDescriptor where
  limitOne : BitVec 16
  baseZero : BitVec 16
  baseTwo : BitVec 8
  accessByte : BitVec 8
  limitTwo : BitVec 4
  flags : BitVec 4
  baseThree : BitVec 8
deriving DecidableEq, Repr

def GdtSegmentDescriptor.bytes (descriptor : GdtSegmentDescriptor) : List Byte :=
  LittleEndian.encode 2 descriptor.limitOne.toNat ++
    LittleEndian.encode 2 descriptor.baseZero.toNat ++
    [descriptor.baseTwo, descriptor.accessByte, descriptor.flags ++ descriptor.limitTwo,
      descriptor.baseThree]

def gdtReadWriteBit : BitVec 8 := 1 <<< 1
def gdtExecutableBit : BitVec 8 := 1 <<< 3
def gdtDescriptorTypeBit : BitVec 8 := 1 <<< 4
def gdtDpl0 : BitVec 8 := 0
def gdtDpl1 : BitVec 8 := 1 <<< 5
def gdtDpl2 : BitVec 8 := 1 <<< 6
def gdtDpl3 : BitVec 8 := (1 <<< 5) ||| (1 <<< 6)
def gdtPresent : BitVec 8 := 1 <<< 7

def gdtGranularityFlag : BitVec 4 := 1 <<< 3
def gdtSizeFlag : BitVec 4 := 1 <<< 2
def gdtLongModeFlag : BitVec 4 := 1 <<< 1

/-- The macro `GDT_ENTRY`. -/
def gdtEntry (base limit : BitVec 32) (access : BitVec 8) (flags : BitVec 4) :
    GdtSegmentDescriptor where
  limitOne := (limit &&& 0xFFFF).setWidth 16
  baseZero := (base &&& 0xFFFF).setWidth 16
  baseTwo := ((base &&& 0xFF0000) >>> 16).setWidth 8
  accessByte := access
  limitTwo := ((limit &&& 0xF0000) >>> 16).setWidth 4
  flags := flags
  baseThree := ((base &&& 0xFF000000) >>> 24).setWidth 8

def codeSegment (dpl : BitVec 8) : GdtSegmentDescriptor :=
  gdtEntry 0 0
    (gdtPresent ||| dpl ||| gdtExecutableBit ||| gdtDescriptorTypeBit ||| gdtReadWriteBit)
    (gdtLongModeFlag ||| gdtGranularityFlag)

def dataSegment (dpl : BitVec 8) : GdtSegmentDescriptor :=
  gdtEntry 0 0 (gdtPresent ||| dpl ||| gdtDescriptorTypeBit ||| gdtReadWriteBit)
    (gdtSizeFlag ||| gdtGranularityFlag)

def gdt : List GdtSegmentDescriptor :=
  [gdtEntry 0 0 0 0, codeSegment gdtDpl0, dataSegment gdtDpl0, codeSegment gdtDpl1,
    dataSegment gdtDpl1, codeSegment gdtDpl2, dataSegment gdtDpl2, codeSegment gdtDpl3,
    dataSegment gdtDpl3, gdtEntry 0 0 0 0, gdtEntry 0 0 0 0]

/-! ### The processor -/

/-- What `lgdt` and `lidt` load. -/
structure TableRegister where
  limit : BitVec 16
  address : U64
deriving DecidableEq, Repr

def tableBytes (mem : Memory) (table : TableRegister) (offset count : Nat) : List Byte :=
  readRun mem (table.address + BitVec.ofNat 64 offset) count

structure Segment where
  base : U64
  accessed : Bool
  readWrite : Bool
  conforming : Bool
  executable : Bool
  codeOrData : Bool
  dpl : Nat
  present : Bool
  long : Bool
  size : Bool
deriving DecidableEq, Repr

def decodeSegment (bytes : List Byte) : Segment where
  base := BitVec.ofNat 64 (LittleEndian.decode ((bytes.drop 2).take 3) +
    2 ^ 24 * (bytes.getD 7 0).toNat)
  accessed := (bytes.getD 5 0).getLsbD 0
  readWrite := (bytes.getD 5 0).getLsbD 1
  conforming := (bytes.getD 5 0).getLsbD 2
  executable := (bytes.getD 5 0).getLsbD 3
  codeOrData := (bytes.getD 5 0).getLsbD 4
  dpl := (bytes.getD 5 0).toNat / 32 % 4
  present := (bytes.getD 5 0).getLsbD 7
  long := (bytes.getD 6 0).getLsbD 5
  size := (bytes.getD 6 0).getLsbD 6

/-- The base that a selector sets, for the return from an interrupt. -/
def descriptorBase (mem : Memory) (gdtr : TableRegister) (selector : BitVec 16) : U64 :=
  (decodeSegment (tableBytes mem gdtr (8 * (selector.toNat / 8)) 8)).base

/-- The interrupt flag. -/
def interruptFlag : U64 := 0x200

end KittyOs.DescriptorTables
