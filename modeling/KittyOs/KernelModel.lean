import KittyOs.Lib.BoundedLoop
import KittyOs.VirtualModel

/-!
# The kernel's own memory

The globals of `mem/virtual.cpp` and `mem/heap.cpp` in one record, the heap calls
that change them, and the processor's view of memory. A pointer into the direct
map denotes the byte at its offset; every other kernel pointer is resolved by the
processor's walk from CR3, and a failed walk is a fault from which the kernel
does not return. `none` stands for a halt or such a fault.
-/

namespace KittyOs.KernelModel

open KittyOs.Lib.ByteMemory KittyOs.Lib.BoundedLoop KittyOs.MachineWord KittyOs.PageTable
open KittyOs.PhysicalModel KittyOs.VirtualModel

set_option autoImplicit false

structure Kernel where
  phys : PhysicalState
  range : KernelRange
  /-- The physical page behind `kernel_pml4`, which points into the direct map. -/
  kernelPml4 : Nat
  heapStart : U64
  heapEnd : U64
  cr3 : U64

/-! ### The processor -/

/-- The physical address a supervisor access reaches, and whether it may write:
with CR0.WP set, only if every level allows it. -/
def hardwareWalk (mem : Memory) (root : Nat) (address : U64) : Option (Nat × Bool) :=
  let indexes := splitVirtualAddressToStructure address
  let pml4e := readEntry mem root indexes.pml4
  if !pml4e.p then none
  else
    let pdpe := readEntry mem pml4e.frame indexes.pdp
    if !pdpe.p then none
    else if pdpe.z then
      some (pdpe.frame / 2 ^ 30 * 2 ^ 30 + address.toNat % 2 ^ 30, pml4e.rw && pdpe.rw)
    else
      let pde := readEntry mem pdpe.frame indexes.pd
      if !pde.p then none
      else if pde.z then
        some (pde.frame / 2 ^ 21 * 2 ^ 21 + address.toNat % 2 ^ 21,
          pml4e.rw && pdpe.rw && pde.rw)
      else
        let pte := readEntry mem pde.frame indexes.pt
        if !pte.p then none
        else some (pte.frame + address.toNat % 4096, pml4e.rw && pdpe.rw && pde.rw && pte.rw)

/-- The page table base in CR3, without its flag bits. -/
def Kernel.activeMap (kernel : Kernel) : Nat := (kernel.cr3 &&& 0xfffffffffffff000).toNat

/-- The physical page behind a kernel pointer that is about to be written. -/
def Kernel.writablePage (kernel : Kernel) (pointer : U64) : Option Nat :=
  (hardwareWalk kernel.phys.mem kernel.activeMap pointer).bind fun found =>
    if found.2 then some found.1 else none

theorem writable_page_found {kernel : Kernel} {pointer : U64} {page : Nat}
    (walked : hardwareWalk kernel.phys.mem kernel.activeMap pointer = some (page, true)) :
    kernel.writablePage pointer = some page := by
  rw [Kernel.writablePage, walked, Option.bind_some, if_pos rfl]

theorem writable_page_missing {kernel : Kernel} {pointer : U64}
    (walked : hardwareWalk kernel.phys.mem kernel.activeMap pointer = none) :
    kernel.writablePage pointer = none := by
  rw [Kernel.writablePage, walked, Option.bind_none]

/-- `get_current_page_map_address`. -/
def Kernel.currentPageMapAddress (kernel : Kernel) : U64 :=
  (kernel.cr3 &&& 0xfffffffffffff000) + kernel.phys.hhdm

def setPageMap (kernel : Kernel) (newPageMap : U64) : Bool × Kernel :=
  let (success, physicalAddress) :=
    virtualToPhysical kernel.phys.mem kernel.kernelPml4 newPageMap
  if !success then (false, kernel)
  else (true, { kernel with cr3 := (kernel.cr3 &&& 0xfff) ||| physicalAddress })

theorem set_page_map_translated {kernel : Kernel} {pointer physicalAddress : U64}
    (translated : virtualToPhysical kernel.phys.mem kernel.kernelPml4 pointer =
      (true, physicalAddress)) :
    setPageMap kernel pointer =
      (true, { kernel with cr3 := (kernel.cr3 &&& 0xfff) ||| physicalAddress }) := by
  simp only [setPageMap, translated, Bool.not_true, Bool.false_eq_true, if_false]

/-! ### The heap -/

/-- 16 GiB reserved for the heap. -/
def heapSize : U64 := 16 * 1024 * 1024 * 1024

/-- The arguments `expand_heap` and `mmap` pass by position; their comments name
the parameters differently. -/
def heapFlags : MapFlags where
  isReadWrite := true
  disableExecution := false
  isSupervisor := true
  pageWriteThrough := false
  pageCacheDisable := false
  pageAttributeTable := false
  protectionKeys := 0
  isPresent := true

def initializeHeap (kernel : Kernel) : Option Kernel :=
  match allocateVirtualMemoryKernel kernel.range heapSize with
  | none => none
  | some (heapStart, range) =>
      if heapStart = 0 then none
      else some { kernel with range, heapStart, heapEnd := heapStart }

/-- A fresh page mapped into the kernel at `address`; every failure halts. -/
def mapFreshPage (kernel : Kernel) (address : U64) : Option Kernel :=
  let (page, phys) := allocatePhysicalPage kernel.phys
  if page = 0 then none
  else
    match virtualMap phys kernel.kernelPml4 page address heapFlags with
    | some (true, phys) => some { kernel with phys }
    | _ => none

/-- The loop body of `expand_heap`. -/
def expandHeapPage (kernel : Kernel) : Option (Bool × Kernel) :=
  match mapFreshPage kernel kernel.heapEnd with
  | none => none
  | some kernel => some (true, { kernel with heapEnd := kernel.heapEnd + 4096 })

def expandHeap (kernel : Kernel) (pageCount : U64) : Option Kernel :=
  if kernel.heapEnd + pageCount * 4096 > kernel.heapStart + heapSize then none
  else (loop expandHeapPage pageCount.toNat kernel).map Prod.snd

/-- The signed round-up of `sbrk` and `mmap`, which may overflow. -/
def alignedSize (size : U64) : U64 := (size + 4096 - 1) &&& pageMask

/-- `aligned_size / PAGE_SIZE`, a signed division, converted to `size_t`. -/
def pageCountOf (size : U64) : U64 := (alignedSize size).sdiv 4096

def sbrk (kernel : Kernel) (size : U64) : Option (U64 × Kernel) :=
  if size.slt 0 then some (-1, kernel)
  else
    let oldBreak := kernel.heapEnd
    if pageCountOf size > 0 then
      (expandHeap kernel (pageCountOf size)).map fun kernel => (oldBreak, kernel)
    else some (oldBreak, kernel)

/-- The loop body of `mmap`, with the address of the page it maps. -/
def mmapPage (cursor : U64 × Kernel) : Option (Bool × (U64 × Kernel)) :=
  match mapFreshPage cursor.2 cursor.1 with
  | none => none
  | some kernel => some (true, (cursor.1 + 4096, kernel))

/-- Only the size argument of `mmap` is used. -/
def mmap (kernel : Kernel) (size : U64) : Option (U64 × Kernel) :=
  if size.sle 0 then some (-1, kernel)
  else
    match allocateVirtualMemoryKernel kernel.range (alignedSize size) with
    | none => none
    | some (kmVm, range) =>
        if kmVm = 0 then none
        else
          (loop mmapPage (pageCountOf size).toNat (kmVm, { kernel with range })).map
            fun outcome => (kmVm, outcome.2.2)

/-- The two ways the allocator behind `operator new` grows the kernel's memory. -/
inductive HeapCall where
  | sbrk (size : U64)
  | mmap (size : U64)
deriving DecidableEq, Repr

def performHeapCall (kernel : Kernel) : HeapCall → Option Kernel
  | .sbrk size => (sbrk kernel size).map Prod.snd
  | .mmap size => (mmap kernel size).map Prod.snd

def performHeapCalls (kernel : Kernel) (calls : List HeapCall) : Option Kernel :=
  calls.foldlM performHeapCall kernel

end KittyOs.KernelModel
