import KittyOs.KernelModel

/-!
# Processes

A transcription of `smp/sched.cpp`. A process is the value its handle points to;
`page_map` is the kernel pointer under which its top table was mapped. The
reservation list is a `std::vector`: an append to a full vector moves the
elements to a new buffer, and a reference taken before it still points into the
old one. `operator new` and the vectors of `create_process` may grow the kernel
heap; the calls they make are an argument.
-/

namespace KittyOs.ProcessModel

open KittyOs.Lib.ByteMemory KittyOs.Lib.BoundedLoop KittyOs.MachineWord KittyOs.PageTable
open KittyOs.PhysicalModel KittyOs.VirtualModel KittyOs.KernelModel

set_option autoImplicit false

inductive ProcessLevel where
  | user
  | kernel
deriving DecidableEq, Repr

structure VmemEntry where
  base : U64
  length : U64
deriving DecidableEq, Repr

/-- `std::vector<vmem_entry>`. -/
structure VmemVector where
  entries : List VmemEntry
  capacity : Nat
deriving DecidableEq, Repr

/-- The stack pointer and entry point are the registers `create_process` sets. -/
structure ProcessThread where
  rip : U64
  rsp : U64
deriving DecidableEq, Repr

structure ProcessContext where
  processPath : String
  processName : String
  sseState : List Byte
  isPaused : Bool
  isBeingDebugged : Bool
  debuggerPid : U64
  level : ProcessLevel
  threads : List ProcessThread
  pageMap : U64
  availableVmem : VmemVector

/-! ### Reservations -/

def VmemVector.full (vector : VmemVector) : Bool := vector.entries.length == vector.capacity

/-- A full buffer grows to twice its size, an empty one to one element. -/
def VmemVector.pushBack (vector : VmemVector) (entry : VmemEntry) : VmemVector where
  entries := vector.entries ++ [entry]
  capacity :=
    if vector.full then vector.capacity + max vector.capacity 1 else vector.capacity

/-- The first element a loop stops at, with those before and behind it. -/
def firstMatch {Element : Type} (stops : Element → Bool) :
    List Element → Option (List Element × Element × List Element)
  | [] => none
  | element :: rest =>
      if stops element then some ([], element, rest)
      else (firstMatch stops rest).map fun found => (element :: found.1, found.2)

/-- The containment test of `allocate_virtual_memory_at`. -/
def VmemEntry.offers (requestedBase size : U64) (entry : VmemEntry) : Bool :=
  entry.base ≤ requestedBase && requestedBase + size ≤ entry.base + entry.length

def allocateVirtualMemoryAt (vector : VmemVector) (requestedBase size : U64) :
    (Bool × U64) × VmemVector :=
  match firstMatch (VmemEntry.offers requestedBase size) vector.entries with
  | none => ((false, 0), vector)
  | some (before, entry, _) =>
      let remainingLength := (entry.base + entry.length) - (requestedBase + size)
      let update (vector : VmemVector) (changed : VmemEntry) : VmemVector :=
        { vector with
          entries := before ++ changed :: vector.entries.drop (before.length + 1) }
      if requestedBase = entry.base then
        ((true, requestedBase), update vector ⟨entry.base + size, entry.length - size⟩)
      else
        let shrunk : VmemEntry := { entry with length := requestedBase - entry.base }
        if remainingLength > 0 then
          let pushed := vector.pushBack ⟨requestedBase + size, remainingLength⟩
          -- the reference into a moved buffer is stale, so the assignment is lost
          if vector.full then ((true, requestedBase), pushed)
          else ((true, requestedBase), update pushed shrunk)
        else ((true, requestedBase), update vector shrunk)

def allocateVirtualMemory (vector : VmemVector) (size : U64) : (Bool × U64) × VmemVector :=
  match firstMatch (fun entry : VmemEntry => size ≤ entry.length) vector.entries with
  | none => ((false, 0), vector)
  | some (before, entry, behind) =>
      if entry.length - size = 0 then
        ((true, entry.base), { vector with entries := before ++ behind })
      else
        ((true, entry.base),
          { vector with
            entries := before ++ ⟨entry.base + size, entry.length - size⟩ :: behind })

/-! ### Process memory -/

def processFlags (level : ProcessLevel) : MapFlags where
  isReadWrite := true
  disableExecution := true
  isSupervisor := level == .kernel
  pageWriteThrough := true
  pageCacheDisable := true
  pageAttributeTable := false
  protectionKeys := 0
  isPresent := true

/-- `virtual_map` on a process: `page_map` is dereferenced through CR3. -/
def virtualMapProcess (kernel : Kernel) (process : ProcessContext) (physicalAddress address : U64) :
    Option Kernel :=
  (kernel.writablePage process.pageMap).bind fun root =>
    (virtualMap kernel.phys root physicalAddress address (processFlags process.level)).map
      fun outcome => { kernel with phys := outcome.2 }

/-- The loop body shared by `create_process` and `allocate_memory_in_process`: no
free page leaves the loop, and the result of `virtual_map` is ignored. -/
def processPage (process : ProcessContext) (cursor : U64 × Kernel) :
    Option (Bool × (U64 × Kernel)) :=
  let (address, kernel) := cursor
  let (page, phys) := allocatePhysicalPage kernel.phys
  if page = 0 then some (false, (address, { kernel with phys }))
  else
    (virtualMapProcess { kernel with phys } process page address).map
      fun kernel => (true, (address + 4096, kernel))

/-- What the `virtual_map` of a round returns, if a page could be allocated for it. -/
def mapOutcome (process : ProcessContext) (cursor : U64 × Kernel) : Option Bool :=
  let (address, kernel) := cursor
  let (page, phys) := allocatePhysicalPage kernel.phys
  if page = 0 then none
  else
    (Kernel.writablePage { kernel with phys } process.pageMap).bind fun root =>
      (virtualMap phys root page address (processFlags process.level)).map Prod.fst

def allocateMemoryInProcess (kernel : Kernel) (process : ProcessContext)
    (address pageCount : U64) : Option (Bool × Kernel) :=
  if address + pageCount * 4096 > 0x80000000 then some (false, kernel)
  else
    (loop (processPage process) pageCount.toNat (address, kernel)).map
      fun outcome => (outcome.1, outcome.2.2)

def stackSize : U64 := 1 * 1024 * 1024

/-- The flags `create_process` maps the top table with. -/
def pageMapFlags : MapFlags where
  isReadWrite := true
  disableExecution := true
  isSupervisor := true
  pageWriteThrough := true
  pageCacheDisable := true
  pageAttributeTable := false
  protectionKeys := 0
  isPresent := true

/-- The reservation list after the stack has been taken from it. -/
def createVmem : (Bool × U64) × VmemVector :=
  allocateVirtualMemoryAt ((⟨[], 0⟩ : VmemVector).pushBack ⟨0, 0x80000000⟩)
    (0x80000000 - stackSize) stackSize

/-- The top table: a kernel address for it, a page, the mapping (whose result is
ignored) and the clearing through the new address. -/
def createPageMap (kernel : Kernel) : Option (U64 × Kernel) :=
  match allocateVirtualMemoryKernel kernel.range 4096 with
  | none => none
  | some (kvmem, range) =>
      let (page, phys) := allocatePhysicalPage kernel.phys
      match virtualMap phys kernel.kernelPml4 page kvmem pageMapFlags with
      | none => none
      | some (_, phys) =>
          let kernel := { kernel with phys, range }
          (kernel.writablePage kvmem).map fun root =>
            (kvmem, { kernel with phys := { phys with mem := fill phys.mem root 4096 0 } })

/-- The upper half of the kernel's top table copied to the process. -/
def copyUpperHalf (kernel : Kernel) (pageMap : U64) : Option Kernel :=
  (kernel.writablePage pageMap).map fun root =>
    { kernel with
      phys := { kernel.phys with
        mem := copyBlock kernel.phys.mem (root + 2048) (kernel.kernelPml4 + 2048) 2048 } }

/-- `none` in the result is the null handle. The failure exits free `page_map`,
which `malloc` never returned; nothing modelled here changes by it. -/
def createProcess (kernel : Kernel) (processPath processName : String) (entryPoint : U64)
    (level : ProcessLevel) (startPaused : Bool) (newCalls vectorCalls : List HeapCall) :
    Option (Option ProcessContext × Kernel) := do
  let kernel ← performHeapCalls kernel newCalls
  let (kvmem, kernel) ← createPageMap kernel
  let kernel ← performHeapCalls kernel vectorCalls
  let process : ProcessContext :=
    { processPath, processName
      sseState := List.replicate 256 0
      isPaused := startPaused
      isBeingDebugged := false
      debuggerPid := -1
      level
      threads := [⟨entryPoint, 0x80000000 - 8⟩]
      pageMap := kvmem
      availableVmem := createVmem.2 }
  if !createVmem.1.1 then some (none, kernel)
  else
    let kernel ← copyUpperHalf kernel kvmem
    let (stacked, (_, kernel)) ←
      loop (processPage process) (stackSize / 4096).toNat (0x80000000 - stackSize, kernel)
    if !stacked then some (none, kernel)
    else
      let (_, kernel) ← allocateMemoryInProcess kernel process 0x10000 1
      some (some process, kernel)

/-! ### Reading and writing another address space -/

/-- How far `process_write` and `process_read` get, with the state they are in. -/
inductive AccessOutcome where
  | denied
  | pageMapNotSet (kernel : Kernel)
  | notInvalidated (kernel : Kernel)
  | flagsWrong (kernel : Kernel)
  | copies (kernel : Kernel)

/-- The top table as the range check reaches it: through `page_map`, under the
CR3 just set, and not at all when there is no page to check. -/
def rangeRoot (kernel : Kernel) (process : ProcessContext) (address bufferSize : U64) :
    Option Nat :=
  if (pagesBetween (alignDown address) (alignUp (address + bufferSize))).isEmpty then some 0
  else (hardwareWalk kernel.phys.mem kernel.activeMap process.pageMap).map Prod.fst

/-- The guards the two functions share, up to the copy. -/
def processAccess (kernel : Kernel) (process : ProcessContext) (address bufferSize : U64)
    (filter : PageEntry → Bool) : Option AccessOutcome :=
  if address ≥ 0x80000000 || address + bufferSize > 0x80000000 then some .denied
  else
    match setPageMap kernel process.pageMap with
    | (false, kernel) => some (.pageMapNotSet kernel)
    | (true, kernel) =>
        if !invalidatePagesInRange address (address + bufferSize) then
          some (.notInvalidated kernel)
        else
          match rangeRoot kernel process address bufferSize with
          | none => none
          | some root =>
              if ensureVirtualMemoryFlagsInRange kernel.phys.mem root address
                  (address + bufferSize) filter then
                some (.copies kernel)
              else some (.flagsWrong kernel)

/-- The filter of `process_write`. -/
def writeFilter (entry : PageEntry) : Bool := entry.rw && entry.p

/-- The filter of `process_read`. -/
def readFilter (entry : PageEntry) : Bool := entry.p

/-- `memcpy` to the active address space, byte by byte through the processor. -/
def copyOut (root : Nat) (buffer : Nat → Byte) (address : U64) :
    Nat → Memory → Option Memory
  | 0, mem => some mem
  | count + 1, mem =>
      (copyOut root buffer address count mem).bind fun mem =>
        (hardwareWalk mem root (address + BitVec.ofNat 64 count)).bind fun found =>
          if found.2 then some (storeByte mem found.1 (buffer count)) else none

/-- `memcpy` from the active address space. -/
def copyIn (mem : Memory) (root : Nat) (address : U64) : Nat → Option (List Byte)
  | 0 => some []
  | count + 1 =>
      (copyIn mem root address count).bind fun bytes =>
        (hardwareWalk mem root (address + BitVec.ofNat 64 count)).map fun found =>
          bytes ++ [mem found.1]

/-- The caller's buffer is given by what it holds. -/
def processWrite (kernel : Kernel) (process : ProcessContext) (address : U64)
    (buffer : Nat → Byte) (bufferSize : U64) : Option (Bool × Kernel) :=
  let originalPageMap := kernel.currentPageMapAddress
  match processAccess kernel process address bufferSize writeFilter with
  | none => none
  | some .denied => some (false, kernel)
  | some (.pageMapNotSet kernel) => some (false, (setPageMap kernel originalPageMap).2)
  | some (.notInvalidated kernel) => some (false, (setPageMap kernel originalPageMap).2)
  | some (.flagsWrong kernel) => some (false, (setPageMap kernel originalPageMap).2)
  | some (.copies kernel) =>
      match copyOut kernel.activeMap buffer address bufferSize.toNat kernel.phys.mem with
      | none => none
      | some mem =>
          let kernel := { kernel with phys := { kernel.phys with mem } }
          some (true, (setPageMap kernel originalPageMap).2)

/-- The bytes read are the third component. -/
def processRead (kernel : Kernel) (process : ProcessContext) (address bufferSize : U64) :
    Option (Bool × Kernel × List Byte) :=
  let originalPageMap := kernel.currentPageMapAddress
  match processAccess kernel process address bufferSize readFilter with
  | none => none
  | some .denied => some (false, kernel, [])
  | some (.pageMapNotSet kernel) => some (false, (setPageMap kernel originalPageMap).2, [])
  | some (.notInvalidated kernel) => some (false, (setPageMap kernel originalPageMap).2, [])
  | some (.flagsWrong kernel) => some (false, (setPageMap kernel originalPageMap).2, [])
  | some (.copies kernel) =>
      match copyIn kernel.phys.mem kernel.activeMap address bufferSize.toNat with
      | none => none
      | some bytes => some (true, (setPageMap kernel originalPageMap).2, bytes)

/-! ### The caller's buffer -/

/-- `memcpy` with both pointers in the active address space. -/
def copyBytes (root : Nat) (target source : U64) : Nat → Memory → Option Memory
  | 0, mem => some mem
  | count + 1, mem =>
      (copyBytes root target source count mem).bind fun mem =>
        (hardwareWalk mem root (source + BitVec.ofNat 64 count)).bind fun read =>
          (hardwareWalk mem root (target + BitVec.ofNat 64 count)).bind fun found =>
            if found.2 then some (storeByte mem found.1 (mem read.1)) else none

/-- The two functions on a buffer in memory, which `memcpy` accesses under the page map
of the process. -/
def processCopy (kernel : Kernel) (process : ProcessContext) (address bufferSize : U64)
    (filter : PageEntry → Bool) (target source : U64) : Option (Bool × Kernel) :=
  let originalPageMap := kernel.currentPageMapAddress
  match processAccess kernel process address bufferSize filter with
  | none => none
  | some .denied => some (false, kernel)
  | some (.pageMapNotSet kernel) => some (false, (setPageMap kernel originalPageMap).2)
  | some (.notInvalidated kernel) => some (false, (setPageMap kernel originalPageMap).2)
  | some (.flagsWrong kernel) => some (false, (setPageMap kernel originalPageMap).2)
  | some (.copies kernel) =>
      (copyBytes kernel.activeMap target source bufferSize.toNat kernel.phys.mem).map fun mem =>
        (true, (setPageMap { kernel with phys := { kernel.phys with mem } } originalPageMap).2)

def processWriteFrom (kernel : Kernel) (process : ProcessContext)
    (address buffer bufferSize : U64) : Option (Bool × Kernel) :=
  processCopy kernel process address bufferSize writeFilter address buffer

def processReadInto (kernel : Kernel) (process : ProcessContext)
    (address buffer bufferSize : U64) : Option (Bool × Kernel) :=
  processCopy kernel process address bufferSize readFilter buffer address

end KittyOs.ProcessModel
