import KittyOs.MachineWord
import KittyOs.Lib.SpanPartition

/-!
# The physical page allocator

A direct transcription of `mem/physical.cpp`. The free list is threaded through
the free memory itself: a `phys_freelist_entry` is the first sixteen bytes of a
free block, reached through the direct map at `hhdm`. Memory is indexed by
physical address, so a pointer into the direct map denotes the byte at the
pointer minus the offset. Clients own the bytes of the pages they hold and may
write anything there, the old node included.
-/

namespace KittyOs.PhysicalModel

open KittyOs.Lib.ByteMemory KittyOs.MachineWord

set_option autoImplicit false

/-- The allocator's globals together with the memory they point into. `hhdm` is
the value of `get_higher_half_memory_offset()`, which never changes. -/
structure PhysicalState where
  hhdm : U64
  mem : Memory
  head : U64

/-- The physical address behind a direct-map pointer. -/
def PhysicalState.physOf (state : PhysicalState) (pointer : U64) : Nat :=
  (pointer - state.hhdm).toNat

/-- `entry->next`, the first word of a `phys_freelist_entry`. -/
def PhysicalState.next (state : PhysicalState) (entry : U64) : U64 :=
  loadWord state.mem (state.physOf entry)

/-- `entry->size`, the second word of a `phys_freelist_entry`. -/
def PhysicalState.size (state : PhysicalState) (entry : U64) : U64 :=
  loadWord state.mem (state.physOf entry + 8)

def PhysicalState.setNext (state : PhysicalState) (entry value : U64) : PhysicalState :=
  { state with mem := storeWord state.mem (state.physOf entry) value }

def PhysicalState.setSize (state : PhysicalState) (entry value : U64) : PhysicalState :=
  { state with mem := storeWord state.mem (state.physOf entry + 8) value }

def pushToFreelist (state : PhysicalState) (entry : U64) : PhysicalState :=
  if state.head = 0 then { state with head := entry }
  else { state.setNext entry state.head with head := entry }

def popFromFreelist (state : PhysicalState) : U64 × PhysicalState :=
  if state.head = 0 then (0, state)
  else (state.head, { state with head := state.next state.head })

/-- `limine_memmap_entry`. -/
structure MemmapEntry where
  base : U64
  length : U64
  type : U64
deriving DecidableEq, Repr

/-- `LIMINE_MEMMAP_USABLE`. -/
def limineMemmapUsable : U64 := 0

/-- The loop body of `initialize_physical_memory`. -/
def registerEntry (state : PhysicalState) (entry : MemmapEntry) : PhysicalState :=
  if entry.type = limineMemmapUsable then
    let freelistEntry := entry.base + state.hhdm
    pushToFreelist ((state.setNext freelistEntry 0).setSize freelistEntry entry.length)
      freelistEntry
  else state

/-- `none` is the `cli; hlt` taken when the boot loader reports no memory map. -/
def initializePhysicalMemory (hhdm : U64) (response : Option (List MemmapEntry))
    (mem : Memory) : Option PhysicalState :=
  match response with
  | none => none
  | some [] => none
  | some entries => some (entries.foldl registerEntry { hhdm, mem, head := 0 })

/-- The null pointer is the word zero. -/
def allocatePhysicalPage (state : PhysicalState) : U64 × PhysicalState :=
  let (entry, state) := popFromFreelist state
  if entry = 0 then (0, state)
  else if state.size entry > 4096 then
    let newEntry := entry + 4096
    let state := state.setSize newEntry (state.size entry - 4096)
    let state := state.setNext newEntry (state.next entry)
    let state := state.setNext entry 0
    let state := state.setSize entry 4096
    let state := pushToFreelist state newEntry
    (entry - state.hhdm, state)
  else (entry - state.hhdm, state)

def deallocatePhysicalPage (state : PhysicalState) (page : U64) : PhysicalState :=
  pushToFreelist state (page + state.hhdm)

/-- `get_highest_address`; a missing or empty map yields zero. -/
def getHighestAddress (response : Option (List MemmapEntry)) : U64 :=
  (response.getD []).foldl
    (fun highest entry =>
      if entry.base + entry.length > highest then entry.base + entry.length else highest) 0

/-- The loop of `get_available_usable_memory`; `none` is a loop that needs more rounds. -/
def sumFreelist (state : PhysicalState) : Nat → U64 → U64 → Option U64
  | 0, _, _ => none
  | rounds + 1, entry, availableMemory =>
      if entry = 0 then some availableMemory
      else sumFreelist state rounds (state.next entry) (availableMemory + state.size entry)

def getAvailableUsableMemory (state : PhysicalState) (rounds : Nat) : Option U64 :=
  sumFreelist state rounds state.head 0

end KittyOs.PhysicalModel
