import KittyOs.PcieModel

/-!
# The glue between uACPI and the kernel

The reads of configuration space and the mutexes of `acpi/uacpi_glue.cpp`. A read
gives the status and the value behind the pointer it was passed. Between two polls of
the loop of `uacpi_kernel_acquire_mutex` another thread may release the mutex; which
polls are preceded by a release is a parameter, and what each poll found is part of
the outcome.
-/

namespace KittyOs.UacpiGlue

open KittyOs.Lib KittyOs.Lib.ByteMemory KittyOs.MachineWord KittyOs.PcieModel

set_option autoImplicit false

inductive UacpiStatus where
  | ok
  | timeout
deriving DecidableEq, Repr

/-! ### Configuration space -/

structure UacpiPciAddress where
  segment : BitVec 16
  bus : Byte
  device : Byte
  function : Byte
deriving DecidableEq, Repr

/-- The read of `size` bytes; `current` is what the pointer `value` points to. -/
def uacpiKernelPciRead (size : Nat) (mem : Memory) (hhdm : U64) (mcfgEntries : List McfgEntry)
    (device : UacpiPciAddress) (offset value : U64) (current : BitVec (8 * size)) :
    UacpiStatus × BitVec (8 * size) :=
  match pcieRawRead mem hhdm mcfgEntries device.segment device.bus device.device device.function
      offset value (BitVec.ofNat 64 size) with
  | none => (.ok, current)
  | some bytes => (.ok, BitVec.ofNat (8 * size) (LittleEndian.decode bytes))

def uacpiKernelPciRead8 (mem : Memory) (hhdm : U64) (mcfgEntries : List McfgEntry)
    (device : UacpiPciAddress) (offset value : U64) (current : BitVec 8) :
    UacpiStatus × BitVec 8 :=
  uacpiKernelPciRead 1 mem hhdm mcfgEntries device offset value current

def uacpiKernelPciRead16 (mem : Memory) (hhdm : U64) (mcfgEntries : List McfgEntry)
    (device : UacpiPciAddress) (offset value : U64) (current : BitVec 16) :
    UacpiStatus × BitVec 16 :=
  uacpiKernelPciRead 2 mem hhdm mcfgEntries device offset value current

def uacpiKernelPciRead32 (mem : Memory) (hhdm : U64) (mcfgEntries : List McfgEntry)
    (device : UacpiPciAddress) (offset value : U64) (current : BitVec 32) :
    UacpiStatus × BitVec 32 :=
  uacpiKernelPciRead 4 mem hhdm mcfgEntries device offset value current

/-! ### Mutexes -/

structure Mutex where
  locked : Bool
deriving DecidableEq, Repr

def uacpiKernelCreateMutex : Mutex := ⟨false⟩

def uacpiKernelReleaseMutex (mutex : Mutex) : Mutex :=
  if mutex.locked then { mutex with locked := false } else mutex

inductive MutexEvent where
  | acquired
  | released
deriving DecidableEq, Repr

/-- The mutex as each poll found it, what happened to it, and what it is after. -/
structure Acquisition where
  status : UacpiStatus
  polls : List Mutex
  events : List MutexEvent
  mutex : Mutex
deriving DecidableEq, Repr

/-- The loop `while (timeout > 0)` from its poll with the given number on. -/
def acquireLoop (releases : Nat → Bool) : Nat → Nat → Mutex → Acquisition
  | 0, _, mutex => ⟨.timeout, [], [], mutex⟩
  | timeout + 1, poll, mutex =>
      let found := if releases poll then uacpiKernelReleaseMutex mutex else mutex
      let before := if releases poll then [MutexEvent.released] else []
      if !found.locked then
        ⟨.ok, [found], before ++ [.acquired], { found with locked := true }⟩
      else
        let rest := acquireLoop releases timeout (poll + 1) found
        { rest with polls := found :: rest.polls, events := before ++ rest.events }

/-- `releases` says before which polls the holder releases the mutex. -/
def uacpiKernelAcquireMutex (releases : Nat → Bool) (mutex : Mutex) (timeout : BitVec 16) :
    Acquisition :=
  acquireLoop releases timeout.toNat 0 mutex

end KittyOs.UacpiGlue
