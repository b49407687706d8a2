import KittyOs.Lib.ByteBitmap
import KittyOs.MachineWord

/-!
# Interrupt vectors and their routing

A transcription of `hal/irq/irq.cpp` and of what it uses of `hal/ioapic/ioapic.cpp`,
`hal/apic/apic.cpp` and `smp/smp.cpp`. An I/O APIC is its register file: every
access selects a register and then reads or writes it through the window. A
handle is the table slot it points to. Handlers are values of any type; a
dispatch is the list of the invocations it makes. The end-of-interrupt write has
no effect on what is modelled here.
-/

namespace KittyOs.IrqModel

open KittyOs.Lib.ByteBitmap KittyOs.MachineWord

set_option autoImplicit false

/-! ### The I/O APICs -/

/-- The registers of the I/O APIC at each base address. -/
abbrev IoApics := U64 → BitVec 32 → BitVec 32

def ioapicWrite (devices : IoApics) (ioapicBase : U64) (reg value : BitVec 32) : IoApics :=
  Function.update devices ioapicBase (Function.update (devices ioapicBase) reg value)

def ioapicRead (devices : IoApics) (ioapicBase : U64) (reg : BitVec 32) : BitVec 32 :=
  devices ioapicBase reg

/-- `IOAPIC_REGISTER_REDIRECTION_BASE`. -/
def redirectionBase : BitVec 32 := 0x10

/-- `struct ioapic_entry` without its reserved fields. -/
structure IoapicEntry where
  vector : BitVec 8
  deliveryMode : BitVec 3
  destinationMode : Bool
  deliveryStatus : Bool
  pinPolarity : Bool
  remoteIrr : Bool
  triggerMode : Bool
  mask : Bool
  destination : BitVec 8
deriving DecidableEq, Repr

def flagBit (flag : Bool) : U64 := if flag then 1 else 0

def IoapicEntry.redirection (entry : IoapicEntry) : U64 :=
  entry.vector.setWidth 64 |||
    (entry.deliveryMode.setWidth 64 <<< 8) |||
    (flagBit entry.destinationMode <<< 11) |||
    (flagBit entry.deliveryStatus <<< 12) |||
    (flagBit entry.pinPolarity <<< 13) |||
    (flagBit entry.remoteIrr <<< 14) |||
    (flagBit entry.triggerMode <<< 15) |||
    (flagBit entry.mask <<< 16) |||
    (entry.destination.setWidth 64 <<< 56)

def lowIndex (irq : BitVec 8) : BitVec 32 := redirectionBase + irq.setWidth 32 * 2

def highIndex (irq : BitVec 8) : BitVec 32 := redirectionBase + irq.setWidth 32 * 2 + 1

def ioapicSetRedirection (devices : IoApics) (ioapicBase : U64) (irq : BitVec 8)
    (destination : U64) (vector deliveryMode : BitVec 8)
    (levelTriggered physicalDestination deliveryStatus pinPolarity maskIrq : Bool) : IoApics :=
  let entry : IoapicEntry :=
    { vector
      deliveryMode := deliveryMode.setWidth 3
      destinationMode := !physicalDestination
      deliveryStatus
      pinPolarity
      remoteIrr := false
      triggerMode := levelTriggered
      mask := maskIrq
      destination :=
        if physicalDestination then (destination &&& 0x0F).setWidth 8
        else (destination &&& 0xFF).setWidth 8 }
  let redirection := entry.redirection
  let devices := ioapicWrite devices ioapicBase (highIndex irq) ((redirection >>> 32).setWidth 32)
  ioapicWrite devices ioapicBase (lowIndex irq) ((redirection &&& 0xFFFFFFFF).setWidth 32)

def ioapicGetRedirection (devices : IoApics) (ioapicBase : U64) (irq : BitVec 8) : U64 :=
  let low := ioapicRead devices ioapicBase (lowIndex irq)
  let high := ioapicRead devices ioapicBase (highIndex irq)
  (high.setWidth 64 <<< 32) ||| low.setWidth 64

def getIoapicMaxRedirections (devices : IoApics) (ioapicBase : U64) : BitVec 8 :=
  let version := ioapicRead devices ioapicBase 0x01
  ((version >>> 16) &&& 0xFF).setWidth 8 + 1

/-! ### What the ACPI tables tell -/

structure IoApicEntry where
  ioApicAddress : BitVec 32
  globalSystemInterruptBase : BitVec 32
deriving DecidableEq, Repr

structure InterruptSourceOverrideEntry where
  bus : BitVec 8
  source : BitVec 8
  globalSystemInterrupt : BitVec 32
deriving DecidableEq, Repr

structure Platform where
  hhdm : U64
  ioApics : List IoApicEntry
  isos : List InterruptSourceOverrideEntry

/-- The first override of the line on bus 0, unless the number is a GSI already. -/
def resolveIrq (platform : Platform) (isGsi : Bool) (irq : U64) : U64 :=
  if isGsi then irq
  else
    match platform.isos.find? fun iso => iso.source.setWidth 64 == irq && iso.bus == 0 with
    | some iso => iso.globalSystemInterrupt.setWidth 64
    | none => irq

/-- An input of an I/O APIC. -/
structure Pin where
  base : U64
  index : BitVec 8
deriving DecidableEq, Repr

/-- The pin of a GSI, if the I/O APIC has it. -/
def pinOn (platform : Platform) (devices : IoApics) (irq : U64) (ioApic : IoApicEntry) :
    Option Pin :=
  let ioApicAddress := ioApic.ioApicAddress.setWidth 64 + platform.hhdm
  let gsiBase := ioApic.globalSystemInterruptBase
  let maxRedirections := getIoapicMaxRedirections devices ioApicAddress
  let gsiEnd := gsiBase + maxRedirections.setWidth 32
  if irq ≥ gsiBase.setWidth 64 && irq < gsiEnd.setWidth 64 then
    some ⟨ioApicAddress, (irq - gsiBase.setWidth 64).setWidth 8⟩
  else none

/-- The loop of `hook_irq` over the I/O APICs, up to the first that has the GSI. -/
def pinOf (platform : Platform) (devices : IoApics) (irq : U64) : Option Pin :=
  platform.ioApics.findSome? (pinOn platform devices irq)

/-! ### Vectors -/

def maxCpus : Nat := 256

def invalidVector : U64 := 0

section Vectors

variable {Handler : Type}

structure MapEntry (Handler : Type) where
  irqId : U64
  vector : U64
  cpuId : U64
  callbacks : List Handler

structure IrqMapEntry (Handler : Type) where
  vec : Nat → BitVec 8
  mapping : Nat → MapEntry Handler

/-- The global `vectors` and the devices. -/
structure IrqState (Handler : Type) where
  vectors : Nat → IrqMapEntry Handler
  devices : IoApics

/-- A slot of the zero-initialised table. -/
def MapEntry.blank : MapEntry Handler := ⟨0, 0, 0, []⟩

/-- `initialize_irq_vectors` on the zero-initialised table. -/
def initializeIrqVectors : Nat → IrqMapEntry Handler := fun cpu =>
  { vec := fun byte => if cpu < maxCpus ∧ byte < 4 then 0xff else 0
    mapping := fun _ => .blank }

/-- `handle`: the address of a slot of the table. -/
structure IrqHandle where
  cpu : Nat
  slot : Nat
deriving DecidableEq, Repr

def IrqHandle.entry (state : IrqState Handler) (handle : IrqHandle) : MapEntry Handler :=
  (state.vectors handle.cpu).mapping handle.slot

def getIrqFromHandle (state : IrqState Handler) (handle : IrqHandle) : U64 :=
  (handle.entry state).irqId

def getIdtVectorFromHandle (state : IrqState Handler) (handle : IrqHandle) : U64 :=
  (handle.entry state).vector

def getCpuIdFromHandle (state : IrqState Handler) (handle : IrqHandle) : U64 :=
  (handle.entry state).cpuId

def allocateVectorOnCpu (vectors : Nat → IrqMapEntry Handler) (cpuIndex : U64) :
    U64 × (Nat → IrqMapEntry Handler) :=
  if cpuIndex.toNat ≥ maxCpus then (invalidVector, vectors)
  else
    let entry := vectors cpuIndex.toNat
    match firstClear 32 entry.vec with
    | none => (invalidVector, vectors)
    | some vector =>
        (BitVec.ofNat 64 vector,
          Function.update vectors cpuIndex.toNat { entry with vec := setBit entry.vec vector })

/-- The bit is set here too: the source has `|=`. -/
def freeVectorOnCpu (vectors : Nat → IrqMapEntry Handler) (cpuIndex vector : U64) :
    Nat → IrqMapEntry Handler :=
  if cpuIndex.toNat ≥ maxCpus ∨ vector.toNat ≥ 256 then vectors
  else
    let entry := vectors cpuIndex.toNat
    Function.update vectors cpuIndex.toNat { entry with vec := setBit entry.vec vector.toNat }

inductive Status where
  | success
  | failure
  | invalidArguments
  | outOfResources
deriving DecidableEq, Repr

def Status.code : Status → Int
  | .success => 0
  | .failure => -1
  | .invalidArguments => -2
  | .outOfResources => -5

/-- The four assignments to the slot of a vector. -/
def storeHandler (vectors : Nat → IrqMapEntry Handler) (cpuId vector irq : U64)
    (handler : Handler) : Nat → IrqMapEntry Handler :=
  let entry := vectors cpuId.toNat
  let slot := entry.mapping vector.toNat
  Function.update vectors cpuId.toNat
    { entry with
      mapping := Function.update entry.mapping vector.toNat
        { irqId := irq, vector, cpuId, callbacks := slot.callbacks ++ [handler] } }

/-- The handle is what `*irq_handle` is set to, if it is set. -/
def hookIrq (platform : Platform) (state : IrqState Handler) (isGsi : Bool) (cpuId irq : U64)
    (handler : Handler) : (Status × Option IrqHandle) × IrqState Handler :=
  if cpuId.toNat ≥ maxCpus then ((.invalidArguments, none), state)
  else
    let (vector, vectors) := allocateVectorOnCpu state.vectors cpuId
    if vector = invalidVector then ((.outOfResources, none), { state with vectors })
    else
      let irq := resolveIrq platform isGsi irq
      match pinOf platform state.devices irq with
      | none => ((.failure, none), { state with vectors })
      | some pin =>
          ((.success, some ⟨cpuId.toNat, vector.toNat⟩),
            { vectors := storeHandler vectors cpuId vector irq handler
              devices := ioapicSetRedirection state.devices pin.base pin.index cpuId
                (vector.setWidth 8) 0b000 false true false false false })

/-- The invocations `dispatch_irq` makes on the processor with that id; `none` is an
access behind the end of the table. -/
def dispatchIrq (state : IrqState Handler) (processorId vector : U64) :
    Option (List (Handler × IrqHandle)) :=
  if processorId.toNat ≥ maxCpus then none
  else
    let mapping := (state.vectors processorId.toNat).mapping
    some ((List.range 256).flatMap fun i =>
      if (mapping i).vector = vector ∧ ¬(mapping i).callbacks.isEmpty then
        (mapping i).callbacks.map fun callback =>
          (callback, (⟨processorId.toNat, vector.toNat⟩ : IrqHandle))
      else [])

end Vectors

/-! ### The processor's own number -/

/-- `get_current_processor_id`, given what the local APIC ID register reads. -/
def getCurrentProcessorId (lapicIdRegister : BitVec 32) : U64 := lapicIdRegister.setWidth 64

end KittyOs.IrqModel
