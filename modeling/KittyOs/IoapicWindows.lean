import KittyOs.Lib.AccessPrograms
import KittyOs.IrqModel

/-!
# The I/O APICs behind their two windows

`hal/ioapic/ioapic.cpp` and `hook_irq` at the level of memory accesses. An I/O APIC has
an index register at its base address and a data window 0x10 behind it, which reads or
writes the register the index names. `IrqModel` takes the registers themselves for the
device; here the calls are shown to do the same through the windows, whatever the index
registers were left at.
-/

namespace KittyOs.IoapicWindows

open KittyOs.Lib.AccessPrograms KittyOs.MachineWord KittyOs.IrqModel

set_option autoImplicit false

/-! ### The devices -/

inductive MmioAccess where
  | write (address : U64) (value : BitVec 32)
  | read (address : U64)
deriving DecidableEq, Repr

/-- The index register at each base address, and the registers behind it. -/
structure Windows where
  index : U64 → BitVec 32
  registers : IoApics

def dataOffset : U64 := 0x10

/-- Addresses of an index register are multiples of 32. -/
def respond (windows : Windows) : MmioAccess → BitVec 32 × Windows
  | .write address value =>
      if address.toNat % 32 = 0 then
        (0, { windows with index := Function.update windows.index address value })
      else if address.toNat % 32 = 16 then
        let base := address - dataOffset
        (0, { windows with
          registers := IrqModel.ioapicWrite windows.registers base (windows.index base) value })
      else (0, windows)
  | .read address =>
      if address.toNat % 32 = 0 then (windows.index address, windows)
      else if address.toNat % 32 = 16 then
        let base := address - dataOffset
        (IrqModel.ioapicRead windows.registers base (windows.index base), windows)
      else (0, windows)

/-! ### The driver -/

abbrev MmioProgram := Program MmioAccess (BitVec 32)

def store (address : U64) (value : BitVec 32) : MmioProgram Unit := do
  let _ ← Program.request (.write address value)
  pure ()

def load (address : U64) : MmioProgram (BitVec 32) := Program.request (.read address)

def ioapicWrite (ioapicBase : U64) (reg value : BitVec 32) : MmioProgram Unit := do
  store ioapicBase reg
  store (ioapicBase + dataOffset) value

def ioapicRead (ioapicBase : U64) (reg : BitVec 32) : MmioProgram (BitVec 32) := do
  store ioapicBase reg
  load (ioapicBase + dataOffset)

def ioapicSetRedirection (ioapicBase : U64) (irq : BitVec 8) (destination : U64)
    (vector deliveryMode : BitVec 8)
    (levelTriggered physicalDestination deliveryStatus pinPolarity maskIrq : Bool) :
    MmioProgram Unit := do
  let entry : IoapicEntry :=
    { vector
      deliveryMode := deliveryMode.setWidth 3
      destinationMode := !physicalDestination
      deliveryStatus
      pinPolarity
      remoteIrr := false
      triggerMode := levelTriggered
      mask := maskIrq
      destination :=
        if physicalDestination then (destination &&& 0x0F).setWidth 8
        else (destination &&& 0xFF).setWidth 8 }
  let redirection := entry.redirection
  ioapicWrite ioapicBase (highIndex irq) ((redirection >>> 32).setWidth 32)
  ioapicWrite ioapicBase (lowIndex irq) ((redirection &&& 0xFFFFFFFF).setWidth 32)

def ioapicGetRedirection (ioapicBase : U64) (irq : BitVec 8) : MmioProgram U64 := do
  let low ← ioapicRead ioapicBase (lowIndex irq)
  let high ← ioapicRead ioapicBase (highIndex irq)
  pure ((high.setWidth 64 <<< 32) ||| low.setWidth 64)

def getIoapicMaxRedirections (ioapicBase : U64) : MmioProgram (BitVec 8) := do
  let version ← ioapicRead ioapicBase 0x01
  pure (((version >>> 16) &&& 0xFF).setWidth 8 + 1)

/-- The loop of `hook_irq`, up to the first I/O APIC that has the GSI. -/
def findPin (hhdm irq : U64) : List IoApicEntry → MmioProgram (Option Pin)
  | [] => pure none
  | ioApic :: rest => do
      let ioApicAddress := ioApic.ioApicAddress.setWidth 64 + hhdm
      let gsiBase := ioApic.globalSystemInterruptBase
      let maxRedirections ← getIoapicMaxRedirections ioApicAddress
      let gsiEnd := gsiBase + maxRedirections.setWidth 32
      if irq ≥ gsiBase.setWidth 64 && irq < gsiEnd.setWidth 64 then
        pure (some ⟨ioApicAddress, (irq - gsiBase.setWidth 64).setWidth 8⟩)
      else findPin hhdm irq rest

variable {Handler : Type}

abbrev Vectors (Handler : Type) := Nat → IrqMapEntry Handler

def hookIrq (platform : Platform) (vectors : Vectors Handler) (isGsi : Bool) (cpuId irq : U64)
    (handler : Handler) : MmioProgram ((Status × Option IrqHandle) × Vectors Handler) := do
  if cpuId.toNat ≥ maxCpus then pure ((.invalidArguments, none), vectors)
  else
    let (vector, vectors) := allocateVectorOnCpu vectors cpuId
    if vector = invalidVector then pure ((.outOfResources, none), vectors)
    else
      let irq := resolveIrq platform isGsi irq
      match ← findPin platform.hhdm irq platform.ioApics with
      | none => pure ((.failure, none), vectors)
      | some pin =>
          let vectors := storeHandler vectors cpuId vector irq handler
          ioapicSetRedirection pin.base pin.index cpuId (vector.setWidth 8) 0b000 false true false
            false false
          pure ((.success, some ⟨cpuId.toNat, vector.toNat⟩), vectors)

/-! ### What the accesses do -/

theorem data_window {base : U64} (aligned : base.toNat % 32 = 0) :
    (base + dataOffset).toNat % 32 = 16 := by
  have bound := base.isLt
  rw [BitVec.toNat_add, show dataOffset.toNat = 16 from rfl]
  omega

theorem data_window_base (base : U64) : base + dataOffset - dataOffset = base :=
  BitVec.add_sub_cancel base dataOffset

section Accesses

variable {base : U64} (aligned : base.toNat % 32 = 0) (windows : Windows)
include aligned

theorem respond_select (reg : BitVec 32) :
    respond windows (.write base reg) =
      (0, { windows with index := Function.update windows.index base reg }) :=
  if_pos aligned

theorem respond_data_write (value : BitVec 32) :
    respond windows (.write (base + dataOffset) value) =
      (0, { windows with
        registers := IrqModel.ioapicWrite windows.registers base (windows.index base) value }) := by
  have data := data_window aligned
  rw [respond, if_neg (by omega), if_pos data, data_window_base]

theorem respond_data_read :
    respond windows (.read (base + dataOffset)) =
      (IrqModel.ioapicRead windows.registers base (windows.index base), windows) := by
  have data := data_window aligned
  rw [respond, if_neg (by omega), if_pos data, data_window_base]

theorem run_ioapic_write (reg value : BitVec 32) :
    (ioapicWrite base reg value).runAlone respond windows =
      ((), { index := Function.update windows.index base reg
             registers := IrqModel.ioapicWrite windows.registers base reg value }) := by
  simp only [ioapicWrite, store, Program.run_alone_bind, Program.run_alone_request,
    Program.run_alone_pure, respond_select aligned, respond_data_write aligned,
    Function.update_self]

theorem run_ioapic_read (reg : BitVec 32) :
    (ioapicRead base reg).runAlone respond windows =
      (IrqModel.ioapicRead windows.registers base reg,
        { windows with index := Function.update windows.index base reg }) := by
  simp only [ioapicRead, store, load, Program.run_alone_bind, Program.run_alone_request,
    Program.run_alone_pure, respond_select aligned, respond_data_read aligned,
    Function.update_self]

theorem run_ioapic_set_redirection (irq : BitVec 8) (destination : U64)
    (vector deliveryMode : BitVec 8)
    (levelTriggered physicalDestination deliveryStatus pinPolarity maskIrq : Bool) :
    ((ioapicSetRedirection base irq destination vector deliveryMode levelTriggered
      physicalDestination deliveryStatus pinPolarity maskIrq).runAlone respond
        windows).2.registers =
      IrqModel.ioapicSetRedirection windows.registers base irq destination vector deliveryMode
        levelTriggered physicalDestination deliveryStatus pinPolarity maskIrq := by
  simp only [ioapicSetRedirection, Program.run_alone_bind, run_ioapic_write aligned]
  rfl

theorem run_ioapic_get_redirection (irq : BitVec 8) :
    ((ioapicGetRedirection base irq).runAlone respond windows).1 =
        IrqModel.ioapicGetRedirection windows.registers base irq ∧
      ((ioapicGetRedirection base irq).runAlone respond windows).2.registers =
        windows.registers := by
  simp only [ioapicGetRedirection, Program.run_alone_bind, run_ioapic_read aligned,
    Program.run_alone_pure, and_true]
  rfl

theorem run_get_ioapic_max_redirections :
    (getIoapicMaxRedirections base).runAlone respond windows =
      (IrqModel.getIoapicMaxRedirections windows.registers base,
        { windows with index := Function.update windows.index base 0x01 }) := by
  simp only [getIoapicMaxRedirections, Program.run_alone_bind, run_ioapic_read aligned,
    Program.run_alone_pure]
  rfl

end Accesses

/-! ### Hooking -/

/-- The I/O APICs start at multiples of 32, as seen through the direct map. -/
structure AlignedPlatform extends Platform where
  aligned : ∀ ioApic ∈ ioApics, (ioApic.ioApicAddress.setWidth 64 + hhdm : U64).toNat % 32 = 0

theorem pin_on_base {platform : Platform} {devices : IoApics} {irq : U64} {ioApic : IoApicEntry}
    {pin : Pin} (found : pinOn platform devices irq ioApic = some pin) :
    pin.base = ioApic.ioApicAddress.setWidth 64 + platform.hhdm := by
  simp only [pinOn] at found
  split_ifs at found
  cases found
  rfl

theorem run_find_pin (platform : Platform) (irq : U64) (ioApics : List IoApicEntry)
    (aligned : ∀ ioApic ∈ ioApics,
      (ioApic.ioApicAddress.setWidth 64 + platform.hhdm : U64).toNat % 32 = 0)
    (windows : Windows) :
    ((findPin platform.hhdm irq ioApics).runAlone respond windows).1 =
        ioApics.findSome? (pinOn platform windows.registers irq) ∧
      ((findPin platform.hhdm irq ioApics).runAlone respond windows).2.registers =
        windows.registers := by
  induction ioApics generalizing windows with
  | nil => exact ⟨rfl, rfl⟩
  | cons ioApic rest ih =>
      have first := aligned ioApic List.mem_cons_self
      have later := ih (fun other member => aligned other (List.mem_cons_of_mem _ member))
        { windows with
          index := Function.update windows.index
            (ioApic.ioApicAddress.setWidth 64 + platform.hhdm) 0x01 }
      simp only [findPin, Program.run_alone_bind, run_get_ioapic_max_redirections first,
        List.findSome?_cons, pinOn]
      split_ifs
      · exact ⟨rfl, rfl⟩
      · exact later

/-- A state of `IrqModel` and one with windows have the same vectors and registers. -/
def Agrees (state : IrqState Handler) (vectors : Vectors Handler) (windows : Windows) : Prop :=
  state.vectors = vectors ∧ state.devices = windows.registers

theorem run_hook_irq (platform : AlignedPlatform) (vectors : Vectors Handler) (windows : Windows)
    (isGsi : Bool) (cpuId irq : U64) (handler : Handler) :
    ((hookIrq platform.toPlatform vectors isGsi cpuId irq handler).runAlone respond
        windows).1.1 =
        (IrqModel.hookIrq platform.toPlatform ⟨vectors, windows.registers⟩ isGsi cpuId irq
          handler).1 ∧
      Agrees
        (IrqModel.hookIrq platform.toPlatform ⟨vectors, windows.registers⟩ isGsi cpuId irq
          handler).2
        ((hookIrq platform.toPlatform vectors isGsi cpuId irq handler).runAlone respond
          windows).1.2
        ((hookIrq platform.toPlatform vectors isGsi cpuId irq handler).runAlone respond
          windows).2 := by
  unfold hookIrq IrqModel.hookIrq
  by_cases outside : cpuId.toNat ≥ maxCpus
  · rw [if_pos outside, if_pos outside]
    exact ⟨rfl, rfl, rfl⟩
  · rw [if_neg outside, if_neg outside]
    dsimp only
    by_cases invalid : (allocateVectorOnCpu vectors cpuId).1 = invalidVector
    · rw [if_pos invalid, if_pos invalid]
      exact ⟨rfl, rfl, rfl⟩
    · rw [if_neg invalid, if_neg invalid]
      obtain ⟨found, kept⟩ := run_find_pin platform.toPlatform
        (resolveIrq platform.toPlatform isGsi irq) platform.ioApics platform.aligned windows
      rw [Program.run_alone_bind, found, pinOf]
      cases pin_found : platform.ioApics.findSome? (pinOn platform.toPlatform windows.registers
          (resolveIrq platform.toPlatform isGsi irq)) with
      | none => exact ⟨rfl, rfl, kept.symm⟩
      | some pin =>
          obtain ⟨ioApic, member, there⟩ := List.exists_of_findSome?_eq_some pin_found
          have aligned : pin.base.toNat % 32 = 0 := by
            rw [pin_on_base there]
            exact platform.aligned ioApic member
          refine ⟨rfl, rfl, ?_⟩
          rw [← kept]
          exact (run_ioapic_set_redirection aligned _ pin.index cpuId _ 0b000 false true false
            false false).symm

/-- A call of `hook_irq`, and what the index registers are at when it is made. -/
structure HookCall (Handler : Type) where
  isGsi : Bool
  cpuId : U64
  irq : U64
  handler : Handler
  index : U64 → BitVec 32

def hookAll (platform : Platform) (vectors : Vectors Handler) (windows : Windows) :
    List (HookCall Handler) → List (Status × Option IrqHandle) × Vectors Handler × Windows
  | [] => ([], vectors, windows)
  | call :: calls =>
      let ran := (hookIrq platform vectors call.isGsi call.cpuId call.irq call.handler).runAlone
        respond { windows with index := call.index }
      let rest := hookAll platform ran.1.2 ran.2 calls
      (ran.1.1 :: rest.1, rest.2)

/-- The same calls on the registers. -/
def hookAllRegisters (platform : Platform) (state : IrqState Handler) :
    List (HookCall Handler) → List (Status × Option IrqHandle) × IrqState Handler
  | [] => ([], state)
  | call :: calls =>
      let hooked := IrqModel.hookIrq platform state call.isGsi call.cpuId call.irq call.handler
      let rest := hookAllRegisters platform hooked.2 calls
      (hooked.1 :: rest.1, rest.2)

theorem hooks_agree (platform : AlignedPlatform) {state : IrqState Handler}
    {vectors : Vectors Handler} {windows : Windows} (agrees : Agrees state vectors windows)
    (calls : List (HookCall Handler)) :
    (hookAll platform.toPlatform vectors windows calls).1 =
        (hookAllRegisters platform.toPlatform state calls).1 ∧
      Agrees (hookAllRegisters platform.toPlatform state calls).2
        (hookAll platform.toPlatform vectors windows calls).2.1
        (hookAll platform.toPlatform vectors windows calls).2.2 := by
  induction calls generalizing state vectors windows with
  | nil => exact ⟨rfl, agrees⟩
  | cons call calls ih =>
      obtain ⟨stateVectors, devices⟩ := state
      obtain ⟨rfl, rfl⟩ := agrees
      obtain ⟨answer, next⟩ := run_hook_irq platform stateVectors
        { windows with index := call.index } call.isGsi call.cpuId call.irq call.handler
      obtain ⟨answers, agrees⟩ := ih next
      exact ⟨congrArg₂ List.cons answer answers, agrees⟩

/-- Calls of `hook_irq` through the windows give the answers, the vectors and the
redirections that they give on the registers, whatever the index registers were left at. -/
theorem hooks_through_windows (platform : AlignedPlatform) (vectors : Vectors Handler)
    (windows : Windows) (calls : List (HookCall Handler)) :
    (hookAll platform.toPlatform vectors windows calls).1 =
        (hookAllRegisters platform.toPlatform ⟨vectors, windows.registers⟩ calls).1 ∧
      (hookAllRegisters platform.toPlatform ⟨vectors, windows.registers⟩ calls).2.vectors =
        (hookAll platform.toPlatform vectors windows calls).2.1 ∧
      (hookAllRegisters platform.toPlatform ⟨vectors, windows.registers⟩ calls).2.devices =
        (hookAll platform.toPlatform vectors windows calls).2.2.registers := by
  have same : Agrees ⟨vectors, windows.registers⟩ vectors windows := ⟨rfl, rfl⟩
  exact hooks_agree platform same calls

/-- Two I/O APICs with 24 pins each; line 0 is on the third pin of the first. -/
def twoIoapics : AlignedPlatform where
  hhdm := 0xffff800000000000
  ioApics := [⟨0xfec00000, 0⟩, ⟨0xfec01000, 24⟩]
  isos := [⟨0, 0, 2⟩]
  aligned := by
    simp only [List.forall_mem_cons, List.not_mem_nil, false_implies, implies_true, and_true]
    decide

/-- Index registers and redirections as they may be found. -/
def usedWindows : Windows := ⟨fun _ => 0x3f, fun _ reg => if reg = 1 then 0x00170020 else 0xffffffff⟩

/-- The timer's line, an interrupt of the second I/O APIC, one of none and a processor
there is not. -/
def fourHooks : List (HookCall String) :=
  [⟨false, 0, 0, "timer", fun _ => 0x10⟩, ⟨true, 3, 30, "disk", fun _ => 1⟩,
    ⟨true, 3, 48, "none", fun _ => 0x1d⟩, ⟨true, 256, 5, "far", fun _ => 0⟩]

theorem four_hooks_through_windows :
    (hookAll twoIoapics.toPlatform initializeIrqVectors usedWindows fourHooks).1 =
        [(.success, some ⟨0, 32⟩), (.success, some ⟨3, 32⟩), (.failure, none),
          (.invalidArguments, none)] ∧
      (hookAll twoIoapics.toPlatform initializeIrqVectors usedWindows fourHooks).2.2.registers
          0xffff8000fec01000 0x1c = 32 ∧
      (hookAll twoIoapics.toPlatform initializeIrqVectors usedWindows fourHooks).2.2.registers
          0xffff8000fec01000 0x1d = 0x03000000 := by
  obtain ⟨answers, _, registers⟩ :=
    hooks_through_windows twoIoapics initializeIrqVectors usedWindows fourHooks
  rw [answers, ← registers]
  decide +kernel

end KittyOs.IoapicWindows
