import KittyOs.ProcessGrowth
import KittyOs.ProcessStores

/-!
# Runs on byte stores

Every run of the machine from boot, with process memory written and read at any
point, is a run of the byte stores with the same events. The direct map is where
the kernel finds its own top table again after an access; it is assumed at boot only.
A caller's buffer in memory is accessed under the page map of the process, and apart
from the range it is served as the data it holds.
-/

namespace KittyOs.StoreRuns

open KittyOs.Lib.ByteMemory KittyOs.Lib.SpanPartition KittyOs.Lib.RadixForest
open KittyOs.Lib.EventRuns
open KittyOs.MachineWord KittyOs.PageTable KittyOs.PhysicalFreelist
open KittyOs.VirtualModel KittyOs.MapEffect
open KittyOs.Translation KittyOs.KernelModel KittyOs.HeapBounds
open KittyOs.ProcessModel KittyOs.AddressSpaces
open KittyOs.SharedHalf KittyOs.ProcessCalls KittyOs.FramePlaces KittyOs.BootState
open KittyOs.MemoryRuns KittyOs.FrameRoles KittyOs.ProcessViews KittyOs.UserPages
open KittyOs.ProcessIsolation KittyOs.ProcessStores
open KittyOs.ProcessGrowth (UpperEntry hardware_walk_kept table_below)
open KittyOs.VmemRecords (MapsOutside new_space_leaf)

set_option autoImplicit false

/-- The kernel finds its top table through the direct map, which is outside the hole. -/
structure DirectTop (hole : Hole) (kernel : Kernel) : Prop where
  writable : WritableTo (readEntry kernel.phys.mem) kernel.kernelPml4 kernel.currentPageMapAddress
    kernel.kernelPml4
  canonical : isCanonical kernel.currentPageMapAddress = true
  aligned : kernel.currentPageMapAddress.toNat % 4096 = 0
  outside : ∀ address, hole.Contains address →
    pathOf kernel.currentPageMapAddress ≠ pathOf address

/-- What every call on the machine keeps. -/
structure Kept (hole : Hole) (usable : Nat → Prop) (machine : Machine) (config : Config) :
    Prop where
  holds : Holds hole usable machine config
  levelled : Levelled machine config
  direct : DirectTop hole config.kernel

section Steps

variable {hole : Hole} {usable : Nat → Prop} {machine after : Machine} {config next : Config}
variable {handle : Nat} {process : ProcessContext} {call : Call}

theorem DirectTop.mapped {mem : Memory} (direct : DirectTop hole config.kernel)
    (sound : Sound hole config) (data : DataMemory config mem) : DirectMapped config.kernel mem :=
  direct_mapped sound data direct.writable direct.canonical direct.aligned

theorem data_memory_self (config : Config) : DataMemory config config.mem :=
  ⟨fun _ _ _ _ _ _ => rfl, fun _ _ => rfl⟩

theorem cr3_run {Allowed : Action → Prop} (steps : Steps hole Allowed config next) :
    next.kernel.cr3 = config.kernel.cr3 := by
  induction steps with
  | refl => rfl
  | tail _ last ih =>
      obtain ⟨action, _, step⟩ := last
      rw [← ih]
      cases step <;> rfl

theorem DirectTop.run {Allowed : Action → Prop} (direct : DirectTop hole config.kernel)
    (sound : Sound hole config) (steps : Steps hole Allowed config next) :
    DirectTop hole next.kernel := by
  have address : next.kernel.currentPageMapAddress = config.kernel.currentPageMapAddress := by
    rw [Kernel.currentPageMapAddress, Kernel.currentPageMapAddress, cr3_run steps, hhdm_run steps]
  have root : next.kernel.kernelPml4 = config.kernel.kernelPml4 := root_run steps
  have writable := writable_run_outside sound steps direct.outside direct.writable
  refine ⟨?_, ?_, ?_, ?_⟩
  · rw [address]
    rw [Config.root, root] at writable
    rw [root]
    exact writable
  · rw [address]
    exact direct.canonical
  · rw [address]
    exact direct.aligned
  · rw [address]
    exact direct.outside

theorem DirectTop.data {mem : Memory} (direct : DirectTop hole config.kernel)
    (data : DataMemory config mem) : DirectTop hole (withData config mem).kernel :=
  ⟨writable_agrees data.agrees (kernel_live config) (kernel_owns _ _) direct.writable,
    direct.canonical, direct.aligned, direct.outside⟩

/-! ### Memory calls -/

/-- The processes of a machine stay in their places, with their page maps. -/
theorem call_process (ran : perform machine call = some after)
    (here : machine.processes[handle]? = some process) :
    ∃ later, after.processes[handle]? = some later ∧ later.pageMap = process.pageMap := by
  have replaced : ∀ {target : Nat} {other : ProcessContext} {availableVmem : VmemVector},
      machine.processes[target]? = some other →
      after = machine.withVmem target other availableVmem →
      ∃ later, after.processes[handle]? = some later ∧ later.pageMap = process.pageMap := by
    intro target other availableVmem there shape
    obtain ⟨bound, _⟩ := List.getElem?_eq_some_iff.mp there
    rw [shape, Machine.withVmem, List.getElem?_set]
    by_cases same : target = handle
    · rw [if_pos same, if_pos bound]
      rw [same, here, Option.some.injEq] at there
      exact ⟨_, rfl, by rw [there]⟩
    · rw [if_neg same]
      exact ⟨process, here, rfl⟩
  cases call with
  | sbrk _ | mmap _ =>
      obtain ⟨_, _, shape⟩ := Option.map_eq_some_iff.mp ran
      rw [← shape]
      exact ⟨process, here, rfl⟩
  | createProcess _ _ _ _ _ _ _ =>
      obtain ⟨⟨result, _⟩, _, shape⟩ := Option.map_eq_some_iff.mp ran
      obtain ⟨bound, _⟩ := List.getElem?_eq_some_iff.mp here
      rw [← shape]
      exact ⟨process, (List.getElem?_append_left bound).trans here, rfl⟩
  | allocateMemoryInProcess _ _ _ =>
      obtain ⟨_, _, ran⟩ := Option.bind_eq_some_iff.mp ran
      obtain ⟨_, _, shape⟩ := Option.map_eq_some_iff.mp ran
      rw [← shape]
      exact ⟨process, here, rfl⟩
  | allocateVirtualMemoryAt _ _ _ | allocateVirtualMemory _ _ =>
      obtain ⟨other, there, shape⟩ := Option.map_eq_some_iff.mp ran
      exact replaced there shape.symm

theorem create_action_initial {pointer : U64} {root byte : Nat} {level : ProcessLevel}
    (lower : byte < 2 ^ 47) (outside : ¬Initial byte) (action : Action)
    (allowed : CreateAction pointer root level action) :
    MapsOutside root (BitVec.ofNat 64 byte) action := by
  cases action with
  | spacePage at_ _ address _ =>
      obtain ⟨_, _, range⟩ := allowed
      intro _ place
      rw [place_to_nat lower] at place
      apply outside
      unfold Initial
      omega
  | _ => trivial

/-- The store of a new process. -/
theorem created_store {processPath processName : String} {entryPoint : U64} {level : ProcessLevel}
    {startPaused : Bool} {newCalls vectorCalls : List HeapCall} {kernel : Kernel} {byte : Nat}
    (sound : Sound hole config) (fits : CreateFits hole config.kernel newCalls vectorCalls)
    (ran : createProcess config.kernel processPath processName entryPoint level startPaused newCalls
      vectorCalls = some (some process, kernel))
    (mapped : (storeOf kernel process byte).isSome) : Initial byte := by
  obtain ⟨pointer, root, next, same, creation, fresh, made⟩ := create_process_steps sound fits ran
  rcases made with ⟨nothing, _⟩ | ⟨nothing | returned, _, linked⟩
  · exact absurd nothing (by simp)
  · exact absurd nothing (by simp)
  · have pageMap : process.pageMap = pointer := by
      rw [Option.some.inj returned]
      rfl
    rw [← pageMap] at linked
    by_contra outside
    have lower : byte < 2 ^ 47 := by
      by_contra above
      rw [storeOf, if_neg above] at mapped
      exact absurd mapped (by simp)
    have nothing := new_space_leaf sound creation.steps fresh linked.member
      (show (BitVec.ofNat 64 byte).toNat < 2 ^ 47 by rw [place_to_nat lower]; exact lower)
      (create_action_initial lower outside)
    rw [← same, store_mapped_iff (sound.run creation.steps) linked lower, nothing] at mapped
    exact absurd mapped (by simp)

theorem call_grown (holds : Holds hole usable machine config) (fits : CallFits hole machine call)
    (ran : perform machine call = some after) : Grown call (stores machine) (stores after) := by
  constructor
  · intro handle store here
    rw [stores, List.getElem?_map] at here
    obtain ⟨process, there, isStore⟩ := Option.map_eq_some_iff.mp here
    obtain ⟨later, found, pointer⟩ := call_process ran there
    obtain ⟨kept, mapped⟩ := store_called holds fits ran there
    rw [← isStore]
    refine ⟨storeOf after.kernel process, ?_, kept, mapped⟩
    rw [stores, List.getElem?_map, found, Option.map_some, store_of_pointer pointer]
  · intro handle store new here
    rw [stores, List.length_map] at new ⊢
    rw [stores, List.getElem?_map] at here
    obtain ⟨process, there, isStore⟩ := Option.map_eq_some_iff.mp here
    obtain ⟨bound, _⟩ := List.getElem?_eq_some_iff.mp there
    have renamed : ∀ {target : Nat} {other : ProcessContext} {availableVmem : VmemVector},
        after = machine.withVmem target other availableVmem → False := by
      intro target other availableVmem shape
      rw [shape, Machine.withVmem, List.length_set] at bound
      omega
    cases call with
    | sbrk _ | mmap _ =>
        obtain ⟨_, _, shape⟩ := Option.map_eq_some_iff.mp ran
        rw [← shape] at bound
        exact absurd bound (by dsimp only; omega)
    | createProcess _ _ _ _ _ _ _ =>
        obtain ⟨⟨result, kernel⟩, called, shape⟩ := Option.map_eq_some_iff.mp ran
        rw [CallFits, ← holds.kernel] at fits
        rw [← holds.kernel] at called
        rw [← shape] at there isStore
        dsimp only at there isStore
        rw [List.getElem?_append_right new] at there
        cases result with
        | none => exact absurd there (by simp)
        | some created =>
            rw [Option.toList_some, List.getElem?_singleton] at there
            split_ifs at there with first
            rw [Option.some.inj there] at called
            refine ⟨trivial, by omega, ?_⟩
            rw [← isStore]
            intro byte mapped
            exact created_store holds.orderly.sound fits called mapped
    | allocateMemoryInProcess _ _ _ =>
        obtain ⟨_, _, ran⟩ := Option.bind_eq_some_iff.mp ran
        obtain ⟨_, _, shape⟩ := Option.map_eq_some_iff.mp ran
        rw [← shape] at bound
        exact absurd bound (by dsimp only; omega)
    | allocateVirtualMemoryAt _ _ _ | allocateVirtualMemory _ _ =>
        obtain ⟨_, _, shape⟩ := Option.map_eq_some_iff.mp ran
        exact absurd shape.symm renamed

theorem Kept.perform (kept : Kept hole usable machine config) (fits : CallFits hole machine call)
    (ran : perform machine call = some after) : ∃ next, Kept hole usable after next := by
  obtain ⟨next, performed⟩ := kept.holds.perform fits ran
  exact ⟨next, performed.holds, kept.levelled.perform kept.holds performed,
    kept.direct.run kept.holds.orderly.sound performed.steps⟩

/-! ### Accesses -/

theorem Kept.data {mem : Memory} (kept : Kept hole usable machine config)
    (data : DataMemory config mem) :
    Kept hole usable { machine with kernel := (withData config mem).kernel }
      (withData config mem) := by
  refine ⟨holds_with_data kept.holds data, ?_, kept.direct.data data⟩
  intro process member root linked
  obtain ⟨before, there⟩ := kept.holds.linked process member
  have same : root = before := linked_root_unique linked (data.linked there)
  rw [same]
  exact (kept.levelled process member before there).agrees data.agrees

/-- What a write that returns has done. -/
structure WriteOutcome (config : Config) (root : Nat) (process : ProcessContext) (address : U64)
    (buffer : Nat → Byte) (size : U64) (result : Bool) (kernel : Kernel) : Prop where
  served : result = true ↔ Covers (storeOf config.kernel process) address size
  data : DataMemory config kernel.phys.mem
  shape : kernel = (withData config kernel.phys.mem).kernel
  refused : result = false → kernel.phys.mem = config.mem
  written : result = true →
    InBounds address size ∧ Written config root address buffer size.toNat kernel.phys.mem

theorem write_outcome {address size : U64} {buffer : Nat → Byte} {result : Bool} {kernel : Kernel}
    {root : Nat} {level : ProcessLevel} (orderly : Orderly hole usable config)
    (direct : DirectTop hole config.kernel) (linked : Linked config process.pageMap root)
    (marked : Marked config root level) (noWrap : address.toNat + size.toNat < 2 ^ 64)
    (ran : processWrite config.kernel process address buffer size = some (result, kernel)) :
    WriteOutcome config root process address buffer size result kernel := by
  obtain ⟨found, final, again, served⟩ := @process_write_served hole usable config root process
    address size buffer level orderly linked marked noWrap
  obtain ⟨sameResult, _⟩ := Prod.mk.inj (Option.some.inj (ran.symm.trans again))
  rw [← sameResult] at served
  have refused : result = false → kernel.phys.mem = config.mem := by
    intro failed
    rw [failed] at ran
    exact refused_write_memory orderly linked ran
  have written : result = true → InBounds address size ∧
      Written config root address buffer size.toNat kernel.phys.mem := by
    intro worked
    rw [worked] at ran
    obtain ⟨bounds, _, written⟩ := @write_result hole usable config config.kernel.cr3 root process
      address size buffer kernel orderly linked noWrap ran
    exact ⟨bounds, written⟩
  have data : DataMemory config kernel.phys.mem := by
    cases result with
    | false =>
        rw [refused rfl]
        exact data_memory_self config
    | true => exact (written rfl).2.data
  have shape := (@write_restores hole usable config config.kernel.cr3 root process address size
    buffer result kernel orderly linked
    (direct.mapped orderly.sound (data_memory_self config)) ran
    (direct.mapped orderly.sound data)).1
  exact ⟨served, data, shape, refused, written⟩

/-- A write changes the store of its process. -/
theorem written_stores {address size : U64} {buffer : Nat → Byte} {root : Nat} {mem : Memory}
    (holds : Holds hole usable machine config)
    (here : machine.processes[handle]? = some process)
    (linked : Linked config process.pageMap root) (bounds : InBounds address size)
    (written : Written config root address buffer size.toNat mem) :
    machine.processes.map (storeOf (withData config mem).kernel) =
      (machine.processes.map (storeOf config.kernel)).set handle
        ((storeOf config.kernel process).write address.toNat buffer size.toNat) := by
  obtain ⟨bound, _⟩ := List.getElem?_eq_some_iff.mp here
  apply List.ext_getElem?
  intro target
  rw [List.getElem?_set, List.getElem?_map, List.getElem?_map, List.length_map]
  cases there : machine.processes[target]? with
  | none =>
      have apart : handle ≠ target := by
        intro same
        rw [same, there] at here
        exact absurd here (by simp)
      rw [if_neg apart, Option.map_none, Option.map_none]
  | some other =>
      obtain ⟨otherRoot, otherLinked⟩ := holds.linked other (List.mem_of_getElem? there)
      rw [Option.map_some, Option.map_some,
        store_written holds.orderly linked otherLinked bounds written]
      by_cases same : handle = target
      · rw [← same, here, Option.some.injEq] at there
        rw [← there] at otherLinked ⊢
        rw [if_pos (linked_root_unique otherLinked linked), if_pos same, if_pos bound]
      · have apart : otherRoot ≠ root := by
          intro sameRoot
          rw [sameRoot] at otherLinked
          exact same (holds.same_handle here there
            (linked_pointer_unique holds.orderly linked otherLinked))
        rw [if_neg apart, if_neg same]

theorem machine_store (here : machine.processes[handle]? = some process) :
    (stores machine)[handle]? = some (storeOf machine.kernel process) := by
  rw [stores, List.getElem?_map, here, Option.map_some]

theorem Kept.write {address size : U64} {buffer : Nat → Byte} {result : Bool} {kernel : Kernel}
    (kept : Kept hole usable machine config) (here : machine.processes[handle]? = some process)
    (noWrap : address.toNat + size.toNat < 2 ^ 64)
    (ran : processWrite machine.kernel process address buffer size = some (result, kernel)) :
    StoreStep (stores machine) (.write handle address buffer size result)
        (stores { machine with kernel }) ∧
      ∃ next, Kept hole usable { machine with kernel } next := by
  have holds := kept.holds
  have member := List.mem_of_getElem? here
  obtain ⟨root, linked⟩ := holds.linked process member
  rw [← holds.kernel] at ran
  have outcome := write_outcome holds.orderly kept.direct linked
    (kept.levelled process member root linked) noWrap ran
  have served := outcome.served
  rw [holds.kernel] at served
  have following : stores { machine with kernel } = if result then
      (stores machine).set handle
        ((storeOf machine.kernel process).write address.toNat buffer size.toNat)
      else stores machine := by
    cases result with
    | false =>
        have unchanged : kernel = machine.kernel := by
          rw [outcome.shape, outcome.refused rfl, ← holds.kernel]
        rw [if_neg (by simp), stores, unchanged, stores]
    | true =>
        obtain ⟨bounds, written⟩ := outcome.written rfl
        have changed := written_stores holds here linked bounds written
        rw [← outcome.shape, holds.kernel] at changed
        rw [if_pos rfl, stores, stores]
        exact changed
  refine ⟨?_, withData config kernel.phys.mem, ?_⟩
  · rw [following]
    exact .write (machine_store here) served
  · have advanced := kept.data outcome.data
    rw [← outcome.shape] at advanced
    exact advanced

theorem Kept.read {address size : U64} {result : Bool} {kernel : Kernel} {bytes : List Byte}
    (kept : Kept hole usable machine config) (here : machine.processes[handle]? = some process)
    (noWrap : address.toNat + size.toNat < 2 ^ 64)
    (ran : processRead machine.kernel process address size = some (result, kernel, bytes)) :
    StoreStep (stores machine) (.read handle address size result bytes) (stores machine) ∧
      kernel = machine.kernel := by
  have holds := kept.holds
  obtain ⟨root, linked⟩ := holds.linked process (List.mem_of_getElem? here)
  obtain ⟨found, content, again, served, bytesRead⟩ := process_read_served holds.orderly linked
    noWrap (kept.direct.mapped holds.orderly.sound (data_memory_self config))
  rw [holds.kernel] at again served bytesRead
  have same := Option.some.inj (ran.symm.trans again)
  simp only [Prod.mk.injEq] at same
  obtain ⟨sameResult, sameKernel, sameBytes⟩ := same
  rw [← sameResult] at served bytesRead
  rw [← sameBytes] at bytesRead
  exact ⟨.read (machine_store here) served bytesRead, sameKernel⟩

/-- Each call on the machine is a step of the stores. -/
theorem emits_store_step {event : Event} (kept : Kept hole usable machine config)
    (emits : Emits hole machine event after) :
    StoreStep (stores machine) event (stores after) ∧ ∃ next, Kept hole usable after next := by
  cases emits with
  | write here noWrap ran => exact kept.write here noWrap ran
  | read here noWrap ran =>
      obtain ⟨step, same⟩ := kept.read here noWrap ran
      rw [same]
      exact ⟨step, config, kept⟩
  | call fits ran => exact ⟨.call (call_grown kept.holds fits ran), kept.perform fits ran⟩

end Steps

/-! ### Runs -/

/-- The event gives the byte of the process another value, or may do so. -/
def Touches (handle byte : Nat) : Event → Prop
  | .write target address _ size result =>
      result = true ∧ target = handle ∧ address.toNat ≤ byte ∧
        byte < address.toNat + size.toNat
  | .read _ _ _ _ _ => False
  | .call call => Remaps handle byte call

/-- The store of the process has this value at the byte. -/
def HasByte (handle byte : Nat) (value : Option Byte) (stores : List Store) : Prop :=
  ∃ store, stores[handle]? = some store ∧ store byte = value

section Abstract

variable {handle byte : Nat} {value : Option Byte} {held next : List Store} {event : Event}

theorem untouched_step (here : HasByte handle byte value held) (spared : ¬Touches handle byte event)
    (step : StoreStep held event next) : HasByte handle byte value next := by
  obtain ⟨store, found, content⟩ := here
  cases step with
  | @write _ target written address size buffer result there _ =>
      cases result with
      | false => exact ⟨store, found, content⟩
      | true =>
          rw [if_pos rfl]
          by_cases same : target = handle
          · obtain ⟨bound, _⟩ := List.getElem?_eq_some_iff.mp there
            rw [same, found, Option.some.injEq] at there
            refine ⟨written.write address.toNat buffer size.toNat, ?_, ?_⟩
            · rw [← same, List.getElem?_set_self bound]
            · rw [Store.write, if_neg fun inside => spared ⟨rfl, same, inside⟩, ← there, content]
          · refine ⟨store, ?_, content⟩
            rw [List.getElem?_set_ne same, found]
  | read _ _ _ => exact ⟨store, found, content⟩
  | call grown =>
      obtain ⟨later, there, kept, _⟩ := grown.kept handle store found
      exact ⟨later, there, (kept byte spared).trans content⟩

theorem written_byte {address size : U64} {buffer : Nat → Byte}
    (above : address.toNat ≤ byte) (below : byte < address.toNat + size.toNat)
    (step : StoreStep held (.write handle address buffer size true) next) :
    HasByte handle byte (some (buffer (byte - address.toNat))) next := by
  cases step with
  | @write _ _ store _ _ _ _ here _ =>
      obtain ⟨bound, _⟩ := List.getElem?_eq_some_iff.mp here
      rw [if_pos rfl]
      refine ⟨store.write address.toNat buffer size.toNat, List.getElem?_set_self bound, ?_⟩
      rw [Store.write, if_pos ⟨above, below⟩]

theorem read_bytes {address size : U64} {bytes : List Byte}
    (step : StoreStep held (.read handle address size true bytes) next) :
    bytes.length = size.toNat ∧ ∀ byte value, HasByte handle byte value held →
      address.toNat ≤ byte → byte < address.toNat + size.toNat →
        bytes[byte - address.toNat]? = value := by
  cases step with
  | @read _ _ store _ _ _ _ here _ content =>
      rw [if_pos rfl] at content
      constructor
      · have lengths := congrArg List.length content
        rw [List.length_map, List.length_map, List.length_range] at lengths
        exact lengths
      · rintro byte value ⟨found, there, isValue⟩ above below
        rw [here, Option.some.injEq] at there
        have position : byte - address.toNat < size.toNat := by omega
        have entry := congrArg (fun list => list[byte - address.toNat]?) content
        simp only [List.getElem?_map, List.getElem?_range position, Option.map_some] at entry
        have place : address.toNat + (byte - address.toNat) = byte := by omega
        rw [place, there, isValue] at entry
        cases isByte : bytes[byte - address.toNat]? with
        | none =>
            rw [isByte] at entry
            exact absurd entry (by simp)
        | some read =>
            rw [isByte, Option.map_some] at entry
            exact Option.some.inj entry

end Abstract

section Runs

variable {hole : Hole} {kernel booted : Kernel} {blocks : List Span} {machine : Machine}
variable {events : List Event}

theorem boot_kept (boot : Boot hole kernel blocks) (heap : initializeHeap kernel = some booted)
    (direct : DirectTop hole booted) :
    Kept hole (FreeAt blocks) ⟨booted, [], []⟩ (bootConfig booted blocks) :=
  ⟨boot_holds boot heap, fun _ member => absurd member List.not_mem_nil, direct⟩

theorem run_stores {usable : Nat → Prop} {start : Machine} {config : Config}
    (kept : Kept hole usable start config) (run : Run (Emits hole) start events machine) :
    Run StoreStep (stores start) events (stores machine) ∧
      ∃ next, Kept hole usable machine next := by
  have follows : ∀ before abstract event after,
      abstract = stores before ∧ (∃ config, Kept hole usable before config) →
      Emits hole before event after → ∃ later, StoreStep abstract event later ∧
        (later = stores after ∧ ∃ config, Kept hole usable after config) := by
    rintro before abstract event after ⟨isStores, here, invariant⟩ emits
    obtain ⟨step, next⟩ := emits_store_step invariant emits
    rw [isStores]
    exact ⟨stores after, step, rfl, next⟩
  obtain ⟨last, abstract, same, next⟩ := run_simulated follows run ⟨rfl, config, kept⟩
  rw [← same]
  exact ⟨abstract, next⟩

/-! ### A process on the large machine -/

theorem covered_write_emits {usable : Nat → Prop} {config : Config} {handle : Nat}
    {process : ProcessContext} {address size : U64} (kept : Kept hole usable machine config)
    (here : machine.processes[handle]? = some process)
    (covers : Covers (storeOf machine.kernel process) address size) (buffer : Nat → Byte) :
    ∃ kernel, Emits hole machine (.write handle address buffer size true) { machine with kernel } ∧
      Covers (storeOf kernel process) address size := by
  have holds := kept.holds
  have member := List.mem_of_getElem? here
  obtain ⟨root, linked⟩ := holds.linked process member
  have limits := covers.bounds
  unfold InBounds at limits
  have noWrap : address.toNat + size.toNat < 2 ^ 64 := by omega
  obtain ⟨result, kernel, ran, served⟩ : ∃ result after,
      processWrite config.kernel process address buffer size = some (result, after) ∧
        (result = true ↔ Covers (storeOf config.kernel process) address size) :=
    process_write_served holds.orderly linked (kept.levelled process member root linked) noWrap
  rw [holds.kernel] at ran served
  rw [served.mpr covers] at ran
  refine ⟨kernel, .write here noWrap ran, covers.bounds, ?_⟩
  intro byte above below
  obtain ⟨step, _⟩ := Kept.write kept here noWrap ran
  have content : (stores { machine with kernel })[handle]? = some (storeOf kernel process) :=
    machine_store here
  generalize stores { machine with kernel } = next at step content
  cases step with
  | @write _ _ store _ _ _ _ there _ =>
      obtain ⟨bound, _⟩ := List.getElem?_eq_some_iff.mp there
      rw [machine_store here, Option.some.injEq] at there
      rw [if_pos rfl, List.getElem?_set_self bound, Option.some.injEq, ← there] at content
      rw [← content, Store.write]
      split_ifs
      · rfl
      · exact covers.there byte above below

theorem covered_accesses_run {usable : Nat → Prop} {config : Config} {handle : Nat}
    {process : ProcessContext} {address size : U64} (kept : Kept hole usable machine config)
    (here : machine.processes[handle]? = some process)
    (covers : Covers (storeOf machine.kernel process) address size) (buffer : Nat → Byte) :
    ∃ bytes later, later.processes[handle]? = some process ∧
      Covers (storeOf later.kernel process) address size ∧
      Run (Emits hole) machine
        [.write handle address buffer size true, .read handle address size true bytes] later := by
  obtain ⟨kernel, wrote, covered⟩ := covered_write_emits kept here covers buffer
  obtain ⟨_, next, ⟨holds, _, direct⟩⟩ := emits_store_step kept wrote
  obtain ⟨root, linked⟩ := holds.linked process (List.mem_of_getElem? here)
  have limits := covers.bounds
  unfold InBounds at limits
  have noWrap : address.toNat + size.toNat < 2 ^ 64 := by omega
  obtain ⟨result, bytes, ran, served, _⟩ := process_read_served holds.orderly linked noWrap
    (direct.mapped holds.orderly.sound (data_memory_self next))
  rw [holds.kernel] at ran served
  rw [served.mpr covered] at ran
  exact ⟨bytes, { machine with kernel }, here, covered,
    .cons wrote (.cons (.read here noWrap ran) .nil)⟩

theorem direct_top_boot :
    ∃ phys blocks, Boot largeHole { largeKernel with phys } blocks ∧
      258 * 20480 ≤ freeBytes blocks ∧ DirectTop largeHole { largeHeap with phys } := by
  obtain ⟨phys, blocks, boot, enough, hhdm, direct, _⟩ := direct_boot
  have pointer : Kernel.currentPageMapAddress { largeHeap with phys } = 0xffff800000001000 := by
    rw [Kernel.currentPageMapAddress]
    dsimp only
    rw [hhdm]
    decide
  refine ⟨phys, blocks, boot, Nat.le_trans (by decide) enough, ?_, ?_, ?_, ?_⟩
  · rw [pointer]
    exact direct
  · rw [pointer]
    decide
  · rw [pointer]
    decide
  · rw [pointer]
    exact fun address inside => (direct_page_outside address inside).symm

theorem first_page_covers {config : Config} {root : Nat} {process : ProcessContext}
    (sound : Sound hole config) (linked : Linked config process.pageMap root)
    (mapped : ∀ target : U64, 0x10000 ≤ target.toNat ∧ target.toNat < 0x11000 →
      (liveLeaf config.slots root target).isSome) :
    Covers (storeOf config.kernel process) 0x10000 1 := by
  have floor : (0x10000 : U64).toNat / 4096 * 4096 = 0x10000 := by decide
  have ceiling : ((0x10000 : U64).toNat + (1 : U64).toNat + 4095) / 4096 * 4096 = 0x11000 := by
    decide
  refine ⟨⟨by decide, by decide⟩, ?_⟩
  rw [floor, ceiling]
  intro byte above below
  have lower : byte < 2 ^ 47 := by omega
  rw [store_mapped_iff sound linked lower]
  apply mapped
  rw [place_to_nat lower]
  exact ⟨above, below⟩

/-- A process is made; its first page is written and read. -/
theorem first_page_run :
    ∃ phys blocks call bytes machine, Boot largeHole { largeKernel with phys } blocks ∧
      DirectTop largeHole { largeHeap with phys } ∧
      machine.processes[0]? = some (largeProcess .user) ∧
      Covers (storeOf machine.kernel (largeProcess .user)) 0x10000 1 ∧
      Run (Emits largeHole) ⟨{ largeHeap with phys }, [], []⟩
        [.call call, .write 0 0x10000 (fun _ => 7) 1 true, .read 0 0x10000 1 true bytes]
        machine := by
  obtain ⟨phys, blocks, boot, enough, direct⟩ := direct_top_boot
  have start := boot_kept boot (large_heap_with phys) direct
  have sound := boot_sound boot (large_heap_with phys)
  obtain ⟨root, next, ⟨call, fits, performed⟩, steps, linked, mapped⟩ :=
    booted_creates .user sound enough
  have made : Emits largeHole ⟨{ largeHeap with phys }, [], []⟩ (.call call)
      ⟨next.kernel, [largeProcess .user], []⟩ := .call fits performed
  have covers := first_page_covers (sound.run steps) linked fun target inside =>
    mapped target (Or.inr inside)
  obtain ⟨_, config, kept⟩ := emits_store_step start made
  obtain ⟨bytes, machine, here, covered, run⟩ := covered_accesses_run kept
    (show [largeProcess .user][0]? = some (largeProcess .user) from rfl) covers fun _ => 7
  exact ⟨phys, blocks, call, bytes, machine, boot, direct, here, covered, .cons made run⟩

/-! ### The caller's buffer -/

/-- The processor may read, or also write, every byte of a range. -/
def Accessible (mem : Memory) (root : Nat) (start : U64) (count : Nat) (write : Bool) : Prop :=
  ∀ index < count, ∃ byte writable,
    hardwareWalk mem root (start + BitVec.ofNat 64 index) = some (byte, writable) ∧
      (write = true → writable = true)

theorem Accessible.read {mem : Memory} {root count : Nat} {start : U64} {write : Bool}
    (accessible : Accessible mem root start count write) :
    Accessible mem root start count false := by
  intro index small
  obtain ⟨byte, writable, walked, _⟩ := accessible index small
  exact ⟨byte, writable, walked, by simp⟩

/-- A physical byte that a range is translated to. -/
def Behind (mem : Memory) (root : Nat) (start : U64) (count byte : Nat) : Prop :=
  ∃ index < count, ∃ writable,
    hardwareWalk mem root (start + BitVec.ofNat 64 index) = some (byte, writable)

/-- No two bytes of a range are one byte of memory. -/
def OnePlaceEach (mem : Memory) (root : Nat) (start : U64) (count : Nat) : Prop :=
  ∀ left < count, ∀ right < count, ∀ byte writable also,
    hardwareWalk mem root (start + BitVec.ofNat 64 left) = some (byte, writable) →
      hardwareWalk mem root (start + BitVec.ofNat 64 right) = some (byte, also) → left = right

/-- However the bytes behind a range are changed, the page map translates as before: no
table in use is among them. -/
def KeepsWalks (mem : Memory) (root : Nat) (start : U64) (count : Nat) : Prop :=
  ∀ other : Memory, (∀ byte, ¬Behind mem root start count byte → other byte = mem byte) →
    ∀ address, hardwareWalk other root address = hardwareWalk mem root address

section Copies

variable {mem : Memory} {root count : Nat} {target source : U64}

/-- One more byte is read and stored under the tables the copy has left. -/
theorem copy_bytes_succ {copied : Nat} {after : Memory} :
    copyBytes root target source (copied + 1) mem = some after ↔
      ∃ middle byte readable place, copyBytes root target source copied mem = some middle ∧
        hardwareWalk middle root (source + BitVec.ofNat 64 copied) = some (byte, readable) ∧
        hardwareWalk middle root (target + BitVec.ofNat 64 copied) = some (place, true) ∧
        storeByte middle place (middle byte) = after := by
  simp only [copyBytes, Option.bind_eq_some_iff, Prod.exists]
  constructor
  · rintro ⟨middle, before, byte, readable, read, place, writable, walked, stored⟩
    split_ifs at stored with allowed
    rw [allowed] at walked
    exact ⟨middle, byte, readable, place, before, read, walked, Option.some.inj stored⟩
  · rintro ⟨middle, byte, readable, place, before, read, walked, stored⟩
    exact ⟨middle, before, byte, readable, read, place, true, walked, congrArg some stored⟩

/-- Nothing changes but the bytes behind the target. -/
theorem copy_bytes_elsewhere (keeps : KeepsWalks mem root target count) {copied : Nat}
    (small : copied ≤ count) {after : Memory}
    (done : copyBytes root target source copied mem = some after) (byte : Nat)
    (outside : ¬Behind mem root target count byte) : after byte = mem byte := by
  induction copied generalizing after byte with
  | zero => rw [← Option.some.inj done]
  | succ copied ih =>
      obtain ⟨middle, _, _, place, before, _, walked, stored⟩ := copy_bytes_succ.mp done
      rw [keeps middle (ih (by omega) before)] at walked
      rw [← stored, storeByte, if_neg, ih (by omega) before byte outside]
      intro same
      rw [same] at outside
      exact outside ⟨copied, by omega, true, walked⟩

/-- From a buffer apart from the target the copy takes the data in it. -/
theorem copy_bytes_from_data (keeps : KeepsWalks mem root target count) {data : Nat → Byte}
    (held : ∀ index < count, ∃ byte writable,
      hardwareWalk mem root (source + BitVec.ofNat 64 index) = some (byte, writable) ∧
        mem byte = data index ∧ ¬Behind mem root target count byte)
    {copied : Nat} (small : copied ≤ count) :
    copyBytes root target source copied mem = copyOut root data target copied mem := by
  induction copied with
  | zero => rw [copyBytes, copyOut]
  | succ copied ih =>
      rw [copyBytes, copyOut, ← ih (by omega)]
      cases before : copyBytes root target source copied mem with
      | none => rw [Option.bind_none, Option.bind_none]
      | some middle =>
          have elsewhere := copy_bytes_elsewhere keeps (by omega) before
          obtain ⟨byte, writable, walked, value, apart⟩ := held copied (by omega)
          rw [Option.bind_some, Option.bind_some, keeps middle elsewhere, walked, Option.bind_some,
            elsewhere byte apart, value]

/-- Into a buffer apart from the source the copy puts what is read there. -/
theorem copy_bytes_into_data (keeps : KeepsWalks mem root target count)
    (apart : ∀ byte, Behind mem root source count byte → ¬Behind mem root target count byte)
    (single : OnePlaceEach mem root target count) {copied : Nat} (small : copied ≤ count)
    {after : Memory} (done : copyBytes root target source copied mem = some after) :
    ∃ bytes, copyIn mem root source copied = some bytes ∧ bytes.length = copied ∧
      ∀ index < copied, ∀ byte writable,
        hardwareWalk mem root (target + BitVec.ofNat 64 index) = some (byte, writable) →
          bytes[index]? = some (after byte) := by
  induction copied generalizing after with
  | zero => exact ⟨[], rfl, rfl, nofun⟩
  | succ copied ih =>
      obtain ⟨middle, byte, readable, place, before, read, walked, stored⟩ :=
        copy_bytes_succ.mp done
      have elsewhere := copy_bytes_elsewhere keeps (by omega) before
      rw [keeps middle elsewhere] at read walked
      obtain ⟨bytes, earlier, length, content⟩ := ih (by omega) before
      refine ⟨bytes ++ [mem byte], ?_, ?_, ?_⟩
      · rw [copyIn, earlier, Option.bind_some, read, Option.map_some]
      · rw [List.length_append, List.length_singleton, length]
      · intro index below found writable here
        rw [← stored, storeByte]
        rcases Nat.lt_succ_iff_lt_or_eq.mp below with old | new
        · rw [List.getElem?_append_left (by omega), content index old found writable here, if_neg]
          intro same
          rw [same] at here
          exact absurd (single index (by omega) copied (by omega) _ _ _ here walked) (by omega)
        · rw [new] at here
          rw [if_pos (Prod.mk.inj (Option.some.inj (here.symm.trans walked))).1,
            elsewhere byte (apart byte ⟨copied, by omega, readable, read⟩), new, ← length,
            List.getElem?_concat_length]

end Copies

/-- Memory that keeps the tables translates as before, in both halves. -/
theorem data_walk_kept {hole : Hole} {config : Config} {root : Nat} {mem : Memory}
    (sound : Sound hole config) (shares : SharesUpper config root) (member : root ∈ config.spaces)
    (data : DataMemory config mem) (target : U64) :
    hardwareWalk mem root target = hardwareWalk config.mem root target := by
  refine hardware_walk_kept (fun depth table slot => UpperEntry config root depth table slot ∨
    ∃ route, route.length = depth ∧ config.Table root route table ∧
      Owned config.Owns root (route ++ [slot])) ?_ ?_ ?_
  · rintro depth table slot ((⟨_, atRoot, _⟩ | ⟨route, _, here⟩) | ⟨route, _, here, _⟩)
    · rw [atRoot]
      exact data.top_slot (space_live member) slot
    · exact read_entry_congr (data.tables _ _ _ here) slot
    · exact read_entry_congr (data.tables _ _ _ here) slot
  · by_cases lower : (splitVirtualAddressToStructure target).pml4.toNat < 256
    · exact Or.inr ⟨[], rfl, top_table (space_live member), Or.inr lower⟩
    · exact Or.inl (Or.inl ⟨rfl, rfl, Nat.le_of_not_lt lower⟩)
  · rintro depth table slot (entry | ⟨route, length, here, owned⟩) above present small index
    · exact Or.inl (entry.down sound shares above present small index)
    · rw [← length] at above small ⊢
      refine Or.inr ⟨route ++ [slot], by rw [List.length_append, List.length_singleton],
        table_below sound here owned above present small, ?_⟩
      cases route <;> exact owned

section Buffers

variable {hole : Hole} {usable : Nat → Prop} {machine : Machine} {config : Config} {root : Nat}
variable {process : ProcessContext} {address size : U64}

/-- A range the process covers holds none of its tables. -/
theorem Kept.covered_range (kept : Kept hole usable machine config)
    (linked : Linked config process.pageMap root) (member : process ∈ machine.processes)
    (covers : Covers (storeOf machine.kernel process) address size) :
    KeepsWalks machine.kernel.phys.mem (pageMapRoot machine.kernel process) address size.toNat ∧
      Accessible machine.kernel.phys.mem (pageMapRoot machine.kernel process) address size.toNat
        true := by
  have orderly := kept.holds.orderly
  have marked := kept.levelled process member root linked
  rw [← kept.holds.kernel] at covers ⊢
  rw [page_map_root orderly.sound linked]
  have passes := (passes_iff_there orderly.sound linked covers.bounds fun _ _ _ found =>
    live_leaf_readable found).mpr covers
  have lower : ∀ index < size.toNat, (address + BitVec.ofNat 64 index).toNat < 2 ^ 47 := by
    intro index small
    have bounds := covers.bounds
    rw [offset_to_nat bounds small]
    unfold InBounds at bounds
    omega
  have leaf : ∀ index < size.toNat, ∃ leaf,
      liveLeaf config.slots root (address + BitVec.ofNat 64 index) = some leaf := by
    intro index small
    exact (passes_leaf covers.bounds passes small).imp fun _ both => both.1
  constructor
  · intro other elsewhere
    have apart : ∀ byte, (∀ index < size.toNat,
        byte ≠ byteAt config.mem root (address + BitVec.ofNat 64 index)) →
        other byte = config.mem byte := by
      intro byte outside
      apply elsewhere
      rintro ⟨index, small, writable, walked⟩
      obtain ⟨entry, found⟩ := leaf index small
      obtain ⟨_, right, here⟩ := walk_byte_at orderly.sound linked.member (lower index small) found
      exact outside index small (Prod.mk.inj (Option.some.inj (walked.symm.trans here))).1
    refine data_walk_kept orderly.sound (orderly.shares root linked.member) linked.member ⟨?_, ?_⟩
    · intro start route table reached byte inside
      apply apart
      intro index small same
      obtain ⟨entry, found⟩ := leaf index small
      rw [same] at inside
      exact (leaf_byte_data orderly linked.member (lower index small) found).1 _ _ _ reached inside
    · intro byte free
      apply apart
      intro index small same
      obtain ⟨entry, found⟩ := leaf index small
      rw [same] at free
      exact (leaf_byte_data orderly linked.member (lower index small) found).2 free
  · intro index small
    obtain ⟨entry, found⟩ := leaf index small
    exact ⟨_, true, (marked_writable marked linked.member (lower index small) found).walkers.1,
      fun _ => rfl⟩

/-- The guards of the two functions let a request through exactly if it is covered. -/
theorem access_covered {filter : PageEntry → Bool} (orderly : Orderly hole usable config)
    (linked : Linked config process.pageMap root) (noWrap : address.toNat + size.toNat < 2 ^ 64)
    (filters : ∀ target leaf, target.toNat < 2 ^ 47 →
      liveLeaf config.slots root target = some leaf → filter leaf = true) :
    (¬Covers (storeOf config.kernel process) address size ∧
      (processAccess config.kernel process address size filter = some .denied ∨
        ∃ switched, processAccess config.kernel process address size filter =
          some (.flagsWrong (under config switched)))) ∨
    Covers (storeOf config.kernel process) address size ∧
      ∃ switched, (under config switched).activeMap = root ∧
        processAccess config.kernel process address size filter =
          some (.copies (under config switched)) := by
  rcases @access_cases hole usable config config.kernel.cr3 root process address size orderly linked
    noWrap filter with
    ⟨outside, denied⟩ | ⟨bounds, switched, _, active, ⟨passes, through⟩ | ⟨fails, wrong⟩⟩
  · exact Or.inl ⟨fun covers => outside covers.bounds, Or.inl denied⟩
  · have covers := (passes_iff_there orderly.sound linked bounds filters).mp passes
    exact Or.inr ⟨covers, switched, active, through⟩
  · refine Or.inl ⟨fun covers => fails ?_, Or.inr ⟨switched, wrong⟩⟩
    exact (passes_iff_there orderly.sound linked bounds filters).mpr covers

/-- From a buffer apart from the range, `process_write` takes the data in it. -/
theorem Kept.process_write_from_data (kept : Kept hole usable machine config)
    (linked : Linked config process.pageMap root) (member : process ∈ machine.processes)
    (noWrap : address.toNat + size.toNat < 2 ^ 64) {buffer : U64} {data : Nat → Byte}
    (held : ∀ index < size.toNat, ∃ byte writable,
      hardwareWalk config.mem root (buffer + BitVec.ofNat 64 index) = some (byte, writable) ∧
        config.mem byte = data index ∧ ¬Behind config.mem root address size.toNat byte) :
    processWriteFrom config.kernel process address buffer size =
      processWrite config.kernel process address data size := by
  unfold processWriteFrom processCopy processWrite
  rcases access_covered kept.holds.orderly linked noWrap fun target leaf =>
    marked_leaf_writable (kept.levelled process member root linked) linked.member with
    ⟨_, denied | ⟨switched, wrong⟩⟩ | ⟨covers, switched, active, through⟩
  · rw [denied]
  · rw [wrong]
  · rw [kept.holds.kernel] at covers
    have keeps := (kept.covered_range linked member covers).1
    rw [← kept.holds.kernel, page_map_root kept.holds.orderly.sound linked] at keeps
    rw [through]
    dsimp only
    rw [active, show (under config switched).phys.mem = config.mem from rfl,
      copy_bytes_from_data keeps held (Nat.le_refl _)]
    cases copyOut root data address size.toNat config.mem <;> rfl

/-- Into a buffer apart from the range, `process_read` puts the bytes it returns. -/
theorem process_read_into_data (orderly : Orderly hole usable config)
    (linked : Linked config process.pageMap root) (noWrap : address.toNat + size.toNat < 2 ^ 64)
    {buffer : U64} {after : Kernel} (keeps : KeepsWalks config.mem root buffer size.toNat)
    (apart : ∀ byte, Behind config.mem root address size.toNat byte →
      ¬Behind config.mem root buffer size.toNat byte)
    (single : OnePlaceEach config.mem root buffer size.toNat)
    (ran : processReadInto config.kernel process address buffer size = some (true, after)) :
    ∃ later bytes, processRead config.kernel process address size = some (true, later, bytes) ∧
      ∀ index < size.toNat, ∀ byte writable,
        hardwareWalk config.mem root (buffer + BitVec.ofNat 64 index) = some (byte, writable) →
          bytes[index]? = some (after.phys.mem byte) := by
  unfold processReadInto processCopy at ran
  unfold processRead
  rcases access_covered orderly linked noWrap fun _ _ _ found => live_leaf_readable found with
    ⟨_, denied | ⟨switched, wrong⟩⟩ | ⟨_, switched, active, through⟩
  · rw [denied] at ran
    exact absurd (Prod.mk.inj (Option.some.inj ran)).1 (by simp)
  · rw [wrong] at ran
    exact absurd (Prod.mk.inj (Option.some.inj ran)).1 (by simp)
  · rw [through] at ran ⊢
    dsimp only at ran ⊢
    rw [active, show (under config switched).phys.mem = config.mem from rfl] at ran ⊢
    obtain ⟨mem, done, outcome⟩ := Option.map_eq_some_iff.mp ran
    obtain ⟨bytes, read, _, content⟩ :=
      copy_bytes_into_data keeps apart single (Nat.le_refl _) done
    rw [read, ← (Prod.mk.inj outcome).2, set_page_map_memory]
    exact ⟨_, bytes, rfl, content⟩

end Buffers

/-! ### The runs of the machine -/

/-- Every run of the machine is a run of the byte stores with the same events. -/
theorem process_memory_refines_stores (boot : Boot hole kernel blocks)
    (heap : initializeHeap kernel = some booted) (direct : DirectTop hole booted)
    (run : Run (Emits hole) ⟨booted, [], []⟩ events machine) :
    Run StoreStep [] events (stores machine) :=
  (run_stores (boot_kept boot heap direct) run).1

theorem first_page_run_refines :
    ∃ call bytes machine, Run StoreStep []
      [.call call, .write 0 0x10000 (fun _ => 7) 1 true, .read 0 0x10000 1 true bytes]
      (stores machine) := by
  obtain ⟨phys, _, call, bytes, machine, boot, direct, _, _, run⟩ := first_page_run
  exact ⟨call, bytes, machine,
    process_memory_refines_stores boot (large_heap_with phys) direct run⟩

/-- A read returns what was written last, whatever was called in between. -/
theorem read_returns_last_write (boot : Boot hole kernel blocks)
    (heap : initializeHeap kernel = some booted) (direct : DirectTop hole booted)
    {before between : List Event} {handle : Nat} {address size start length : U64}
    {buffer : Nat → Byte} {bytes : List Byte}
    (run : Run (Emits hole) ⟨booted, [], []⟩
      (before ++ .write handle address buffer size true ::
        (between ++ [.read handle start length true bytes])) machine) :
    bytes.length = length.toNat ∧
      ∀ byte, address.toNat ≤ byte → byte < address.toNat + size.toNat →
        start.toNat ≤ byte → byte < start.toNat + length.toNat →
        (∀ event ∈ between, ¬Touches handle byte event) →
          bytes[byte - start.toNat]? = some (buffer (byte - address.toNat)) := by
  have abstract := (run_stores (boot_kept boot heap direct) run).1
  obtain ⟨held, _, later⟩ := run_append_iff.mp abstract
  obtain ⟨next, writes, later⟩ := run_cons_iff.mp later
  obtain ⟨reached, quiet, last⟩ := run_append_iff.mp later
  obtain ⟨_, reads, _⟩ := run_cons_iff.mp last
  obtain ⟨count, content⟩ := read_bytes reads
  refine ⟨count, ?_⟩
  intro byte above below first behind spared
  have wrote := written_byte above below writes
  have kept := run_keeps (fun _ _ _ here untouched step => untouched_step here untouched step)
    quiet spared wrote
  exact content byte _ kept first behind

theorem first_page_last_write :
    ∃ phys call machine, Run (Emits largeHole) ⟨{ largeHeap with phys }, [], []⟩
      [.call call, .write 0 0x10000 (fun _ => 7) 1 true, .read 0 0x10000 1 true [7]] machine := by
  obtain ⟨phys, blocks, call, bytes, machine, boot, direct, _, _, run⟩ := first_page_run
  have returned : bytes.length = (1 : U64).toNat ∧ ∀ byte, (0x10000 : U64).toNat ≤ byte →
      byte < (0x10000 : U64).toNat + (1 : U64).toNat → (0x10000 : U64).toNat ≤ byte →
      byte < (0x10000 : U64).toNat + (1 : U64).toNat →
      (∀ event ∈ ([] : List Event), ¬Touches 0 byte event) →
        bytes[byte - (0x10000 : U64).toNat]? = some 7 :=
    @read_returns_last_write largeHole { largeKernel with phys } { largeHeap with phys } blocks
      machine boot (large_heap_with phys) direct [.call call] [] 0 0x10000 1 0x10000 1
      (fun _ => 7) bytes run
  obtain ⟨count, content⟩ := returned
  have byte : bytes[0]? = some 7 := content 0x10000 (by decide) (by decide) (by decide) (by decide)
    fun _ member => absurd member List.not_mem_nil
  obtain ⟨only, isOnly⟩ := List.length_eq_one_iff.mp count
  rw [isOnly] at byte run
  have value : only = 7 := Option.some.inj byte
  rw [value] at run
  exact ⟨phys, call, machine, run⟩

end Runs

end KittyOs.StoreRuns
