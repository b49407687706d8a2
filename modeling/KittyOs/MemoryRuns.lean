import KittyOs.BootState

/-!
# Runs of memory calls

A machine is the kernel with the processes it has returned so far and, as history,
the ranges `mmap` has mapped. A run is any sequence of calls that return, each of
which fits: the heap stays in its reservation, kernel addresses stay below the
kernel's image, and ranges of process memory do not wrap. One invariant of the
machine is kept by every call.
-/

namespace KittyOs.MemoryRuns

open KittyOs.Lib.SpanPartition
open KittyOs.MachineWord KittyOs.PhysicalModel KittyOs.PhysicalFreelist
open KittyOs.VirtualModel KittyOs.MapEffect KittyOs.Translation KittyOs.KernelModel
open KittyOs.HeapBounds KittyOs.ProcessModel KittyOs.AddressSpaces KittyOs.KernelCalls
open KittyOs.SharedHalf
open KittyOs.ProcessCalls KittyOs.FramePlaces KittyOs.BootState

set_option autoImplicit false

structure Machine where
  kernel : Kernel
  processes : List ProcessContext
  granted : List Span

/-- A process is named by its position among those returned. -/
inductive Call where
  | sbrk (size : U64)
  | mmap (size : U64)
  | createProcess (processPath processName : String) (entryPoint : U64) (level : ProcessLevel)
      (startPaused : Bool) (newCalls vectorCalls : List HeapCall)
  | allocateMemoryInProcess (handle : Nat) (address pageCount : U64)
  | allocateVirtualMemoryAt (handle : Nat) (requestedBase size : U64)
  | allocateVirtualMemory (handle : Nat) (size : U64)

/-- The machine with another reservation list in one process. -/
def Machine.withVmem (machine : Machine) (handle : Nat) (process : ProcessContext)
    (availableVmem : VmemVector) : Machine :=
  { machine with processes := machine.processes.set handle { process with availableVmem } }

/-- `none` if the call halts, faults or names no process. -/
def perform (machine : Machine) : Call → Option Machine
  | .sbrk size =>
      (sbrk machine.kernel size).map fun outcome => { machine with kernel := outcome.2 }
  | .mmap size =>
      (mmap machine.kernel size).map fun outcome =>
        { machine with
          kernel := outcome.2
          granted := machine.granted ++ callGrant machine.kernel (.mmap size) }
  | .createProcess processPath processName entryPoint level startPaused newCalls vectorCalls =>
      (createProcess machine.kernel processPath processName entryPoint level startPaused newCalls
        vectorCalls).map fun outcome =>
          { kernel := outcome.2
            processes := machine.processes ++ outcome.1.toList
            granted := machine.granted ++ createGrants machine.kernel newCalls vectorCalls }
  | .allocateMemoryInProcess handle address pageCount =>
      machine.processes[handle]?.bind fun process =>
        (allocateMemoryInProcess machine.kernel process address pageCount).map fun outcome =>
          { machine with kernel := outcome.2 }
  | .allocateVirtualMemoryAt handle requestedBase size =>
      machine.processes[handle]?.map fun process =>
        machine.withVmem handle process
          (allocateVirtualMemoryAt process.availableVmem requestedBase size).2
  | .allocateVirtualMemory handle size =>
      machine.processes[handle]?.map fun process =>
        machine.withVmem handle process (allocateVirtualMemory process.availableVmem size).2

def CallFits (hole : Hole) (machine : Machine) : Call → Prop
  | .sbrk size => SbrkFits machine.kernel size
  | .mmap size => MmapFits hole machine.kernel size
  | .createProcess _ _ _ _ _ newCalls vectorCalls =>
      CreateFits hole machine.kernel newCalls vectorCalls
  | .allocateMemoryInProcess _ address pageCount =>
      address.toNat + pageCount.toNat * 4096 < 2 ^ 64
  | .allocateVirtualMemoryAt _ _ _ | .allocateVirtualMemory _ _ => True

def Performs (hole : Hole) (before after : Machine) : Prop :=
  ∃ call, CallFits hole before call ∧ perform before call = some after

/-- Any number of calls. -/
abbrev Reachable (hole : Hole) : Machine → Machine → Prop := Relation.ReflTransGen (Performs hole)

/-- A page of kernel addresses that does not touch a range. -/
def Clear (pointer : U64) (grant : Span) : Prop :=
  pointer.toNat + 4096 ≤ grant.base ∨ grant.base + grant.length ≤ pointer.toNat

/-- What holds of a configuration whatever the calls do to it. -/
structure Orderly (hole : Hole) (usable : Nat → Prop) (config : Config) : Prop where
  sound : Sound hole config
  settled : Settled hole usable config
  shares : ∀ root ∈ config.spaces, SharesUpper config root

structure Holds (hole : Hole) (usable : Nat → Prop) (machine : Machine) (config : Config) :
    Prop where
  kernel : config.kernel = machine.kernel
  orderly : Orderly hole usable config
  linked : ∀ process ∈ machine.processes, ∃ root, Linked config process.pageMap root
  ordered : machine.processes.Pairwise fun left right =>
    left.pageMap.toNat < right.pageMap.toNat
  pointers : ∀ root ∈ config.spaces, ∃ pointer, PointsTo config pointer root ∧
    ∀ grant ∈ machine.granted, Clear pointer grant
  granted : ∀ grant ∈ machine.granted,
    config.kernel.heapStart.toNat + heapSize.toNat ≤ grant.base ∧
      grant.base + grant.length ≤ config.frontier

section Runs

variable {hole : Hole} {usable : Nat → Prop} {machine after : Machine} {config next : Config}

theorem Orderly.run {Allowed : Action → Prop} (orderly : Orderly hole usable config)
    (steps : Steps hole Allowed config next) : Orderly hole usable next := by
  have keeps : ∀ before action after, Sound hole before → Orderly hole usable before →
      Allowed action → Step hole before action after → Orderly hole usable after :=
    fun before action after sound here _ step =>
      ⟨sound.step step, here.settled.step sound step, shares_upper_step sound step here.shares⟩
  exact orderly.sound.steps keeps steps orderly

theorem heap_start_run {Allowed : Action → Prop} (steps : Steps hole Allowed config next) :
    next.kernel.heapStart = config.kernel.heapStart := by
  induction steps with
  | refl => rfl
  | tail _ last ih =>
      obtain ⟨action, _, step⟩ := last
      rw [← ih]
      cases step <;> rfl

theorem root_run {Allowed : Action → Prop} (steps : Steps hole Allowed config next) :
    next.root = config.root := by
  induction steps with
  | refl => rfl
  | tail _ last ih =>
      obtain ⟨action, _, step⟩ := last
      exact (root_stays step).1.trans ih

theorem hhdm_run {Allowed : Action → Prop} (steps : Steps hole Allowed config next) :
    next.kernel.phys.hhdm = config.kernel.phys.hhdm := by
  induction steps with
  | refl => rfl
  | tail _ last ih =>
      obtain ⟨action, _, step⟩ := last
      rw [← ih]
      cases step with
      | heapPage takes effect _ _ => exact effect.hhdm.trans takes.hhdm
      | windowPage takes effect _ _ _ => exact effect.hhdm.trans takes.hhdm
      | pageMap takes effect _ _ _ => exact effect.hhdm.trans takes.hhdm
      | emptyPageMap _ effect _ _ _ => exact effect.hhdm
      | spacePage _ _ _ takes effect => exact effect.hhdm.trans takes.hhdm
      | _ => rfl

/-- A writable kernel page outside the hole stays one. -/
theorem writable_run_outside {Allowed : Action → Prop} {target : U64} {frame : Nat}
    (sound : Sound hole config) (steps : Steps hole Allowed config next)
    (outside : ∀ address, hole.Contains address → pathOf target ≠ pathOf address)
    (writable : WritableTo config.slots config.root target frame) :
    WritableTo next.slots next.root target frame := by
  have keeps : ∀ before action after, Sound hole before →
      WritableTo before.slots before.root target frame → Allowed action →
      Step hole before action after → WritableTo after.slots after.root target frame := by
    intro before action after beforeSound here _ step
    apply writable_step beforeSound step _ here
    intro address placed
    exact outside address (place_vacant beforeSound step placed).inside
  exact sound.steps keeps steps writable

/-- Steps that return no process. -/
theorem Holds.advance {Allowed : Action → Prop} (holds : Holds hole usable machine config)
    (steps : Steps hole Allowed config next) (sameSpaces : next.spaces = config.spaces)
    (forward : config.frontier ≤ next.frontier) {grants : List Span}
    (granted : ∀ grant ∈ grants,
      config.frontier ≤ grant.base ∧ grant.base + grant.length ≤ next.frontier) :
    Holds hole usable
      { machine with kernel := next.kernel, granted := machine.granted ++ grants } next := by
  have sound := holds.orderly.sound
  have start := heap_start_run steps
  have reserved := sound.heap.2.2.2
  refine ⟨rfl, holds.orderly.run steps, ?_, holds.ordered, ?_, ?_⟩
  · intro process member
    obtain ⟨root, linked⟩ := holds.linked process member
    exact ⟨root, linked_run sound steps linked⟩
  · intro root member
    rw [sameSpaces] at member
    obtain ⟨pointer, points, clear⟩ := holds.pointers root member
    refine ⟨pointer, points_run sound steps points, ?_⟩
    intro grant there
    rcases List.mem_append.mp there with old | new
    · exact clear grant old
    · have bounds := granted grant new
      have below := points.below
      exact Or.inl (by omega)
  · intro grant there
    rw [start]
    rcases List.mem_append.mp there with old | new
    · have bounds := holds.granted grant old
      omega
    · have bounds := granted grant new
      omega

/-- Nothing but the pointers of the processes matters. -/
theorem Holds.rename (holds : Holds hole usable machine config) {processes : List ProcessContext}
    (same : processes.map ProcessContext.pageMap = machine.processes.map ProcessContext.pageMap) :
    Holds hole usable { machine with processes } config := by
  refine ⟨holds.kernel, holds.orderly, ?_, ?_, holds.pointers, holds.granted⟩
  · intro process member
    have pointer : process.pageMap ∈ machine.processes.map ProcessContext.pageMap := by
      rw [← same]
      exact List.mem_map_of_mem member
    obtain ⟨original, there, samePointer⟩ := List.mem_map.mp pointer
    rw [← samePointer]
    exact holds.linked original there
  · have pointers : (machine.processes.map ProcessContext.pageMap).Pairwise
        fun left right => left.toNat < right.toNat := List.pairwise_map.mpr holds.ordered
    rw [← same, List.pairwise_map] at pointers
    exact pointers

theorem linked_root_unique {pointer : U64} {left right : Nat} (first : Linked config pointer left)
    (second : Linked config pointer right) : left = right := by
  obtain ⟨leaf, found, frame⟩ := first.points.writable.leaf
  obtain ⟨entry, otherFound, otherFrame⟩ := second.points.writable.leaf
  rw [found, Option.some.injEq] at otherFound
  rw [← frame, ← otherFrame, otherFound]

/-- A top table is behind one pointer. -/
theorem linked_pointer_unique {left right : U64} {root : Nat} (orderly : Orderly hole usable config)
    (first : Linked config left root) (second : Linked config right root) : left = right := by
  obtain ⟨leaf, found, frame⟩ := first.points.writable.leaf
  obtain ⟨entry, otherFound, otherFrame⟩ := second.points.writable.leaf
  have inside := first.points.contained orderly.sound
  have otherInside := second.points.contained orderly.sound
  have nonzero := orderly.sound.nonzero root (Or.inr first.member)
  have onlyHere := orderly.settled.single config.root left leaf (Or.inl ⟨rfl, inside⟩) found
    (by rw [frame]; exact nonzero) config.root right entry (Or.inl ⟨rfl, otherInside⟩) otherFound
    (otherFrame.trans frame.symm)
  have samePage := higher_page otherInside inside onlyHere.2
  have aligned := first.points.aligned
  have otherAligned := second.points.aligned
  exact BitVec.eq_of_toNat_eq (by omega)

/-- Different processes have different pointers. -/
theorem Holds.same_handle {handle target : Nat} {process other : ProcessContext}
    (holds : Holds hole usable machine config) (here : machine.processes[handle]? = some process)
    (there : machine.processes[target]? = some other) (same : process.pageMap = other.pageMap) :
    handle = target := by
  obtain ⟨bound, isHere⟩ := List.getElem?_eq_some_iff.mp here
  obtain ⟨otherBound, isThere⟩ := List.getElem?_eq_some_iff.mp there
  have ordered := List.pairwise_iff_getElem.mp holds.ordered
  rcases Nat.lt_trichotomy handle target with before | equal | behind
  · have less := ordered handle target bound otherBound before
    rw [isHere, isThere, same] at less
    omega
  · exact equal
  · have less := ordered target handle otherBound bound behind
    rw [isHere, isThere, same] at less
    omega

/-- Process memory is mapped with the level of the process. -/
def LevelAction (config : Config) (processes : List ProcessContext) : Action → Prop
  | .spacePage root level _ _ =>
      ∀ process ∈ processes, Linked config process.pageMap root → process.level = level
  | _ => True

/-- What a call that returns has done to the configuration. -/
structure Performed (hole : Hole) (usable : Nat → Prop) (machine after : Machine)
    (config next : Config) : Prop where
  steps : Steps hole (LevelAction next after.processes) config next
  holds : Holds hole usable after next
  origin : ∀ process ∈ after.processes,
    (∃ before ∈ machine.processes,
        before.pageMap = process.pageMap ∧ before.level = process.level) ∨
      ∀ root, Linked next process.pageMap root → root ∉ config.spaces

theorem kernel_action_level {processes : List ProcessContext} (action : Action)
    (allowed : KernelAction action) : LevelAction config processes action := by
  cases action with
  | reserve | heapPage _ | windowPage _ => trivial
  | _ => exact False.elim allowed

theorem space_page_level {processes : List ProcessContext} {root at_ : Nat}
    {level with_ : ProcessLevel} (address : U64) (success : Bool)
    (own : ∀ process ∈ processes, Linked config process.pageMap root → process.level = level)
    (sameRoot : at_ = root) (sameLevel : with_ = level) :
    LevelAction config processes (.spacePage at_ with_ address success) := by
  rw [sameRoot, sameLevel]
  exact own

theorem create_action_level {processes : List ProcessContext} {pointer : U64} {root : Nat}
    {level : ProcessLevel}
    (own : ∀ process ∈ processes, Linked config process.pageMap root → process.level = level)
    (action : Action) (allowed : CreateAction pointer root level action) :
    LevelAction config processes action := by
  cases action with
  | spacePage _ _ address success =>
      exact space_page_level address success own allowed.1 allowed.2.1
  | _ => trivial

theorem space_action_level {processes : List ProcessContext} {root first last : Nat}
    {level : ProcessLevel}
    (own : ∀ process ∈ processes, Linked config process.pageMap root → process.level = level)
    (action : Action) (allowed : SpaceAction root level first last action) :
    LevelAction config processes action := by
  cases action with
  | spacePage _ _ address success =>
      exact space_page_level address success own allowed.1 allowed.2.1
  | _ => trivial

/-- A created process joins the machine, unless the handle is null. -/
theorem Holds.add_process {pointer : U64} {root : Nat} {level : ProcessLevel} {grants : List Span}
    {result : Option ProcessContext} (holds : Holds hole usable machine config)
    (creation : Creation hole config next pointer root level grants)
    (spaces : next.spaces = root :: config.spaces) (linked : Linked next pointer root)
    (newProcess : ∀ process ∈ result.toList, process.pageMap = pointer) :
    Holds hole usable
      { kernel := next.kernel
        processes := machine.processes ++ result.toList
        granted := machine.granted ++ grants } next := by
  obtain ⟨steps, above, forward, granted⟩ := creation
  have sound := holds.orderly.sound
  have start := heap_start_run steps
  have reserved := sound.heap.2.2.2
  have oldPointer : ∀ process ∈ machine.processes, process.pageMap.toNat < pointer.toNat := by
    intro process member
    obtain ⟨_, there⟩ := holds.linked process member
    have below := there.points.below
    omega
  refine ⟨rfl, holds.orderly.run steps, ?_, ?_, ?_, ?_⟩
  · intro process member
    rcases List.mem_append.mp member with old | new
    · obtain ⟨there, oldLinked⟩ := holds.linked process old
      exact ⟨there, linked_run sound steps oldLinked⟩
    · rw [newProcess process new]
      exact ⟨root, linked⟩
  · apply List.pairwise_append.mpr
    refine ⟨holds.ordered, ?_, ?_⟩
    · cases result with
      | none => exact List.Pairwise.nil
      | some process => exact List.pairwise_singleton _ _
    · intro old oldMember new newMember
      rw [newProcess new newMember]
      exact oldPointer old oldMember
  · intro found member
    rw [spaces] at member
    rcases List.mem_cons.mp member with new | old
    · rw [new]
      refine ⟨pointer, linked.points, ?_⟩
      intro grant there
      rcases List.mem_append.mp there with before | here
      · have bounds := holds.granted grant before
        exact Or.inr (by omega)
      · exact (granted grant here).2.2
    · obtain ⟨there, points, clear⟩ := holds.pointers found old
      refine ⟨there, points_run sound steps points, ?_⟩
      intro grant member
      rcases List.mem_append.mp member with before | here
      · exact clear grant before
      · have bounds := granted grant here
        have below := points.below
        exact Or.inl (by omega)
  · intro grant there
    rw [start]
    rcases List.mem_append.mp there with before | here
    · have bounds := holds.granted grant before
      omega
    · have bounds := granted grant here
      omega

theorem Holds.create {processPath processName : String} {entryPoint : U64} {level : ProcessLevel}
    {startPaused : Bool} {newCalls vectorCalls : List HeapCall} {result : Option ProcessContext}
    {kernel : Kernel} (holds : Holds hole usable machine config)
    (fits : CreateFits hole machine.kernel newCalls vectorCalls)
    (ran : createProcess machine.kernel processPath processName entryPoint level startPaused newCalls
      vectorCalls = some (result, kernel)) :
    ∃ next, Performed hole usable machine
      { kernel
        processes := machine.processes ++ result.toList
        granted := machine.granted ++ createGrants machine.kernel newCalls vectorCalls }
      config next := by
  have sound := holds.orderly.sound
  rw [← holds.kernel] at fits ran
  obtain ⟨pointer, root, next, same, creation, fresh, made⟩ := create_process_steps sound fits ran
  have oldRoot : ∀ process ∈ machine.processes, ¬Linked next process.pageMap root := by
    intro process member linked
    obtain ⟨before, there⟩ := holds.linked process member
    rw [linked_root_unique linked (linked_run sound creation.steps there)] at fresh
    exact fresh there.member
  rw [← same, ← holds.kernel]
  refine ⟨next, ?_⟩
  rcases made with ⟨nothing, sameSpaces⟩ | ⟨returned, spaces, linked⟩
  · have advanced := holds.advance creation.steps sameSpaces creation.forward fun grant member =>
      ⟨(creation.granted grant member).1, (creation.granted grant member).2.1⟩
    rw [nothing, Option.toList_none, List.append_nil]
    refine ⟨creation.steps.widen (create_action_level ?_), advanced, fun process member =>
      Or.inl ⟨process, member, rfl, rfl⟩⟩
    intro process member there
    exact absurd there (oldRoot process member)
  · have newProcess : ∀ process ∈ result.toList,
        process.pageMap = pointer ∧ process.level = level := by
      intro process member
      rcases returned with nothing | returns
      · rw [nothing] at member
        exact absurd member (by simp)
      · rw [returns, Option.toList_some, List.mem_singleton] at member
        rw [member]
        exact ⟨rfl, rfl⟩
    refine ⟨creation.steps.widen (create_action_level ?_), holds.add_process creation spaces linked
      fun process member => (newProcess process member).1, ?_⟩
    · intro process member there
      rcases List.mem_append.mp member with old | new
      · exact absurd there (oldRoot process old)
      · exact (newProcess process new).2
    · intro process member
      rcases List.mem_append.mp member with old | new
      · exact Or.inl ⟨process, old, rfl, rfl⟩
      · right
        intro found there
        rw [(newProcess process new).1] at there
        rw [linked_root_unique there linked]
        exact fresh

theorem Holds.with_vmem {handle : Nat} {process : ProcessContext} {availableVmem : VmemVector}
    (holds : Holds hole usable machine config) (here : machine.processes[handle]? = some process) :
    Holds hole usable (machine.withVmem handle process availableVmem) config := by
  apply holds.rename
  rw [List.map_set]
  apply List.ext_getElem?
  intro index
  rw [List.getElem?_set]
  split_ifs with same bound
  · rw [← same, List.getElem?_map, here]
    rfl
  · rw [← same, List.getElem?_eq_none (by omega)]
  · rfl

theorem Holds.perform {call : Call} (holds : Holds hole usable machine config)
    (fits : CallFits hole machine call) (ran : perform machine call = some after) :
    ∃ next, Performed hole usable machine after config next := by
  have sound := holds.orderly.sound
  have unchanged : ∀ process ∈ machine.processes, (∃ before ∈ machine.processes,
      before.pageMap = process.pageMap ∧ before.level = process.level) :=
    fun process member => ⟨process, member, rfl, rfl⟩
  have renamed : ∀ {handle : Nat} {process : ProcessContext} {availableVmem : VmemVector},
      machine.processes[handle]? = some process →
      Performed hole usable machine (machine.withVmem handle process availableVmem) config config := by
    intro handle process availableVmem here
    refine ⟨Relation.ReflTransGen.refl, holds.with_vmem here, ?_⟩
    intro changed member
    rcases List.mem_or_eq_of_mem_set member with old | new
    · exact Or.inl (unchanged changed old)
    · rw [new]
      exact Or.inl ⟨process, List.mem_of_getElem? here, rfl, rfl⟩
  cases call with
  | sbrk size =>
      obtain ⟨⟨result, kernel⟩, called, shape⟩ := Option.map_eq_some_iff.mp ran
      rw [CallFits, ← holds.kernel] at fits
      rw [← holds.kernel] at called
      obtain ⟨next, same, steps, spaces, frontier⟩ := sbrk_steps sound fits called
      have advanced := holds.advance steps spaces (Nat.le_of_eq frontier.symm)
        (show ∀ grant ∈ ([] : List Span), _ from fun _ member => absurd member List.not_mem_nil)
      rw [same, List.append_nil] at advanced
      rw [← shape]
      exact ⟨next, steps.widen kernel_action_level, advanced, fun process member =>
        Or.inl (unchanged process member)⟩
  | mmap size =>
      obtain ⟨⟨result, kernel⟩, called, shape⟩ := Option.map_eq_some_iff.mp ran
      have performed : performHeapCall config.kernel (.mmap size) = some kernel := by
        rw [holds.kernel, performHeapCall, called, Option.map_some]
      have fitting : HeapCallFits hole config.kernel (.mmap size) := by
        rw [holds.kernel]
        exact fits
      obtain ⟨next, same, steps, spaces, forward, granted⟩ := heap_call_steps sound fitting performed
      have advanced := holds.advance steps spaces forward granted
      rw [same, holds.kernel] at advanced
      rw [← shape]
      exact ⟨next, steps.widen kernel_action_level, advanced, fun process member =>
        Or.inl (unchanged process member)⟩
  | createProcess _ _ _ _ _ _ _ =>
      obtain ⟨⟨result, kernel⟩, called, shape⟩ := Option.map_eq_some_iff.mp ran
      rw [← shape]
      exact holds.create fits called
  | allocateMemoryInProcess handle address pageCount =>
      obtain ⟨process, here, ran⟩ := Option.bind_eq_some_iff.mp ran
      obtain ⟨⟨result, kernel⟩, called, shape⟩ := Option.map_eq_some_iff.mp ran
      obtain ⟨root, linked⟩ := holds.linked process (List.mem_of_getElem? here)
      rw [← holds.kernel] at called
      obtain ⟨next, same, steps, spaces, frontier⟩ :=
        allocate_memory_steps sound linked.points linked.member fits called
      have advanced := holds.advance steps spaces (Nat.le_of_eq frontier.symm)
        (show ∀ grant ∈ ([] : List Span), _ from fun _ member => absurd member List.not_mem_nil)
      rw [same, List.append_nil] at advanced
      rw [← shape]
      refine ⟨next, steps.widen (space_action_level ?_), advanced, fun process member =>
        Or.inl (unchanged process member)⟩
      intro other member there
      obtain ⟨target, otherHere⟩ := List.getElem?_of_mem member
      have pointer := linked_pointer_unique advanced.orderly there (linked_run sound steps linked)
      rw [holds.same_handle otherHere here pointer, here, Option.some.injEq] at otherHere
      rw [otherHere]
  | allocateVirtualMemoryAt handle requestedBase size =>
      obtain ⟨process, here, shape⟩ := Option.map_eq_some_iff.mp ran
      rw [← shape]
      exact ⟨config, renamed here⟩
  | allocateVirtualMemory handle size =>
      obtain ⟨process, here, shape⟩ := Option.map_eq_some_iff.mp ran
      rw [← shape]
      exact ⟨config, renamed here⟩

/-- The actions of a run. -/
def AnyAction : Action → Prop := fun _ => True

theorem Holds.reach (holds : Holds hole usable machine config) (run : Reachable hole machine after) :
    ∃ next, Steps hole AnyAction config next ∧ Holds hole usable after next := by
  induction run with
  | refl => exact ⟨config, Relation.ReflTransGen.refl, holds⟩
  | tail _ last ih =>
      obtain ⟨middle, steps, here⟩ := ih
      obtain ⟨call, fits, ran⟩ := last
      obtain ⟨next, further, there, _⟩ := here.perform fits ran
      exact ⟨next, steps.trans (further.widen fun _ _ => trivial), there⟩

theorem boot_holds {kernel booted : Kernel} {blocks : List Span} (boot : Boot hole kernel blocks)
    (heap : initializeHeap kernel = some booted) :
    Holds hole (FreeAt blocks) ⟨booted, [], []⟩ (bootConfig booted blocks) where
  kernel := rfl
  orderly := ⟨boot_sound boot heap, boot_settled boot heap,
    fun _ member => absurd member List.not_mem_nil⟩
  linked := fun _ member => absurd member List.not_mem_nil
  ordered := List.Pairwise.nil
  pointers := fun _ member => absurd member List.not_mem_nil
  granted := fun _ member => absurd member List.not_mem_nil

end Runs

/-! ### A first process on 128 GiB -/

def largeProcess (level : ProcessLevel) : ProcessContext :=
  createdProcess "/init" "init" 0x10000 level false 0xffff900400001000

/-- On a machine that boots like the one with 128 GiB, whatever is in its memory. -/
theorem booted_process_created {phys : PhysicalState} {blocks : List Span} (level : ProcessLevel)
    (sound : Sound largeHole (bootConfig { largeHeap with phys } blocks))
    (enough : 258 * 20480 ≤ freeBytes blocks) :
    ∃ root next, createProcess { largeHeap with phys } "/init" "init" 0x10000 level false [] [] =
        some (some (largeProcess level), next.kernel) ∧
      Steps largeHole (CreateAction (largeProcess level).pageMap root level)
        (bootConfig { largeHeap with phys } blocks) next ∧
      Linked next (largeProcess level).pageMap root ∧
      freeBytes blocks ≤ freeBytes next.blocks + 258 * 20480 ∧
      next.kernel.range = ⟨0xffff900400003000, 0x6fff80000000⟩ ∧
      ∀ target : U64, (0x7ff00000 ≤ target.toNat ∧ target.toNat < 0x80000000) ∨
        (0x10000 ≤ target.toNat ∧ target.toNat < 0x11000) →
          (liveLeaf next.slots root target).isSome := by
  have aligned : largeHeap.range.baseAddress % 4096 = 0 := by decide
  have guard : KernelHole.roundedRequest 4096 ≠ largeHeap.range.remainingBytes := by decide
  have room : largeHeap.range.baseAddress.toNat + 8192 ≤ largeHole.last := by decide
  obtain ⟨root, next, ran, steps, linked, spent, range, mapped⟩ := create_process_returns "/init"
    "init" 0x10000 level false sound room aligned guard enough
  have moved : (0xffff900400001000 : U64) + KernelHole.roundedRequest 4096 = 0xffff900400003000 := by
    decide
  refine ⟨root, next, ran, steps, linked, spent, ?_, mapped⟩
  rw [range, ← moved]
  rfl

theorem create_fits_room {hole : Hole} {kernel : Kernel}
    (room : kernel.range.baseAddress.toNat + 8192 ≤ hole.last) : CreateFits hole kernel [] [] := by
  refine ⟨trivial, ?_⟩
  intro grown run
  rw [← Option.some.inj run]
  exact ⟨room, fun _ _ _ => trivial⟩

theorem first_create_fits (phys : PhysicalState) :
    CreateFits largeHole { largeHeap with phys } [] [] :=
  create_fits_room (show largeHeap.range.baseAddress.toNat + 8192 ≤ largeHole.last by decide)

theorem create_performs {hole : Hole} {kernel after : Kernel} {processes : List ProcessContext}
    {process : ProcessContext} {processPath processName : String} {entryPoint : U64}
    {level : ProcessLevel} (fits : CreateFits hole kernel [] [])
    (created : createProcess kernel processPath processName entryPoint level false [] [] =
      some (some process, after)) :
    Performs hole ⟨kernel, processes, []⟩ ⟨after, processes ++ [process], []⟩ := by
  refine ⟨.createProcess processPath processName entryPoint level false [] [], fits, ?_⟩
  have none : createGrants kernel [] [] = [] := by
    rw [createGrants, callGrants, List.nil_append]
    cases (performHeapCalls kernel []).bind createPageMap <;> rfl
  rw [perform, created, none]
  rfl

theorem created_performs {phys : PhysicalState} {level : ProcessLevel} {after : Kernel}
    (created : createProcess { largeHeap with phys } "/init" "init" 0x10000 level false [] [] =
      some (some (largeProcess level), after)) :
    Performs largeHole ⟨{ largeHeap with phys }, [], []⟩ ⟨after, [largeProcess level], []⟩ :=
  create_performs (first_create_fits phys) created

theorem booted_creates {phys : PhysicalState} {blocks : List Span} (level : ProcessLevel)
    (sound : Sound largeHole (bootConfig { largeHeap with phys } blocks))
    (enough : 258 * 20480 ≤ freeBytes blocks) :
    ∃ root next,
      Performs largeHole ⟨{ largeHeap with phys }, [], []⟩ ⟨next.kernel, [largeProcess level], []⟩ ∧
      Steps largeHole AnyAction (bootConfig { largeHeap with phys } blocks) next ∧
      Linked next (largeProcess level).pageMap root ∧
      ∀ target : U64, (0x7ff00000 ≤ target.toNat ∧ target.toNat < 0x80000000) ∨
        (0x10000 ≤ target.toNat ∧ target.toNat < 0x11000) →
          (liveLeaf next.slots root target).isSome := by
  obtain ⟨root, next, created, steps, linked, _, _, mapped⟩ :=
    booted_process_created level sound enough
  exact ⟨root, next, created_performs created, steps.widen fun _ _ => trivial, linked, mapped⟩

theorem large_creates (level : ProcessLevel) :
    ∃ root next, Performs largeHole ⟨largeHeap, [], []⟩ ⟨next.kernel, [largeProcess level], []⟩ ∧
      Sound largeHole next ∧ Linked next (largeProcess level).pageMap root ∧
      ∀ target : U64, (0x7ff00000 ≤ target.toNat ∧ target.toNat < 0x80000000) ∨
        (0x10000 ≤ target.toNat ∧ target.toNat < 0x11000) →
          (liveLeaf next.slots root target).isSome := by
  have enough : 258 * 20480 ≤ freeBytes [⟨0x2000, 0x2000000000⟩] := by decide
  obtain ⟨root, next, performed, steps, rest⟩ := booted_creates level large_sound enough
  exact ⟨root, next, performed, large_sound.run steps, rest⟩

end KittyOs.MemoryRuns
