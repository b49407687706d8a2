import Mathlib.Data.List.Forall2
import KittyOs.ProcessGrowth
import KittyOs.UacpiMap

/-!
# Windows beside the memory calls

Runs in which `uacpi_kernel_map` may be called between the memory calls. Its pages show
physical memory of any kind, so a frame may be mapped more than once; what is left of
the order of a configuration is that its tables are sound, that processes share the
upper half of the kernel and that no two processes have one top table. A round of the
call maps the next address that has never been mapped, or fails and maps nothing.
-/

namespace KittyOs.KernelWindows

open KittyOs.Lib.SpanPartition
open KittyOs.MachineWord KittyOs.PageTable KittyOs.PhysicalModel
open KittyOs.VirtualModel KittyOs.PageForest KittyOs.VirtualMapping KittyOs.MapEffect
open KittyOs.Translation KittyOs.KernelModel KittyOs.KernelHole KittyOs.ProcessModel
open KittyOs.AddressSpaces KittyOs.KernelCalls KittyOs.SharedHalf KittyOs.ProcessCalls
open KittyOs.MemoryRuns KittyOs.UacpiMap

set_option autoImplicit false

/-! ### Calls -/

inductive MapCall where
  | memory (call : Call)
  | window (addr len : U64)

/-- The pointer `uacpi_kernel_map` returns is not part of the machine. -/
def performMap (machine : Machine) : MapCall → Option Machine
  | .memory call => perform machine call
  | .window addr len =>
      (uacpiKernelMap machine.kernel addr len).map fun outcome =>
        { machine with kernel := outcome.2.2 }

/-- The addresses of a window stay below the kernel. -/
def WindowFits (hole : Hole) (kernel : Kernel) (len : U64) : Prop :=
  kernel.range.baseAddress.toNat + (roundedRequest len).toNat ≤ hole.last

def MapCallFits (hole : Hole) (machine : Machine) : MapCall → Prop
  | .memory call => CallFits hole machine call
  | .window _ len => WindowFits hole machine.kernel len

/-- Any number of calls of the allowed kind, each of which returns. -/
abbrev MapRun (hole : Hole) (Allowed : MapCall → Prop) : Machine → Machine → Prop :=
  Relation.ReflTransGen fun before after => ∃ call, Allowed call ∧
    MapCallFits hole before call ∧ performMap before call = some after

/-! ### Steps -/

inductive MapAction where
  | memory (action : Action)
  | window (address : U64)

def MapAction.place (config : Config) : MapAction → Option (Nat × U64)
  | .memory action => action.place config
  | .window address => some (config.root, address)

inductive MapStep (hole : Hole) (config : Config) : MapAction → Config → Prop
  | memory {action : Action} {next : Config} (step : Step hole config action next) :
      MapStep hole config (.memory action) next
  | window {physicalAddress address : U64} {success : Bool} {phys : PhysicalState}
      {remaining : List Span}
      (effect : Effect config.Root config.Owns windowFlags physicalAddress config.root address
        config.kernel.phys config.blocks success phys remaining)
      (aligned : address.toNat % 4096 = 0) (place : address.toNat = config.frontier)
      (fits : config.frontier + 4096 ≤ config.kernel.range.baseAddress.toNat) :
      MapStep hole config (.window address)
        { config.withMemory phys remaining with frontier := config.frontier + 4096 }

abbrev MapSteps (hole : Hole) (Allowed : MapAction → Prop) : Config → Config → Prop :=
  Relation.ReflTransGen fun before after =>
    ∃ action, Allowed action ∧ MapStep hole before action after

section Steps

variable {hole : Hole} {config next : Config} {action : MapAction}

theorem map_step_sound (sound : Sound hole config) (step : MapStep hole config action next) :
    Sound hole next := by
  cases step with
  | memory step => exact sound.step step
  | window effect aligned place fits =>
      apply sound_next_page sound (sound.kept.effect rfl effect) aligned place fits
      intro target path
      exact effect.leaf_elsewhere (kernel_live config) (kernel_owns _ _) fun all => path all.2.2

theorem map_step_root (step : MapStep hole config action next) :
    next.root = config.root ∧ ∀ root ∈ config.spaces, root ∈ next.spaces := by
  cases step with
  | memory step =>
      refine ⟨(root_stays step).1, fun root member => ?_⟩
      cases step with
      | pageMap _ _ _ _ _ => exact List.mem_cons_of_mem _ member
      | _ => exact member
  | window _ _ _ _ => exact ⟨rfl, fun _ member => member⟩

/-- Kernel addresses are mapped where nothing was. -/
theorem map_place_vacant {address : U64} (sound : Sound hole config)
    (step : MapStep hole config action next)
    (placed : action.place config = some (config.root, address)) :
    VacantPage hole config address := by
  cases step with
  | memory step => exact place_vacant sound step placed
  | window _ aligned place fits =>
      obtain ⟨lower, start, bounds, below⟩ := sound.heap
      obtain ⟨covered, inside⟩ := sound.range
      rw [← (Prod.mk.inj (Option.some.inj placed)).2]
      exact ⟨aligned, by omega, by omega, Or.inl (Nat.le_of_eq place.symm)⟩

/-- A page that was given out is not a vacant one. -/
theorem vacant_page_apart {pointer address : U64} (sound : Sound hole config)
    (page : VacantPage hole config address) (aligned : pointer.toNat % 4096 = 0)
    (above : config.kernel.heapStart.toNat + heapSize.toNat ≤ pointer.toNat)
    (below : pointer.toNat + 4096 ≤ config.frontier) : pathOf pointer ≠ pathOf address := by
  obtain ⟨lower, start, _, _⟩ := sound.heap
  obtain ⟨covered, inside⟩ := sound.range
  intro path
  have same := higher_page ⟨by omega, by omega⟩ page.inside path
  have placeAligned := page.aligned
  rcases page.vacant with beyond | heap <;> omega

/-- The upper half of a process is written by the copy alone. -/
theorem map_space_slot {root : Nat} {slot : Slot} (sound : Sound hole config)
    (step : MapStep hole config action next) (member : root ∈ config.spaces)
    (upper : 256 ≤ slot.toNat) :
    next.slots root slot = config.slots root slot ∨
      (action = .memory (.copyUpper root) ∧
        next.slots root slot = config.slots config.root slot) := by
  cases step with
  | memory step =>
      rcases space_slot_step sound step member upper with same | ⟨copies, copied⟩
      · exact Or.inl same
      · exact Or.inr ⟨by rw [copies], copied⟩
  | window effect _ _ _ =>
      rcases effect_top_slot effect (space_live member) slot with same | ⟨kernel, _⟩
      · exact Or.inl same
      · rw [kernel] at member
        exact absurd member sound.distinct

/-- A reference in the kernel's top table is there for good. -/
theorem map_kernel_slot {slot : Slot} (sound : Sound hole config)
    (step : MapStep hole config action next)
    (occupied : (config.slots config.root slot).ppn ≠ 0) :
    (next.slots next.root slot).ppn = (config.slots config.root slot).ppn := by
  cases step with
  | memory step => exact kernel_slot_step sound step occupied
  | window effect _ _ _ =>
      rcases effect_top_slot effect (kernel_live config) slot with same | ⟨_, _, kept⟩
      · exact congrArg PageEntry.ppn same
      · exact kept occupied

theorem map_step_shares (sound : Sound hole config) (step : MapStep hole config action next)
    (shares : ∀ root ∈ config.spaces, SharesUpper config root) :
    ∀ root ∈ next.spaces, SharesUpper next root := by
  cases step with
  | memory step => exact shares_upper_step sound step shares
  | @window physicalAddress address success phys remaining effect aligned place fits =>
      have whole : MapStep hole config (.window address) _ := .window effect aligned place fits
      intro root member slot upper
      obtain ⟨tidy, refers⟩ := shares root member slot upper
      rcases map_space_slot sound whole member upper with same | ⟨copies, _⟩
      · rw [same]
        refine ⟨tidy, ?_⟩
        by_cases vacant : (config.slots root slot).ppn = 0
        · exact Or.inl vacant
        · have shared := refers.resolve_left vacant
          rw [map_kernel_slot sound whole (by rw [← shared]; exact vacant)]
          exact Or.inr shared
      · exact absurd copies (by simp)

theorem map_step_linked {pointer : U64} {root : Nat} (sound : Sound hole config)
    (step : MapStep hole config action next) (linked : Linked config pointer root) :
    Linked next pointer root := by
  cases step with
  | memory step => exact linked.step sound step
  | @window physicalAddress address success phys remaining effect aligned place fits =>
      have whole : MapStep hole config (.window address) _ := .window effect aligned place fits
      obtain ⟨member, points, occupied⟩ := linked
      have apart := vacant_page_apart sound (map_place_vacant sound whole rfl) points.aligned
        points.above points.below
      have writable := writable_kept effect rfl rfl (kernel_live config) (kernel_owns _ _)
        (fun both => apart both.2) points.writable
      refine ⟨member, ⟨writable, points.aligned, points.above,
        Nat.le_add_right_of_le points.below⟩, ?_⟩
      rcases map_space_slot sound whole member (PointsTo.top_slot points sound).1 with same | ⟨copies, _⟩
      · rw [same]
        exact occupied
      · exact absurd copies (by simp)

variable {Allowed Wider : MapAction → Prop}

theorem MapSteps.widen (wider : ∀ action, Allowed action → Wider action)
    (steps : MapSteps hole Allowed config next) : MapSteps hole Wider config next := by
  refine Relation.ReflTransGen.mono ?_ config next steps
  rintro before after ⟨action, allowed, step⟩
  exact ⟨action, wider action allowed, step⟩

theorem memory_steps {Inner : Action → Prop}
    (inner : ∀ before action after, Inner action → Step hole before action after →
      Allowed (.memory action))
    (steps : Steps hole Inner config next) : MapSteps hole Allowed config next := by
  refine Relation.ReflTransGen.mono ?_ config next steps
  rintro before after ⟨action, allowed, step⟩
  exact ⟨.memory action, inner before action after allowed step, .memory step⟩

/-- What every allowed step from a sound configuration keeps, any number of them keeps. -/
theorem map_steps_keep {Keeps : Config → Prop} (sound : Sound hole config)
    (keeps : ∀ before action after, Sound hole before → Keeps before → Allowed action →
      MapStep hole before action after → Keeps after)
    (steps : MapSteps hole Allowed config next) (start : Keeps config) :
    Sound hole next ∧ Keeps next := by
  induction steps with
  | refl => exact ⟨sound, start⟩
  | tail _ last ih =>
      obtain ⟨action, allowed, step⟩ := last
      exact ⟨map_step_sound ih.1 step, keeps _ action _ ih.1 ih.2 allowed step⟩

end Steps

/-! ### The rounds of a window -/

section Window

variable {hole : Hole} {config : Config}

def WindowAction : MapAction → Prop
  | .memory .reserve | .window _ => True
  | _ => False

theorem map_steps_sound {Allowed : MapAction → Prop} {next : Config} (sound : Sound hole config)
    (steps : MapSteps hole Allowed config next) : Sound hole next := by
  induction steps with
  | refl => exact sound
  | tail _ last ih =>
      obtain ⟨action, _, step⟩ := last
      exact map_step_sound ih step

/-- One round, whether its call of `virtual_map` succeeds or not. -/
theorem window_round_step {physicalAddress address : U64} {success : Bool} {state : PhysicalState}
    (sound : Sound hole config) (place : address.toNat = config.frontier)
    (fits : config.frontier + 4096 ≤ config.kernel.range.baseAddress.toNat)
    (ran : virtualMap config.kernel.phys config.root physicalAddress address windowFlags =
      some (success, state)) :
    ∃ next, next.kernel = { config.kernel with phys := state } ∧
      MapStep hole config (.window address) next ∧ next.spaces = config.spaces ∧
      next.frontier = config.frontier + 4096 := by
  obtain ⟨physicalAligned, virtualAligned⟩ := virtual_map_aligned ran
  obtain ⟨lower, start, bounds, below⟩ := sound.heap
  obtain ⟨_, inside⟩ := sound.range
  have contained : hole.Contains address := ⟨by omega, by omega⟩
  obtain ⟨worked, phys, remaining, run, effect⟩ := virtual_map_effect windowFlags sound.tables
    (kernel_live config) (kernel_owns _ _) (sound.small address contained) physicalAligned
    virtualAligned contained.extended.canonical
  rw [ran, Option.some.injEq, Prod.mk.injEq] at run
  rw [← run.2] at effect
  exact ⟨_, rfl, .window effect (page_offset_to_nat virtualAligned (show 0 < 4096 by omega)).1
    place fits, rfl, rfl⟩

theorem window_rounds_steps {rounds : Nat} {addr pointer : U64} {results : List Bool}
    {state : PhysicalState} (sound : Sound hole config) (place : pointer.toNat = config.frontier)
    (fits : config.frontier + rounds * 4096 ≤ config.kernel.range.baseAddress.toNat)
    (ran : mapWindow config.root addr pointer config.kernel.phys rounds = some (results, state)) :
    ∃ next, next.kernel = { config.kernel with phys := state } ∧
      MapSteps hole WindowAction config next ∧ next.spaces = config.spaces ∧
      next.frontier = config.frontier + rounds * 4096 := by
  induction rounds generalizing results state with
  | zero =>
      rw [mapWindow, Option.some.injEq, Prod.mk.injEq] at ran
      exact ⟨config, by rw [← ran.2], Relation.ReflTransGen.refl, rfl, by omega⟩
  | succ rounds ih =>
      rw [Nat.succ_mul, ← Nat.add_assoc] at fits
      rw [mapWindow] at ran
      cases earlier : mapWindow config.root addr pointer config.kernel.phys rounds with
      | none =>
          rw [earlier] at ran
          exact absurd ran (by simp)
      | some outcome =>
          obtain ⟨before, middle⟩ := outcome
          rw [earlier] at ran
          obtain ⟨⟨success, last⟩, mapped, shape⟩ := Option.map_eq_some_iff.mp ran
          obtain ⟨between, same, steps, spaces, frontier⟩ :=
            ih (Nat.le_trans (Nat.le_add_right _ _) fits) earlier
          have limit := sound.range.2
          have bounded := hole.bounded
          have address : (pageAt pointer rounds).toNat = between.frontier := by
            rw [page_at_to_nat, place, frontier]
            exact Nat.mod_eq_of_lt (by omega)
          have root : between.root = config.root := by rw [Config.root, same]
          have phys : between.kernel.phys = middle := by rw [same]
          have base : between.kernel.range = config.kernel.range := by rw [same]
          rw [← root, ← phys] at mapped
          obtain ⟨next, after, step, nextSpaces, nextFrontier⟩ :=
            window_round_step (map_steps_sound sound steps) address
              (by rw [base, frontier]; exact fits) mapped
          refine ⟨next, ?_, steps.tail ⟨.window _, trivial, step⟩, nextSpaces.trans spaces, ?_⟩
          · rw [after, same, ← (Prod.mk.inj shape).2]
          · rw [nextFrontier, frontier, Nat.succ_mul, Nat.add_assoc]

/-- A call that returns has reserved its window and then mapped it page by page. -/
theorem uacpi_map_steps {addr len pointer : U64} {results : List Bool} {after : Kernel}
    (sound : Sound hole config) (fits : WindowFits hole config.kernel len)
    (ran : uacpiKernelMap config.kernel addr len = some (pointer, results, after)) :
    pointer = config.kernel.range.baseAddress ∧
      ∃ next, next.kernel = after ∧ MapSteps hole WindowAction config next ∧
        next.spaces = config.spaces ∧
        next.frontier = pointer.toNat + (roundedRequest len).toNat / 4096 * 4096 := by
  unfold uacpiKernelMap at ran
  rcases allocate_kernel_cases config.kernel.range len with ⟨_, halted⟩ | ⟨_, returned⟩
  · rw [halted] at ran
    exact absurd ran (by simp)
  · rw [returned, base_signed sound] at ran
    obtain ⟨⟨outcomes, phys⟩, mapped, shape⟩ := Option.map_eq_some_iff.mp ran
    simp only [Prod.mk.injEq] at shape
    obtain ⟨samePointer, _, sameKernel⟩ := shape
    obtain ⟨sum, step⟩ := reserve_step sound fits
    have pages : (((len + 4096) &&& pageMask) / 4096).toNat = (roundedRequest len).toNat / 4096 :=
      rfl
    rw [pages] at mapped
    have room : config.kernel.range.baseAddress.toNat + (roundedRequest len).toNat / 4096 * 4096 ≤
        (config.kernel.range.baseAddress + roundedRequest len).toNat := by omega
    obtain ⟨next, same, steps, spaces, frontier⟩ :=
      window_rounds_steps (sound.step step) rfl room mapped
    refine ⟨samePointer.symm, next, same.trans sameKernel, ?_, spaces, ?_⟩
    · exact Relation.ReflTransGen.head ⟨.memory .reserve, trivial, .memory step⟩ steps
    · rw [frontier, samePointer]

end Window

/-! ### Runs of calls -/

/-- Who looks at an address: the kernel through its own page map, or a process. -/
inductive View where
  | kernel
  | process (handle : Nat)

/-- The call maps nothing for this view at the page of `target`. -/
def Leaves (target : U64) : View → MapCall → Prop
  | .process handle, .memory (.allocateMemoryInProcess at_ address pageCount) =>
      at_ = handle → target.toNat / 4096 * 4096 < address.toNat ∨
        address.toNat + pageCount.toNat * 4096 ≤ target.toNat / 4096 * 4096
  | _, _ => True

/-- The step maps nothing at the page of `target` in the process with this root, nor
does it copy the upper half again. -/
def SparesPage (root : Nat) (target : U64) : MapAction → Prop
  | .memory (.spacePage at_ _ address _) => at_ = root → pathOf target ≠ pathOf address
  | .memory (.copyUpper at_) => at_ ≠ root
  | _ => True

/-- What the steps of a call spare, for all processes at once. -/
def CallAction (roots : List Nat) (call : MapCall) (action : MapAction) : Prop :=
  ∀ handle root target, roots[handle]? = some root → SignExtended target →
    Leaves target (.process handle) call → SparesPage root target action

/-- `roots` are the top tables of the processes, in their order. -/
structure Mapped (hole : Hole) (machine : Machine) (config : Config) (roots : List Nat) :
    Prop where
  kernel : config.kernel = machine.kernel
  sound : Sound hole config
  shares : ∀ root ∈ config.spaces, SharesUpper config root
  linked : List.Forall₂ (Linked config) (machine.processes.map ProcessContext.pageMap) roots
  nodup : roots.Nodup

section Runs

variable {hole : Hole} {machine after : Machine} {config next : Config} {roots : List Nat}

theorem kernel_action_spares {call : MapCall} (action : Action) (allowed : KernelAction action) :
    CallAction roots call (.memory action) := by
  intro handle root target _ _ _
  cases action with
  | reserve | heapPage _ | windowPage _ => trivial
  | _ => exact False.elim allowed

theorem window_action_spares {call : MapCall} (action : MapAction)
    (allowed : WindowAction action) : CallAction roots call action := by
  intro handle root target _ _ _
  cases action with
  | window _ => trivial
  | memory inner =>
      cases inner with
      | reserve => trivial
      | _ => exact False.elim allowed

/-- A new process leaves those there were alone. -/
theorem create_action_spares {call : MapCall} {pointer : U64} {fresh : Nat}
    {level : ProcessLevel} (new : fresh ∉ roots) (action : Action)
    (allowed : CreateAction pointer fresh level action) :
    CallAction roots call (.memory action) := by
  intro handle root target here _ _
  have apart : fresh ≠ root := by
    intro same
    rw [same] at new
    exact new (List.mem_of_getElem? here)
  cases action with
  | spacePage at_ _ _ _ =>
      intro same
      exact absurd (allowed.1.symm.trans same) apart
  | copyUpper at_ =>
      intro same
      exact apart (Eq.trans (Eq.symm allowed) same)
  | _ => trivial

/-- The rounds for one process map pages of the range of the call. -/
theorem space_action_spares {before after : Config} {at_ root : Nat} {level : ProcessLevel}
    {address pageCount : U64} (nodup : roots.Nodup) (here : roots[at_]? = some root)
    (action : Action)
    (allowed : SpaceAction root level address.toNat (address.toNat + pageCount.toNat * 4096) action)
    (step : Step hole before action after) :
    CallAction roots (.memory (.allocateMemoryInProcess at_ address pageCount))
      (.memory action) := by
  intro handle other target there extended leaves
  cases step with
  | spacePage _ lower aligned _ _ =>
      obtain ⟨sameRoot, _, above, below⟩ := allowed
      intro same path
      obtain ⟨bound, isHere⟩ := List.getElem?_eq_some_iff.mp here
      obtain ⟨otherBound, isThere⟩ := List.getElem?_eq_some_iff.mp there
      have sameHandle : at_ = handle := nodup.getElem_inj_iff.mp (by
        rw [isHere, isThere, ← same, sameRoot])
      have page := page_of_path extended (Or.inl lower) path
      have outside := leaves sameHandle
      omega
  | _ => exact False.elim allowed

theorem Mapped.root_of {handle : Nat} {process : ProcessContext}
    (mapped : Mapped hole machine config roots)
    (here : machine.processes[handle]? = some process) :
    ∃ root, roots[handle]? = some root ∧ Linked config process.pageMap root := by
  have lengths := mapped.linked.length_eq
  have pointer : (machine.processes.map ProcessContext.pageMap)[handle]? = some process.pageMap := by
    rw [List.getElem?_map, here, Option.map_some]
  obtain ⟨bound, isPointer⟩ := List.getElem?_eq_some_iff.mp pointer
  have linked := mapped.linked.get bound (by omega)
  rw [List.get_eq_getElem, List.get_eq_getElem, isPointer] at linked
  exact ⟨_, List.getElem?_eq_getElem (by omega), linked⟩

theorem Mapped.roots_live (mapped : Mapped hole machine config roots) :
    ∀ root ∈ roots, root ∈ config.spaces := by
  intro root member
  obtain ⟨index, bound, same⟩ := List.mem_iff_getElem.mp member
  have lengths := mapped.linked.length_eq
  have linked := mapped.linked.get (i := index) (by omega) bound
  rw [List.get_eq_getElem, List.get_eq_getElem, same] at linked
  exact linked.member

/-- A call that returns no process. -/
theorem Mapped.advance {Allowed : MapAction → Prop} (mapped : Mapped hole machine config roots)
    (steps : MapSteps hole Allowed config next) (kernel : next.kernel = after.kernel)
    (same : after.processes.map ProcessContext.pageMap =
      machine.processes.map ProcessContext.pageMap) : Mapped hole after next roots := by
  have keeps : ∀ before action after, Sound hole before →
      ((∀ root ∈ before.spaces, SharesUpper before root) ∧
        List.Forall₂ (Linked before) (machine.processes.map ProcessContext.pageMap) roots) →
      Allowed action → MapStep hole before action after →
      ((∀ root ∈ after.spaces, SharesUpper after root) ∧
        List.Forall₂ (Linked after) (machine.processes.map ProcessContext.pageMap) roots) := by
    rintro before action after sound ⟨shares, linked⟩ _ step
    exact ⟨map_step_shares sound step shares,
      linked.imp fun _ _ here => map_step_linked sound step here⟩
  obtain ⟨sound, shares, linked⟩ :=
    map_steps_keep mapped.sound keeps steps ⟨mapped.shares, mapped.linked⟩
  exact ⟨kernel, sound, shares, by rw [same]; exact linked, mapped.nodup⟩

/-- A process that `create_process` returns joins the others with a fresh root. -/
theorem Mapped.create {processPath processName : String} {entryPoint : U64} {level : ProcessLevel}
    {startPaused : Bool} {newCalls vectorCalls : List HeapCall} {result : Option ProcessContext}
    {kernel : Kernel} {call : MapCall} {granted : List Span}
    (mapped : Mapped hole machine config roots)
    (fits : CreateFits hole machine.kernel newCalls vectorCalls)
    (ran : createProcess machine.kernel processPath processName entryPoint level startPaused newCalls
      vectorCalls = some (result, kernel)) :
    ∃ next more, MapSteps hole (CallAction roots call) config next ∧
      Mapped hole { kernel, processes := machine.processes ++ result.toList, granted } next
        (roots ++ more) := by
  rw [← mapped.kernel] at fits ran
  obtain ⟨pointer, root, next, same, creation, fresh, made⟩ :=
    create_process_steps mapped.sound fits ran
  have new : root ∉ roots := fun member => fresh (mapped.roots_live root member)
  have steps : MapSteps hole (CallAction roots call) config next :=
    memory_steps (fun _ action _ allowed _ => create_action_spares new action allowed)
      creation.steps
  have older : Mapped hole { kernel, processes := machine.processes, granted } next roots :=
    mapped.advance steps same rfl
  have none : result = none → ∃ more, Mapped hole
      { kernel, processes := machine.processes ++ result.toList, granted } next (roots ++ more) := by
    intro nothing
    rw [nothing, Option.toList_none, List.append_nil]
    exact ⟨[], by rw [List.append_nil]; exact older⟩
  rcases made with ⟨nothing, _⟩ | ⟨nothing | returns, _, linked⟩
  · exact ⟨next, (none nothing).choose, steps, (none nothing).choose_spec⟩
  · exact ⟨next, (none nothing).choose, steps, (none nothing).choose_spec⟩
  · refine ⟨next, [root], steps, older.kernel, older.sound, older.shares, ?_, ?_⟩
    · rw [returns, Option.toList_some, List.map_append]
      exact List.rel_append older.linked (.cons linked .nil)
    · apply List.Nodup.append older.nodup (List.nodup_singleton root)
      rw [List.disjoint_singleton]
      exact new

theorem with_vmem_pointers {handle : Nat} {process : ProcessContext} (availableVmem : VmemVector)
    (here : machine.processes[handle]? = some process) :
    (machine.withVmem handle process availableVmem).processes.map ProcessContext.pageMap =
      machine.processes.map ProcessContext.pageMap := by
  obtain ⟨bound, isHere⟩ := List.getElem?_eq_some_iff.mp here
  have inside : handle < (machine.processes.map ProcessContext.pageMap).length := by
    rw [List.length_map]
    exact bound
  have pointer : process.pageMap = (machine.processes.map ProcessContext.pageMap)[handle] := by
    rw [List.getElem_map, isHere]
  rw [Machine.withVmem, List.map_set]
  dsimp only
  rw [pointer]
  exact List.set_getElem_self _

theorem Mapped.perform {call : MapCall} (mapped : Mapped hole machine config roots)
    (fits : MapCallFits hole machine call) (ran : performMap machine call = some after) :
    ∃ next more, MapSteps hole (CallAction roots call) config next ∧
      Mapped hole after next (roots ++ more) := by
  have same : ∀ next, MapSteps hole (CallAction roots call) config next →
      next.kernel = after.kernel → after.processes.map ProcessContext.pageMap =
        machine.processes.map ProcessContext.pageMap →
      ∃ next more, MapSteps hole (CallAction roots call) config next ∧
        Mapped hole after next (roots ++ more) := by
    intro next steps kernel pointers
    exact ⟨next, [], steps, by rw [List.append_nil]; exact mapped.advance steps kernel pointers⟩
  cases call with
  | window addr len =>
      obtain ⟨⟨pointer, results, kernel⟩, called, shape⟩ := Option.map_eq_some_iff.mp ran
      rw [← mapped.kernel] at called
      rw [MapCallFits, ← mapped.kernel] at fits
      obtain ⟨_, next, kernelIs, steps, _⟩ := uacpi_map_steps mapped.sound fits called
      rw [← shape] at same ⊢
      exact same next (steps.widen window_action_spares) kernelIs rfl
  | memory call =>
      cases call with
      | sbrk size =>
          obtain ⟨⟨result, kernel⟩, called, shape⟩ := Option.map_eq_some_iff.mp ran
          rw [← mapped.kernel] at called
          rw [MapCallFits, CallFits, ← mapped.kernel] at fits
          obtain ⟨next, kernelIs, steps, _⟩ := sbrk_steps mapped.sound fits called
          rw [← shape] at same ⊢
          exact same next (memory_steps (fun _ action _ allowed _ =>
            kernel_action_spares action allowed) steps) kernelIs rfl
      | mmap size =>
          obtain ⟨⟨result, kernel⟩, called, shape⟩ := Option.map_eq_some_iff.mp ran
          rw [← mapped.kernel] at called
          rw [MapCallFits, CallFits, ← mapped.kernel] at fits
          obtain ⟨next, kernelIs, steps, _⟩ := mmap_steps mapped.sound fits called
          rw [← shape] at same ⊢
          exact same next (memory_steps (fun _ action _ allowed _ =>
            kernel_action_spares action allowed) steps) kernelIs rfl
      | createProcess _ _ _ _ _ _ _ =>
          obtain ⟨⟨result, kernel⟩, called, shape⟩ := Option.map_eq_some_iff.mp ran
          rw [← shape]
          exact mapped.create fits called
      | allocateMemoryInProcess handle address pageCount =>
          obtain ⟨process, here, ran⟩ := Option.bind_eq_some_iff.mp ran
          obtain ⟨⟨result, kernel⟩, called, shape⟩ := Option.map_eq_some_iff.mp ran
          obtain ⟨root, atHandle, linked⟩ := mapped.root_of here
          rw [← mapped.kernel] at called
          obtain ⟨next, kernelIs, steps, _⟩ :=
            allocate_memory_steps mapped.sound linked.points linked.member fits called
          rw [← shape] at same ⊢
          exact same next (memory_steps (fun _ action _ allowed step =>
            space_action_spares mapped.nodup atHandle action allowed step) steps) kernelIs rfl
      | allocateVirtualMemoryAt handle requestedBase size =>
          obtain ⟨process, here, shape⟩ := Option.map_eq_some_iff.mp ran
          rw [← shape] at same ⊢
          exact same config Relation.ReflTransGen.refl mapped.kernel (with_vmem_pointers _ here)
      | allocateVirtualMemory handle size =>
          obtain ⟨process, here, shape⟩ := Option.map_eq_some_iff.mp ran
          rw [← shape] at same ⊢
          exact same config Relation.ReflTransGen.refl mapped.kernel (with_vmem_pointers _ here)

end Runs

end KittyOs.KernelWindows
