import KittyOs.FrameRoles

/-!
# The higher half of a process

A process gets the upper half of the kernel's top table once, by value. The tables
below are shared, so a page the kernel maps later under an entry that was copied is
there for the process too. A page under an entry that was not there yet is not. The
runs here are those of `create_process` and of `virtual_map` on the kernel's page
map, at any higher-half address that is not kept for the kernel's own allocators
and is not the page of a `page_map`.
-/

namespace KittyOs.HigherHalf

open KittyOs.Lib.ByteMemory KittyOs.Lib.SpanPartition
open KittyOs.MachineWord KittyOs.PageTable KittyOs.PhysicalModel KittyOs.PhysicalFreelist
open KittyOs.VirtualModel KittyOs.PageForest KittyOs.VirtualMapping KittyOs.MapEffect
open KittyOs.Translation KittyOs.KernelModel KittyOs.HeapBounds KittyOs.ProcessModel
open KittyOs.AddressSpaces KittyOs.KernelCalls KittyOs.SharedHalf KittyOs.ProcessCalls
open KittyOs.BootState KittyOs.MemoryRuns KittyOs.FrameRoles

set_option autoImplicit false

/-! ### Runs -/

structure LiveState where
  kernel : Kernel
  processes : List ProcessContext

inductive KernelCall where
  | createProcess (processPath processName : String) (entryPoint : U64) (level : ProcessLevel)
      (startPaused : Bool) (newCalls vectorCalls : List HeapCall)
  | virtualMap (physicalAddress virtualAddress : U64) (flags : MapFlags)

/-- `none` if the call halts or faults. -/
def call (machine : LiveState) : KernelCall → Option LiveState
  | .createProcess processPath processName entryPoint level startPaused newCalls vectorCalls =>
      (createProcess machine.kernel processPath processName entryPoint level startPaused newCalls
        vectorCalls).map fun outcome =>
          { kernel := outcome.2, processes := machine.processes ++ outcome.1.toList }
  | .virtualMap physicalAddress virtualAddress flags =>
      (virtualMap machine.kernel.phys machine.kernel.kernelPml4 physicalAddress virtualAddress
        flags).map fun outcome =>
          { machine with kernel := { machine.kernel with phys := outcome.2 } }

/-- A higher-half address the kernel may map by hand: no large page is on the way, the
page is not one that the kernel's allocators have yet to map, and it is not the page
of a process's `page_map`. -/
structure MapFits (hole : Hole) (machine : LiveState) (address : U64) (flags : MapFlags) : Prop where
  present : flags.isPresent = true
  higher : 0xffff800000000000 ≤ address.toNat
  small : SmallPages (readEntry machine.kernel.phys.mem) machine.kernel.kernelPml4 address
  range : address.toNat + 4096 ≤ machine.kernel.range.baseAddress.toNat ∨
    hole.last ≤ address.toNat
  heap : address.toNat + 4096 ≤ machine.kernel.heapEnd.toNat ∨
    machine.kernel.heapStart.toNat + heapSize.toNat ≤ address.toNat
  pageMaps : ∀ process ∈ machine.processes, pathOf process.pageMap ≠ pathOf address

def KernelCallFits (hole : Hole) (machine : LiveState) : KernelCall → Prop
  | .createProcess _ _ _ _ _ newCalls vectorCalls =>
      CreateFits hole machine.kernel newCalls vectorCalls
  | .virtualMap _ virtualAddress flags => MapFits hole machine virtualAddress flags

/-- Any interleaving of the two calls. -/
abbrev Interleaves (hole : Hole) : LiveState → LiveState → Prop :=
  Relation.ReflTransGen fun before after =>
    ∃ made, KernelCallFits hole before made ∧ call before made = some after

/-! ### What every call keeps -/

/-- The kernel finds the top table `root` at `pointer`. -/
structure Behind (config : Config) (pointer : U64) (root : Nat) : Prop where
  leaf : ∃ leaf, liveLeaf config.slots config.root pointer = some leaf ∧ leaf.frame = root
  aligned : pointer.toNat % 4096 = 0
  above : config.kernel.heapStart.toNat + heapSize.toNat ≤ pointer.toNat
  below : pointer.toNat + 4096 ≤ config.frontier

structure Sharing (hole : Hole) (config : Config) : Prop where
  sound : Sound hole config
  shares : ∀ root ∈ config.spaces, SharesUpper config root

structure Shared (hole : Hole) (machine : LiveState) (config : Config) : Prop where
  kernel : config.kernel = machine.kernel
  sharing : Sharing hole config
  pointers : ∀ process ∈ machine.processes, ∃ root ∈ config.spaces,
    Behind config process.pageMap root

section Calls

variable {hole : Hole} {config next : Config} {machine after : LiveState}

theorem PointsTo.behind {pointer : U64} {root : Nat} (points : PointsTo config pointer root) :
    Behind config pointer root :=
  ⟨points.writable.leaf, points.aligned, points.above, points.below⟩

theorem Behind.inside {pointer : U64} {root : Nat} (behind : Behind config pointer root)
    (sound : Sound hole config) : hole.Contains pointer := by
  have above := behind.above
  have below := behind.below
  obtain ⟨lower, _, _, _⟩ := sound.heap
  obtain ⟨covered, inside⟩ := sound.range
  exact ⟨by omega, by omega⟩

theorem Behind.step {pointer : U64} {root : Nat} {action : Action}
    (behind : Behind config pointer root) (sound : Sound hole config)
    (step : Step hole config action next) : Behind next pointer root := by
  obtain ⟨leaf, aligned, above, below⟩ := behind
  have kept := leaf_step sound step (kernel_live config) (kernel_owns _ _)
    (spares_pointer sound step aligned above below)
  rw [← kept, ← (root_stays step).1] at leaf
  cases step with
  | reserve _ _ raised _ _ => exact ⟨leaf, aligned, above, Nat.le_trans below raised⟩
  | windowPage _ _ _ _ _ | pageMap _ _ _ _ _ | emptyPageMap _ _ _ _ _ =>
      exact ⟨leaf, aligned, above, Nat.le_add_right_of_le below⟩
  | _ => exact ⟨leaf, aligned, above, below⟩

theorem Sharing.run {Allowed : Action → Prop} (sharing : Sharing hole config)
    (steps : Steps hole Allowed config next) : Sharing hole next := by
  have keeps : ∀ before action later, Sound hole before →
      (∀ root ∈ before.spaces, SharesUpper before root) → Allowed action →
      Step hole before action later → ∀ root ∈ later.spaces, SharesUpper later root :=
    fun before action later sound shares _ step => shares_upper_step sound step shares
  exact ⟨sharing.sound.run steps, sharing.sound.steps keeps steps sharing.shares⟩

theorem Behind.run {Allowed : Action → Prop} {pointer : U64} {root : Nat}
    (behind : Behind config pointer root) (member : root ∈ config.spaces)
    (sound : Sound hole config) (steps : Steps hole Allowed config next) :
    root ∈ next.spaces ∧ Behind next pointer root := by
  have keeps : ∀ before action later, Sound hole before →
      root ∈ before.spaces ∧ Behind before pointer root → Allowed action →
      Step hole before action later → root ∈ later.spaces ∧ Behind later pointer root := by
    intro before action later beforeSound here _ step
    refine ⟨?_, here.2.step beforeSound step⟩
    cases step with
    | pageMap _ _ _ _ _ => exact List.mem_cons_of_mem _ here.1
    | _ => exact here.1
  exact sound.steps keeps steps ⟨member, behind⟩

theorem Shared.create {processPath processName : String} {entryPoint : U64} {level : ProcessLevel}
    {startPaused : Bool} {newCalls vectorCalls : List HeapCall} {result : Option ProcessContext}
    {kernel : Kernel} (shared : Shared hole machine config)
    (fits : CreateFits hole machine.kernel newCalls vectorCalls)
    (ran : createProcess machine.kernel processPath processName entryPoint level startPaused newCalls
      vectorCalls = some (result, kernel)) :
    ∃ next, Shared hole ⟨kernel, machine.processes ++ result.toList⟩ next := by
  have sound := shared.sharing.sound
  rw [← shared.kernel] at fits ran
  obtain ⟨pointer, root, next, same, creation, _, made⟩ := create_process_steps sound fits ran
  refine ⟨next, same, shared.sharing.run creation.steps, ?_⟩
  intro process member
  rcases List.mem_append.mp member with old | new
  · obtain ⟨found, there, behind⟩ := shared.pointers process old
    exact ⟨found, behind.run there sound creation.steps⟩
  · rcases made with ⟨nothing, _⟩ | ⟨nothing | returns, _, linked⟩
    · rw [nothing] at new
      exact absurd new (by simp)
    · rw [nothing] at new
      exact absurd new (by simp)
    · rw [returns, Option.toList_some, List.mem_singleton] at new
      rw [new]
      exact ⟨root, linked.member, PointsTo.behind linked.points⟩

/-- Mapping a kernel page by hand. -/
theorem Sharing.map {flags : MapFlags} {physicalAddress address : U64} {success : Bool}
    {phys : PhysicalState} {remaining : List Span} (sharing : Sharing hole config)
    (present : flags.isPresent = true)
    (effect : Effect config.Root config.Owns flags physicalAddress config.root address
      config.kernel.phys config.blocks success phys remaining)
    (spares : ∀ target, hole.Contains target →
      config.frontier ≤ target.toNat ∨ config.BeyondBreak target → pathOf target ≠ pathOf address) :
    Sharing hole (config.withMemory phys remaining) := by
  have sound := sharing.sound
  have kept := sound.kept.effect present effect
  constructor
  · refine ⟨kept.tables, kept.tidy, sound.nonzero, sound.distinct, kept.lower, kept.small, ?_,
      sound.active, sound.heap, sound.range⟩
    intro target within beyond
    rw [← sound.vacant target within beyond]
    exact effect.leaf_elsewhere (kernel_live config) (kernel_owns _ _) fun all =>
      spares target within beyond all.2.2
  · intro root member slot upper
    obtain ⟨tidy, refers⟩ := sharing.shares root member slot upper
    have own : readEntry phys.mem root slot = config.slots root slot := by
      rcases effect_top_slot effect (space_live member) slot with same | ⟨kernel, _⟩
      · exact same
      · rw [kernel] at member
        exact absurd member sound.distinct
    rw [show Config.slots (config.withMemory phys remaining) root slot = _ from own]
    refine ⟨tidy, ?_⟩
    by_cases vacant : (config.slots root slot).ppn = 0
    · exact Or.inl vacant
    · right
      have reference := refers.resolve_left vacant
      rcases effect_top_slot effect (kernel_live config) slot with same | ⟨_, _, kept⟩
      · rw [show Config.slots (config.withMemory phys remaining) _ slot = _ from same]
        exact reference
      · rw [reference]
        exact (kept (by rw [← reference]; exact vacant)).symm

theorem Shared.map {flags : MapFlags} {physicalAddress address : U64}
    {outcome : Bool × PhysicalState} (shared : Shared hole machine config)
    (fits : MapFits hole machine address flags)
    (ran : virtualMap machine.kernel.phys machine.kernel.kernelPml4 physicalAddress address flags =
      some outcome) :
    ∃ next, Shared hole { machine with kernel := { machine.kernel with phys := outcome.2 } }
      next := by
  obtain ⟨physicalAligned, virtualAligned⟩ := virtual_map_aligned ran
  have aligned := (page_offset_to_nat virtualAligned (show 0 < 4096 by omega)).1
  have higher := fits.higher
  have range := fits.range
  have heap := fits.heap
  have small := fits.small
  rw [← shared.kernel] at ran range heap small
  have canonical : isCanonical address = true := by
    rw [is_canonical_iff]
    omega
  -- the unused rest of the last reservation counts as given out
  obtain ⟨covered, last⟩ := shared.sharing.sound.range
  have raising : Step hole config .reserve { config with
      kernel := { config.kernel with range := config.kernel.range }
      frontier := config.kernel.range.baseAddress.toNat } :=
    .reserve _ _ covered (Nat.le_refl _) last
  have raised := shared.sharing.run (one_step (show AnyAction .reserve from trivial) raising)
  obtain ⟨success, phys, remaining, run, effect⟩ := virtual_map_effect flags raised.sound.tables
    (kernel_live _) (kernel_owns _ _) small physicalAligned virtualAligned canonical
  have same : (success, phys) = outcome := Option.some.inj (run.symm.trans ran)
  have mapped := raised.map fits.present effect (by
    intro target within beyond path
    have page := page_of_path within.extended (Or.inr higher) path
    unfold Config.BeyondBreak at beyond
    dsimp only at beyond
    obtain ⟨_, inside⟩ := within
    omega)
  refine ⟨_, ?_, mapped, ?_⟩
  · rw [← same, ← shared.kernel]
  · intro process member
    obtain ⟨root, there, behind⟩ := shared.pointers process member
    obtain ⟨leaf, pointerAligned, above, below⟩ := behind.step shared.sharing.sound raising
    refine ⟨root, there, ?_, pointerAligned, above, below⟩
    rw [show liveLeaf _ _ process.pageMap = _ from effect.leaf_elsewhere (kernel_live _)
      (kernel_owns _ _) fun all => fits.pageMaps process member all.2.2]
    exact leaf

theorem Shared.interleaves (shared : Shared hole machine config)
    (run : Interleaves hole machine after) : ∃ next, Shared hole after next := by
  induction run with
  | refl => exact ⟨config, shared⟩
  | tail _ last ih =>
      obtain ⟨middle, here⟩ := ih
      obtain ⟨made, fits, ran⟩ := last
      cases made with
      | createProcess _ _ _ _ _ _ _ =>
          obtain ⟨⟨result, kernel⟩, called, shape⟩ := Option.map_eq_some_iff.mp ran
          rw [← shape]
          exact here.create fits called
      | virtualMap _ _ _ =>
          obtain ⟨outcome, called, shape⟩ := Option.map_eq_some_iff.mp ran
          rw [← shape]
          exact here.map fits called

end Calls

/-! ### Translation -/

/-- The process's page map translates every higher-half address as the kernel's does. -/
def UpperTranslated (kernel : Kernel) (process : ProcessContext) : Prop :=
  ∀ address : U64, 0xffff800000000000 ≤ address.toNat →
    virtualToPhysical kernel.phys.mem (pageMapRoot kernel process) address =
      virtualToPhysical kernel.phys.mem kernel.kernelPml4 address

/-- Every address the kernel translates is under a top-level entry that the process has,
which is one that was there when the upper half was copied. -/
def EntriesCopied (kernel : Kernel) (process : ProcessContext) : Prop :=
  ∀ address : U64, 0xffff800000000000 ≤ address.toNat →
    (virtualToPhysical kernel.phys.mem kernel.kernelPml4 address).1 = true →
      (readEntry kernel.phys.mem (pageMapRoot kernel process)
        (splitVirtualAddressToStructure address).pml4).p = true

section Translating

variable {hole : Hole} {config : Config} {machine : LiveState} {mem : Memory} {root : Nat}

theorem translated_top {address : U64} (found : (virtualToPhysical mem root address).1 = true) :
    (readEntry mem root (splitVirtualAddressToStructure address).pml4).p = true := by
  by_contra absent
  rw [Bool.not_eq_true] at absent
  unfold virtualToPhysical at found
  simp [absent] at found

theorem untranslated {address : U64} (missing : (virtualToPhysical mem root address).1 = false) :
    virtualToPhysical mem root address = (false, 0) := by
  revert missing
  unfold virtualToPhysical
  dsimp only
  split_ifs <;> simp

theorem behind_root {process : ProcessContext} (behind : Behind config process.pageMap root)
    (sound : Sound hole config) : pageMapRoot config.kernel process = root := by
  obtain ⟨leaf, found, here⟩ := behind.leaf
  rw [root_of_leaf sound (behind.inside sound) behind.aligned found, here]

/-- The process has an entry or fails, and an entry it has leads where the kernel's does. -/
theorem upper_walk {slot : Slot} (sharing : Sharing hole config) (member : root ∈ config.spaces)
    (upper : 256 ≤ slot.toNat) :
    (config.slots root slot).p = false ∨
      ((config.slots root slot).p = (config.slots config.root slot).p ∧
        (config.slots root slot).ppn = (config.slots config.root slot).ppn) := by
  obtain ⟨tidy, refers⟩ := sharing.shares root member slot upper
  have own := tidy.resolve_left (by simp)
  have kernelTidy : TidyEntry 0 (config.slots config.root slot) := top_tidy sharing.sound
  have kernels := kernelTidy.resolve_left (by simp)
  cases present : (config.slots root slot).p with
  | false => exact Or.inl rfl
  | true =>
      have occupied := own.mp present
      have reference := refers.resolve_left occupied
      refine Or.inr ⟨?_, reference⟩
      rw [kernels.mpr (by rw [← reference]; exact occupied)]

/-- In every interleaving, a process sees the kernel's half exactly as far as the
entries it was given reach. -/
theorem upper_translated_iff_copied {kernel booted : Kernel} {blocks : List Span}
    (boot : Boot hole kernel blocks) (heap : initializeHeap kernel = some booted)
    (run : Interleaves hole ⟨booted, []⟩ machine) {process : ProcessContext}
    (member : process ∈ machine.processes) :
    UpperTranslated machine.kernel process ↔ EntriesCopied machine.kernel process := by
  have started : Shared hole ⟨booted, []⟩ (bootConfig booted blocks) :=
    ⟨rfl, ⟨boot_sound boot heap, fun _ member => absurd member List.not_mem_nil⟩,
      fun _ member => absurd member List.not_mem_nil⟩
  obtain ⟨config, shared⟩ := started.interleaves run
  obtain ⟨root, there, behind⟩ := shared.pointers process member
  unfold UpperTranslated EntriesCopied
  rw [← shared.kernel, behind_root behind shared.sharing.sound]
  constructor
  · intro translated address higher found
    rw [← translated address higher] at found
    exact translated_top found
  · intro copied address higher
    have upper : 256 ≤ (splitVirtualAddressToStructure address).pml4.toNat := by
      rw [split_pml4_to_nat]
      have bound := address.isLt
      omega
    rcases upper_walk shared.sharing there upper with absent | ⟨present, reference⟩
    · have own : (virtualToPhysical config.mem root address).1 = false := by
        by_contra found
        rw [Bool.not_eq_false] at found
        rw [translated_top found] at absent
        exact absurd absent (by simp)
      have kernels : (virtualToPhysical config.mem config.root address).1 = false := by
        by_contra found
        rw [Bool.not_eq_false] at found
        rw [copied address higher found] at absent
        exact absurd absent (by simp)
      rw [untranslated own, untranslated kernels]
    · exact virtual_to_physical_shared present reference

end Translating

/-! ### A page under a new entry -/

/-- What the kernel maps under an entry it did not have is missing in every process. -/
theorem new_entry_missing {hole : Hole} {machine : LiveState} {config : Config}
    {process : ProcessContext} {physicalAddress address : U64} {flags : MapFlags}
    {phys : PhysicalState} (shared : Shared hole machine config)
    (member : process ∈ machine.processes) (fits : MapFits hole machine address flags)
    (vacant : (config.slots config.root (splitVirtualAddressToStructure address).pml4).ppn = 0)
    (ran : virtualMap machine.kernel.phys machine.kernel.kernelPml4 physicalAddress address flags =
      some (true, phys)) :
    (virtualToPhysical phys.mem machine.kernel.kernelPml4 address).1 = true ∧
      (virtualToPhysical phys.mem (pageMapRoot { machine.kernel with phys } process)
        address).1 = false := by
  have sound := shared.sharing.sound
  obtain ⟨physicalAligned, virtualAligned⟩ := virtual_map_aligned ran
  have higher := fits.higher
  have canonical : isCanonical address = true := by
    rw [is_canonical_iff]
    omega
  obtain ⟨next, after⟩ := shared.map fits ran
  have small := fits.small
  rw [← shared.kernel] at ran small ⊢
  obtain ⟨success, other, remaining, run, effect⟩ := virtual_map_effect flags sound.tables
    (kernel_live config) (kernel_owns _ _) small physicalAligned virtualAligned canonical
  obtain ⟨worked, same⟩ := Prod.mk.inj (Option.some.inj (run.symm.trans ran))
  subst worked same
  constructor
  · obtain ⟨entry, found⟩ := effect.leaf_here fits.present
    rcases walkers_of_leaf (kernel_live config) (kernel_owns _ _)
      (sound.kept.effect fits.present effect).tidy
      (effect.small (kernel_live config) (kernel_owns _ _) small) with
      ⟨missing, _⟩ | ⟨leaf, _, _, _, translated, _⟩
    · rw [missing] at found
      exact absurd found (by simp)
    · rw [translated canonical]
      rfl
  · obtain ⟨root, there, behind⟩ := shared.pointers process member
    obtain ⟨root', _, behindAfter⟩ := after.pointers process member
    have kernels : next.kernel = { machine.kernel with phys := other } := after.kernel
    have sameRoot : root' = root := by
      obtain ⟨leaf, found, frame⟩ := behind.leaf
      obtain ⟨leaf', found', frame'⟩ := behindAfter.leaf
      have kept := effect.leaf_elsewhere (kernel_live config) (kernel_owns _ _) fun all =>
        fits.pageMaps process member all.2.2
      rw [Config.slots, Config.mem, Config.root, kernels, ← shared.kernel, kept, found,
        Option.some.injEq] at found'
      rw [← frame, ← frame', found']
    have top := behind_root behindAfter after.sharing.sound
    rw [kernels, sameRoot, ← shared.kernel] at top
    rw [top]
    by_contra found
    rw [Bool.not_eq_false] at found
    have present := translated_top found
    have own : readEntry other.mem root (splitVirtualAddressToStructure address).pml4 =
        config.slots root (splitVirtualAddressToStructure address).pml4 := by
      rcases effect_top_slot effect (space_live there)
        (splitVirtualAddressToStructure address).pml4 with same | ⟨kernel, _⟩
      · exact same
      · rw [kernel] at there
        exact absurd there sound.distinct
    have upper : 256 ≤ (splitVirtualAddressToStructure address).pml4.toNat := by
      rw [split_pml4_to_nat]
      have bound := address.isLt
      omega
    obtain ⟨tidy, refers⟩ := shared.sharing.shares root there _ upper
    rw [own] at present
    have occupied := (tidy.resolve_left (by simp)).mp present
    exact occupied (refers.elim id fun reference => reference.trans vacant)

/-- The kernel's entries for addresses outside the hole stay. -/
theorem kernel_slot_outside {hole : Hole} {Allowed : Action → Prop} {config next : Config}
    {slot : Slot} (sound : Sound hole config) (steps : Steps hole Allowed config next)
    (outside : ∀ address, hole.Contains address →
      slot ≠ (splitVirtualAddressToStructure address).pml4) :
    next.slots next.root slot = config.slots config.root slot := by
  have keeps : ∀ before action later, Sound hole before →
      before.slots before.root slot = config.slots config.root slot → Allowed action →
      Step hole before action later →
      later.slots later.root slot = config.slots config.root slot := by
    intro before action later beforeSound here _ step
    rw [(root_stays step).1, ← here]
    rcases top_slot_step beforeSound step (kernel_live before) slot with
      same | ⟨copies, _⟩ | ⟨address, placed, sameSlot, _⟩
    · exact same
    · rw [copies] at step
      cases step with
      | copyUpper member => exact absurd member beforeSound.distinct
    · exact absurd sameSlot (outside address (place_vacant beforeSound step placed).inside)
  exact sound.steps keeps steps rfl

theorem small_of_vacant_top {slots : Nat → Slot → PageEntry} {root : Nat} {address : U64}
    (vacant : (slots root (splitVirtualAddressToStructure address).pml4).ppn = 0) :
    SmallPages slots root address := by
  intro route table slot along below walked
  cases route with
  | nil => exact absurd below (by simp)
  | cons index rest =>
      obtain ⟨after, split⟩ := along
      obtain ⟨child, linked, _⟩ := Option.bind_eq_some_iff.mp walked
      rw [← (List.cons.inj split).1] at linked
      exact absurd vacant (child_table_frame linked).2.2.1

/-- Addresses below the hole are the kernel's to map. -/
theorem fits_below_hole {hole : Hole} {machine : LiveState} {config : Config} {address : U64}
    {flags : MapFlags} (shared : Shared hole machine config) (present : flags.isPresent = true)
    (higher : 0xffff800000000000 ≤ address.toNat) (below : address.toNat + 4096 ≤ hole.first)
    (small : SmallPages config.slots config.root address) : MapFits hole machine address flags := by
  have sound := shared.sharing.sound
  obtain ⟨lower, start, bounds, reserved⟩ := sound.heap
  obtain ⟨covered, _⟩ := sound.range
  rw [Config.slots, Config.mem, Config.root, shared.kernel] at small
  rw [shared.kernel] at lower start reserved covered
  refine ⟨present, higher, small, Or.inl (by omega), Or.inl (by omega), ?_⟩
  intro process member path
  obtain ⟨root, _, behind⟩ := shared.pointers process member
  have inside := behind.inside sound
  have page := page_of_path inside.extended (Or.inr higher) path
  obtain ⟨first, _⟩ := inside
  omega

/-- A process on 128 GiB, and an entry of the kernel that was empty at boot. -/
theorem large_process_shared {phys : PhysicalState} {blocks : List Span}
    (boot : Boot largeHole { largeKernel with phys } blocks)
    (enough : 0x1000000000 ≤ freeBytes blocks)
    (vacant : readEntry phys.mem 0x1000 (splitVirtualAddressToStructure 0xffff880000000000).pml4 =
      blankEntry) :
    ∃ kernel next,
      Interleaves largeHole ⟨{ largeHeap with phys }, []⟩ ⟨kernel, [largeProcess .user]⟩ ∧
      Shared largeHole ⟨kernel, [largeProcess .user]⟩ next ∧ 12288 ≤ freeBytes next.blocks ∧
      next.slots next.root (splitVirtualAddressToStructure 0xffff880000000000).pml4 =
        blankEntry := by
  have sound := boot_sound boot (large_heap_with phys)
  obtain ⟨root, next, created, steps, linked, left, _⟩ :=
    booted_process_created .user sound (Nat.le_trans (by decide) enough)
  have started : Sharing largeHole (bootConfig { largeHeap with phys } blocks) :=
    ⟨sound, fun _ member => absurd member List.not_mem_nil⟩
  have called : call ⟨{ largeHeap with phys }, []⟩
      (.createProcess "/init" "init" 0x10000 .user false [] []) =
      some ⟨next.kernel, [largeProcess .user]⟩ := by
    rw [call, created]
    rfl
  have fits : KernelCallFits largeHole ⟨{ largeHeap with phys }, []⟩
      (.createProcess "/init" "init" 0x10000 .user false [] []) := first_create_fits phys
  refine ⟨next.kernel, next, Relation.ReflTransGen.single ⟨_, fits, called⟩,
    ⟨rfl, started.run steps, ?_⟩, by omega, ?_⟩
  · intro process member
    rw [List.mem_singleton.mp member]
    exact ⟨root, linked.member, PointsTo.behind linked.points⟩
  · rw [kernel_slot_outside sound steps]
    · exact vacant
    · intro address inside same
      have first : 0xffff900000000000 ≤ address.toNat := inside.1
      have bound := address.isLt
      have values := congrArg BitVec.toNat same
      have here : (0xffff880000000000 : U64).toNat = 0xffff880000000000 := rfl
      rw [split_pml4_to_nat, split_pml4_to_nat, here] at values
      omega

theorem large_process_upper_half :
    ∃ machine, Interleaves largeHole ⟨largeHeap, []⟩ machine ∧
      machine.processes = [largeProcess .user] ∧
      (UpperTranslated machine.kernel (largeProcess .user) ↔
        EntriesCopied machine.kernel (largeProcess .user)) := by
  obtain ⟨kernel, _, run, _⟩ := large_process_shared large_boot (by decide)
    (blank_machine_blank 0x2000000000 _)
  exact ⟨_, run, rfl,
    upper_translated_iff_copied large_boot large_heap_initialized run List.mem_cons_self⟩

/-- A page between the direct map and the heap, mapped after the process was created. -/
theorem later_kernel_page_missing :
    ∃ phys blocks machine, Boot largeHole { largeKernel with phys } blocks ∧
      WritableTo (readEntry phys.mem) 0x1000 (phys.hhdm + 0x1000) 0x1000 ∧
      Interleaves largeHole ⟨{ largeHeap with phys }, []⟩ machine ∧
      machine.processes = [largeProcess .user] ∧
      (virtualToPhysical machine.kernel.phys.mem machine.kernel.kernelPml4
        0xffff880000000000).1 = true ∧
      (virtualToPhysical machine.kernel.phys.mem
        (pageMapRoot machine.kernel (largeProcess .user)) 0xffff880000000000).1 = false := by
  obtain ⟨direct, blocks, boot, plenty, hhdm, top, empty⟩ := direct_boot
  obtain ⟨kernel, config, run, shared, enough, blank⟩ :=
    large_process_shared boot plenty (empty _ (by decide))
  have sound := shared.sharing.sound
  have same : config.kernel = kernel := shared.kernel
  have small : SmallPages config.slots config.root 0xffff880000000000 :=
    small_of_vacant_top (by rw [blank]; rfl)
  have fits : KernelCallFits largeHole ⟨kernel, [largeProcess .user]⟩
      (.virtualMap (BitVec.ofNat 64 0) 0xffff880000000000 heapFlags) :=
    fits_below_hole shared rfl (by decide) (by decide) small
  obtain ⟨success, phys, remaining, ran, effect⟩ := @virtual_map_effect _ _ (BitVec.ofNat 64 0)
    config.root _ _ heapFlags 0xffff880000000000 sound.tables (kernel_live config) (kernel_owns _ _)
    small (by decide) (by decide) (by decide)
  have worked : success = true := by
    cases success with
    | true => rfl
    | false =>
        have few := (effect.supply.2 rfl).2
        omega
  subst worked
  have mapped : virtualMap kernel.phys kernel.kernelPml4 (BitVec.ofNat 64 0) 0xffff880000000000
      heapFlags = some (true, phys) := by
    rw [← same]
    exact ran
  have called : call ⟨kernel, [largeProcess .user]⟩
      (.virtualMap (BitVec.ofNat 64 0) 0xffff880000000000 heapFlags) =
        some ⟨{ kernel with phys }, [largeProcess .user]⟩ := by
    rw [call, mapped]
    rfl
  have missing := new_entry_missing shared List.mem_cons_self fits (by rw [blank]; rfl) mapped
  refine ⟨direct, blocks, _, boot, ?_, run.tail ⟨_, fits, called⟩, rfl, missing⟩
  rw [hhdm]
  exact top

end KittyOs.HigherHalf
