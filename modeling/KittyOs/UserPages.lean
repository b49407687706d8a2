import KittyOs.FrameRoles

/-!
# Who may use the pages of a process

`create_process` and `allocate_memory_in_process` pass `level == KERNEL` for
`is_supervisor`, and `virtual_map` stores that flag in the bit `us`, which the
processor reads the other way round: a set bit admits user mode. Every entry a
process owns is blank or carries the flags of its level, in every state of a run.
-/

namespace KittyOs.UserPages

open KittyOs.Lib.ByteMemory KittyOs.Lib.SpanPartition KittyOs.Lib.RadixForest
open KittyOs.MachineWord KittyOs.PageTable KittyOs.PhysicalModel KittyOs.PhysicalFreelist
open KittyOs.VirtualModel KittyOs.PageForest KittyOs.MapEffect
open KittyOs.Translation KittyOs.KernelModel KittyOs.HeapBounds KittyOs.ProcessModel
open KittyOs.AddressSpaces KittyOs.SharedHalf KittyOs.ProcessCalls
open KittyOs.BootState KittyOs.MemoryRuns KittyOs.FrameRoles

set_option autoImplicit false

/-- An access from user mode: `us` is set at every level down to the page. -/
def userAccessible (mem : Memory) (root : Nat) (address : U64) : Bool :=
  let indexes := splitVirtualAddressToStructure address
  let pml4e := readEntry mem root indexes.pml4
  let pdpe := readEntry mem pml4e.frame indexes.pdp
  let pde := readEntry mem pdpe.frame indexes.pd
  let pte := readEntry mem pde.frame indexes.pt
  pml4e.p && pml4e.us && pdpe.p && pdpe.us &&
    (pdpe.z || (pde.p && pde.us && (pde.z || (pte.p && pte.us))))

/-- An entry that has not been written or was written for a process of `level`. -/
def MarkedEntry (level : ProcessLevel) (entry : PageEntry) : Prop :=
  entry = blankEntry ∨ (entry.p = true ∧ entry.rw = true ∧ entry.us = (level == .kernel))

theorem process_flags_marked {level : ProcessLevel} {physicalAddress : U64} {entry written : PageEntry}
    (wrote : written = (processFlags level).onTable entry ∨
      written = (processFlags level).onPage physicalAddress entry) : MarkedEntry level written := by
  rcases wrote with table | page
  · rw [table]
    exact Or.inr ⟨rfl, rfl, rfl⟩
  · rw [page]
    exact Or.inr ⟨rfl, rfl, rfl⟩

section Tables

variable {roots : Nat → Prop} {owns : Nat → Slot → Prop} {root : Nat} {level : ProcessLevel}
variable {state other : PhysicalState} {blocks remaining : List Span}

/-- All entries `root` owns, the leaves included. -/
def MarkedTables (roots : Nat → Prop) (owns : Nat → Slot → Prop) (state : PhysicalState)
    (root : Nat) (level : ProcessLevel) : Prop :=
  ∀ route table slot, Reached roots owns state root route table →
    Owned owns root (route ++ [slot]) → MarkedEntry level (readEntry state.mem table slot)

theorem MarkedTables.agrees (marked : MarkedTables roots owns state root level)
    (agrees : Agrees roots owns state other) : MarkedTables roots owns other root level := by
  intro route table slot here owned
  have old := agrees.reached.mp here
  rw [agrees root route table slot old owned]
  exact marked route table slot old owned

theorem MarkedTables.effect {flags : MapFlags} {physicalAddress address : U64} {target : Nat}
    {success : Bool} (marked : MarkedTables roots owns state root level)
    (effect : Effect roots owns flags physicalAddress target address state blocks success other
      remaining) (own : root = target → flags = processFlags level) :
    MarkedTables roots owns other root level := by
  intro route table slot here owned
  rcases effect.written here slot with ⟨old, same⟩ | blank | ⟨sameRoot, entry, wrote⟩
  · rw [same]
    exact marked route table slot old owned
  · exact Or.inl blank
  · rw [own sameRoot] at wrote
    exact process_flags_marked wrote

theorem MarkedTables.add_root {kernelRoot page : Nat} {spaces : List Nat}
    (marked : MarkedTables (liveRoots kernelRoot spaces) (ownedSlots kernelRoot) state root level)
    (blank : ∀ slot, readEntry state.mem page slot = blankEntry) :
    MarkedTables (liveRoots kernelRoot (page :: spaces)) (ownedSlots kernelRoot) state root
      level := by
  intro route table slot here owned
  rcases (reached_add_root kernelRoot spaces blank).mp here with ⟨_, _, same⟩ | old
  · rw [same]
    exact Or.inl (blank slot)
  · exact marked route table slot old owned

end Tables

abbrev Marked (config : Config) (root : Nat) (level : ProcessLevel) : Prop :=
  MarkedTables config.Root config.Owns config.kernel.phys root level

/-- Pages mapped into `root` are mapped with `level`. -/
def MapsAs (root : Nat) (level : ProcessLevel) : Action → Prop
  | .spacePage at_ with_ _ _ => at_ = root → with_ = level
  | _ => True

section Steps

variable {hole : Hole} {usable : Nat → Prop} {config next : Config} {root : Nat}
variable {level : ProcessLevel}

theorem Marked.taken_mapped {flags : MapFlags} {physicalAddress address : U64} {target page : Nat}
    {success : Bool} {taken phys : PhysicalState} {between remaining : List Span}
    (marked : Marked config root level) (sound : Sound hole config)
    (takes : TakesPage config.kernel.phys config.blocks page taken between)
    (effect : Effect config.Root config.Owns flags physicalAddress target address taken between
      success phys remaining) (own : root = target → flags = processFlags level) :
    MarkedTables config.Root config.Owns phys root level :=
  (MarkedTables.agrees marked (takes_agrees sound.tables takes)).effect effect own

theorem Marked.step {action : Action} (marked : Marked config root level) (sound : Sound hole config)
    (step : Step hole config action next) (apart : root ≠ config.root)
    (mapsAs : MapsAs root level action) : Marked next root level := by
  cases step with
  | reserve _ _ _ _ _ => exact marked
  | heapPage takes effect _ _ =>
      exact marked.taken_mapped sound takes effect fun same => absurd same apart
  | windowPage takes effect _ _ _ =>
      exact marked.taken_mapped sound takes effect fun same => absurd same apart
  | pageMap takes effect _ _ _ =>
      have mapped := marked.taken_mapped sound takes effect fun same => absurd same apart
      have cleared := mapped.agrees (cleared_agrees sound takes effect)
      exact cleared.add_root (read_fill_zero _ _)
  | emptyPageMap _ effect _ _ _ =>
      exact MarkedTables.effect marked effect fun same => absurd same apart
  | pageZero _ same => exact MarkedTables.agrees marked (page_zero_agrees sound same)
  | spacePage _ _ _ takes effect =>
      exact marked.taken_mapped sound takes effect fun same => by rw [mapsAs same.symm]
  | copyUpper member => exact MarkedTables.agrees marked (copy_upper_agrees sound member)

theorem Marked.run {Allowed : Action → Prop} (marked : Marked config root level)
    (sound : Sound hole config) (steps : Steps hole Allowed config next)
    (apart : root ≠ config.root) (mapsAs : ∀ action, Allowed action → MapsAs root level action) :
    Marked next root level := by
  have keeps : ∀ before action after, Sound hole before →
      before.root = config.root ∧ Marked before root level → Allowed action →
      Step hole before action after → after.root = config.root ∧ Marked after root level := by
    intro before action after beforeSound here allowed step
    refine ⟨(root_stays step).1.trans here.1, ?_⟩
    exact here.2.step beforeSound step (by rw [here.1]; exact apart) (mapsAs action allowed)
  exact (sound.steps keeps steps ⟨rfl, marked⟩).2

/-- Nothing is owned by a root that is not in use. -/
theorem unused_root_marked (unused : root ∉ config.spaces) (apart : root ≠ config.root) :
    Marked config root level := by
  intro route table slot here _
  rcases here.live with kernel | member
  · exact absurd kernel apart
  · exact absurd member unused

end Steps

/-! ### Runs -/

section Runs

variable {hole : Hole} {usable : Nat → Prop} {machine after : Machine} {config next : Config}

/-- The tables of every process carry the flags of its level. -/
def Levelled (machine : Machine) (config : Config) : Prop :=
  ∀ process ∈ machine.processes, ∀ root, Linked config process.pageMap root →
    Marked config root process.level

theorem Levelled.perform (levelled : Levelled machine config)
    (holds : Holds hole usable machine config)
    (performed : Performed hole usable machine after config next) : Levelled after next := by
  intro process member root linked
  have sound := holds.orderly.sound
  have apart : root ≠ config.root := by
    intro same
    rw [same, ← root_run performed.steps] at linked
    exact performed.holds.orderly.sound.distinct linked.member
  have mapsAs : ∀ action, LevelAction next after.processes action →
      MapsAs root process.level action := by
    intro action allowed
    cases action with
    | spacePage at_ with_ address success =>
        intro same
        rw [← same] at linked
        exact (allowed process member linked).symm
    | _ => trivial
  have marked : Marked config root process.level := by
    rcases performed.origin process member with ⟨before, old, pointer, level⟩ | fresh
    · obtain ⟨found, there⟩ := holds.linked before old
      have later := linked_run sound performed.steps there
      rw [pointer] at later
      rw [linked_root_unique linked later, ← level]
      exact levelled before old found there
    · exact unused_root_marked (fresh root linked) apart
  exact marked.run sound performed.steps apart mapsAs

theorem Levelled.reach (levelled : Levelled machine config)
    (holds : Holds hole usable machine config) (run : Reachable hole machine after) :
    ∃ next, Holds hole usable after next ∧ Levelled after next := by
  induction run with
  | refl => exact ⟨config, holds, levelled⟩
  | tail _ last ih =>
      obtain ⟨middle, here, marked⟩ := ih
      obtain ⟨call, fits, ran⟩ := last
      obtain ⟨next, performed⟩ := here.perform fits ran
      exact ⟨next, performed.holds, marked.perform here performed⟩

end Runs

/-! ### The processor's view -/

section Access

variable {hole : Hole} {usable : Nat → Prop} {config : Config} {root : Nat} {level : ProcessLevel}
variable {address : U64}

theorem marked_present {entry : PageEntry} (marked : MarkedEntry level entry)
    (present : entry.p = true) : entry.rw = true ∧ entry.us = (level == .kernel) := by
  rcases marked with blank | ⟨_, writable, user⟩
  · rw [blank] at present
    exact absurd present (by simp [blankEntry])
  · exact ⟨writable, user⟩

/-- Every level on the way to a mapped page of a process carries its flags. -/
theorem marked_levels {leaf : PageEntry} (marked : Marked config root level)
    (member : root ∈ config.spaces)
    (lower : address.toNat < 2 ^ 47) (found : liveLeaf config.slots root address = some leaf)
    {route : List Slot} {slot : Slot} (along : Along (pathOf address) route slot) :
    ∃ table, walk childTable config.slots 0 root route = some table ∧
      (config.slots table slot).p = true ∧ (config.slots table slot).rw = true ∧
      (config.slots table slot).us = (level == .kernel) := by
  obtain ⟨last, walked, read, present⟩ := live_leaf_some.mp found
  have owned : Owned config.Owns root (pathOf address) := lower_owned _ _ lower
  obtain ⟨after, split⟩ := along
  rw [split] at owned
  rcases List.eq_nil_or_concat after with nothing | ⟨before, final, shape⟩
  · rw [nothing, path_of_split] at split
    obtain ⟨sameRoute, sameSlot⟩ := List.append_inj' split rfl
    rw [← sameRoute, ← (List.cons.inj sameSlot).1]
    rw [nothing, ← sameRoute, ← (List.cons.inj sameSlot).1] at owned
    have entry := marked _ last _ ⟨space_live member, owned.initial, walked⟩ owned
    rw [← read] at present
    exact ⟨last, walked, present, marked_present entry present⟩
  · rw [shape, List.concat_eq_append, path_of_split, ← List.cons_append, ← List.append_assoc] at split
    obtain ⟨sameRoute, _⟩ := List.append_inj' split rfl
    rw [sameRoute] at walked
    obtain ⟨table, here⟩ := walk_before walked
    have reached : config.Table root route table := ⟨space_live member, owned.initial, here⟩
    have further : ∃ child, walk childTable config.slots 0 root (route ++ [slot]) = some child := by
      rw [← List.singleton_append, ← List.append_assoc] at walked
      exact walk_before walked
    obtain ⟨child, there⟩ := further
    have link := child_table_frame (walk_snoc here there)
    have entry := marked route table slot reached owned.through
    have present : (config.slots table slot).p = true := by
      rcases entry with blank | ⟨present, _⟩
      · rw [show config.slots table slot = blankEntry from blank] at link
        exact absurd rfl link.2.2.1
      · exact present
    exact ⟨table, here, present, marked_present entry present⟩

theorem marked_writable {leaf : PageEntry} (marked : Marked config root level)
    (member : root ∈ config.spaces) (lower : address.toNat < 2 ^ 47)
    (found : liveLeaf config.slots root address = some leaf) :
    WritableTo config.slots root address leaf.frame := by
  refine ⟨?_, leaf, found, rfl⟩
  intro route slot along
  obtain ⟨table, walked, present, writable, _⟩ := marked_levels marked member lower found along
  exact ⟨table, walked, present, writable⟩

/-- A page of a process admits user mode exactly if the level is `KERNEL`. -/
theorem marked_user_accessible {leaf : PageEntry} (marked : Marked config root level)
    (member : root ∈ config.spaces) (lower : address.toNat < 2 ^ 47)
    (found : liveLeaf config.slots root address = some leaf) :
    userAccessible config.mem root address = (level == .kernel) := by
  obtain ⟨pdp, pd, pt, atPdp, atPd, atPt, pdpSmall, pdSmall, _, ⟨pml4p, _, pml4us⟩,
    ⟨pdpp, _, pdpus⟩, ⟨pdep, _, pdeus⟩, ptep, _, pteus⟩ :=
    four_levels (fun entry => entry.p = true ∧ entry.rw = true ∧ entry.us = (level == .kernel))
      fun _ _ along => marked_levels marked member lower found along
  unfold userAccessible
  dsimp only
  rw [atPdp, atPd, atPt]
  simp only [pml4p, pml4us, pdpp, pdpus, pdpSmall, pdep, pdeus, pdSmall, ptep, pteus, Bool.true_and,
    Bool.and_true, Bool.false_or, Bool.and_self]

end Access

/-- The address of the lower half is mapped in the process's page map. -/
def Mapped (kernel : Kernel) (process : ProcessContext) (address : U64) : Prop :=
  address.toNat < 2 ^ 47 ∧
    (hardwareWalk kernel.phys.mem (pageMapRoot kernel process) address).isSome

/-- Mapped pages admit user mode exactly for processes of level `USER`. -/
def LevelRespected (kernel : Kernel) (process : ProcessContext) : Prop :=
  ∀ address, Mapped kernel process address →
    (userAccessible kernel.phys.mem (pageMapRoot kernel process) address = true ↔
      process.level = .user)

section Claim

variable {hole : Hole} {usable : Nat → Prop} {machine : Machine} {config : Config}

theorem mapped_iff_leaf {process : ProcessContext} {root : Nat} {address : U64}
    (sound : Sound hole config) (linked : Linked config process.pageMap root) :
    Mapped config.kernel process address ↔
      address.toNat < 2 ^ 47 ∧ ∃ leaf, liveLeaf config.slots root address = some leaf := by
  unfold Mapped
  rw [page_map_root sound linked]
  apply and_congr_right
  intro lower
  rcases walkers_of_leaf (space_live linked.member) (lower_owned _ _ lower) sound.tidy
    (sound.lower root linked.member address lower) with ⟨none, missing, _⟩ | ⟨leaf, _, found, walked, _⟩
  · rw [missing, none]
    simp
  · rw [walked, found]
    simp

theorem mapped_user_accessible {process : ProcessContext} {address : U64}
    (holds : Holds hole usable machine config) (levelled : Levelled machine config)
    (member : process ∈ machine.processes) (mapped : Mapped machine.kernel process address) :
    userAccessible machine.kernel.phys.mem (pageMapRoot machine.kernel process) address =
      (process.level == .kernel) := by
  have sound := holds.orderly.sound
  obtain ⟨root, linked⟩ := holds.linked process member
  rw [← holds.kernel] at mapped
  obtain ⟨lower, leaf, found⟩ := (mapped_iff_leaf sound linked).mp mapped
  rw [← holds.kernel, page_map_root sound linked]
  exact marked_user_accessible (levelled process member root linked) linked.member lower found

theorem boot_levelled {kernel booted : Kernel} {blocks : List Span}
    (boot : Boot hole kernel blocks) (heap : initializeHeap kernel = some booted)
    (run : Reachable hole ⟨booted, [], []⟩ machine) :
    ∃ config, Holds hole (FreeAt blocks) machine config ∧ Levelled machine config := by
  have started : Levelled ⟨booted, [], []⟩ (bootConfig booted blocks) :=
    fun _ member => absurd member List.not_mem_nil
  exact started.reach (boot_holds boot heap) run

end Claim

/-- A process of level `USER` may not use its own stack. -/
theorem user_stack_refused :
    ∃ machine, Reachable largeHole ⟨largeHeap, [], []⟩ machine ∧
      machine.processes = [largeProcess .user] ∧
      Mapped machine.kernel (largeProcess .user) 0x7ff00000 ∧
      userAccessible machine.kernel.phys.mem (pageMapRoot machine.kernel (largeProcess .user))
        0x7ff00000 = false ∧
      ¬LevelRespected machine.kernel (largeProcess .user) := by
  obtain ⟨root, next, performed, sound, linked, stack⟩ := large_creates .user
  have run := Relation.ReflTransGen.single performed
  have start : (0x7ff00000 : U64).toNat = 0x7ff00000 := rfl
  have mapped : Mapped next.kernel (largeProcess .user) 0x7ff00000 :=
    (mapped_iff_leaf sound linked).mpr ⟨by decide, Option.isSome_iff_exists.mp
      (stack 0x7ff00000 (Or.inl (by rw [start]; omega)))⟩
  obtain ⟨config, holds, levelled⟩ := boot_levelled large_boot large_heap_initialized run
  have refused := mapped_user_accessible holds levelled List.mem_cons_self mapped
  refine ⟨_, run, rfl, mapped, refused, ?_⟩
  intro respected
  have wanted := (respected _ mapped).mpr rfl
  exact absurd (refused.symm.trans wanted) (by decide)

end KittyOs.UserPages
