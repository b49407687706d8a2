import KittyOs.MemoryRuns

/-!
# One role for each frame

A frame of usable memory is free, a page-table page, a page of the kernel's heap or
of an `mmap` window, or a page of one process. The roles are read off the machine
the way the code reads them: the free list by its nodes, tables by walking the page
maps, pages by `virtual_to_physical`.
-/

namespace KittyOs.FrameRoles

open KittyOs.Lib.ByteMemory KittyOs.Lib.SpanPartition KittyOs.Lib.RadixForest
open KittyOs.MachineWord KittyOs.PageTable KittyOs.PhysicalFreelist
open KittyOs.VirtualModel KittyOs.PageForest KittyOs.VirtualMapping KittyOs.MapEffect
open KittyOs.Translation KittyOs.KernelModel KittyOs.HeapBounds KittyOs.ProcessModel
open KittyOs.AddressSpaces KittyOs.SharedHalf KittyOs.FramePlaces
open KittyOs.BootState KittyOs.MemoryRuns

set_option autoImplicit false

/-- The top table behind a process's `page_map`, as `set_page_map` finds it. -/
def pageMapRoot (kernel : Kernel) (process : ProcessContext) : Nat :=
  (virtualToPhysical kernel.phys.mem kernel.kernelPml4 process.pageMap).2.toNat

/-- `virtual_to_physical` succeeds on `address` with a result in the page `frame`. -/
def Translates (mem : Memory) (root : Nat) (address : U64) (frame : Nat) : Prop :=
  (virtualToPhysical mem root address).1 = true ∧
    (virtualToPhysical mem root address).2.toNat / 4096 * 4096 = frame

/-- The address spaces of a machine, processes by their position. -/
inductive Space where
  | kernel
  | process (handle : Nat)
deriving DecidableEq, Repr

/-- The places calls map pages at: kernel addresses of the hole and lower halves. -/
def Maps (hole : Hole) (machine : Machine) (space : Space) (address : U64) (frame : Nat) : Prop :=
  match space with
  | .kernel => hole.Contains address ∧
      Translates machine.kernel.phys.mem machine.kernel.kernelPml4 address frame
  | .process handle => ∃ process, machine.processes[handle]? = some process ∧
      address.toNat < 2 ^ 47 ∧
      Translates machine.kernel.phys.mem (pageMapRoot machine.kernel process) address frame

/-- Addresses below the break and in `mmap` windows. -/
def KernelPage (machine : Machine) (address : U64) : Prop :=
  (machine.kernel.heapStart.toNat ≤ address.toNat ∧
      address.toNat < machine.kernel.heapEnd.toNat) ∨
    ∃ grant ∈ machine.granted, grant.Covers address.toNat

inductive Role where
  | freeBlock
  | pageTable
  | kernelPage
  | processPage
deriving DecidableEq, Repr

def HasRole (machine : Machine) (frame : Nat) : Role → Prop
  | .freeBlock => ∃ blocks, FreeList machine.kernel.phys blocks ∧ FreeAt blocks frame
  | .pageTable => ∃ root route, (root = machine.kernel.kernelPml4 ∨
        ∃ process ∈ machine.processes, root = pageMapRoot machine.kernel process) ∧
      walk childTable (readEntry machine.kernel.phys.mem) 0 root route = some frame
  | .kernelPage => ∃ address, KernelPage machine address ∧
      Translates machine.kernel.phys.mem machine.kernel.kernelPml4 address frame
  | .processPage => ∃ process ∈ machine.processes, ∃ address : U64, address.toNat < 2 ^ 47 ∧
      Translates machine.kernel.phys.mem (pageMapRoot machine.kernel process) address frame

/-! ### Reading the roles off a configuration -/

section Roles

variable {hole : Hole} {usable : Nat → Prop} {machine after : Machine} {config next : Config}

theorem translate_to_nat (leaf : PageEntry) (address : U64) :
    (translate (some leaf) (splitVirtualAddressToStructure address).offset).2.toNat =
      leaf.frame + address.toNat % 4096 := by
  have read : (translate (some leaf) (splitVirtualAddressToStructure address).offset).2 =
      (leaf.ppn.setWidth 64 <<< 12) |||
        (splitVirtualAddressToStructure address).offset.setWidth 64 := rfl
  rw [read, page_and_offset, split_offset_to_nat, PageEntry.frame]

/-- At a place `virtual_to_physical` gives the page of the leaf. -/
theorem translates_iff {root frame : Nat} {address : U64} (sound : Sound hole config)
    (place : Place hole config.root config.spaces root address) :
    Translates config.mem root address frame ↔
      ∃ leaf, liveLeaf config.slots root address = some leaf ∧ leaf.frame = frame := by
  have small : SmallPages config.slots root address := by
    rcases place with ⟨kernel, inside⟩ | ⟨member, lower⟩
    · rw [kernel]
      exact sound.small address inside
    · exact sound.lower root member address lower
  unfold Translates
  rcases walkers_of_leaf place.live place.owned sound.tidy small with
    ⟨missing, _, failed, _⟩ | ⟨leaf, _, found, _, translated, _⟩
  · rw [failed, missing]
    simp
  · rw [translated place.extended.canonical, found, translate_to_nat]
    have aligned := frame_aligned leaf
    have page : (leaf.frame + address.toNat % 4096) / 4096 * 4096 = leaf.frame := by omega
    rw [page]
    constructor
    · rintro ⟨_, same⟩
      exact ⟨leaf, rfl, same⟩
    · rintro ⟨other, same, there⟩
      rw [Option.some.inj same]
      exact ⟨rfl, there⟩

theorem root_of_leaf {process : ProcessContext} {leaf : PageEntry} (sound : Sound hole config)
    (inside : hole.Contains process.pageMap) (aligned : process.pageMap.toNat % 4096 = 0)
    (found : liveLeaf config.slots config.root process.pageMap = some leaf) :
    pageMapRoot config.kernel process = leaf.frame := by
  rcases walkers_of_leaf (kernel_live config) (kernel_owns _ _) sound.tidy
    (sound.small _ inside) with ⟨missing, _⟩ | ⟨entry, _, same, _, translated, _⟩
  · rw [missing] at found
    exact absurd found (by simp)
  · rw [found, Option.some.injEq] at same
    rw [pageMapRoot, translated inside.extended.canonical, translate_to_nat, ← same, aligned,
      Nat.add_zero]

theorem page_map_root {process : ProcessContext} {root : Nat} (sound : Sound hole config)
    (linked : Linked config process.pageMap root) : pageMapRoot config.kernel process = root := by
  obtain ⟨leaf, found, here⟩ := linked.points.writable.leaf
  rw [root_of_leaf sound (linked.points.contained sound) linked.points.aligned found, here]

/-- A walk through the upper half of a process goes through the kernel's tables. -/
theorem space_walk_reached {root table : Nat} {route : List Slot}
    (orderly : Orderly hole usable config) (live : config.Root root)
    (walked : walk childTable config.slots 0 root route = some table) :
    ∃ start, config.Table start route table ∧ (start = root ∨ start = config.root) := by
  cases route with
  | nil => exact ⟨root, ⟨live, trivial, walked⟩, Or.inl rfl⟩
  | cons slot rest =>
      by_cases owned : config.Owns root slot
      · exact ⟨root, ⟨live, owned, walked⟩, Or.inl rfl⟩
      · refine ⟨config.root, ⟨kernel_live config, kernel_owns _ _, ?_⟩, Or.inr rfl⟩
        have member : root ∈ config.spaces := live.resolve_left fun same => owned (Or.inl same)
        have upper : 256 ≤ slot.toNat := by
          by_contra lower
          exact owned (Or.inr (by omega))
        obtain ⟨child, linked, walkedOn⟩ := Option.bind_eq_some_iff.mp walked
        obtain ⟨same, depth, occupied, small⟩ := child_table_frame linked
        have shared := (orderly.shares root member slot upper).2.resolve_left occupied
        have kernelLinked : childTable 0 (config.slots config.root slot) = some child := by
          rw [child_table_some depth (by rw [← shared]; exact occupied) (by simp), same,
            PageEntry.frame, PageEntry.frame, shared]
        rw [walk_linked kernelLinked]
        exact walkedOn

theorem table_of_role {frame : Nat} (holds : Holds hole usable machine config)
    (role : HasRole machine frame .pageTable) : ∃ start route, config.Table start route frame := by
  obtain ⟨root, route, there, walked⟩ := role
  rw [← holds.kernel] at there walked
  have live : config.Root root := by
    rcases there with kernel | ⟨process, member, same⟩
    · exact Or.inl kernel
    · obtain ⟨found, linked⟩ := holds.linked process member
      rw [same, page_map_root holds.orderly.sound linked]
      exact Or.inr linked.member
  obtain ⟨start, reached, _⟩ := space_walk_reached holds.orderly live walked
  exact ⟨start, route, reached⟩

theorem free_of_role {frame : Nat} (holds : Holds hole usable machine config)
    (role : HasRole machine frame .freeBlock) : FreeAt config.blocks frame := by
  obtain ⟨blocks, list, free⟩ := role
  rw [← holds.kernel] at list
  rw [free_chain_unique holds.orderly.sound.tables.list.chain list.chain]
  exact free

theorem kernel_page_given {address : U64} (holds : Holds hole usable machine config)
    (page : KernelPage machine address) : Given hole config address := by
  obtain ⟨lower, start, bounds, reserved⟩ := holds.orderly.sound.heap
  obtain ⟨covered, last⟩ := holds.orderly.sound.range
  have bounded := hole.bounded
  rw [KernelPage, ← holds.kernel] at page
  rcases page with heap | ⟨grant, member, covers⟩
  · refine ⟨⟨by omega, by omega⟩, by omega, ?_⟩
    unfold Config.BeyondBreak
    omega
  · have bound := holds.granted grant member
    unfold Span.Covers at covers
    refine ⟨⟨by omega, by omega⟩, by omega, ?_⟩
    unfold Config.BeyondBreak
    omega

/-- A leaf the machine translates at one of its places. -/
theorem kernel_leaf {frame : Nat} {address : U64} (holds : Holds hole usable machine config)
    (inside : hole.Contains address)
    (translates : Translates machine.kernel.phys.mem machine.kernel.kernelPml4 address frame) :
    Place hole config.root config.spaces config.root address ∧
      ∃ leaf, liveLeaf config.slots config.root address = some leaf ∧ leaf.frame = frame := by
  have place : Place hole config.root config.spaces config.root address := Or.inl ⟨rfl, inside⟩
  rw [← holds.kernel] at translates
  exact ⟨place, (translates_iff holds.orderly.sound place).mp translates⟩

theorem process_leaf {frame : Nat} {address : U64} {process : ProcessContext}
    (holds : Holds hole usable machine config) (member : process ∈ machine.processes)
    (lower : address.toNat < 2 ^ 47)
    (translates : Translates machine.kernel.phys.mem (pageMapRoot machine.kernel process) address
      frame) :
    ∃ root, Linked config process.pageMap root ∧
      Place hole config.root config.spaces root address ∧
      ∃ leaf, liveLeaf config.slots root address = some leaf ∧ leaf.frame = frame := by
  obtain ⟨root, linked⟩ := holds.linked process member
  have place : Place hole config.root config.spaces root address := Or.inr ⟨linked.member, lower⟩
  rw [← holds.kernel, page_map_root holds.orderly.sound linked] at translates
  exact ⟨root, linked, place, (translates_iff holds.orderly.sound place).mp translates⟩

/-- A frame of a heap or window page is not the top table of a process. -/
theorem kernel_page_not_top {address : U64} {leaf : PageEntry} {root : Nat}
    (holds : Holds hole usable machine config) (page : KernelPage machine address)
    (found : liveLeaf config.slots config.root address = some leaf)
    (member : root ∈ config.spaces) : leaf.frame ≠ root := by
  intro same
  have sound := holds.orderly.sound
  have given := kernel_page_given holds page
  obtain ⟨pointer, points, clear⟩ := holds.pointers root member
  obtain ⟨entry, pointed, there⟩ := points.writable.leaf
  have inside := points.contained sound
  have nonzero := sound.nonzero root (Or.inr member)
  have onlyHere := holds.orderly.settled.single config.root pointer entry (Or.inl ⟨rfl, inside⟩)
    pointed (by rw [there]; exact nonzero) config.root address leaf (Or.inl ⟨rfl, given.inside⟩) found
    (same.trans there.symm)
  have samePage := higher_page given.inside inside onlyHere.2
  have above := points.above
  have aligned := points.aligned
  rw [KernelPage, ← holds.kernel] at page
  obtain ⟨_, _, bounds, _⟩ := sound.heap
  rcases page with heap | ⟨grant, granted, covers⟩
  · omega
  · have apart := clear grant granted
    have bound := holds.granted grant granted
    unfold Clear at apart
    unfold Span.Covers at covers
    omega

section Exclusion

variable {frame : Nat}

/-- A leaf of the frame at a place of the configuration. -/
structure UsedAt (hole : Hole) (config : Config) (frame root : Nat) (address : U64)
    (leaf : PageEntry) : Prop where
  place : Place hole config.root config.spaces root address
  found : liveLeaf config.slots root address = some leaf
  same : leaf.frame = frame

theorem kernel_role_used (holds : Holds hole usable machine config)
    (role : HasRole machine frame .kernelPage) :
    ∃ address leaf, KernelPage machine address ∧
      UsedAt hole config frame config.root address leaf := by
  obtain ⟨address, page, translates⟩ := role
  obtain ⟨place, leaf, found, same⟩ :=
    kernel_leaf holds (kernel_page_given holds page).inside translates
  exact ⟨address, leaf, page, place, found, same⟩

theorem process_role_used (holds : Holds hole usable machine config)
    (role : HasRole machine frame .processPage) :
    ∃ root address leaf, root ∈ config.spaces ∧ UsedAt hole config frame root address leaf := by
  obtain ⟨process, member, address, lower, translates⟩ := role
  obtain ⟨root, linked, place, leaf, found, same⟩ := process_leaf holds member lower translates
  exact ⟨root, address, leaf, linked.member, place, found, same⟩

theorem used_not_free {root : Nat} {address : U64} {leaf : PageEntry}
    (holds : Holds hole usable machine config) (nonzero : frame ≠ 0)
    (used : UsedAt hole config frame root address leaf) : ¬HasRole machine frame .freeBlock := by
  intro free
  obtain ⟨place, found, same⟩ := used
  have within : Within leaf.frame 4096 frame := by
    rw [same]
    exact ⟨by omega, by omega⟩
  have taken := holds.orderly.settled.frame root address leaf place found
    (by rw [same]; exact nonzero) frame within
  exact taken.2 (free_of_role holds free)

theorem kernel_not_process (holds : Holds hole usable machine config) (nonzero : frame ≠ 0)
    (kernel : HasRole machine frame .kernelPage) : ¬HasRole machine frame .processPage := by
  intro process
  obtain ⟨address, leaf, _, place, found, same⟩ := kernel_role_used holds kernel
  obtain ⟨root, other, entry, member, otherPlace, otherFound, otherSame⟩ :=
    process_role_used holds process
  have onlyHere := holds.orderly.settled.single config.root address leaf place found
    (by rw [same]; exact nonzero) root other entry otherPlace otherFound
    (otherSame.trans same.symm)
  rw [onlyHere.1] at member
  exact holds.orderly.sound.distinct member

theorem table_not_free (holds : Holds hole usable machine config)
    (table : HasRole machine frame .pageTable) : ¬HasRole machine frame .freeBlock := by
  intro free
  obtain ⟨start, route, reached⟩ := table_of_role holds table
  exact holds.orderly.sound.off_list reached ⟨by omega, by omega⟩ (free_of_role holds free)

theorem table_not_kernel (holds : Holds hole usable machine config)
    (table : HasRole machine frame .pageTable) : ¬HasRole machine frame .kernelPage := by
  intro kernel
  obtain ⟨start, route, reached⟩ := table_of_role holds table
  obtain ⟨address, leaf, page, place, found, same⟩ := kernel_role_used holds kernel
  rw [← same] at reached
  obtain ⟨_, empty, member⟩ :=
    holds.orderly.settled.table config.root address leaf place found start route reached
  rw [empty] at reached
  exact kernel_page_not_top holds page found member (Option.some.inj reached.walked).symm

theorem table_not_process (holds : Holds hole usable machine config)
    (table : HasRole machine frame .pageTable) : ¬HasRole machine frame .processPage := by
  intro process
  obtain ⟨start, route, reached⟩ := table_of_role holds table
  obtain ⟨root, address, leaf, member, place, found, same⟩ := process_role_used holds process
  rw [← same] at reached
  obtain ⟨kernel, _, _⟩ :=
    holds.orderly.settled.table root address leaf place found start route reached
  rw [kernel] at member
  exact holds.orderly.sound.distinct member

theorem kernel_not_free (holds : Holds hole usable machine config) (nonzero : frame ≠ 0)
    (kernel : HasRole machine frame .kernelPage) : ¬HasRole machine frame .freeBlock := by
  obtain ⟨_, _, _, used⟩ := kernel_role_used holds kernel
  exact used_not_free holds nonzero used

theorem process_not_free (holds : Holds hole usable machine config) (nonzero : frame ≠ 0)
    (process : HasRole machine frame .processPage) : ¬HasRole machine frame .freeBlock := by
  obtain ⟨_, _, _, _, used⟩ := process_role_used holds process
  exact used_not_free holds nonzero used

/-- Two different roles exclude each other. -/
theorem role_unique (holds : Holds hole usable machine config) (nonzero : frame ≠ 0)
    {left right : Role} (first : HasRole machine frame left) (second : HasRole machine frame right) :
    left = right := by
  cases left <;> cases right <;> first | rfl | exfalso
  · exact table_not_free holds second first
  · exact kernel_not_free holds nonzero second first
  · exact process_not_free holds nonzero second first
  · exact table_not_free holds first second
  · exact table_not_kernel holds first second
  · exact table_not_process holds first second
  · exact kernel_not_free holds nonzero first second
  · exact table_not_kernel holds second first
  · exact kernel_not_process holds nonzero first second
  · exact process_not_free holds nonzero first second
  · exact table_not_process holds second first
  · exact kernel_not_process holds nonzero second first

end Exclusion

/-- The root an address space of the machine has in a configuration. -/
def SpaceRoot (machine : Machine) (config : Config) (root : Nat) : Space → Prop
  | .kernel => root = config.root
  | .process handle => ∃ process, machine.processes[handle]? = some process ∧
      Linked config process.pageMap root

/-- Different processes have different top tables. -/
theorem space_root_unique {root : Nat} {space other : Space}
    (holds : Holds hole usable machine config) (first : SpaceRoot machine config root space)
    (second : SpaceRoot machine config root other) : space = other := by
  have sound := holds.orderly.sound
  have kernelApart : ∀ {pointer : U64}, root = config.root → ¬Linked config pointer root := by
    intro pointer same linked
    have member := linked.member
    rw [same] at member
    exact sound.distinct member
  cases space with
  | kernel =>
      cases other with
      | kernel => rfl
      | process handle =>
          obtain ⟨_, _, linked⟩ := second
          exact absurd linked (kernelApart first)
  | process handle =>
      obtain ⟨process, here, linked⟩ := first
      cases other with
      | kernel => exact absurd linked (kernelApart second)
      | process target =>
          obtain ⟨otherProcess, there, otherLinked⟩ := second
          have pointer := linked_pointer_unique holds.orderly linked otherLinked
          rw [holds.same_handle here there pointer]

theorem maps_leaf {space : Space} {address : U64} {frame : Nat}
    (holds : Holds hole usable machine config) (maps : Maps hole machine space address frame) :
    ∃ root leaf, SpaceRoot machine config root space ∧
      Place hole config.root config.spaces root address ∧
      liveLeaf config.slots root address = some leaf ∧ leaf.frame = frame := by
  cases space with
  | kernel =>
      obtain ⟨place, leaf, found, same⟩ := kernel_leaf holds maps.1 maps.2
      exact ⟨config.root, leaf, rfl, place, found, same⟩
  | process handle =>
      obtain ⟨process, here, lower, translates⟩ := maps
      obtain ⟨root, linked, place, leaf, found, same⟩ :=
        process_leaf holds (List.mem_of_getElem? here) lower translates
      exact ⟨root, leaf, ⟨process, here, linked⟩, place, found, same⟩

/-- A frame is mapped at one place at most. -/
theorem maps_unique {space other : Space} {address target : U64} {frame : Nat}
    (holds : Holds hole usable machine config) (nonzero : frame ≠ 0)
    (first : Maps hole machine space address frame)
    (second : Maps hole machine other target frame) :
    space = other ∧ address.toNat / 4096 = target.toNat / 4096 := by
  obtain ⟨root, leaf, spaceRoot, place, found, same⟩ := maps_leaf holds first
  obtain ⟨otherRoot, entry, otherSpaceRoot, otherPlace, otherFound, otherSame⟩ :=
    maps_leaf holds second
  obtain ⟨sameRoot, path⟩ := holds.orderly.settled.single root address leaf place found
    (by rw [same]; exact nonzero) otherRoot target entry otherPlace otherFound
    (otherSame.trans same.symm)
  rw [sameRoot] at otherSpaceRoot
  exact ⟨space_root_unique holds spaceRoot otherSpaceRoot,
    page_of_path place.extended otherPlace.extended path.symm⟩

/-- A heap or window page keeps its frame. -/
theorem kernel_page_kept {address : U64} {frame : Nat} (holds : Holds hole usable machine config)
    (run : Reachable hole machine after) (page : KernelPage machine address)
    (translates : Translates machine.kernel.phys.mem machine.kernel.kernelPml4 address frame) :
    Translates after.kernel.phys.mem after.kernel.kernelPml4 address frame := by
  have given := kernel_page_given holds page
  obtain ⟨_, leaf, found, same⟩ := kernel_leaf holds given.inside translates
  obtain ⟨next, steps, later⟩ := holds.reach run
  obtain ⟨still, unchanged⟩ := given.run holds.orderly.sound steps
  rw [← later.kernel]
  have place : Place hole next.root next.spaces next.root address := Or.inl ⟨rfl, still.inside⟩
  exact (translates_iff later.orderly.sound place).mpr ⟨leaf, unchanged.trans found, same⟩

/-- In every run from boot each usable frame has one role and one place, and heap and
window pages stay where they are. -/
theorem usable_frames_have_one_role {kernel booted : Kernel} {blocks : List Span}
    (boot : Boot hole kernel blocks) (heap : initializeHeap kernel = some booted)
    (run : Reachable hole ⟨booted, [], []⟩ machine) :
    (∀ frame left right, FreeAt blocks frame → HasRole machine frame left →
        HasRole machine frame right → left = right) ∧
      (∀ frame space address other target, FreeAt blocks frame →
        Maps hole machine space address frame → Maps hole machine other target frame →
          space = other ∧ address.toNat / 4096 = target.toNat / 4096) ∧
      ∀ later address frame, Reachable hole machine later → KernelPage machine address →
        Translates machine.kernel.phys.mem machine.kernel.kernelPml4 address frame →
          Translates later.kernel.phys.mem later.kernel.kernelPml4 address frame := by
  obtain ⟨config, _, holds⟩ := (boot_holds boot heap).reach run
  have nonzero : ∀ frame, FreeAt blocks frame → frame ≠ 0 := by
    intro frame free
    have above := free_above boot.tables.list free
    omega
  refine ⟨?_, ?_, ?_⟩
  · intro frame left right free first second
    exact role_unique holds (nonzero frame free) first second
  · intro frame space address other target free first second
    exact maps_unique holds (nonzero frame free) first second
  · intro later address frame further page translates
    exact kernel_page_kept holds further page translates

end Roles

/-- A process created on 128 GiB. -/
theorem large_process_frames_have_one_role :
    ∃ machine, Reachable largeHole ⟨largeHeap, [], []⟩ machine ∧
      machine.processes = [largeProcess .user] ∧
      ∀ frame left right, FreeAt [⟨0x2000, 0x2000000000⟩] frame → HasRole machine frame left →
        HasRole machine frame right → left = right := by
  obtain ⟨_, next, performed, _⟩ := large_creates .user
  have run := Relation.ReflTransGen.single performed
  exact ⟨_, run, rfl, (usable_frames_have_one_role large_boot large_heap_initialized run).1⟩

end KittyOs.FrameRoles
