import KittyOs.ProcessCalls

/-!
# Where frames are mapped

A place is a kernel address of the hole or a lower-half address of a process. The
invariant says that a page mapped at a place came from usable memory, is no longer
free, is mapped at no other place and is not a page-table page, except that each
top table of a process is mapped in the kernel. Every step keeps it.
-/

namespace KittyOs.FramePlaces

open KittyOs.Lib.ByteMemory KittyOs.Lib.SpanPartition KittyOs.Lib.RadixForest
open KittyOs.MachineWord KittyOs.PageTable KittyOs.PhysicalModel KittyOs.PhysicalFreelist
open KittyOs.VirtualModel KittyOs.PageForest KittyOs.MapEffect KittyOs.Translation
open KittyOs.ProcessModel KittyOs.AddressSpaces
open KittyOs.SharedHalf KittyOs.ProcessCalls

set_option autoImplicit false

def Place (hole : Hole) (kernelRoot : Nat) (spaces : List Nat) (root : Nat) (address : U64) : Prop :=
  (root = kernelRoot ∧ hole.Contains address) ∨
    (root ∈ spaces ∧ address.toNat < 2 ^ 47)

structure Placed (hole : Hole) (usable : Nat → Prop) (kernelRoot : Nat) (spaces : List Nat)
    (phys : PhysicalState) (blocks : List Span) : Prop where
  free : ∀ byte, FreeAt blocks byte → usable byte
  frame : ∀ root address leaf, Place hole kernelRoot spaces root address →
    liveLeaf (readEntry phys.mem) root address = some leaf → leaf.frame ≠ 0 →
      ∀ byte, Within leaf.frame 4096 byte → usable byte ∧ ¬FreeAt blocks byte
  table : ∀ root address leaf, Place hole kernelRoot spaces root address →
    liveLeaf (readEntry phys.mem) root address = some leaf → ∀ start route,
      Reached (liveRoots kernelRoot spaces) (ownedSlots kernelRoot) phys start route leaf.frame →
        root = kernelRoot ∧ route = [] ∧ start ∈ spaces
  single : ∀ root address leaf, Place hole kernelRoot spaces root address →
    liveLeaf (readEntry phys.mem) root address = some leaf → leaf.frame ≠ 0 →
      ∀ other target entry, Place hole kernelRoot spaces other target →
        liveLeaf (readEntry phys.mem) other target = some entry → entry.frame = leaf.frame →
          other = root ∧ pathOf target = pathOf address

  nonzero : ∀ root ∈ spaces, ∀ address : U64, address.toNat < 2 ^ 47 → ∀ leaf,
    liveLeaf (readEntry phys.mem) root address = some leaf → leaf.frame ≠ 0

/-- A page of usable memory that is not in use. -/
structure Fresh (hole : Hole) (usable : Nat → Prop) (kernelRoot : Nat) (spaces : List Nat)
    (phys : PhysicalState) (blocks : List Span) (page : Nat) : Prop where
  nonzero : page ≠ 0
  bytes : ∀ byte, Within page 4096 byte → usable byte ∧ ¬FreeAt blocks byte
  table : ∀ start route,
    ¬Reached (liveRoots kernelRoot spaces) (ownedSlots kernelRoot) phys start route page
  leaf : ∀ root address leaf, Place hole kernelRoot spaces root address →
    liveLeaf (readEntry phys.mem) root address = some leaf → leaf.frame ≠ page

section Places

variable {hole : Hole} {usable : Nat → Prop} {kernelRoot : Nat} {spaces : List Nat}
variable {config next : Config}
variable {state phys other : PhysicalState} {blocks between remaining : List Span}

theorem Place.live {root : Nat} {address : U64} (place : Place hole kernelRoot spaces root address) :
    liveRoots kernelRoot spaces root :=
  place.imp And.left And.left

theorem Place.owned {root : Nat} {address : U64} (place : Place hole kernelRoot spaces root address) :
    ownedSlots kernelRoot root (splitVirtualAddressToStructure address).pml4 := by
  rcases place with ⟨kernel, _⟩ | ⟨_, lower⟩
  · exact Or.inl kernel
  · exact lower_owned _ _ lower

theorem Place.extended {root : Nat} {address : U64} (place : Place hole kernelRoot spaces root address) :
    SignExtended address := by
  rcases place with ⟨_, inside⟩ | ⟨_, lower⟩
  · exact inside.extended
  · exact Or.inl lower

theorem Placed.agrees (placed : Placed hole usable kernelRoot spaces state blocks)
    (agrees : Agrees (liveRoots kernelRoot spaces) (ownedSlots kernelRoot) state other)
    (taken : ∀ byte, FreeAt remaining byte → FreeAt blocks byte) :
    Placed hole usable kernelRoot spaces other remaining where
  free := fun byte member => placed.free byte (taken byte member)
  frame := by
    intro root address leaf place found occupied byte inside
    rw [agrees.leaf place.live place.owned] at found
    obtain ⟨here, used⟩ := placed.frame root address leaf place found occupied byte inside
    exact ⟨here, fun member => used (taken byte member)⟩
  table := by
    intro root address leaf place found start route reached
    rw [agrees.leaf place.live place.owned] at found
    exact placed.table root address leaf place found start route (agrees.reached.mp reached)
  single := by
    intro root address leaf place found occupied otherRoot target entry otherPlace otherFound same
    rw [agrees.leaf place.live place.owned] at found
    rw [agrees.leaf otherPlace.live otherPlace.owned] at otherFound
    exact placed.single root address leaf place found occupied otherRoot target entry otherPlace
      otherFound same
  nonzero := by
    intro root member address lower leaf found
    have place : Place hole kernelRoot spaces root address := Or.inr ⟨member, lower⟩
    rw [agrees.leaf place.live place.owned] at found
    exact placed.nonzero root member address lower leaf found

/-- A page just taken from the free list is fresh. -/
theorem Placed.takes {page : Nat} (placed : Placed hole usable kernelRoot spaces state blocks)
    (tables : TableForest (liveRoots kernelRoot spaces) (ownedSlots kernelRoot) state blocks)
    (takes : TakesPage state blocks page other remaining) :
    Placed hole usable kernelRoot spaces other remaining ∧
      Fresh hole usable kernelRoot spaces other remaining page := by
  have agrees := takes_agrees tables takes
  have first : Within page 4096 page := ⟨by omega, by omega⟩
  have above := takes.above
  refine ⟨placed.agrees agrees fun byte member => ((takes.left byte).mp member).1, by omega, ?_, ?_,
    ?_⟩
  · intro byte inside
    exact ⟨placed.free byte (takes.inside byte inside),
      fun member => ((takes.left byte).mp member).2 inside⟩
  · intro start route reached
    exact tables.offList start route page (agrees.reached.mp reached) page first
      (takes.inside page first)
  · intro root address leaf place found same
    rw [agrees.leaf place.live place.owned] at found
    have used := placed.frame root address leaf place found (by omega) page
      (by rw [same]; exact first)
    exact used.2 (takes.inside page first)

/-- A leaf after a mapping is the new one or was there before. -/
theorem leaf_cases {flags : MapFlags} {page root target : Nat} {address placeAddress : U64}
    {success : Bool} {leaf : PageEntry}
    (effect : Effect (liveRoots kernelRoot spaces) (ownedSlots kernelRoot) flags
      (BitVec.ofNat 64 page) target address state between
      success phys remaining) (mapped : flags.isPresent = true)
    (aligned : page % 4096 = 0) (bound : page + 4096 ≤ 2 ^ 52)
    (place : Place hole kernelRoot spaces root placeAddress)
    (found : liveLeaf (readEntry phys.mem) root placeAddress = some leaf) :
    (root = target ∧ pathOf placeAddress = pathOf address ∧ leaf.frame = page) ∨
      liveLeaf (readEntry state.mem) root placeAddress = some leaf := by
  by_cases here : success = true ∧ root = target ∧ pathOf placeAddress = pathOf address
  · obtain ⟨worked, sameRoot, path⟩ := here
    rw [worked] at effect
    obtain ⟨entry, new⟩ := effect.leaf_here mapped
    rw [sameRoot, live_leaf_path path, new] at found
    left
    rw [← Option.some.inj found]
    exact ⟨sameRoot, path, set_page_frame entry aligned bound⟩
  · right
    rw [← effect.leaf_elsewhere place.live place.owned here]
    exact found

/-- Mapping a fresh page at one place. -/
theorem Placed.effect {flags : MapFlags} {page target : Nat} {address : U64} {success : Bool}
    (placed : Placed hole usable kernelRoot spaces state between)
    (effect : Effect (liveRoots kernelRoot spaces) (ownedSlots kernelRoot) flags
      (BitVec.ofNat 64 page) target address state between
      success phys remaining) (mapped : flags.isPresent = true) (aligned : page % 4096 = 0)
    (bound : page + 4096 ≤ 2 ^ 52)
    (nonzero : ∀ start route,
      ¬Reached (liveRoots kernelRoot spaces) (ownedSlots kernelRoot) phys start route 0)
    (fresh : (page = 0 ∧ target ∉ spaces) ∨ Fresh hole usable kernelRoot spaces state between page) :
    Placed hole usable kernelRoot spaces phys remaining := by
  have first : ∀ frame, Within frame 4096 frame := fun frame => ⟨by omega, by omega⟩
  have unusedPage : page ≠ 0 → Fresh hole usable kernelRoot spaces state between page := fun occupied =>
    fresh.resolve_left fun empty => occupied empty.1
  constructor
  · intro byte member
    exact placed.free byte (effect.taken byte member)
  · intro root placeAddress leaf place found occupied byte inside
    rcases leaf_cases effect mapped aligned bound place found with ⟨_, _, same⟩ | old
    · rw [same] at occupied inside
      obtain ⟨here, used⟩ := (unusedPage occupied).bytes byte inside
      exact ⟨here, fun member => used (effect.taken byte member)⟩
    · obtain ⟨here, used⟩ := placed.frame root placeAddress leaf place old occupied byte inside
      exact ⟨here, fun member => used (effect.taken byte member)⟩
  · intro root placeAddress leaf place found start route reached
    have occupied : leaf.frame ≠ 0 := fun zero => nonzero start route (by rw [← zero]; exact reached)
    rcases leaf_cases effect mapped aligned bound place found with ⟨_, _, same⟩ | old
    · rw [same] at occupied reached
      have unused := unusedPage occupied
      rcases effect.arrives reached with before | ⟨_, taken⟩
      · exact absurd before (unused.table start route)
      · exact absurd (taken page (first page)).1 (unused.bytes page (first page)).2
    · rcases effect.arrives reached with before | ⟨_, taken⟩
      · exact placed.table root placeAddress leaf place old start route before
      · exact absurd (taken _ (first _)).1
          (placed.frame root placeAddress leaf place old occupied _ (first _)).2
  · intro root placeAddress leaf place found occupied other target' entry otherPlace otherFound same
    rcases leaf_cases effect mapped aligned bound place found with ⟨sameRoot, path, new⟩ | old
    · have unused := unusedPage (by rw [← new]; exact occupied)
      rcases leaf_cases effect mapped aligned bound otherPlace otherFound with
        ⟨otherRoot, otherPath, _⟩ | otherOld
      · exact ⟨otherRoot.trans sameRoot.symm, otherPath.trans path.symm⟩
      · exact absurd (same.trans new) (unused.leaf other target' entry otherPlace otherOld)
    · rcases leaf_cases effect mapped aligned bound otherPlace otherFound with
        ⟨_, _, otherNew⟩ | otherOld
      · have unused := unusedPage (by rw [← otherNew, same]; exact occupied)
        exact absurd (same.symm.trans otherNew) (unused.leaf root placeAddress leaf place old)
      · exact placed.single root placeAddress leaf place old occupied other target' entry otherPlace
          otherOld same
  · intro root member placeAddress lower leaf found
    have place : Place hole kernelRoot spaces root placeAddress := Or.inr ⟨member, lower⟩
    rcases leaf_cases effect mapped aligned bound place found with ⟨sameRoot, _, new⟩ | old
    · rcases fresh with ⟨_, outside⟩ | unused
      · rw [sameRoot] at member
        exact absurd member outside
      · rw [new]
        exact unused.nonzero
    · exact placed.nonzero root member placeAddress lower leaf old

theorem blank_root_leaf {page : Nat} (blank : ∀ slot, readEntry phys.mem page slot = blankEntry)
    (address : U64) : liveLeaf (readEntry phys.mem) page address = none := by
  have stops : childTable 0 (readEntry phys.mem page (splitVirtualAddressToStructure address).pml4) =
      none := by
    rw [blank]
    exact child_table_none rfl
  simp only [liveLeaf, tablePathOf, walk, stops, Option.bind_none, Option.map_none, Option.filter_none]

/-- A page mapped in the kernel becomes an empty top table. -/
theorem Placed.add_root {page : Nat} {pointer : U64} {leaf : PageEntry}
    (placed : Placed hole usable kernelRoot spaces phys blocks)
    (blank : ∀ slot, readEntry phys.mem page slot = blankEntry) (inside : hole.Contains pointer)
    (mapped : liveLeaf (readEntry phys.mem) kernelRoot pointer = some leaf)
    (here : leaf.frame = page) (nonzero : page ≠ 0) :
    Placed hole usable kernelRoot (page :: spaces) phys blocks := by
  have old : ∀ {root address entry},
      Place hole kernelRoot (page :: spaces) root address →
      liveLeaf (readEntry phys.mem) root address = some entry →
        Place hole kernelRoot spaces root address := by
    intro root address entry place found
    rcases place with kernel | ⟨member, lower⟩
    · exact Or.inl kernel
    · rcases List.mem_cons.mp member with new | before
      · rw [new, blank_root_leaf blank] at found
        exact absurd found (by simp)
      · exact Or.inr ⟨before, lower⟩
  constructor
  · exact placed.free
  · intro root address entry place found
    exact placed.frame root address entry (old place found) found
  · intro root address entry place found start route reached
    rcases (reached_add_root kernelRoot spaces blank).mp reached with ⟨new, empty, same⟩ | before
    · have onlyHere := placed.single kernelRoot pointer leaf (Or.inl ⟨rfl, inside⟩) mapped
        (by rw [here]; exact nonzero) root address entry (old place found) found
        (same.trans here.symm)
      rw [new]
      exact ⟨onlyHere.1, empty, List.mem_cons_self⟩
    · obtain ⟨kernel, empty, member⟩ :=
        placed.table root address entry (old place found) found start route before
      exact ⟨kernel, empty, List.mem_cons_of_mem _ member⟩
  · intro root address entry place found occupied other target otherEntry otherPlace otherFound
    exact placed.single root address entry (old place found) found occupied other target otherEntry
      (old otherPlace otherFound) otherFound
  · intro root member address lower entry found
    rcases List.mem_cons.mp member with new | before
    · rw [new, blank_root_leaf blank] at found
      exact absurd found (by simp)
    · exact placed.nonzero root before address lower entry found

theorem free_above {byte : Nat} (list : FreeList state blocks) (free : FreeAt blocks byte) :
    4096 ≤ byte := by
  obtain ⟨block, member, covers⟩ := free
  have above := (list.fit block member).above
  unfold Span.Covers at covers
  omega

/-- Page zero never becomes a table. -/
theorem effect_nonzero {flags : MapFlags} {physicalAddress address : U64} {target : Nat}
    {success : Bool} (list : FreeList state between)
    (effect : Effect (liveRoots kernelRoot spaces) (ownedSlots kernelRoot) flags physicalAddress
      target address state between
      success phys remaining)
    (nonzero : ∀ start route,
      ¬Reached (liveRoots kernelRoot spaces) (ownedSlots kernelRoot) state start route 0) :
    ∀ start route,
      ¬Reached (liveRoots kernelRoot spaces) (ownedSlots kernelRoot) phys start route 0 := by
  intro start route reached
  rcases effect.arrives reached with before | ⟨_, taken⟩
  · exact nonzero start route before
  · have above := free_above list (taken 0 ⟨by omega, by omega⟩).1
    omega

/-- The invariant for the memory of a configuration. -/
abbrev Settled (hole : Hole) (usable : Nat → Prop) (config : Config) : Prop :=
  Placed hole usable config.root config.spaces config.kernel.phys config.blocks

theorem Placed.mapped {flags : MapFlags} {page target : Nat} {address : U64} {success : Bool}
    (placed : Settled hole usable config) (sound : Sound hole config)
    (takes : TakesPage config.kernel.phys config.blocks page state between)
    (effect : Effect config.Root config.Owns flags (BitVec.ofNat 64 page) target address state between
      success phys remaining) (present : flags.isPresent = true) :
    Placed hole usable config.root config.spaces phys remaining := by
  obtain ⟨taken, fresh⟩ := placed.takes sound.tables takes
  apply taken.effect effect present takes.aligned (taken_bound sound takes) _ (Or.inr fresh)
  apply effect_nonzero takes.list effect
  intro start route reached
  exact sound.table_nonzero ((takes_agrees sound.tables takes).reached.mp reached) rfl

theorem Placed.page_map {page : Nat} {pointer : U64} (placed : Settled hole usable config)
    (sound : Sound hole config)
    (takes : TakesPage config.kernel.phys config.blocks page state between)
    (effect : Effect config.Root config.Owns pageMapFlags (BitVec.ofNat 64 page) config.root pointer
      state between true phys remaining) (inside : hole.Contains pointer) :
    Placed hole usable config.root (page :: config.spaces)
      { phys with mem := fill phys.mem page 4096 0 } remaining := by
  have agrees := cleared_agrees sound takes effect
  have cleared := (placed.mapped sound takes effect rfl).agrees agrees fun _ member => member
  obtain ⟨entry, found⟩ := effect.leaf_here rfl
  have above := takes.above
  apply cleared.add_root (read_fill_zero _ _) inside
  · rw [agrees.leaf (kernel_live config) (kernel_owns _ _)]
    exact found
  · exact set_page_frame entry takes.aligned (taken_bound sound takes)
  · omega

theorem Placed.step {action : Action} (placed : Settled hole usable config)
    (sound : Sound hole config) (step : Step hole config action next) :
    Settled hole usable next := by
  obtain ⟨lower, start, bounds, below⟩ := sound.heap
  obtain ⟨covered, last⟩ := sound.range
  cases step with
  | reserve _ _ _ _ _ => exact placed
  | heapPage takes effect _ _ =>
      exact placed.mapped sound takes effect rfl
  | windowPage takes effect _ _ _ =>
      exact placed.mapped sound takes effect rfl
  | pageMap takes effect _ place fits =>
      exact placed.page_map sound takes effect ⟨by omega, by omega⟩
  | emptyPageMap _ effect _ _ _ =>
      have nonzero := effect_nonzero sound.tables.list effect fun start route reached =>
        sound.table_nonzero reached rfl
      have mapping : Effect config.Root config.Owns pageMapFlags (BitVec.ofNat 64 0) config.root _ _ _
        _ _ _ := effect
      exact placed.effect mapping rfl (Nat.zero_mod 4096) (by omega) nonzero
        (Or.inl ⟨rfl, sound.distinct⟩)
  | pageZero _ same =>
      exact placed.agrees (page_zero_agrees sound same) fun _ member => member
  | spacePage _ _ _ takes effect =>
      exact placed.mapped sound takes effect rfl
  | copyUpper member =>
      exact placed.agrees (copy_upper_agrees sound member) fun _ member => member

/-! ### Kernel pages stay -/

/-- A kernel address that has been given out. -/
structure Given (hole : Hole) (config : Config) (address : U64) : Prop where
  inside : hole.Contains address
  below : address.toNat < config.frontier
  heap : ¬config.BeyondBreak address

theorem Given.step {action : Action} {address : U64} (given : Given hole config address)
    (sound : Sound hole config) (step : Step hole config action next) :
    Given hole next address ∧
      liveLeaf next.slots next.root address = liveLeaf config.slots config.root address := by
  obtain ⟨inside, below, heap⟩ := given
  obtain ⟨lower, start, bounds, reserved⟩ := sound.heap
  obtain ⟨covered, last⟩ := sound.range
  have bounded := hole.bounded
  unfold Config.BeyondBreak at heap
  have spares : Spares config action config.root address := by
    intro place placed path
    have page := place_vacant sound step placed
    have same := higher_page inside page.inside path
    have aligned := page.aligned
    rcases page.vacant with beyond | heapPage <;> omega
  have same := leaf_step sound step (kernel_live config) (kernel_owns _ _) spares
  rw [← (root_stays step).1] at same
  refine ⟨?_, by rw [same, (root_stays step).1]⟩
  cases step with
  | reserve _ _ raised _ _ => exact ⟨inside, Nat.lt_of_lt_of_le below raised, heap⟩
  | heapPage _ _ _ fits =>
      have size : (4096 : U64).toNat = 4096 := rfl
      have moved : (config.kernel.heapEnd + 4096).toNat = config.kernel.heapEnd.toNat + 4096 := by
        rw [BitVec.toNat_add, size]
        omega
      refine ⟨inside, below, ?_⟩
      unfold Config.BeyondBreak
      dsimp only
      omega
  | windowPage _ _ _ _ _ | pageMap _ _ _ _ _ | emptyPageMap _ _ _ _ _ =>
      exact ⟨inside, Nat.lt_add_right _ below, heap⟩
  | _ => exact ⟨inside, below, heap⟩

theorem Given.run {Allowed : Action → Prop} {address : U64} (given : Given hole config address)
    (sound : Sound hole config) (steps : Steps hole Allowed config next) :
    Given hole next address ∧
      liveLeaf next.slots next.root address = liveLeaf config.slots config.root address := by
  have keeps : ∀ before action after, Sound hole before →
      (Given hole before address ∧
        liveLeaf before.slots before.root address = liveLeaf config.slots config.root address) →
      Allowed action → Step hole before action after →
      Given hole after address ∧
        liveLeaf after.slots after.root address = liveLeaf config.slots config.root address := by
    intro before action after beforeSound here _ step
    obtain ⟨still, same⟩ := here.1.step beforeSound step
    exact ⟨still, same.trans here.2⟩
  exact sound.steps keeps steps ⟨given, rfl⟩

/-! ### Data pages -/

/-- Memory in which tables and free blocks are as they were. -/
structure DataMemory (config : Config) (mem : Memory) : Prop where
  tables : ∀ start route table, config.Table start route table →
    ∀ byte, Within table 4096 byte → mem byte = config.mem byte
  free : ∀ byte, FreeAt config.blocks byte → mem byte = config.mem byte

abbrev withData (config : Config) (mem : Memory) : Config :=
  config.withMemory { config.kernel.phys with mem } config.blocks

theorem DataMemory.agrees {mem : Memory} (data : DataMemory config mem) :
    Agrees config.Root config.Owns config.kernel.phys { config.kernel.phys with mem } := by
  intro start route table slot here _
  exact read_entry_congr (data.tables start route table here) slot

theorem DataMemory.top_slot {mem : Memory} {root : Nat} (data : DataMemory config mem)
    (live : config.Root root) (slot : Slot) : readEntry mem root slot = config.slots root slot :=
  read_entry_congr (data.tables root [] root (top_table live)) slot

theorem DataMemory.leaf {mem : Memory} {root : Nat} {target : U64} (data : DataMemory config mem)
    (member : root ∈ config.spaces) (lower : target.toNat < 2 ^ 47) :
    liveLeaf (readEntry mem) root target = liveLeaf config.slots root target :=
  data.agrees.leaf (space_live member) (lower_owned _ _ lower)

theorem DataMemory.sound {mem : Memory} (data : DataMemory config mem) (sound : Sound hole config) :
    Sound hole (withData config mem) :=
  sound.rewrite data.free data.agrees

theorem DataMemory.linked {mem : Memory} {pointer : U64} {root : Nat} (data : DataMemory config mem)
    (linked : Linked config pointer root) : Linked (withData config mem) pointer root := by
  obtain ⟨member, ⟨writable, aligned, above, below⟩, upper⟩ := linked
  refine ⟨member, ⟨?_, aligned, above, below⟩, ?_⟩
  · exact writable_agrees data.agrees (kernel_live config) (kernel_owns _ _) writable
  · rw [show Config.slots (withData config mem) root _ = _ from data.top_slot (space_live member) _]
    exact upper

theorem DataMemory.shares {mem : Memory} {root : Nat} (data : DataMemory config mem)
    (member : root ∈ config.spaces) (shares : SharesUpper config root) :
    SharesUpper (withData config mem) root := by
  intro slot upper
  have own := data.top_slot (space_live member) slot
  have kernels := data.top_slot (kernel_live config) slot
  have before := shares slot upper
  rw [← own, ← kernels] at before
  exact before

end Places

end KittyOs.FramePlaces
