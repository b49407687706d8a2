import Mathlib.Logic.Relation
import KittyOs.ProcessModel
import KittyOs.Translation

/-!
# Address spaces sharing one memory

The kernel's page map and those of all processes, with the free list they share.
The kernel owns all slots of its top table; a process owns the lower half of its
own, the upper half refers to tables of the kernel. Everything the memory calls
of the kernel do to this configuration is a sequence of a few steps: a page from
the free list is mapped into the kernel or into a process, a new top table is
set up, the upper half of the kernel is copied, kernel addresses are reserved.
Each step keeps the configuration sound.
-/

namespace KittyOs.AddressSpaces

open KittyOs.Lib.ByteMemory KittyOs.Lib.SpanPartition KittyOs.Lib.RadixForest
open KittyOs.MachineWord KittyOs.PageTable KittyOs.PhysicalModel KittyOs.PhysicalFreelist
open KittyOs.VirtualModel KittyOs.PageForest KittyOs.MapEffect
open KittyOs.Translation KittyOs.KernelModel KittyOs.ProcessModel

set_option autoImplicit false

/-- The addresses between the end of the direct map and the kernel image. -/
structure Hole where
  first : Nat
  last : Nat
  higher : 0xffff800000000000 ≤ first
  bounded : last < 2 ^ 64

def Hole.Contains (hole : Hole) (address : U64) : Prop :=
  hole.first ≤ address.toNat ∧ address.toNat < hole.last

/-- The roots of `spaces` belong to processes. Kernel addresses of the hole from
`frontier` on have never been mapped. -/
structure Config where
  kernel : Kernel
  spaces : List Nat
  blocks : List Span
  frontier : Nat

def liveRoots (kernelRoot : Nat) (spaces : List Nat) (frame : Nat) : Prop :=
  frame = kernelRoot ∨ frame ∈ spaces

def ownedSlots (kernelRoot root : Nat) (slot : Slot) : Prop :=
  root = kernelRoot ∨ slot.toNat < 256

namespace Config

abbrev mem (config : Config) : Memory := config.kernel.phys.mem

abbrev slots (config : Config) : Nat → Slot → PageEntry := readEntry config.mem

abbrev root (config : Config) : Nat := config.kernel.kernelPml4

abbrev Root (config : Config) : Nat → Prop := liveRoots config.root config.spaces

abbrev Owns (config : Config) : Nat → Slot → Prop := ownedSlots config.root

/-- The tables of the configuration. -/
abbrev Table (config : Config) (start : Nat) (route : List Slot) (table : Nat) : Prop :=
  Reached config.Root config.Owns config.kernel.phys start route table

/-- Kernel addresses that are reserved for the heap and lie beyond the break. -/
def BeyondBreak (config : Config) (address : U64) : Prop :=
  config.kernel.heapEnd.toNat ≤ address.toNat ∧
    address.toNat < config.kernel.heapStart.toNat + heapSize.toNat

end Config

structure Sound (hole : Hole) (config : Config) : Prop where
  tables : TableForest config.Root config.Owns config.kernel.phys config.blocks
  tidy : EveryEntry config.Root config.Owns TidyEntry config.slots
  nonzero : ∀ root, config.Root root → root ≠ 0
  distinct : config.root ∉ config.spaces
  lower : ∀ root ∈ config.spaces, ∀ address : U64, address.toNat < 2 ^ 47 →
    SmallPages config.slots root address
  small : ∀ address, hole.Contains address → SmallPages config.slots config.root address
  vacant : ∀ address, hole.Contains address →
    config.frontier ≤ address.toNat ∨ config.BeyondBreak address →
      liveLeaf config.slots config.root address = none
  active : config.kernel.activeMap = config.root
  heap : hole.first ≤ config.kernel.heapStart.toNat ∧
    config.kernel.heapStart.toNat ≤ config.kernel.heapEnd.toNat ∧
    config.kernel.heapEnd.toNat ≤ config.kernel.heapStart.toNat + heapSize.toNat ∧
    config.kernel.heapStart.toNat + heapSize.toNat ≤ config.frontier
  range : config.frontier ≤ config.kernel.range.baseAddress.toNat ∧
    config.kernel.range.baseAddress.toNat ≤ hole.last

theorem kernel_owns (kernelRoot : Nat) (slot : Slot) : ownedSlots kernelRoot kernelRoot slot :=
  Or.inl rfl

theorem lower_owned (kernelRoot root : Nat) {address : U64} (lower : address.toNat < 2 ^ 47) :
    ownedSlots kernelRoot root (splitVirtualAddressToStructure address).pml4 := by
  right
  rw [split_pml4_to_nat]
  omega

theorem kernel_live (config : Config) : config.Root config.root := Or.inl rfl

theorem space_live {config : Config} {root : Nat} (member : root ∈ config.spaces) :
    config.Root root := Or.inr member

/-! ### Tables and the rest of memory -/

section Frames

variable {hole : Hole} {config : Config}

/-- No table covers a free byte. -/
theorem Sound.off_list (sound : Sound hole config) {start table address : Nat}
    {route : List Slot} (here : config.Table start route table)
    (inside : Within table 4096 address) : ¬FreeAt config.blocks address :=
  sound.tables.offList start route table here address inside

theorem Sound.table_nonzero (sound : Sound hole config) {start table : Nat} {route : List Slot}
    (here : config.Table start route table) : table ≠ 0 := by
  rcases List.eq_nil_or_concat route with nothing | ⟨before, slot, shape⟩
  · rw [nothing] at here
    rw [← Option.some.inj here.walked]
    exact sound.nonzero start here.live
  · have walked := here.walked
    rw [shape, List.concat_eq_append] at walked
    obtain ⟨parent, found⟩ := walk_before walked
    obtain ⟨same, _, occupied, _⟩ := child_table_frame (walk_snoc found walked)
    intro zero
    rw [zero, PageEntry.frame] at same
    apply occupied
    apply BitVec.eq_of_toNat_eq
    have none : (0 : BitVec 40).toNat = 0 := rfl
    omega

/-- Two tables that share a byte are one. -/
theorem Sound.same_table (sound : Sound hole config) {start start' table table' address : Nat}
    {route route' : List Slot} (first : config.Table start route table)
    (second : config.Table start' route' table') (inFirst : Within table 4096 address)
    (inSecond : Within table' 4096 address) : table = table' := by
  have firstAligned := sound.tables.table_aligned first
  have secondAligned := sound.tables.table_aligned second
  unfold Within at inFirst inSecond
  omega

end Frames

/-! ### What the memory calls do -/

namespace Config

/-- The configuration after the memory and the free list have changed. -/
abbrev withMemory (config : Config) (phys : PhysicalState) (blocks : List Span) : Config :=
  { config with kernel := { config.kernel with phys }, blocks }

end Config

/-- What a step does. -/
inductive Action where
  | reserve
  | heapPage (address : U64)
  | windowPage (address : U64)
  | pageMap (pointer : U64) (root : Nat)
  | emptyPageMap (pointer : U64)
  | pageZero
  | spacePage (root : Nat) (level : ProcessLevel) (address : U64) (success : Bool)
  | copyUpper (root : Nat)

inductive Step (hole : Hole) (config : Config) : Action → Config → Prop
  | reserve (range : KernelRange) (frontier : Nat) (raised : config.frontier ≤ frontier)
      (covered : frontier ≤ range.baseAddress.toNat)
      (inside : range.baseAddress.toNat ≤ hole.last) :
      Step hole config .reserve { config with kernel := { config.kernel with range }, frontier }
  | heapPage {page : Nat} {taken phys : PhysicalState} {between remaining : List Span}
      (takes : TakesPage config.kernel.phys config.blocks page taken between)
      (effect : Effect config.Root config.Owns heapFlags (BitVec.ofNat 64 page) config.root
        config.kernel.heapEnd taken between true phys remaining)
      (aligned : config.kernel.heapEnd.toNat % 4096 = 0)
      (fits : config.kernel.heapEnd.toNat + 4096 ≤
        config.kernel.heapStart.toNat + heapSize.toNat) :
      Step hole config (.heapPage config.kernel.heapEnd)
        { config with
          kernel := { config.kernel with phys, heapEnd := config.kernel.heapEnd + 4096 }
          blocks := remaining }
  | windowPage {page : Nat} {address : U64} {taken phys : PhysicalState}
      {between remaining : List Span}
      (takes : TakesPage config.kernel.phys config.blocks page taken between)
      (effect : Effect config.Root config.Owns heapFlags (BitVec.ofNat 64 page) config.root address
        taken between true phys remaining)
      (aligned : address.toNat % 4096 = 0) (place : address.toNat = config.frontier)
      (fits : config.frontier + 4096 ≤ config.kernel.range.baseAddress.toNat) :
      Step hole config (.windowPage address)
        { config.withMemory phys remaining with frontier := config.frontier + 4096 }
  | pageMap {page : Nat} {pointer : U64} {taken phys : PhysicalState} {between remaining : List Span}
      (takes : TakesPage config.kernel.phys config.blocks page taken between)
      (effect : Effect config.Root config.Owns pageMapFlags (BitVec.ofNat 64 page) config.root
        pointer taken between true phys remaining)
      (aligned : pointer.toNat % 4096 = 0) (place : pointer.toNat = config.frontier)
      (fits : config.frontier + 4096 ≤ config.kernel.range.baseAddress.toNat) :
      Step hole config (.pageMap pointer page)
        { config.withMemory { phys with mem := fill phys.mem page 4096 0 } remaining with
          spaces := page :: config.spaces
          frontier := config.frontier + 4096 }
  | emptyPageMap {pointer : U64} {phys : PhysicalState} {remaining : List Span}
      (nothing : config.blocks = [])
      (effect : Effect config.Root config.Owns pageMapFlags 0 config.root pointer
        config.kernel.phys config.blocks true phys remaining)
      (aligned : pointer.toNat % 4096 = 0) (place : pointer.toNat = config.frontier)
      (fits : config.frontier + 4096 ≤ config.kernel.range.baseAddress.toNat) :
      Step hole config (.emptyPageMap pointer)
        { config.withMemory phys remaining with frontier := config.frontier + 4096 }
  | pageZero (mem : Memory) (same : ∀ address, 4096 ≤ address → mem address = config.mem address) :
      Step hole config .pageZero (config.withMemory { config.kernel.phys with mem } config.blocks)
  | spacePage {root page : Nat} {address : U64} {level : ProcessLevel} {success : Bool}
      {taken phys : PhysicalState} {between remaining : List Span} (member : root ∈ config.spaces)
      (lower : address.toNat < 2 ^ 47) (aligned : address.toNat % 4096 = 0)
      (takes : TakesPage config.kernel.phys config.blocks page taken between)
      (effect : Effect config.Root config.Owns (processFlags level) (BitVec.ofNat 64 page) root
        address taken between success phys remaining) :
      Step hole config (.spacePage root level address success) (config.withMemory phys remaining)
  | copyUpper {root : Nat} (member : root ∈ config.spaces) :
      Step hole config (.copyUpper root) (config.withMemory
        { config.kernel.phys with
          mem := copyBlock config.mem (root + 2048) (config.root + 2048) 2048 } config.blocks)

/-- The part of soundness that concerns memory alone. -/
structure TablesKept (hole : Hole) (config : Config) (phys : PhysicalState) (blocks : List Span) :
    Prop where
  tables : TableForest config.Root config.Owns phys blocks
  tidy : EveryEntry config.Root config.Owns TidyEntry (readEntry phys.mem)
  lower : ∀ root ∈ config.spaces, ∀ address : U64, address.toNat < 2 ^ 47 →
    SmallPages (readEntry phys.mem) root address
  small : ∀ address, hole.Contains address → SmallPages (readEntry phys.mem) config.root address

section Steps

variable {hole : Hole} {config next : Config} {state other : PhysicalState}
variable {blocks remaining : List Span}

theorem Sound.kept (sound : Sound hole config) :
    TablesKept hole config config.kernel.phys config.blocks :=
  ⟨sound.tables, sound.tidy, sound.lower, sound.small⟩

theorem TablesKept.agrees (kept : TablesKept hole config state blocks)
    (agrees : Agrees config.Root config.Owns state other) (list : FreeList other remaining)
    (taken : ∀ free, FreeAt remaining free → FreeAt blocks free) :
    TablesKept hole config other remaining where
  tables := agrees.tables kept.tables list taken
  tidy := agrees.every kept.tidy
  lower := fun root member address bound => agrees.small (space_live member)
    (lower_owned _ _ bound) (kept.lower root member address bound)
  small := fun address inside => agrees.small (kernel_live config) (kernel_owns _ _)
    (kept.small address inside)

theorem TablesKept.takes {page : Nat} (kept : TablesKept hole config state blocks)
    (takes : TakesPage state blocks page other remaining) :
    TablesKept hole config other remaining :=
  kept.agrees (takes_agrees kept.tables takes) takes.list fun free member =>
    ((takes.left free).mp member).1

theorem TablesKept.effect {flags : MapFlags} {physicalAddress address : U64} {root : Nat}
    {success : Bool} (kept : TablesKept hole config state blocks) (mapped : flags.isPresent = true)
    (effect : Effect config.Root config.Owns flags physicalAddress root address state blocks success
      other remaining) :
    TablesKept hole config other remaining where
  tables := effect.tables
  tidy := by
    apply effect.every kept.tidy blank_tidy
    intro depth entry occupied _
    exact Or.inr (iff_of_true mapped occupied)
  lower := fun root member address bound => effect.small (space_live member)
    (lower_owned _ _ bound) (kept.lower root member address bound)
  small := fun address inside => effect.small (kernel_live config) (kernel_owns _ _)
    (kept.small address inside)

theorem Hole.Contains.extended {address : U64} (inside : hole.Contains address) :
    SignExtended address := by
  have higher := hole.higher
  unfold Hole.Contains at inside
  unfold SignExtended
  omega

theorem higher_page {left right : U64} (leftInside : hole.Contains left)
    (rightInside : hole.Contains right) (same : pathOf left = pathOf right) :
    left.toNat / 4096 = right.toNat / 4096 :=
  page_of_path leftInside.extended rightInside.extended same

/-- A page taken from the free list and mapped elsewhere leaves a leaf alone. -/
theorem leaf_after {flags : MapFlags} {physicalAddress address target : U64} {root start page : Nat}
    {success : Bool} {taken phys : PhysicalState} {between : List Span}
    (sound : Sound hole config)
    (takes : TakesPage config.kernel.phys config.blocks page taken between)
    (effect : Effect config.Root config.Owns flags physicalAddress root address taken between
      success phys remaining)
    (live : config.Root start)
    (owned : config.Owns start (splitVirtualAddressToStructure target).pml4)
    (elsewhere : ¬(success = true ∧ start = root ∧ pathOf target = pathOf address)) :
    liveLeaf (readEntry phys.mem) start target = liveLeaf config.slots start target := by
  rw [effect.leaf_elsewhere live owned elsewhere]
  exact (takes_agrees sound.tables takes).leaf live owned

/-- A page just taken belongs to no table, also after it has been mapped. -/
theorem taken_page_apart {flags : MapFlags} {physicalAddress address : U64}
    {root start table page byte : Nat} {success : Bool} {taken phys : PhysicalState}
    {between : List Span} {route : List Slot} (sound : Sound hole config)
    (takes : TakesPage config.kernel.phys config.blocks page taken between)
    (effect : Effect config.Root config.Owns flags physicalAddress root address taken between
      success phys remaining)
    (here : Reached config.Root config.Owns phys start route table)
    (inside : Within table 4096 byte) : ¬Within page 4096 byte := by
  intro inPage
  rcases effect.arrives here with old | ⟨_, fresh⟩
  · have before := (takes_agrees sound.tables takes).reached.mp old
    exact sound.off_list before inside (takes.inside byte inPage)
  · exact ((takes.left byte).mp (fresh byte inside).1).2 inPage

/-- An empty top table adds itself to the tables and nothing else. -/
theorem reached_add_root (kernelRoot : Nat) (spaces : List Nat) {page start table : Nat}
    {route : List Slot} (blank : ∀ slot, readEntry state.mem page slot = blankEntry) :
    Reached (liveRoots kernelRoot (page :: spaces)) (ownedSlots kernelRoot) state start route table ↔
      (start = page ∧ route = [] ∧ table = page) ∨
        Reached (liveRoots kernelRoot spaces) (ownedSlots kernelRoot) state start route table := by
  apply add_root_reaches
  · intro frame
    simp only [liveRoots, List.mem_cons]
    exact or_left_comm
  · intro slot _
    rw [blank slot]
    exact child_table_none rfl

theorem TablesKept.add_root {page : Nat} (kept : TablesKept hole config state blocks)
    (blank : ∀ slot, readEntry state.mem page slot = blankEntry)
    (fresh : ∀ start route, ¬Reached config.Root config.Owns state start route page)
    (aligned : page % 4096 = 0) (offList : ∀ byte, Within page 4096 byte → ¬FreeAt blocks byte) :
    TablesKept hole { config with spaces := page :: config.spaces } state blocks := by
  have grows : ∀ frame, liveRoots config.root (page :: config.spaces) frame ↔
      frame = page ∨ config.Root frame := by
    intro frame
    simp only [liveRoots, List.mem_cons]
    exact or_left_comm
  have stops : ∀ slot, config.Owns page slot → childTable 0 (readEntry state.mem page slot) = none := by
    intro slot _
    rw [blank slot]
    exact child_table_none rfl
  refine ⟨⟨kept.tables.list, kept.tables.bounded, add_root_forest grows stops fresh kept.tables.forest,
    ?_, ?_⟩, ?_, ?_, kept.small⟩
  · intro root live
    rcases (grows root).mp live with new | old
    · rw [new]
      exact aligned
    · exact kept.tables.aligned root old
  · intro start route table here
    rcases (reached_add_root config.root config.spaces blank).mp here with ⟨_, _, same⟩ | old
    · rw [same]
      exact offList
    · exact kept.tables.offList start route table old
  · intro start route table slot here owned above
    rcases (reached_add_root config.root config.spaces blank).mp here with ⟨_, _, same⟩ | old
    · rw [same, blank slot]
      exact blank_tidy _
    · exact kept.tidy start route table slot old owned above
  · intro root member address bound
    rcases List.mem_cons.mp member with new | old
    · rw [new]
      exact blank_root_small blank address
    · exact kept.lower root old address bound

/-- Memory may change wherever neither the free list nor an owned slot lies. -/
theorem TablesKept.rewrite {mem : Memory} (kept : TablesKept hole config state blocks)
    (free : ∀ byte, FreeAt blocks byte → mem byte = state.mem byte)
    (agrees : Agrees config.Root config.Owns state { state with mem }) :
    TablesKept hole config { state with mem } blocks := by
  apply kept.agrees agrees _ fun _ member => member
  apply FreeList.frame kept.tables.list
  · rfl
  · rfl
  · intro block member byte covers
    exact free byte ⟨block, member, covers⟩

theorem sound_reserve (sound : Sound hole config) {range : KernelRange} {frontier : Nat}
    (raised : config.frontier ≤ frontier) (covered : frontier ≤ range.baseAddress.toNat)
    (inside : range.baseAddress.toNat ≤ hole.last) :
    Sound hole { config with kernel := { config.kernel with range }, frontier } where
  tables := sound.tables
  tidy := sound.tidy
  nonzero := sound.nonzero
  distinct := sound.distinct
  lower := sound.lower
  small := sound.small
  vacant := by
    intro address contained beyond
    apply sound.vacant address contained
    rcases beyond with above | heap
    · exact Or.inl (Nat.le_trans raised above)
    · exact Or.inr heap
  active := sound.active
  heap := by
    obtain ⟨lower, start, fits, below⟩ := sound.heap
    exact ⟨lower, start, fits, Nat.le_trans below raised⟩
  range := ⟨covered, inside⟩

theorem sound_heap_page {page : Nat} {taken phys : PhysicalState} {between : List Span}
    (sound : Sound hole config)
    (takes : TakesPage config.kernel.phys config.blocks page taken between)
    (effect : Effect config.Root config.Owns heapFlags (BitVec.ofNat 64 page) config.root
      config.kernel.heapEnd taken between true phys remaining)
    (aligned : config.kernel.heapEnd.toNat % 4096 = 0)
    (fits : config.kernel.heapEnd.toNat + 4096 ≤
      config.kernel.heapStart.toNat + heapSize.toNat) :
    Sound hole { config with
      kernel := { config.kernel with phys, heapEnd := config.kernel.heapEnd + 4096 }
      blocks := remaining } := by
  have kept := (sound.kept.takes takes).effect rfl effect
  obtain ⟨lower, start, _, below⟩ := sound.heap
  obtain ⟨covered, inside⟩ := sound.range
  have bounded := hole.bounded
  have contained : hole.Contains config.kernel.heapEnd := ⟨by omega, by omega⟩
  have size : (4096 : U64).toNat = 4096 := rfl
  have moved : (config.kernel.heapEnd + 4096).toNat = config.kernel.heapEnd.toNat + 4096 := by
    rw [BitVec.toNat_add, size]
    omega
  refine ⟨kept.tables, kept.tidy, sound.nonzero, sound.distinct, kept.lower, kept.small, ?_,
    sound.active, ⟨lower, ?_, ?_, below⟩, covered, inside⟩
  · intro address within beyond
    unfold Config.BeyondBreak at beyond
    dsimp only at beyond
    rw [moved] at beyond
    rw [← sound.vacant address within]
    · apply leaf_after sound takes effect (kernel_live config) (kernel_owns _ _)
      intro all
      have same := higher_page within contained all.2.2
      omega
    · unfold Config.BeyondBreak
      omega
  · dsimp only
    omega
  · dsimp only
    omega

/-- Mapping the first address that has never been mapped leaves those above vacant. -/
theorem vacant_above {pointer address : U64} {slots : Nat → Slot → PageEntry}
    (sound : Sound hole config) (aligned : pointer.toNat % 4096 = 0)
    (place : pointer.toNat = config.frontier)
    (fits : config.frontier + 4096 ≤ config.kernel.range.baseAddress.toNat)
    (same : pathOf address ≠ pathOf pointer →
      liveLeaf slots config.root address = liveLeaf config.slots config.root address)
    (within : hole.Contains address)
    (beyond : config.frontier + 4096 ≤ address.toNat ∨ config.BeyondBreak address) :
    liveLeaf slots config.root address = none := by
  obtain ⟨lower, start, _, below⟩ := sound.heap
  obtain ⟨_, inside⟩ := sound.range
  have contained : hole.Contains pointer := ⟨by omega, by omega⟩
  rw [← sound.vacant address within]
  · apply same
    intro path
    have page := higher_page within contained path
    unfold Config.BeyondBreak at beyond
    omega
  · rcases beyond with above | heap
    · exact Or.inl (by omega)
    · exact Or.inr heap

/-- Mapping the first address that has never been mapped keeps a configuration sound if
the memory it leaves is in order and no other leaf has changed. -/
theorem sound_next_page {pointer : U64} {phys : PhysicalState} (sound : Sound hole config)
    (kept : TablesKept hole config phys remaining) (aligned : pointer.toNat % 4096 = 0)
    (place : pointer.toNat = config.frontier)
    (fits : config.frontier + 4096 ≤ config.kernel.range.baseAddress.toNat)
    (elsewhere : ∀ target, pathOf target ≠ pathOf pointer →
      liveLeaf (readEntry phys.mem) config.root target =
        liveLeaf config.slots config.root target) :
    Sound hole { config.withMemory phys remaining with frontier := config.frontier + 4096 } := by
  obtain ⟨lower, start, bounds, below⟩ := sound.heap
  refine ⟨kept.tables, kept.tidy, sound.nonzero, sound.distinct, kept.lower, kept.small, ?_,
    sound.active, ⟨lower, start, bounds, Nat.le_add_right_of_le below⟩, fits, sound.range.2⟩
  intro target within beyond
  apply vacant_above sound aligned place fits _ within beyond
  exact elsewhere target

theorem sound_window_page {page : Nat} {address : U64} {taken phys : PhysicalState}
    {between : List Span} (sound : Sound hole config)
    (takes : TakesPage config.kernel.phys config.blocks page taken between)
    (effect : Effect config.Root config.Owns heapFlags (BitVec.ofNat 64 page) config.root address
      taken between true phys remaining)
    (aligned : address.toNat % 4096 = 0) (place : address.toNat = config.frontier)
    (fits : config.frontier + 4096 ≤ config.kernel.range.baseAddress.toNat) :
    Sound hole { config.withMemory phys remaining with frontier := config.frontier + 4096 } := by
  have kept := (sound.kept.takes takes).effect rfl effect
  apply sound_next_page sound kept aligned place fits
  intro target path
  exact leaf_after sound takes effect (kernel_live config) (kernel_owns _ _) fun all =>
    path all.2.2

theorem sound_empty_page_map {pointer : U64} {phys : PhysicalState} (sound : Sound hole config)
    (effect : Effect config.Root config.Owns pageMapFlags 0 config.root pointer config.kernel.phys
      config.blocks true phys remaining)
    (aligned : pointer.toNat % 4096 = 0) (place : pointer.toNat = config.frontier)
    (fits : config.frontier + 4096 ≤ config.kernel.range.baseAddress.toNat) :
    Sound hole { config.withMemory phys remaining with frontier := config.frontier + 4096 } := by
  have kept := sound.kept.effect rfl effect
  apply sound_next_page sound kept aligned place fits
  intro target path
  exact effect.leaf_elsewhere (kernel_live config) (kernel_owns _ _) fun all => path all.2.2

theorem page_zero_agrees (sound : Sound hole config) {mem : Memory}
    (same : ∀ address, 4096 ≤ address → mem address = config.mem address) :
    Agrees config.Root config.Owns config.kernel.phys { config.kernel.phys with mem } := by
  intro start route table slot here _
  have nonzero := sound.table_nonzero here
  have aligned := sound.tables.table_aligned here
  apply read_entry_congr
  intro byte inside
  apply same
  unfold Within at inside
  omega

/-- Memory that the tables and the free list do not occupy may change. -/
theorem Sound.rewrite (sound : Sound hole config) {mem : Memory}
    (free : ∀ byte, FreeAt config.blocks byte → mem byte = config.mem byte)
    (agrees : Agrees config.Root config.Owns config.kernel.phys { config.kernel.phys with mem }) :
    Sound hole (config.withMemory { config.kernel.phys with mem } config.blocks) := by
  have kept := sound.kept.rewrite free agrees
  refine ⟨kept.tables, kept.tidy, sound.nonzero, sound.distinct, kept.lower, kept.small, ?_,
    sound.active, sound.heap, sound.range⟩
  intro target within beyond
  rw [← sound.vacant target within beyond]
  exact agrees.leaf (kernel_live config) (kernel_owns _ _)

theorem sound_page_zero (sound : Sound hole config) {mem : Memory}
    (same : ∀ address, 4096 ≤ address → mem address = config.mem address) :
    Sound hole (config.withMemory { config.kernel.phys with mem } config.blocks) := by
  apply sound.rewrite _ (page_zero_agrees sound same)
  rintro byte ⟨block, member, covers⟩
  have above := (sound.tables.list.fit block member).above
  unfold Span.Covers at covers
  exact same byte (by omega)

theorem sound_space_page {root page : Nat} {address : U64} {level : ProcessLevel} {success : Bool}
    {taken phys : PhysicalState} {between : List Span} (sound : Sound hole config)
    (member : root ∈ config.spaces)
    (takes : TakesPage config.kernel.phys config.blocks page taken between)
    (effect : Effect config.Root config.Owns (processFlags level) (BitVec.ofNat 64 page) root address
      taken between success phys remaining) :
    Sound hole (config.withMemory phys remaining) := by
  have kept := (sound.kept.takes takes).effect rfl effect
  refine ⟨kept.tables, kept.tidy, sound.nonzero, sound.distinct, kept.lower, kept.small, ?_,
    sound.active, sound.heap, sound.range⟩
  intro target within beyond
  rw [← sound.vacant target within beyond]
  apply leaf_after sound takes effect (kernel_live config) (kernel_owns _ _)
  intro all
  rw [← all.2.1] at member
  exact sound.distinct member

/-- Only upper slots of the process's own top table are written. -/
theorem copy_upper_agrees (sound : Sound hole config) {root : Nat} (member : root ∈ config.spaces) :
    Agrees config.Root config.Owns config.kernel.phys
      { config.kernel.phys with
        mem := copyBlock config.mem (root + 2048) (config.root + 2048) 2048 } := by
  intro start route table slot here owned
  have top : config.Table root [] root := ⟨space_live member, trivial, rfl⟩
  have slotBound := slot.isLt
  unfold readEntry
  apply congrArg decode
  apply load_word_congr
  intro offset small
  apply copy_block_outside
  intro inside
  have inTable : Within table 4096 (table + 8 * slot.toNat + offset) := ⟨by omega, by omega⟩
  have inRoot : Within root 4096 (table + 8 * slot.toNat + offset) := by
    unfold Within at inside ⊢
    omega
  have same := sound.same_table here top inTable inRoot
  subst same
  obtain ⟨sameRoot, sameRoute⟩ := sound.tables.forest here top
  subst sameRoot sameRoute
  rcases owned with kernel | lower
  · rw [kernel] at member
    exact sound.distinct member
  · unfold Within at inside
    omega

theorem sound_copy_upper (sound : Sound hole config) {root : Nat} (member : root ∈ config.spaces) :
    Sound hole (config.withMemory
      { config.kernel.phys with
        mem := copyBlock config.mem (root + 2048) (config.root + 2048) 2048 } config.blocks) := by
  have top : config.Table root [] root := ⟨space_live member, trivial, rfl⟩
  apply sound.rewrite _ (copy_upper_agrees sound member)
  intro byte free
  apply copy_block_outside
  intro inside
  apply sound.off_list top _ free
  unfold Within at inside ⊢
  omega

section PageMap

variable {page : Nat} {pointer : U64} {taken phys : PhysicalState} {between : List Span}

/-- Clearing the new top table changes no table there is. -/
theorem cleared_agrees (sound : Sound hole config)
    (takes : TakesPage config.kernel.phys config.blocks page taken between)
    (effect : Effect config.Root config.Owns pageMapFlags (BitVec.ofNat 64 page) config.root pointer
      taken between true phys remaining) :
    Agrees config.Root config.Owns phys { phys with mem := fill phys.mem page 4096 0 } := by
  intro start route table slot here _
  apply read_entry_congr
  intro byte inside
  exact fill_outside _ _ _ _ _ (taken_page_apart sound takes effect here inside)

theorem sound_page_map (sound : Sound hole config)
    (takes : TakesPage config.kernel.phys config.blocks page taken between)
    (effect : Effect config.Root config.Owns pageMapFlags (BitVec.ofNat 64 page) config.root pointer
      taken between true phys remaining)
    (aligned : pointer.toNat % 4096 = 0) (place : pointer.toNat = config.frontier)
    (fits : config.frontier + 4096 ≤ config.kernel.range.baseAddress.toNat) :
    Sound hole
      { config.withMemory { phys with mem := fill phys.mem page 4096 0 } remaining with
        spaces := page :: config.spaces
        frontier := config.frontier + 4096 } := by
  have agrees := cleared_agrees sound takes effect
  have above := takes.above
  have gone : ∀ byte, Within page 4096 byte → ¬FreeAt remaining byte := by
    intro byte inside free
    exact ((takes.left byte).mp (effect.taken byte free)).2 inside
  have cleared := ((sound.kept.takes takes).effect rfl effect).rewrite
    (fun byte free => fill_outside _ _ _ _ _ fun inside => gone byte inside free) agrees
  have fresh : ∀ start route, ¬Reached config.Root config.Owns
      { phys with mem := fill phys.mem page 4096 0 } start route page := by
    intro start route here
    have first : Within page 4096 page := ⟨by omega, by omega⟩
    exact taken_page_apart sound takes effect (agrees.reached.mp here) first first
  have kept := cleared.add_root (read_fill_zero phys.mem page) fresh takes.aligned gone
  obtain ⟨lower, start, bounds, below⟩ := sound.heap
  refine ⟨kept.tables, kept.tidy, ?_, ?_, kept.lower, kept.small, ?_, sound.active,
    ⟨lower, start, bounds, Nat.le_add_right_of_le below⟩, fits, sound.range.2⟩
  · intro root live
    rcases live with kernel | member
    · exact sound.nonzero root (Or.inl kernel)
    · rcases List.mem_cons.mp member with new | old
      · omega
      · exact sound.nonzero root (Or.inr old)
  · intro member
    rcases List.mem_cons.mp member with new | old
    · have top : config.Table config.root [] config.root := ⟨kernel_live config, trivial, rfl⟩
      have first : Within page 4096 page := ⟨by omega, by omega⟩
      dsimp only at new
      rw [← new] at first
      exact sound.off_list top first (by rw [new] at first ⊢; exact takes.inside _ first)
    · exact sound.distinct old
  · intro target within beyond
    apply vacant_above sound aligned place fits _ within beyond
    intro path
    have elsewhere := leaf_after sound takes effect (kernel_live config)
      (kernel_owns _ (splitVirtualAddressToStructure target).pml4) fun all => path all.2.2
    rw [← elsewhere]
    exact agrees.leaf (kernel_live config) (kernel_owns _ _)

end PageMap

/-- Every step keeps the configuration sound. -/
theorem Sound.step {action : Action} (sound : Sound hole config)
    (step : Step hole config action next) : Sound hole next := by
  cases step with
  | reserve range frontier raised covered inside => exact sound_reserve sound raised covered inside
  | heapPage takes effect aligned fits => exact sound_heap_page sound takes effect aligned fits
  | windowPage takes effect aligned place fits =>
      exact sound_window_page sound takes effect aligned place fits
  | pageMap takes effect aligned place fits =>
      exact sound_page_map sound takes effect aligned place fits
  | emptyPageMap _ effect aligned place fits =>
      exact sound_empty_page_map sound effect aligned place fits
  | pageZero mem same => exact sound_page_zero sound same
  | spacePage member _ _ takes effect => exact sound_space_page sound member takes effect
  | copyUpper member => exact sound_copy_upper sound member

/-- Any number of steps whose actions are allowed. -/
abbrev Steps (hole : Hole) (Allowed : Action → Prop) : Config → Config → Prop :=
  Relation.ReflTransGen fun before after => ∃ action, Allowed action ∧ Step hole before action after

variable {Allowed Wider : Action → Prop}

theorem one_step {action : Action} (allowed : Allowed action) (step : Step hole config action next) :
    Steps hole Allowed config next :=
  Relation.ReflTransGen.single ⟨action, allowed, step⟩

theorem Steps.widen (wider : ∀ action, Allowed action → Wider action)
    (steps : Steps hole Allowed config next) : Steps hole Wider config next := by
  refine Relation.ReflTransGen.mono ?_ config next steps
  rintro before after ⟨action, allowed, step⟩
  exact ⟨action, wider action allowed, step⟩

theorem Sound.run (sound : Sound hole config) (steps : Steps hole Allowed config next) :
    Sound hole next := by
  induction steps with
  | refl => exact sound
  | tail _ last ih =>
      obtain ⟨action, _, step⟩ := last
      exact ih.step step

/-- What every allowed step from a sound configuration keeps, any number of them keeps. -/
theorem Sound.steps {Holds : Config → Prop} (sound : Sound hole config)
    (keeps : ∀ before action after, Sound hole before → Holds before → Allowed action →
      Step hole before action after → Holds after)
    (steps : Steps hole Allowed config next) (holds : Holds config) : Holds next := by
  induction steps with
  | refl => exact holds
  | tail before last ih =>
      obtain ⟨action, allowed, step⟩ := last
      exact keeps _ action _ (sound.run before) ih allowed step

/-! ### Where steps map -/

/-- The address a step maps, with the root it maps it in. -/
def Action.place (config : Config) : Action → Option (Nat × U64)
  | .heapPage address => some (config.root, address)
  | .windowPage address => some (config.root, address)
  | .pageMap pointer _ => some (config.root, pointer)
  | .emptyPageMap pointer => some (config.root, pointer)
  | .spacePage root _ address _ => some (root, address)
  | .reserve | .pageZero | .copyUpper _ => none

/-- A page of the hole that has never been mapped. -/
structure VacantPage (hole : Hole) (config : Config) (address : U64) : Prop where
  aligned : address.toNat % 4096 = 0
  first : hole.first ≤ address.toNat
  last : address.toNat + 4096 ≤ hole.last
  vacant : config.frontier ≤ address.toNat ∨
    (config.kernel.heapEnd.toNat ≤ address.toNat ∧
      address.toNat + 4096 ≤ config.kernel.heapStart.toNat + heapSize.toNat)

theorem VacantPage.inside {address : U64} (page : VacantPage hole config address) :
    hole.Contains address := by
  have first := page.first
  have last := page.last
  exact ⟨first, by omega⟩

/-- Kernel addresses are mapped where nothing was. -/
theorem place_vacant {action : Action} {address : U64} (sound : Sound hole config)
    (step : Step hole config action next)
    (placed : action.place config = some (config.root, address)) :
    VacantPage hole config address := by
  obtain ⟨lower, start, bounds, below⟩ := sound.heap
  obtain ⟨covered, inside⟩ := sound.range
  cases step with
  | heapPage _ _ aligned fits =>
      rw [← (Prod.mk.inj (Option.some.inj placed)).2]
      exact ⟨aligned, by omega, by omega, Or.inr ⟨Nat.le_refl _, fits⟩⟩
  | windowPage _ _ aligned place fits =>
      rw [← (Prod.mk.inj (Option.some.inj placed)).2]
      exact ⟨aligned, by omega, by omega, Or.inl (Nat.le_of_eq place.symm)⟩
  | pageMap _ _ aligned place fits =>
      rw [← (Prod.mk.inj (Option.some.inj placed)).2]
      exact ⟨aligned, by omega, by omega, Or.inl (Nat.le_of_eq place.symm)⟩
  | emptyPageMap _ _ aligned place fits =>
      rw [← (Prod.mk.inj (Option.some.inj placed)).2]
      exact ⟨aligned, by omega, by omega, Or.inl (Nat.le_of_eq place.symm)⟩
  | spacePage member _ _ _ _ =>
      rw [(Prod.mk.inj (Option.some.inj placed)).1] at member
      exact absurd member sound.distinct
  | _ => exact absurd placed (by simp [Action.place])

/-- The step maps nothing at the page of `target` in `root`. -/
def Spares (config : Config) (action : Action) (root : Nat) (target : U64) : Prop :=
  ∀ address, action.place config = some (root, address) → pathOf target ≠ pathOf address

theorem leaf_step {action : Action} {root : Nat} {target : U64} (sound : Sound hole config)
    (step : Step hole config action next) (live : config.Root root)
    (owned : config.Owns root (splitVirtualAddressToStructure target).pml4)
    (spares : Spares config action root target) :
    liveLeaf next.slots root target = liveLeaf config.slots root target := by
  have apart : ∀ {success : Bool} {mapped : Nat} {address : U64},
      action.place config = some (mapped, address) →
      ¬(success = true ∧ root = mapped ∧ pathOf target = pathOf address) := by
    intro success mapped address placed all
    rw [← all.2.1] at placed
    exact spares address placed all.2.2
  cases step with
  | reserve _ _ _ _ _ => rfl
  | heapPage takes effect _ _ => exact leaf_after sound takes effect live owned (apart rfl)
  | windowPage takes effect _ _ _ => exact leaf_after sound takes effect live owned (apart rfl)
  | pageMap takes effect _ _ _ =>
      rw [← leaf_after sound takes effect live owned (apart rfl)]
      exact (cleared_agrees sound takes effect).leaf live owned
  | emptyPageMap _ effect _ _ _ => exact effect.leaf_elsewhere live owned (apart rfl)
  | pageZero _ same => exact (page_zero_agrees sound same).leaf live owned
  | spacePage _ _ _ takes effect => exact leaf_after sound takes effect live owned (apart rfl)
  | copyUpper member => exact (copy_upper_agrees sound member).leaf live owned

/-- Pages mapped elsewhere in the kernel leave a writable page writable. -/
theorem writable_mapped {target address : U64} {page root frame : Nat} {flags : MapFlags}
    {success : Bool} {taken phys : PhysicalState} {between : List Span}
    (writable : WritableTo config.slots config.root target frame) (sound : Sound hole config)
    (present : flags.isPresent = true) (readWrite : flags.isReadWrite = true)
    (takes : TakesPage config.kernel.phys config.blocks page taken between)
    (effect : Effect config.Root config.Owns flags (BitVec.ofNat 64 page) root address taken between
      success phys remaining)
    (elsewhere : ¬(config.root = root ∧ pathOf target = pathOf address)) :
    WritableTo (readEntry phys.mem) config.root target frame :=
  writable_kept effect present readWrite (kernel_live config) (kernel_owns _ _) elsewhere
    (writable_agrees (takes_agrees sound.tables takes) (kernel_live config) (kernel_owns _ _)
      writable)

theorem writable_step {action : Action} {target : U64} {frame : Nat} (sound : Sound hole config)
    (step : Step hole config action next) (spares : Spares config action config.root target)
    (writable : WritableTo config.slots config.root target frame) :
    WritableTo next.slots next.root target frame := by
  have live := kernel_live config
  have owned := kernel_owns config.root (splitVirtualAddressToStructure target).pml4
  cases step with
  | reserve _ _ _ _ _ => exact writable
  | heapPage takes effect _ _ =>
      have mapped := writable_mapped writable sound rfl rfl takes effect fun both =>
        spares _ rfl both.2
      exact mapped
  | windowPage takes effect _ _ _ =>
      have mapped := writable_mapped writable sound rfl rfl takes effect fun both =>
        spares _ rfl both.2
      exact mapped
  | pageMap takes effect _ _ _ =>
      apply writable_agrees (cleared_agrees sound takes effect) live owned
      exact writable_mapped writable sound rfl rfl takes effect fun both => spares _ rfl both.2
  | emptyPageMap _ effect _ _ _ =>
      exact writable_kept effect rfl rfl live owned (fun both => spares _ rfl both.2) writable
  | pageZero _ same => exact writable_agrees (page_zero_agrees sound same) live owned writable
  | spacePage member _ _ takes effect =>
      apply writable_mapped writable sound rfl rfl takes effect
      intro both
      rw [← both.1] at member
      exact sound.distinct member
  | copyUpper member => exact writable_agrees (copy_upper_agrees sound member) live owned writable

end Steps

end KittyOs.AddressSpaces
