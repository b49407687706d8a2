import KittyOs.FramePlaces

/-!
# The state after boot

What the loader leaves behind, in the terms of the later proofs: one tree of page
tables outside the free list, entries above the last level that are blank or
present, and a range of kernel addresses that nothing is mapped in. With the heap
reserved in that range this is a sound configuration without processes.
-/

namespace KittyOs.BootState

open KittyOs.Lib.ByteMemory KittyOs.Lib.SpanPartition KittyOs.Lib.RadixForest
open KittyOs.MachineWord KittyOs.PageTable KittyOs.PhysicalModel KittyOs.PhysicalFreelist
open KittyOs.VirtualModel KittyOs.PageForest KittyOs.VirtualMapping KittyOs.MapEffect
open KittyOs.Translation KittyOs.KernelModel KittyOs.KernelHole KittyOs.HeapBounds
open KittyOs.AddressSpaces KittyOs.FramePlaces

set_option autoImplicit false

/-- An entry above the last level as the loader leaves it. A large page may be at
physical address zero, a table may not. -/
def CleanEntry (depth : Nat) (entry : PageEntry) : Prop :=
  entry = blankEntry ∨ (entry.p = true ∧ (entry.ppn ≠ 0 ∨ (0 < depth ∧ entry.z = true)))

/-- `blocks` is the usable memory, `hole` the range of kernel addresses up to the
kernel's image. -/
structure Boot (hole : Hole) (kernel : Kernel) (blocks : List Span) : Prop where
  tables : TableForest (solo kernel.kernelPml4) everySlot kernel.phys blocks
  clean : EveryEntry (solo kernel.kernelPml4) everySlot CleanEntry (readEntry kernel.phys.mem)
  nonzero : kernel.kernelPml4 ≠ 0
  active : kernel.activeMap = kernel.kernelPml4
  unmapped : ∀ address, hole.Contains address →
    hardwareWalk kernel.phys.mem kernel.kernelPml4 address = none
  base : hole.first ≤ kernel.range.baseAddress.toNat
  room : kernel.range.baseAddress.toNat + (roundedRequest heapSize).toNat ≤ hole.last

theorem clean_tidy {depth : Nat} {entry : PageEntry} (clean : CleanEntry depth entry) :
    TidyEntry depth entry := by
  rcases clean with blank | ⟨present, occupied | large⟩
  · rw [blank]
    exact blank_tidy depth
  · exact Or.inr (iff_of_true present occupied)
  · exact Or.inl large

/-- A clean entry that leads on or is a large page is present. -/
theorem clean_present {depth : Nat} {entry : PageEntry} (clean : CleanEntry depth entry)
    (used : entry.ppn ≠ 0 ∨ entry.z = true) : entry.p = true := by
  rcases clean with blank | ⟨present, _⟩
  · rw [blank] at used
    exact absurd used (by simp [blankEntry, PageEntry.z])
  · exact present

/-- Where the processor finds nothing, no large page is in the way. -/
theorem small_of_unmapped {mem : Memory} {root : Nat} {address : U64}
    (clean : EveryEntry (solo root) everySlot CleanEntry (readEntry mem))
    (unmapped : hardwareWalk mem root address = none) : SmallPages (readEntry mem) root address := by
  intro route table slot along below walked
  by_contra large
  rw [Bool.not_eq_false] at large
  obtain ⟨after, split⟩ := along
  revert unmapped clean walked large split
  unfold hardwareWalk tablePathOf
  dsimp only
  generalize readEntry mem = slots
  generalize splitVirtualAddressToStructure address = indexes
  intro clean unmapped walked large split
  have live : solo root root := rfl
  have present : ∀ route table slot, walk childTable slots 0 root route = some table →
      route.length < 3 → (slots table slot).ppn ≠ 0 ∨ (slots table slot).z = true →
      (slots table slot).p = true := by
    intro route table slot walked upper used
    have owned : ∀ route, Owned everySlot root route := fun route => by cases route <;> trivial
    exact clean_present (clean root route table slot ⟨live, owned route, walked⟩ (owned _) upper) used
  have linked : ∀ route table slot child, walk childTable slots 0 root route = some table →
      childTable route.length (slots table slot) = some child →
      (slots table slot).p = true ∧ (slots table slot).frame = child ∧
        ¬(0 < route.length ∧ (slots table slot).z = true) := by
    intro route table slot child walked next
    obtain ⟨same, upper, occupied, small⟩ := child_table_frame next
    exact ⟨present route table slot walked upper (Or.inl occupied), same.symm, small⟩
  match route, split, below with
  | [pml4], split, _ =>
      obtain ⟨samePml4, rest⟩ := List.cons.inj split
      obtain ⟨samePdp, _⟩ := List.cons.inj rest
      subst samePml4 samePdp
      obtain ⟨pml4p, frame, _⟩ := linked [] root indexes.pml4 table rfl (walk_snoc rfl walked)
      have pdpp := present [indexes.pml4] table indexes.pdp walked (by simp) (Or.inr large)
      rw [← frame] at large pdpp
      simp [pml4p, pdpp, large] at unmapped
  | [pml4, pdp], split, _ =>
      obtain ⟨samePml4, rest⟩ := List.cons.inj split
      obtain ⟨samePdp, last⟩ := List.cons.inj rest
      obtain ⟨samePd, _⟩ := List.cons.inj last
      subst samePml4 samePdp samePd
      obtain ⟨middle, before⟩ : ∃ middle,
          walk childTable slots 0 root [indexes.pml4] = some middle :=
        @walk_before root slots [indexes.pml4] [indexes.pdp] table walked
      obtain ⟨pml4p, pml4Frame, _⟩ := linked [] root indexes.pml4 middle rfl (walk_snoc rfl before)
      obtain ⟨pdpp, pdpFrame, small⟩ := linked [indexes.pml4] middle indexes.pdp table before
        (walk_snoc before walked)
      have pdp := present [indexes.pml4, indexes.pdp] table indexes.pd walked (by simp) (Or.inr large)
      have pdpSmall : (slots middle indexes.pdp).z = false := by simpa using small
      rw [← pdpFrame] at large pdp
      rw [← pml4Frame] at large pdp pdpp pdpSmall
      simp [pml4p, pdpp, pdpSmall, pdp, large] at unmapped
  | _ :: _ :: _ :: _, split, _ =>
      have lengths := congrArg List.length split
      simp at lengths

section Conversion

variable {kernelRoot : Nat} {slots : Nat → Slot → PageEntry}

/-- Before there are processes, the kernel owns every slot there is. -/
theorem boot_reaches {start table : Nat} {route : List Slot} :
    Reaches childTable (liveRoots kernelRoot []) (ownedSlots kernelRoot) slots start route table ↔
      Reaches childTable (solo kernelRoot) everySlot slots start route table := by
  have live : liveRoots kernelRoot [] start ↔ solo kernelRoot start := by
    simp [liveRoots, solo]
  constructor
  · rintro ⟨here, _, walked⟩
    exact ⟨live.mp here, by cases route <;> trivial, walked⟩
  · rintro ⟨here, _, walked⟩
    refine ⟨live.mpr here, ?_, walked⟩
    cases route with
    | nil => trivial
    | cons slot rest => exact Or.inl here

theorem boot_forest {state : PhysicalState} {blocks : List Span}
    (tables : TableForest (solo kernelRoot) everySlot state blocks) :
    TableForest (liveRoots kernelRoot []) (ownedSlots kernelRoot) state blocks where
  list := tables.list
  bounded := tables.bounded
  forest := by
    intro root path table root' path' first second
    exact tables.forest (boot_reaches.mp first) (boot_reaches.mp second)
  aligned := by
    intro root live
    exact tables.aligned root (by simpa [liveRoots, solo] using live)
  offList := fun root path table here =>
    tables.offList root path table (boot_reaches.mp here)

theorem boot_every {Holds : Nat → PageEntry → Prop}
    (every : EveryEntry (solo kernelRoot) everySlot Holds slots) :
    EveryEntry (liveRoots kernelRoot []) (ownedSlots kernelRoot) Holds slots := by
  intro root path table index here _ upper
  exact every root path table index (boot_reaches.mp here) (by cases path <;> trivial) upper

end Conversion

/-- The configuration the kernel starts from. -/
def bootConfig (booted : Kernel) (blocks : List Span) : Config where
  kernel := booted
  spaces := []
  blocks := blocks
  frontier := booted.range.baseAddress.toNat

section Initialized

variable {hole : Hole} {kernel booted : Kernel} {blocks : List Span}

theorem boot_leaf (boot : Boot hole kernel blocks) {address : U64} (inside : hole.Contains address) :
    liveLeaf (readEntry kernel.phys.mem) kernel.kernelPml4 address = none := by
  have tidy : EveryEntry (solo kernel.kernelPml4) everySlot TidyEntry (readEntry kernel.phys.mem) :=
    fun root path table index here owned upper =>
      clean_tidy (boot.clean root path table index here owned upper)
  have live : solo kernel.kernelPml4 kernel.kernelPml4 := rfl
  have unmapped := boot.unmapped address inside
  rcases walkers_of_leaf live trivial tidy (small_of_unmapped boot.clean unmapped) with
    ⟨missing, _⟩ | ⟨leaf, writable, _, walked, _⟩
  · exact missing
  · rw [unmapped] at walked
    exact absurd walked (by simp)

/-- The kernel may map pages outside the hole before it sets up its heap. -/
theorem boot_mapped {flags : MapFlags} {physicalAddress address : U64} {success : Bool}
    {phys : PhysicalState} {remaining : List Span} (boot : Boot hole kernel blocks)
    (present : flags.isPresent = true)
    (effect : Effect (solo kernel.kernelPml4) everySlot flags physicalAddress kernel.kernelPml4
      address kernel.phys blocks success phys remaining)
    (outside : ∀ target, hole.Contains target → pathOf target ≠ pathOf address) :
    Boot hole { kernel with phys } remaining := by
  have live : solo kernel.kernelPml4 kernel.kernelPml4 := rfl
  have clean : EveryEntry (solo kernel.kernelPml4) everySlot CleanEntry (readEntry phys.mem) := by
    refine effect.every boot.clean (fun _ => Or.inl rfl) ?_
    intro depth entry occupied _
    exact Or.inr ⟨present, Or.inl occupied⟩
  refine ⟨effect.tables, clean, boot.nonzero, boot.active, ?_, boot.base, boot.room⟩
  intro target inside
  have tidy : EveryEntry (solo kernel.kernelPml4) everySlot TidyEntry (readEntry phys.mem) :=
    fun root path table index here owned upper =>
      clean_tidy (clean root path table index here owned upper)
  have missing : liveLeaf (readEntry phys.mem) kernel.kernelPml4 target = none := by
    rw [effect.leaf_elsewhere live trivial fun all => outside target inside all.2.2]
    exact boot_leaf boot inside
  have small := small_of_unmapped boot.clean (boot.unmapped target inside)
  rcases walkers_of_leaf live trivial tidy (effect.small live trivial small) with
    ⟨_, walked, _⟩ | ⟨leaf, _, found, _⟩
  · exact walked
  · rw [missing] at found
    exact absurd found (by simp)

/-- The kernel's globals after `initialize_heap`. -/
structure HeapReserved (kernel booted : Kernel) : Prop where
  phys : booted.phys = kernel.phys
  root : booted.kernelPml4 = kernel.kernelPml4
  cr3 : booted.cr3 = kernel.cr3
  start : booted.heapStart = kernel.range.baseAddress
  break_ : booted.heapEnd = kernel.range.baseAddress
  base : booted.range.baseAddress.toNat =
    kernel.range.baseAddress.toNat + (roundedRequest heapSize).toNat

theorem initialize_heap_reserves (boot : Boot hole kernel blocks)
    (heap : initializeHeap kernel = some booted) : HeapReserved kernel booted := by
  have higher := hole.higher
  have bounded := hole.bounded
  have base := boot.base
  have room := boot.room
  have sum : (kernel.range.baseAddress + roundedRequest heapSize).toNat =
      kernel.range.baseAddress.toNat + (roundedRequest heapSize).toNat := by
    rw [BitVec.toNat_add]
    omega
  unfold initializeHeap at heap
  rcases allocate_kernel_cases kernel.range heapSize with ⟨_, halted⟩ | ⟨_, returned⟩
  · rw [halted] at heap
    exact absurd heap (by simp)
  · rw [returned, or_sign_bits (by omega)] at heap
    dsimp only at heap
    split_ifs at heap
    rw [← Option.some.inj heap]
    exact ⟨rfl, rfl, rfl, rfl, rfl, sum⟩

theorem boot_sound (boot : Boot hole kernel blocks) (heap : initializeHeap kernel = some booted) :
    Sound hole (bootConfig booted blocks) := by
  obtain ⟨phys, root, cr3, start, break_, top⟩ := initialize_heap_reserves boot heap
  have base := boot.base
  have room := boot.room
  have size : heapSize.toNat ≤ (roundedRequest heapSize).toNat := by decide
  have tables : TableForest (liveRoots booted.kernelPml4 []) (ownedSlots booted.kernelPml4)
      booted.phys blocks := by
    rw [phys, root]
    exact boot_forest boot.tables
  have tidy : EveryEntry (liveRoots booted.kernelPml4 []) (ownedSlots booted.kernelPml4) TidyEntry
      (readEntry booted.phys.mem) := by
    rw [phys, root]
    exact boot_every fun root path table index here owned upper =>
      clean_tidy (boot.clean root path table index here owned upper)
  have nonzero : ∀ found, liveRoots booted.kernelPml4 [] found → found ≠ 0 := by
    rintro found (kernel | member)
    · rw [kernel, root]
      exact boot.nonzero
    · exact absurd member List.not_mem_nil
  have small : ∀ address, hole.Contains address →
      SmallPages (readEntry booted.phys.mem) booted.kernelPml4 address := by
    intro address inside
    rw [phys, root]
    exact small_of_unmapped boot.clean (boot.unmapped address inside)
  have vacant : ∀ address, hole.Contains address →
      liveLeaf (readEntry booted.phys.mem) booted.kernelPml4 address = none := by
    intro address inside
    rw [phys, root]
    exact boot_leaf boot inside
  have active : booted.activeMap = booted.kernelPml4 := by
    have before := boot.active
    unfold Kernel.activeMap at before ⊢
    rw [cr3, root]
    exact before
  refine ⟨tables, tidy, nonzero, List.not_mem_nil, fun _ member => absurd member List.not_mem_nil,
    small, fun address inside _ => vacant address inside, active, ?_, ?_⟩
  · dsimp only [bootConfig]
    rw [start, break_, top]
    omega
  · dsimp only [bootConfig]
    rw [top]
    omega

theorem boot_settled (boot : Boot hole kernel blocks) (heap : initializeHeap kernel = some booted) :
    Settled hole (FreeAt blocks) (bootConfig booted blocks) := by
  obtain ⟨phys, root, _⟩ := initialize_heap_reserves boot heap
  have missing : ∀ {found address leaf}, Place hole booted.kernelPml4 [] found address →
      liveLeaf (readEntry booted.phys.mem) found address ≠ some leaf := by
    rintro found address leaf (⟨same, inside⟩ | ⟨member, _⟩) mapped
    · rw [same, phys, root, boot_leaf boot inside] at mapped
      exact absurd mapped (by simp)
    · exact absurd member List.not_mem_nil
  exact ⟨fun _ member => member, fun _ _ _ place found => absurd found (missing place),
    fun _ _ _ place found => absurd found (missing place),
    fun _ _ _ place found => absurd found (missing place),
    fun _ member => absurd member List.not_mem_nil⟩

end Initialized

/-! ### A machine with 128 GiB -/

def largeHole : Hole where
  first := 0xffff900000000000
  last := 0xffffffff80000000
  higher := by decide
  bounded := by decide

theorem blank_machine_unmapped (length : U64) (address : U64) :
    hardwareWalk (blankMachine length).mem 0x1000 address = none := by
  have blank := blank_machine_blank length (splitVirtualAddressToStructure address).pml4
  unfold hardwareWalk
  dsimp only
  rw [blank]
  simp only [blankEntry, Bool.not_false, if_true]

/-- The same machine with any amount of memory. -/
theorem blank_boot {length : U64} (aligned : length.toNat % 4096 = 0) (occupied : 0 < length.toNat)
    (bound : length.toNat ≤ 2 ^ 46) :
    Boot largeHole { largeKernel with phys := blankMachine length } [⟨0x2000, length.toNat⟩] where
  tables := blank_machine_forest aligned occupied bound
  clean := blank_machine_every length fun _ => Or.inl rfl
  nonzero := show largeKernel.kernelPml4 ≠ 0 by decide
  active := show (largeKernel.cr3 &&& 0xfffffffffffff000).toNat = largeKernel.kernelPml4 by decide
  unmapped := fun address _ => blank_machine_unmapped length address
  base := show largeHole.first ≤ largeKernel.range.baseAddress.toNat by decide
  room := show largeKernel.range.baseAddress.toNat + (roundedRequest heapSize).toNat ≤
    largeHole.last by decide

theorem large_boot : Boot largeHole largeKernel [⟨0x2000, 0x2000000000⟩] :=
  blank_boot (by decide) (by decide) (by decide)

theorem large_sound : Sound largeHole (bootConfig largeHeap [⟨0x2000, 0x2000000000⟩]) :=
  boot_sound large_boot large_heap_initialized

/-- The page of the direct map is outside the hole. -/
theorem direct_page_outside (address : U64) (inside : largeHole.Contains address) :
    pathOf address ≠ pathOf 0xffff800000001000 := by
  intro path
  have extended : SignExtended 0xffff800000001000 := Or.inr (by decide)
  have page := page_of_path inside.extended extended path
  have value : (0xffff800000001000 : U64).toNat = 0xffff800000001000 := rfl
  have first : 0xffff900000000000 ≤ address.toNat := inside.1
  omega

/-- 128 GiB whose kernel finds its top table through the direct map; the other entries of
that table are empty. -/
theorem direct_boot :
    ∃ phys blocks, Boot largeHole { largeKernel with phys } blocks ∧
      0x1000000000 ≤ freeBytes blocks ∧ phys.hhdm = 0xffff800000000000 ∧
      WritableTo (readEntry phys.mem) 0x1000 0xffff800000001000 0x1000 ∧
      ∀ slot : Slot, slot ≠ 256 → readEntry phys.mem 0x1000 slot = blankEntry := by
  have live : solo 0x1000 0x1000 := rfl
  have small := blank_root_small (blank_machine_blank 0x2000000000) 0xffff800000001000
  obtain ⟨success, phys, blocks, _, effect⟩ := @virtual_map_effect _ _ (BitVec.ofNat 64 0x1000) 0x1000
    _ _ heapFlags 0xffff800000001000 large_boot.tables live trivial small (by decide) (by decide)
    (by decide)
  obtain ⟨spent, starved⟩ := effect.supply
  have supply : freeBytes [⟨0x2000, 0x2000000000⟩] = 0x2000000000 := by decide
  have worked : success = true := by
    cases success with
    | true => rfl
    | false =>
        have few := (starved rfl).2
        omega
  subst worked
  refine ⟨phys, blocks, boot_mapped large_boot rfl effect direct_page_outside, by omega, effect.hhdm,
    writable_here effect rfl rfl live trivial (by decide) (by decide), ?_⟩
  intro slot other
  have top : Reached (solo 0x1000) everySlot largeKernel.phys 0x1000 [] 0x1000 :=
    ⟨live, trivial, rfl⟩
  rw [effect.kept top]
  · exact blank_machine_blank 0x2000000000 slot
  · rintro ⟨_, after, split⟩
    exact other (List.cons.inj split).1.symm

end KittyOs.BootState
