import KittyOs.KernelHole
import KittyOs.Translation

/-!
# Physical windows for uACPI

`uacpi_kernel_map` reserves kernel addresses for the length, drops the in-page
offset of the physical address, maps as many pages as it reserved and returns the
start of the reservation. The window shows the requested bytes exactly when the
physical address was aligned and the window is shorter than the 2^48 bytes after
which page-table paths repeat.
-/

namespace KittyOs.UacpiMap

open KittyOs.MachineWord KittyOs.PageTable KittyOs.PhysicalModel
open KittyOs.VirtualModel KittyOs.PageForest KittyOs.VirtualMapping KittyOs.MapEffect
open KittyOs.KernelModel KittyOs.KernelHole KittyOs.Translation

set_option autoImplicit false

def windowFlags : MapFlags where
  isReadWrite := true
  disableExecution := false
  isSupervisor := true
  pageWriteThrough := false
  pageCacheDisable := false
  pageAttributeTable := false
  protectionKeys := 0
  isPresent := true

/-- The first rounds of the loop. The results of `virtual_map`, which the source
drops, are kept beside the state. -/
def mapWindow (pageMap : Nat) (addr virtualAddress : U64) (state : PhysicalState) :
    Nat → Option (List Bool × PhysicalState)
  | 0 => some ([], state)
  | i + 1 =>
      match mapWindow pageMap addr virtualAddress state i with
      | none => none
      | some (results, state) =>
          (virtualMap state pageMap (addr + BitVec.ofNat 64 i * 4096)
            (virtualAddress + BitVec.ofNat 64 i * 4096) windowFlags).map
              fun outcome => (results ++ [outcome.1], outcome.2)

/-- The returned pointer, the results of the `virtual_map` calls and the kernel. -/
def uacpiKernelMap (kernel : Kernel) (addr len : U64) : Option (U64 × List Bool × Kernel) :=
  match allocateVirtualMemoryKernel kernel.range len with
  | none => none
  | some (virtualAddress, range) =>
      let addr := addr &&& 0xfffffffffffff000
      let alignedSize := (len + 4096) &&& pageMask
      (mapWindow kernel.kernelPml4 addr virtualAddress kernel.phys (alignedSize / 4096).toNat).map
        fun outcome => (virtualAddress, outcome.1, { kernel with range, phys := outcome.2 })

/-- The window at `pointer` shows the bytes from `addr` on. -/
def ShowsWindow (kernel : Kernel) (pointer addr len : U64) : Prop :=
  ∀ i, i < len.toNat → virtualToPhysical kernel.phys.mem kernel.kernelPml4
    (pointer + BitVec.ofNat 64 i) = (true, addr + BitVec.ofNat 64 i)

theorem virtual_map_canonical {state other : PhysicalState} {root : Nat}
    {physicalAddress virtualAddress : U64} {flags : MapFlags}
    (run : virtualMap state root physicalAddress virtualAddress flags = some (true, other)) :
    isCanonical virtualAddress = true := by
  unfold virtualMap at run
  split_ifs at run with _ _ canonical
  · simp at run
  · simpa using canonical

section Loop

variable {root : Nat} {addr pointer : U64} {start : PhysicalState}

/-- The address of round `i`, physical or virtual. -/
def pageAt (base : U64) (i : Nat) : U64 := base + BitVec.ofNat 64 i * 4096

/-- What holds after some rounds that all succeeded: a page shows its frame unless a
later round had the same path. -/
structure WindowState (root : Nat) (addr pointer : U64) (pages rounds : Nat)
    (state : PhysicalState) : Prop where
  tables : ∃ blocks, TableForest (solo root) everySlot state blocks
  tidy : EveryEntry (solo root) everySlot TidyEntry (readEntry state.mem)
  small : ∀ i, i < pages → SmallPages (readEntry state.mem) root (pageAt pointer i)
  canonical : ∀ i, i < rounds → isCanonical (pageAt pointer i) = true
  aligned : ∀ i, i < rounds → pageAt addr i % 4096 = 0 ∧ pageAt pointer i % 4096 = 0
  leaves : ∀ i, i < rounds → (∀ j, i < j → j < rounds →
      pathOf (pageAt pointer j) ≠ pathOf (pageAt pointer i)) →
    ∃ leaf, liveLeaf (readEntry state.mem) root (pageAt pointer i) = some leaf ∧
      leaf.ppn = (pageAt addr i >>> 12).setWidth 40

theorem window_round {pages rounds : Nat} {state other : PhysicalState}
    (window : WindowState root addr pointer pages rounds state) (inside : rounds < pages)
    (run : virtualMap state root (pageAt addr rounds) (pageAt pointer rounds) windowFlags =
      some (true, other)) :
    WindowState root addr pointer pages (rounds + 1) other := by
  obtain ⟨blocks, tables⟩ := window.tables
  obtain ⟨physicalAligned, virtualAligned⟩ := virtual_map_aligned run
  have canonical := virtual_map_canonical run
  obtain ⟨success, after, remaining, ran, effect⟩ := virtual_map_effect windowFlags tables rfl
    trivial (window.small rounds inside) physicalAligned virtualAligned canonical
  rw [run, Option.some.injEq, Prod.mk.injEq] at ran
  obtain ⟨rfl, rfl⟩ := ran
  refine ⟨⟨remaining, effect.tables⟩, ?_, ?_, ?_, ?_, ?_⟩
  · apply effect.every window.tidy blank_tidy
    intro depth entry occupied _
    exact Or.inr (iff_of_true rfl occupied)
  · intro i bound
    exact effect.small rfl trivial (window.small i bound)
  · intro i bound
    rcases Nat.lt_succ_iff_lt_or_eq.mp bound with earlier | same
    · exact window.canonical i earlier
    · rw [same]
      exact canonical
  · intro i bound
    rcases Nat.lt_succ_iff_lt_or_eq.mp bound with earlier | same
    · exact window.aligned i earlier
    · rw [same]
      exact ⟨physicalAligned, virtualAligned⟩
  · intro i bound last
    rcases Nat.lt_succ_iff_lt_or_eq.mp bound with earlier | same
    · obtain ⟨leaf, found, number⟩ := window.leaves i earlier fun j lower upper =>
        last j lower (by omega)
      refine ⟨leaf, ?_, number⟩
      rw [effect.leaf_elsewhere rfl trivial]
      · exact found
      · intro all
        exact last rounds earlier (Nat.lt_succ_self _) all.2.2.symm
    · rw [same]
      obtain ⟨entry, found⟩ := effect.leaf_here rfl
      exact ⟨_, found, rfl⟩

theorem map_window_state {pages rounds : Nat} {results : List Bool} {state : PhysicalState}
    (begins : WindowState root addr pointer pages 0 start) (inside : rounds ≤ pages)
    (run : mapWindow root addr pointer start rounds = some (results, state))
    (succeeded : ∀ result ∈ results, result = true) :
    WindowState root addr pointer pages rounds state := by
  induction rounds generalizing results state with
  | zero =>
      rw [mapWindow, Option.some.injEq, Prod.mk.injEq] at run
      rw [← run.2]
      exact begins
  | succ rounds ih =>
      rw [mapWindow] at run
      cases earlier : mapWindow root addr pointer start rounds with
      | none =>
          rw [earlier] at run
          exact absurd run (by simp)
      | some outcome =>
          obtain ⟨before, middle⟩ := outcome
          rw [earlier] at run
          obtain ⟨⟨success, last⟩, mapped, shape⟩ := Option.map_eq_some_iff.mp run
          rw [Prod.mk.injEq] at shape
          have everyResult : ∀ result ∈ before ++ [success], result = true := by
            rw [shape.1]
            exact succeeded
          have worked : success = true := everyResult success (by simp)
          rw [worked] at mapped
          rw [← shape.2]
          exact window_round (ih (by omega) earlier fun result member =>
            everyResult result (by simp [member])) (by omega) mapped

theorem page_at_to_nat (base : U64) (i : Nat) :
    (pageAt base i).toNat = (base.toNat + i * 4096) % 2 ^ 64 := by
  have size : (4096 : U64).toNat = 4096 := rfl
  rw [pageAt, BitVec.toNat_add, BitVec.toNat_mul, BitVec.toNat_ofNat, size]
  omega

/-- A page that no later round took away is shown byte by byte. -/
theorem window_page_shown {pages i : Nat} {state : PhysicalState}
    (window : WindowState root addr pointer pages pages state) (inside : i < pages)
    (last : ∀ j, i < j → j < pages → pathOf (pageAt pointer j) ≠ pathOf (pageAt pointer i))
    (bound : (pageAt addr i).toNat < 2 ^ 52) {address : U64}
    (path : pathOf address = pathOf (pageAt pointer i)) (canonical : isCanonical address = true) :
    virtualToPhysical state.mem root address =
      (true, pageAt addr i + BitVec.ofNat 64 (address.toNat % 4096)) := by
  obtain ⟨leaf, found, number⟩ := window.leaves i inside last
  rw [← live_leaf_path path] at found
  have live : solo root root := rfl
  have owned : everySlot root (splitVirtualAddressToStructure address).pml4 := trivial
  rcases walkers_of_leaf live owned window.tidy
    (small_pages_path path.symm (window.small i inside)) with
    ⟨unmapped, _⟩ | ⟨entry, _, mapped, _, translated, _⟩
  · rw [unmapped] at found
    exact absurd found (by simp)
  · rw [found, Option.some.injEq] at mapped
    rw [translated canonical, ← mapped, VirtualMapping.translate,
      assemble_address (window.aligned i inside).1 bound number, split_offset_to_nat]

end Loop

section Window

variable {kernel after : Kernel} {addr len pointer : U64} {results : List Bool}

/-- The page map a window is added to: tables apart from the free list, tidy, and no
large page where the window will be. -/
structure WindowReady (kernel : Kernel) (len : U64) : Prop where
  tables : ∃ blocks, TableForest (solo kernel.kernelPml4) everySlot kernel.phys blocks
  tidy : EveryEntry (solo kernel.kernelPml4) everySlot TidyEntry (readEntry kernel.phys.mem)
  small : ∀ i, i < (roundedRequest len).toNat / 4096 →
    SmallPages (readEntry kernel.phys.mem) kernel.kernelPml4
      (pageAt (kernel.range.baseAddress ||| 0xffff000000000000) i)

theorem uacpi_window (ready : WindowReady kernel len)
    (run : uacpiKernelMap kernel addr len = some (pointer, results, after))
    (succeeded : ∀ result ∈ results, result = true) :
    after.kernelPml4 = kernel.kernelPml4 ∧ 0xffff000000000000 ≤ pointer.toNat ∧
      WindowState kernel.kernelPml4 (alignDown addr) pointer ((roundedRequest len).toNat / 4096)
        ((roundedRequest len).toNat / 4096) after.phys := by
  unfold uacpiKernelMap at run
  rcases allocate_kernel_cases kernel.range len with ⟨_, halted⟩ | ⟨_, returned⟩
  · rw [halted] at run
    exact absurd run (by simp)
  · rw [returned] at run
    obtain ⟨⟨outcomes, phys⟩, mapped, shape⟩ := Option.map_eq_some_iff.mp run
    simp only [Prod.mk.injEq] at shape
    obtain ⟨samePointer, sameResults, sameKernel⟩ := shape
    have pages : (((len + 4096) &&& pageMask) / 4096).toNat = (roundedRequest len).toNat / 4096 :=
      rfl
    have mask : addr &&& 0xfffffffffffff000 = alignDown addr := rfl
    rw [pages, mask] at mapped
    rw [← samePointer, ← sameKernel]
    refine ⟨rfl, ?_, ?_⟩
    · rw [BitVec.toNat_or]
      exact Nat.right_le_or
    · apply map_window_state _ (Nat.le_refl _) mapped
      · rw [sameResults]
        exact succeeded
      · exact ⟨ready.tables, ready.tidy, ready.small, by omega, by omega, by omega⟩

theorem window_pages (bound : addr.toNat + len.toNat < 2 ^ 52) :
    (roundedRequest len).toNat / 4096 = len.toNat / 4096 + 1 := by
  have sum : (len + 4096).toNat = len.toNat + 4096 := by bv_omega
  rw [roundedRequest, page_mask_to_nat, sum]
  omega

/-- Of the rounds that share the path of the first, the last decides. -/
theorem first_page_shown (bound : addr.toNat + len.toNat < 2 ^ 52)
    (higher : 0xffff000000000000 ≤ pointer.toNat)
    {state : PhysicalState} {root : Nat}
    (window : WindowState root (alignDown addr) pointer ((roundedRequest len).toNat / 4096)
      ((roundedRequest len).toNat / 4096) state) :
    virtualToPhysical state.mem root pointer =
      (true, pageAt (alignDown addr) (len.toNat / 4096 / 2 ^ 36 * 2 ^ 36)) := by
  have pages := window_pages bound
  rw [pages] at window
  have down := align_down_to_nat addr
  have first := (window.aligned 0 (by omega)).2
  have start : pageAt pointer 0 = pointer := by simp [pageAt]
  rw [start] at first
  have whole := (page_offset_to_nat first (show 0 < 4096 by omega)).1
  have path : pathOf pointer = pathOf (pageAt pointer (len.toNat / 4096 / 2 ^ 36 * 2 ^ 36)) := by
    rw [path_eq_iff, page_at_to_nat]
    omega
  have last : ∀ j, len.toNat / 4096 / 2 ^ 36 * 2 ^ 36 < j → j < len.toNat / 4096 + 1 →
      pathOf (pageAt pointer j) ≠ pathOf (pageAt pointer (len.toNat / 4096 / 2 ^ 36 * 2 ^ 36)) := by
    intro j lower upper
    rw [Ne, path_eq_iff, page_at_to_nat, page_at_to_nat]
    omega
  have low : (pageAt (alignDown addr) (len.toNat / 4096 / 2 ^ 36 * 2 ^ 36)).toNat < 2 ^ 52 := by
    rw [page_at_to_nat, down]
    omega
  have canonical : isCanonical pointer = true := by
    rw [is_canonical_iff]
    omega
  rw [window_page_shown window (by omega) last low path canonical, whole, BitVec.add_zero]

/-- The first byte of the window tells whether it is the right one. -/
theorem shown_window_aligned (ready : WindowReady kernel len) (positive : 1 ≤ len.toNat)
    (bound : addr.toNat + len.toNat < 2 ^ 52)
    (run : uacpiKernelMap kernel addr len = some (pointer, results, after))
    (succeeded : ∀ result ∈ results, result = true) (shows : ShowsWindow after pointer addr len) :
    addr.toNat % 4096 = 0 ∧ len.toNat < 2 ^ 48 := by
  obtain ⟨sameRoot, higher, window⟩ := uacpi_window ready run succeeded
  have down := align_down_to_nat addr
  have first := shows 0 (by omega)
  rw [sameRoot, BitVec.add_zero, BitVec.add_zero, first_page_shown bound higher window,
    Prod.mk.injEq] at first
  have value := congrArg BitVec.toNat first.2
  rw [page_at_to_nat, down] at value
  omega

theorem aligned_window_shown (ready : WindowReady kernel len)
    (bound : addr.toNat + len.toNat < 2 ^ 52)
    (run : uacpiKernelMap kernel addr len = some (pointer, results, after))
    (succeeded : ∀ result ∈ results, result = true) (aligned : addr.toNat % 4096 = 0)
    (short : len.toNat < 2 ^ 48) : ShowsWindow after pointer addr len := by
  obtain ⟨sameRoot, higher, window⟩ := uacpi_window ready run succeeded
  have pages := window_pages bound
  have down := align_down_to_nat addr
  unfold ShowsWindow
  rw [sameRoot]
  intro i inside
  rw [pages] at window
  have first := (window.aligned 0 (by omega)).2
  have start : pageAt pointer 0 = pointer := by simp [pageAt]
  rw [start] at first
  have whole := (page_offset_to_nat first (show 0 < 4096 by omega)).1
  have pointerBound := pointer.isLt
  have moved : (pointer + BitVec.ofNat 64 i).toNat = (pointer.toNat + i) % 2 ^ 64 := by
    rw [BitVec.toNat_add, of_nat_to_nat (by omega)]
  have canonical : isCanonical (pointer + BitVec.ofNat 64 i) = true := by
    have page := window.canonical (i / 4096) (by omega)
    rw [is_canonical_iff, page_at_to_nat] at page
    rw [is_canonical_iff, moved]
    omega
  have path : pathOf (pointer + BitVec.ofNat 64 i) = pathOf (pageAt pointer (i / 4096)) := by
    rw [path_eq_iff, page_at_to_nat, moved]
    omega
  have last : ∀ j, i / 4096 < j → j < len.toNat / 4096 + 1 →
      pathOf (pageAt pointer j) ≠ pathOf (pageAt pointer (i / 4096)) := by
    intro j lower upper
    rw [Ne, path_eq_iff, page_at_to_nat, page_at_to_nat]
    omega
  have low : (pageAt (alignDown addr) (i / 4096)).toNat < 2 ^ 52 := by
    rw [page_at_to_nat, down]
    omega
  rw [window_page_shown window (by omega) last low path canonical, moved]
  congr 1
  apply BitVec.eq_of_toNat_eq
  rw [BitVec.toNat_add, page_at_to_nat, down, BitVec.toNat_add, BitVec.toNat_ofNat,
    BitVec.toNat_ofNat]
  omega

/-- A window that was mapped without a failure shows the requested bytes exactly when
the physical address is page aligned and the length is below 2^48. -/
theorem window_shown_iff_aligned (ready : WindowReady kernel len) (positive : 1 ≤ len.toNat)
    (bound : addr.toNat + len.toNat < 2 ^ 52)
    (run : uacpiKernelMap kernel addr len = some (pointer, results, after))
    (succeeded : ∀ result ∈ results, result = true) :
    ShowsWindow after pointer addr len ↔ addr.toNat % 4096 = 0 ∧ len.toNat < 2 ^ 48 := by
  constructor
  · exact shown_window_aligned ready positive bound run succeeded
  · rintro ⟨aligned, short⟩
    exact aligned_window_shown ready bound run succeeded aligned short

end Window

/-- The small machine with the kernel's addresses from 0xffff900000000000 on. -/
def smallKernel : Kernel where
  phys := smallMachine
  range := ⟨0xffff900000000000, 0x6fff80000000⟩
  kernelPml4 := 0x1000
  heapStart := 0
  heapEnd := 0
  cr3 := 0x1000

theorem small_kernel_ready (len : U64) : WindowReady smallKernel len where
  tables := ⟨_, small_machine_forest⟩
  tidy := blank_machine_every 0x8000 blank_tidy
  small := fun _ _ => blank_root_small small_machine_blank _

theorem small_kernel_maps (addr : U64) :
    ∃ after, uacpiKernelMap smallKernel addr 0x24 =
      some (0xffff900000000000, [true], after) := by
  have aligned : (addr &&& 0xfffffffffffff000) + BitVec.ofNat 64 0 * 4096 = alignDown addr := by
    rw [show BitVec.ofNat 64 0 * 4096 = 0#64 by decide, BitVec.add_zero]
    rfl
  have physicalAligned : alignDown addr % 4096 = 0 := by
    apply BitVec.eq_of_toNat_eq
    have down := align_down_to_nat addr
    rw [BitVec.toNat_umod, down]
    simp
  have live : solo 0x1000 0x1000 := rfl
  obtain ⟨success, other, remaining, run, effect⟩ := virtual_map_effect windowFlags
    small_machine_forest live trivial
    (blank_root_small small_machine_blank 0xffff900000000000) physicalAligned
    (show (0xffff900000000000 : U64) % 4096 = 0 by decide) (by decide)
  have worked : success = true := by
    cases success with
    | true => rfl
    | false => exact absurd (effect.supply.2 rfl).2 (by decide)
  rw [worked] at run
  refine ⟨⟨other, ⟨0xffff900000001000, 0x6fff80000000⟩, 0x1000, 0, 0, 0x1000⟩, ?_⟩
  have reserved : allocateVirtualMemoryKernel ⟨0xffff900000000000, 0x6fff80000000⟩ 0x24 =
      some (0xffff900000000000, ⟨0xffff900000001000, 0x6fff80000000⟩) := by decide
  have one : (((0x24 : U64) + 4096 &&& pageMask) / 4096).toNat = 1 := by decide
  have first : (0xffff900000000000 : U64) + BitVec.ofNat 64 0 * 4096 = 0xffff900000000000 := by
    decide
  simp only [uacpiKernelMap, reserved, one, mapWindow, aligned, first, smallKernel, run,
    Option.map_some, List.nil_append]

theorem aligned_table_shown :
    ∃ after, uacpiKernelMap smallKernel 0x7fe000 0x24 = some (0xffff900000000000, [true], after) ∧
      ShowsWindow after 0xffff900000000000 0x7fe000 0x24 := by
  obtain ⟨after, run⟩ := small_kernel_maps 0x7fe000
  exact ⟨after, run, (window_shown_iff_aligned (small_kernel_ready _) (by decide) (by decide) run
    (by simp)).mpr (by decide)⟩

/-- A table at 0x7fe1f4 is not found at the pointer returned for it. -/
theorem unaligned_table_not_shown :
    WindowReady smallKernel 0x24 ∧
      ∃ after, uacpiKernelMap smallKernel 0x7fe1f4 0x24 =
          some (0xffff900000000000, [true], after) ∧
        ¬ShowsWindow after 0xffff900000000000 0x7fe1f4 0x24 := by
  obtain ⟨after, run⟩ := small_kernel_maps 0x7fe1f4
  refine ⟨small_kernel_ready _, after, run, ?_⟩
  intro shows
  have aligned := (shown_window_aligned (small_kernel_ready _) (by decide) (by decide) run
    (by simp) shows).1
  exact absurd aligned (by decide)

end KittyOs.UacpiMap
