import KittyOs.KernelHole
import KittyOs.Translation

/-!
# The program break

`sbrk` rounds its argument up, `expand_heap` compares the new break with the end
of the reservation and then maps the pages one by one. The comparison is made
modulo 2^64 while the heap lies at the top of the address space, so a request
that reaches around the end of it passes. Calls that do not wrap keep the break
inside the reservation at every round.
-/

namespace KittyOs.HeapBounds

open KittyOs.Lib.BoundedLoop
open KittyOs.MachineWord KittyOs.PageTable KittyOs.PhysicalModel KittyOs.PhysicalFreelist
open KittyOs.VirtualModel KittyOs.PageForest KittyOs.VirtualMapping KittyOs.MapEffect
open KittyOs.KernelModel KittyOs.KernelHole

set_option autoImplicit false

/-- The break lies in the reservation. -/
def InReservation (kernel : Kernel) : Prop :=
  kernel.heapStart.toNat ≤ kernel.heapEnd.toNat ∧
    kernel.heapEnd.toNat ≤ kernel.heapStart.toNat + heapSize.toNat

/-- The argument of a call, rounded up to whole pages. -/
def roundedUp (size : U64) : Nat := (size.toNat + 4095) / 4096 * 4096

/-- A state in which the page-mapping loop of a call stands between two rounds. -/
def LoopState (kernel : Kernel) (size : U64) (state : Kernel) : Prop :=
  size.slt 0 = false ∧ pageCountOf size > 0 ∧
    ¬kernel.heapEnd + pageCountOf size * 4096 > kernel.heapStart + heapSize ∧
    ∃ round, round ≤ (pageCountOf size).toNat ∧
      loop expandHeapPage round kernel = some (true, state)

structure CallSound (kernel : Kernel) (size : U64) : Prop where
  bounds : InReservation kernel
  rounds : ∀ state, LoopState kernel size state → InReservation state
  negative : size.slt 0 = true → sbrk kernel size = some (-1, kernel)
  advances : size.slt 0 = false → ∀ result after, sbrk kernel size = some (result, after) →
    result = kernel.heapEnd ∧ after.heapStart = kernel.heapStart ∧
      after.heapEnd.toNat = kernel.heapEnd.toNat + roundedUp size

/-- Every call of a sequence is sound; a halt ends it. -/
def HeapSound : Kernel → List U64 → Prop
  | kernel, [] => InReservation kernel
  | kernel, size :: rest =>
      CallSound kernel size ∧
        ∀ result after, sbrk kernel size = some (result, after) → HeapSound after rest

/-- No request reaches around the end of the address space. -/
def NoWrap : Kernel → List U64 → Prop
  | _, [] => True
  | kernel, size :: rest =>
      (size.slt 0 = true ∨ kernel.heapEnd.toNat + roundedUp size < 2 ^ 64) ∧
        ∀ result after, sbrk kernel size = some (result, after) → NoWrap after rest

theorem heap_size_to_nat : heapSize.toNat = 2 ^ 34 := by decide

theorem map_fresh_page_heap {kernel next : Kernel} {address : U64}
    (ran : mapFreshPage kernel address = some next) :
    next.heapStart = kernel.heapStart ∧ next.heapEnd = kernel.heapEnd := by
  unfold mapFreshPage at ran
  split at ran
  split_ifs at ran
  split at ran
  · rw [Option.some.injEq] at ran
    rw [← ran]
    exact ⟨rfl, rfl⟩
  · exact absurd ran (by simp)

theorem expand_heap_page_heap {kernel next : Kernel} {again : Bool}
    (ran : expandHeapPage kernel = some (again, next)) :
    again = true ∧ next.heapStart = kernel.heapStart ∧ next.heapEnd = kernel.heapEnd + 4096 := by
  unfold expandHeapPage at ran
  cases mapped : mapFreshPage kernel kernel.heapEnd with
  | none =>
      rw [mapped] at ran
      exact absurd ran (by simp)
  | some middle =>
      rw [mapped] at ran
      obtain ⟨sameStart, sameEnd⟩ := map_fresh_page_heap mapped
      simp only [Option.some.injEq, Prod.mk.injEq] at ran
      rw [← ran.2]
      exact ⟨ran.1.symm, sameStart, by rw [← sameEnd]⟩

/-- A round moves the break by one page; no round leaves the loop. -/
theorem expand_heap_rounds {kernel state : Kernel} {rounds : Nat} {again : Bool}
    (ran : loop expandHeapPage rounds kernel = some (again, state)) :
    again = true ∧ state.heapStart = kernel.heapStart ∧
      state.heapEnd = kernel.heapEnd + BitVec.ofNat 64 (rounds * 4096) := by
  induction rounds generalizing kernel with
  | zero =>
      rw [loop_done, Option.some.injEq, Prod.mk.injEq] at ran
      rw [← ran.1, ← ran.2]
      simp
  | succ rounds ih =>
      rcases loop_first ran with ⟨next, left, _⟩ | ⟨next, went, later⟩
      · exact absurd (expand_heap_page_heap left).1 (by simp)
      · obtain ⟨_, sameStart, moved⟩ := expand_heap_page_heap went
        obtain ⟨goes, laterStart, laterEnd⟩ := ih later
        refine ⟨goes, laterStart.trans sameStart, ?_⟩
        rw [laterEnd, moved]
        apply BitVec.eq_of_toNat_eq
        have page : (4096 : U64).toNat = 4096 := rfl
        simp only [BitVec.toNat_add, BitVec.toNat_ofNat, page]
        omega

theorem nonnegative_bound {size : U64} (positive : size.slt 0 = false) : size.toNat < 2 ^ 63 := by
  rw [show (0 : U64) = 0#64 from rfl, BitVec.slt_zero_eq_msb,
    BitVec.msb_eq_false_iff_two_mul_lt] at positive
  omega

/-- Where nothing overflows the page count is the rounded size in pages. -/
theorem page_count_exact {size : U64} (small : size.toNat + 4095 < 2 ^ 63) :
    (pageCountOf size).toNat * 4096 = roundedUp size := by
  have sum : (size + 4096 - 1).toNat = size.toNat + 4095 := by bv_omega
  have aligned : (alignedSize size).toNat = roundedUp size := by
    rw [alignedSize, page_mask_to_nat, sum, roundedUp]
  have msb : (alignedSize size).msb = false := by
    rw [BitVec.msb_eq_false_iff_two_mul_lt, aligned, roundedUp]
    omega
  have divisor : (4096 : U64).msb = false := by decide
  have page : (4096 : U64).toNat = 4096 := rfl
  rw [pageCountOf, BitVec.sdiv_eq, msb, divisor]
  dsimp only
  rw [BitVec.udiv_eq, BitVec.toNat_udiv, aligned, page, roundedUp]
  omega

/-- The reservation in the higher half that `initialize_heap` makes. -/
def HigherReservation (kernel : Kernel) : Prop :=
  0xffff000000000000 ≤ kernel.heapStart.toNat ∧
    kernel.heapStart.toNat + heapSize.toNat < 2 ^ 64

section Call

variable {kernel : Kernel} {size : U64}

/-- The states of the loop of a call that does not wrap. -/
theorem loop_state_bounds (higher : HigherReservation kernel) (bounds : InReservation kernel)
    (noWrap : kernel.heapEnd.toNat + roundedUp size < 2 ^ 64) {state : Kernel}
    (here : LoopState kernel size state) : InReservation state := by
  obtain ⟨positive, _, passed, rounds, within, ran⟩ := here
  obtain ⟨_, sameStart, moved⟩ := expand_heap_rounds ran
  have sizeBound := nonnegative_bound positive
  have heap := heap_size_to_nat
  unfold HigherReservation at higher
  unfold InReservation at bounds ⊢
  have small : size.toNat + 4095 < 2 ^ 63 := by
    unfold roundedUp at noWrap
    omega
  have count := page_count_exact small
  have page : (4096 : U64).toNat = 4096 := rfl
  rw [gt_iff_lt, BitVec.lt_def, BitVec.toNat_add, BitVec.toNat_add, BitVec.toNat_mul,
    page] at passed
  rw [sameStart, moved, BitVec.toNat_add, BitVec.toNat_ofNat]
  omega

theorem sbrk_cases (kernel : Kernel) (size : U64) :
    (size.slt 0 = true ∧ sbrk kernel size = some (-1, kernel)) ∨
      (size.slt 0 = false ∧ pageCountOf size = 0 ∧ sbrk kernel size = some (kernel.heapEnd, kernel)) ∨
      (size.slt 0 = false ∧ pageCountOf size > 0 ∧
        ((kernel.heapEnd + pageCountOf size * 4096 > kernel.heapStart + heapSize ∧
            sbrk kernel size = none) ∨
          (¬kernel.heapEnd + pageCountOf size * 4096 > kernel.heapStart + heapSize ∧
            sbrk kernel size = (loop expandHeapPage (pageCountOf size).toNat kernel).map
              fun outcome => (kernel.heapEnd, outcome.2)))) := by
  unfold sbrk expandHeap
  cases negative : size.slt 0 with
  | true => exact Or.inl ⟨rfl, rfl⟩
  | false =>
      right
      by_cases some : pageCountOf size > 0
      · right
        refine ⟨rfl, some, ?_⟩
        simp only [Bool.false_eq_true, if_false, if_pos some]
        by_cases beyond : kernel.heapEnd + pageCountOf size * 4096 > kernel.heapStart + heapSize
        · exact Or.inl ⟨beyond, by rw [if_pos beyond]; rfl⟩
        · refine Or.inr ⟨beyond, ?_⟩
          rw [if_neg beyond, Option.map_map]
          rfl
      · left
        refine ⟨rfl, ?_, ?_⟩
        · bv_omega
        · simp only [Bool.false_eq_true, if_false, if_neg some]

/-- How a call that does not wrap ends. -/
theorem sbrk_advances (higher : HigherReservation kernel) (bounds : InReservation kernel)
    (positive : size.slt 0 = false) (noWrap : kernel.heapEnd.toNat + roundedUp size < 2 ^ 64)
    {result : U64} {after : Kernel} (ran : sbrk kernel size = some (result, after)) :
    result = kernel.heapEnd ∧ after.heapStart = kernel.heapStart ∧
      after.heapEnd.toNat = kernel.heapEnd.toNat + roundedUp size ∧ InReservation after := by
  have small : size.toNat + 4095 < 2 ^ 63 := by
    unfold HigherReservation at higher
    unfold InReservation at bounds
    unfold roundedUp at noWrap
    omega
  have count := page_count_exact small
  rcases sbrk_cases kernel size with ⟨negative, _⟩ | ⟨_, none, run⟩ |
    ⟨_, some, ⟨_, run⟩ | ⟨passed, run⟩⟩
  · rw [positive] at negative
    exact absurd negative (by simp)
  · rw [run, Option.some.injEq, Prod.mk.injEq] at ran
    have zero : (pageCountOf size).toNat = 0 := by rw [none]; rfl
    rw [← ran.1, ← ran.2]
    exact ⟨rfl, rfl, by omega, bounds⟩
  · rw [run] at ran
    exact absurd ran (by simp)
  · rw [run] at ran
    obtain ⟨⟨again, state⟩, looped, shape⟩ := Option.map_eq_some_iff.mp ran
    rw [Prod.mk.injEq] at shape
    obtain ⟨goes, sameStart, moved⟩ := expand_heap_rounds looped
    rw [goes] at looped
    have inside := loop_state_bounds higher bounds noWrap
      ⟨positive, some, passed, _, Nat.le_refl _, looped⟩
    rw [← shape.1, ← shape.2]
    refine ⟨rfl, sameStart, ?_, inside⟩
    dsimp only
    rw [moved, BitVec.toNat_add, BitVec.toNat_ofNat]
    omega

theorem call_sound (higher : HigherReservation kernel) (bounds : InReservation kernel)
    (noWrap : size.slt 0 = true ∨ kernel.heapEnd.toNat + roundedUp size < 2 ^ 64) :
    CallSound kernel size ∧ ∀ result after, sbrk kernel size = some (result, after) →
      HigherReservation after ∧ InReservation after := by
  have negativeRun : size.slt 0 = true → sbrk kernel size = some (-1, kernel) := by
    intro negative
    simp only [sbrk, negative, if_true]
  cases negative : size.slt 0 with
  | true =>
      have run := negativeRun negative
      refine ⟨⟨bounds, ?_, negativeRun, ?_⟩, ?_⟩
      · intro state here
        rw [here.1] at negative
        exact absurd negative (by simp)
      · intro positive
        rw [positive] at negative
        exact absurd negative (by simp)
      · intro result after ran
        rw [run, Option.some.injEq, Prod.mk.injEq] at ran
        rw [← ran.2]
        exact ⟨higher, bounds⟩
  | false =>
      have fits := noWrap.resolve_left (by rw [negative]; simp)
      refine ⟨⟨bounds, fun state => loop_state_bounds higher bounds fits, negativeRun, ?_⟩, ?_⟩
      · intro _ result after ran
        obtain ⟨old, sameStart, moved, _⟩ := sbrk_advances higher bounds negative fits ran
        exact ⟨old, sameStart, moved⟩
      · intro result after ran
        obtain ⟨_, sameStart, _, inside⟩ := sbrk_advances higher bounds negative fits ran
        refine ⟨?_, inside⟩
        unfold HigherReservation at higher ⊢
        rw [sameStart]
        exact higher

end Call

theorem heap_sound_of_no_wrap {kernel : Kernel} {sizes : List U64}
    (higher : HigherReservation kernel) (bounds : InReservation kernel)
    (noWrap : NoWrap kernel sizes) : HeapSound kernel sizes := by
  induction sizes generalizing kernel with
  | nil => exact bounds
  | cons size sizes ih =>
      obtain ⟨sound, kept⟩ := call_sound higher bounds noWrap.1
      refine ⟨sound, ?_⟩
      intro result after ran
      obtain ⟨laterHigher, laterBounds⟩ := kept result after ran
      exact ih laterHigher laterBounds (noWrap.2 result after ran)

theorem initialize_heap_reserved {kernel heap : Kernel}
    (fits : (kernel.range.baseAddress ||| 0xffff000000000000).toNat + heapSize.toNat < 2 ^ 64)
    (run : initializeHeap kernel = some heap) : HigherReservation heap ∧ InReservation heap := by
  unfold initializeHeap at run
  rcases allocate_kernel_cases kernel.range heapSize with ⟨_, halted⟩ | ⟨_, returned⟩
  · rw [halted] at run
    exact absurd run (by simp)
  · rw [returned] at run
    dsimp only at run
    split_ifs at run
    rw [Option.some.injEq] at run
    rw [← run]
    refine ⟨⟨?_, fits⟩, Nat.le_refl _, Nat.le_add_right _ _⟩
    dsimp only
    rw [BitVec.toNat_or]
    exact Nat.right_le_or

/-- After `initialize_heap`, every sequence of calls none of which reaches around the
end of the address space keeps the break in its reservation, at every round. -/
theorem break_sound_without_wrap {kernel heap : Kernel}
    (fits : (kernel.range.baseAddress ||| 0xffff000000000000).toNat + heapSize.toNat < 2 ^ 64)
    (run : initializeHeap kernel = some heap) {sizes : List U64} (noWrap : NoWrap heap sizes) :
    HeapSound heap sizes := by
  obtain ⟨higher, bounds⟩ := initialize_heap_reserved fits run
  exact heap_sound_of_no_wrap higher bounds noWrap

/-! ### Running out of the reservation -/

theorem page_word_aligned {page : Nat} (aligned : page % 4096 = 0) (bound : page < 2 ^ 64) :
    BitVec.ofNat 64 page % 4096 = 0 := by
  apply BitVec.eq_of_toNat_eq
  rw [BitVec.toNat_umod, of_nat_to_nat bound]
  exact aligned

/-- The kernel's tables during a loop, and how much memory is left for it. -/
structure Supplied (kernel : Kernel) (supply : Nat) : Prop where
  tables : ∃ blocks, supply ≤ freeBytes blocks ∧
    TableForest (solo kernel.kernelPml4) everySlot kernel.phys blocks
  small : ∀ address, SmallPages (readEntry kernel.phys.mem) kernel.kernelPml4 address

/-- A round that finds a page and its tables goes on; it takes five pages at most. -/
theorem expand_heap_page_goes {kernel : Kernel} {supply : Nat}
    (supplied : Supplied kernel (supply + 5 * 4096)) (aligned : kernel.heapEnd % 4096 = 0)
    (canonical : isCanonical kernel.heapEnd = true) :
    ∃ phys, expandHeapPage kernel =
        some (true, { kernel with phys, heapEnd := kernel.heapEnd + 4096 }) ∧
      Supplied { kernel with phys, heapEnd := kernel.heapEnd + 4096 } supply := by
  obtain ⟨⟨blocks, enough, tables⟩, small⟩ := supplied
  have live : solo kernel.kernelPml4 kernel.kernelPml4 := rfl
  rcases allocate_cases tables.list with ⟨nothing, _⟩ | ⟨page, taken, between, takes⟩
  · rw [nothing] at enough
    have none : freeBytes [] = 0 := rfl
    omega
  · have takenSmall : SmallPages (readEntry taken.mem) kernel.kernelPml4 kernel.heapEnd :=
      (takes_agrees tables takes).small live trivial (small _)
    have bound := takes.bound
    obtain ⟨success, other, remaining, run, effect⟩ := virtual_map_effect heapFlags
      (takes_tables tables takes) live trivial takenSmall
      (page_word_aligned takes.aligned (by omega)) aligned canonical
    have bytes := takes.bytes
    have spent := effect.supply.1
    rw [effect.succeeds (by omega)] at run
    refine ⟨other, ?_, ⟨remaining, by omega, effect.tables⟩, ?_⟩
    · simp only [expandHeapPage, mapFreshPage, takes.result, if_neg takes.nonzero, run]
    · intro address
      exact effect.small live trivial ((takes_agrees tables takes).small live trivial (small address))

/-- 128 GiB of free memory. -/
def largeKernel : Kernel where
  phys := blankMachine 0x2000000000
  range := ⟨0xffff900000000000, 0x6fff80000000⟩
  kernelPml4 := 0x1000
  heapStart := 0
  heapEnd := 0
  cr3 := 0x1000

def largeHeap : Kernel where
  phys := blankMachine 0x2000000000
  range := ⟨0xffff900400001000, 0x6fff80000000⟩
  kernelPml4 := 0x1000
  heapStart := 0xffff900000000000
  heapEnd := 0xffff900000000000
  cr3 := 0x1000

/-- Whatever is in memory. -/
theorem large_heap_with (phys : PhysicalState) :
    initializeHeap { largeKernel with phys } = some { largeHeap with phys } := by
  have reserved : allocateVirtualMemoryKernel ⟨0xffff900000000000, 0x6fff80000000⟩ heapSize =
      some (0xffff900000000000, ⟨0xffff900400001000, 0x6fff80000000⟩) := by decide
  have live : ¬(0xffff900000000000 : U64) = 0 := by decide
  simp only [initializeHeap, largeKernel, reserved, if_neg live, largeHeap]

theorem large_heap_initialized : initializeHeap largeKernel = some largeHeap :=
  large_heap_with largeKernel.phys

theorem large_heap_supplied : Supplied largeHeap 0x2000000000 where
  tables := ⟨[⟨0x2000, 0x2000000000⟩], by decide,
    blank_machine_forest (by decide) (by decide) (by decide)⟩
  small := blank_root_small (blank_machine_blank 0x2000000000)

/-- The break after some rounds, with the memory still there. -/
def LargeRound (count : Nat) (kernel : Kernel) : Prop :=
  Supplied kernel (0x2000000000 - count * (5 * 4096)) ∧
    kernel.heapStart = 0xffff900000000000 ∧
    kernel.heapEnd.toNat = 0xffff900000000000 + count * 4096

theorem large_heap_rounds (rounds : Nat) (bound : rounds ≤ 0x400001) :
    ∃ state, loop expandHeapPage rounds largeHeap = some (true, state) ∧
      LargeRound (0 + rounds) state := by
  have goes : ∀ count kernel, 0 ≤ count → count < 0 + rounds → LargeRound count kernel →
      ∃ next, expandHeapPage kernel = some (true, next) ∧ LargeRound (count + 1) next := by
    intro count kernel _ early here
    obtain ⟨supplied, sameStart, breakAt⟩ := here
    have enough : 0x2000000000 - count * (5 * 4096) =
        0x2000000000 - (count + 1) * (5 * 4096) + 5 * 4096 := by omega
    rw [enough] at supplied
    have aligned : kernel.heapEnd % 4096 = 0 := by
      apply BitVec.eq_of_toNat_eq
      have page : (4096 : U64).toNat = 4096 := rfl
      have zero : (0 : U64).toNat = 0 := rfl
      rw [BitVec.toNat_umod, page, zero]
      omega
    have canonical : isCanonical kernel.heapEnd = true := by
      rw [is_canonical_iff]
      omega
    obtain ⟨phys, ran, left⟩ := expand_heap_page_goes supplied aligned canonical
    refine ⟨_, ran, left, sameStart, ?_⟩
    have page : (4096 : U64).toNat = 4096 := rfl
    dsimp only
    rw [BitVec.toNat_add, page]
    omega
  exact @loop_runs Kernel expandHeapPage largeHeap rounds LargeRound 0 goes
    ⟨large_heap_supplied, rfl, rfl⟩

/-- A page and a shrink request on 128 GiB of memory. -/
theorem page_then_shrink_sound : HeapSound largeHeap [0x1000, -1] := by
  apply break_sound_without_wrap _ large_heap_initialized
  · refine ⟨Or.inr (by decide), ?_⟩
    intro result after _
    exact ⟨Or.inl (by decide), fun _ _ _ => trivial⟩
  · decide

/-- 128 TiB more pass the check, and the break leaves the reservation after 16 GiB. -/
theorem wrapping_break_leaves_reservation :
    initializeHeap largeKernel = some largeHeap ∧ ¬HeapSound largeHeap [0x800000000000] := by
  refine ⟨large_heap_initialized, ?_⟩
  intro sound
  obtain ⟨state, ran, _, sameStart, breakAt⟩ := large_heap_rounds 0x400001 (Nat.le_refl _)
  have bounds := sound.1.rounds state
    ⟨by decide, by decide, by decide, 0x400001, by decide, ran⟩
  have first : (0xffff900000000000 : U64).toNat = 0xffff900000000000 := rfl
  have heap := heap_size_to_nat
  unfold InReservation at bounds
  rw [sameStart, first] at bounds
  omega

end KittyOs.HeapBounds
