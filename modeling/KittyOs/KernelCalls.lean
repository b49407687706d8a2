import KittyOs.AddressSpaces
import KittyOs.HeapBounds

/-!
# Kernel memory calls as steps

Each of `sbrk` and `mmap`, when it returns, has taken the configuration through
allowed steps, and so has every sequence of such calls behind `operator new`. The
conditions are those under which the calls make sense: the heap stays in its
reservation and the kernel addresses given out stay below the kernel image.
-/

namespace KittyOs.KernelCalls

open KittyOs.Lib.BoundedLoop KittyOs.Lib.SpanPartition
open KittyOs.MachineWord KittyOs.PhysicalFreelist
open KittyOs.VirtualModel KittyOs.PageForest KittyOs.VirtualMapping KittyOs.MapEffect
open KittyOs.Translation KittyOs.KernelModel KittyOs.KernelHole KittyOs.HeapBounds
open KittyOs.AddressSpaces

set_option autoImplicit false

variable {hole : Hole} {config next : Config}

/-! ### Pointers to top tables -/

/-- The kernel reaches the page `root` through `pointer` and may write it. -/
structure PointsTo (config : Config) (pointer : U64) (root : Nat) : Prop where
  writable : WritableTo config.slots config.root pointer root
  aligned : pointer.toNat % 4096 = 0
  above : config.kernel.heapStart.toNat + heapSize.toNat ≤ pointer.toNat
  below : pointer.toNat + 4096 ≤ config.frontier

theorem PointsTo.contained {pointer : U64} {root : Nat} (points : PointsTo config pointer root)
    (sound : Sound hole config) : hole.Contains pointer := by
  have above := points.above
  have below := points.below
  obtain ⟨lower, _, _, _⟩ := sound.heap
  obtain ⟨covered, inside⟩ := sound.range
  exact ⟨by omega, by omega⟩

theorem PointsTo.writable_page {pointer : U64} {root : Nat} (points : PointsTo config pointer root)
    (sound : Sound hole config) : config.kernel.writablePage pointer = some root := by
  apply writable_page_found
  rw [sound.active, points.writable.walkers.1, points.aligned, Nat.add_zero]

/-- No step maps a page that was given out earlier. -/
theorem spares_pointer {pointer : U64} {action : Action} (sound : Sound hole config)
    (step : Step hole config action next) (aligned : pointer.toNat % 4096 = 0)
    (above : config.kernel.heapStart.toNat + heapSize.toNat ≤ pointer.toNat)
    (below : pointer.toNat + 4096 ≤ config.frontier) : Spares config action config.root pointer := by
  obtain ⟨lower, _, _, _⟩ := sound.heap
  obtain ⟨covered, inside⟩ := sound.range
  intro address placed path
  have page := place_vacant sound step placed
  have same := higher_page ⟨by omega, by omega⟩ page.inside path
  have placeAligned := page.aligned
  rcases page.vacant with beyond | heap <;> omega

theorem PointsTo.step {pointer : U64} {root : Nat} {action : Action}
    (points : PointsTo config pointer root) (sound : Sound hole config)
    (step : Step hole config action next) : PointsTo next pointer root := by
  obtain ⟨writable, aligned, above, below⟩ := points
  have kept := writable_step sound step (spares_pointer sound step aligned above below) writable
  cases step with
  | reserve _ _ raised _ _ => exact ⟨kept, aligned, above, Nat.le_trans below raised⟩
  | windowPage _ _ _ _ _ | pageMap _ _ _ _ _ | emptyPageMap _ _ _ _ _ =>
      exact ⟨kept, aligned, above, Nat.le_add_right_of_le below⟩
  | _ => exact ⟨kept, aligned, above, below⟩

/-! ### The heap and the windows of `mmap` -/

/-- A page mapped into the kernel by `expand_heap` or `mmap`. -/
theorem map_fresh_page_mapped {address : U64} {after : Kernel} (sound : Sound hole config)
    (inside : hole.Contains address) (ran : mapFreshPage config.kernel address = some after) :
    ∃ page taken between phys remaining,
      TakesPage config.kernel.phys config.blocks page taken between ∧
      Effect config.Root config.Owns heapFlags (BitVec.ofNat 64 page) config.root address taken
        between true phys remaining ∧
      address.toNat % 4096 = 0 ∧ after = { config.kernel with phys } := by
  unfold mapFreshPage at ran
  rcases allocate_cases sound.tables.list with ⟨_, refused⟩ | ⟨page, taken, between, takes⟩
  · rw [refused] at ran
    exact absurd ran (by simp)
  · rw [takes.result] at ran
    dsimp only at ran
    rw [if_neg takes.nonzero] at ran
    cases mapped : virtualMap taken config.kernel.kernelPml4 (BitVec.ofNat 64 page) address
        heapFlags with
    | none =>
        rw [mapped] at ran
        exact absurd ran (by simp)
    | some outcome =>
        obtain ⟨physicalAligned, virtualAligned⟩ := virtual_map_aligned mapped
        have kept := sound.kept.takes takes
        obtain ⟨success, phys, remaining, run, effect⟩ := virtual_map_effect heapFlags kept.tables
          (kernel_live config) (kernel_owns _ _) (kept.small address inside) physicalAligned
          virtualAligned inside.extended.canonical
        rw [run] at ran
        cases success with
        | false => exact absurd ran (by simp)
        | true =>
            refine ⟨page, taken, between, phys, remaining, takes, effect, ?_, ?_⟩
            · exact (page_offset_to_nat virtualAligned (show 0 < 4096 by omega)).1
            · exact (Option.some.inj ran).symm

/-- Actions of the kernel on its own memory. -/
def KernelAction : Action → Prop
  | .reserve | .heapPage _ | .windowPage _ => True
  | _ => False

theorem expand_heap_steps {rounds : Nat} {again : Bool} {after : Kernel}
    (sound : Sound hole config)
    (fits : config.kernel.heapEnd.toNat + rounds * 4096 ≤
      config.kernel.heapStart.toNat + heapSize.toNat)
    (ran : loop expandHeapPage rounds config.kernel = some (again, after)) :
    ∃ next, next.kernel = after ∧ Steps hole KernelAction config next ∧
      next.spaces = config.spaces ∧ next.frontier = config.frontier := by
  induction rounds generalizing config with
  | zero =>
      rw [loop_done, Option.some.injEq, Prod.mk.injEq] at ran
      exact ⟨config, ran.2, Relation.ReflTransGen.refl, rfl, rfl⟩
  | succ rounds ih =>
      rcases loop_first ran with ⟨middle, left, _⟩ | ⟨middle, went, later⟩
      · exact absurd (expand_heap_page_heap left).1 (by simp)
      · obtain ⟨lower, start, _, below⟩ := sound.heap
        obtain ⟨covered, inside⟩ := sound.range
        have contained : hole.Contains config.kernel.heapEnd := ⟨by omega, by omega⟩
        unfold expandHeapPage at went
        cases fresh : mapFreshPage config.kernel config.kernel.heapEnd with
        | none =>
            rw [fresh] at went
            exact absurd went (by simp)
        | some mapped =>
            obtain ⟨page, taken, between, phys, remaining, takes, effect, aligned, shape⟩ :=
              map_fresh_page_mapped sound contained fresh
            rw [fresh, shape] at went
            simp only [Option.some.injEq, Prod.mk.injEq, true_and] at went
            have step : Step hole config (.heapPage config.kernel.heapEnd) _ :=
              .heapPage takes effect aligned (by omega)
            have bounded := hole.bounded
            have size : (4096 : U64).toNat = 4096 := rfl
            have moved : (config.kernel.heapEnd + 4096).toNat =
                config.kernel.heapEnd.toNat + 4096 := by
              rw [BitVec.toNat_add, size]
              omega
            rw [← went] at later
            obtain ⟨next, same, steps, rest⟩ := ih (sound.step step) (by
              dsimp only
              omega) later
            exact ⟨next, same, (one_step trivial step).trans steps, rest⟩

/-- The heap stays in its reservation. -/
def SbrkFits (kernel : Kernel) (size : U64) : Prop :=
  size.slt 0 = true ∨
    kernel.heapEnd.toNat + roundedUp size ≤ kernel.heapStart.toNat + heapSize.toNat

/-- The addresses given out stay below the kernel. -/
def MmapFits (hole : Hole) (kernel : Kernel) (size : U64) : Prop :=
  size.sle 0 = true ∨
    kernel.range.baseAddress.toNat + (roundedRequest (alignedSize size)).toNat ≤ hole.last

theorem sbrk_steps {size result : U64} {after : Kernel} (sound : Sound hole config)
    (fits : SbrkFits config.kernel size) (ran : sbrk config.kernel size = some (result, after)) :
    ∃ next, next.kernel = after ∧ Steps hole KernelAction config next ∧
      next.spaces = config.spaces ∧ next.frontier = config.frontier := by
  obtain ⟨lower, start, _, below⟩ := sound.heap
  have higher := hole.higher
  rcases sbrk_cases config.kernel size with ⟨_, run⟩ | ⟨_, _, run⟩ |
    ⟨positive, _, ⟨_, run⟩ | ⟨_, run⟩⟩
  · rw [run, Option.some.injEq, Prod.mk.injEq] at ran
    exact ⟨config, ran.2, Relation.ReflTransGen.refl, rfl, rfl⟩
  · rw [run, Option.some.injEq, Prod.mk.injEq] at ran
    exact ⟨config, ran.2, Relation.ReflTransGen.refl, rfl, rfl⟩
  · rw [run] at ran
    exact absurd ran (by simp)
  · rw [run] at ran
    obtain ⟨⟨again, state⟩, looped, shape⟩ := Option.map_eq_some_iff.mp ran
    rw [Prod.mk.injEq] at shape
    have room := fits.resolve_left (by rw [positive]; simp)
    have heap := heap_size_to_nat
    have count := page_count_exact (show size.toNat + 4095 < 2 ^ 63 by
      unfold roundedUp at room
      omega)
    rw [← shape.2]
    exact expand_heap_steps sound (by omega) looped

theorem mmap_page_mapped {address : U64} {again : Bool} {cursor : U64 × Kernel}
    (ran : mmapPage (address, config.kernel) = some (again, cursor)) :
    again = true ∧ ∃ after, mapFreshPage config.kernel address = some after ∧
      cursor = (address + 4096, after) := by
  unfold mmapPage at ran
  cases fresh : mapFreshPage config.kernel address with
  | none =>
      rw [fresh] at ran
      exact absurd ran (by simp)
  | some after =>
      rw [fresh] at ran
      simp only [Option.some.injEq, Prod.mk.injEq] at ran
      exact ⟨ran.1.symm, after, rfl, ran.2.symm⟩

theorem mmap_rounds_steps {rounds : Nat} {address : U64} {again : Bool} {cursor : U64 × Kernel}
    (sound : Sound hole config) (place : address.toNat = config.frontier)
    (fits : config.frontier + rounds * 4096 ≤ config.kernel.range.baseAddress.toNat)
    (ran : loop mmapPage rounds (address, config.kernel) = some (again, cursor)) :
    ∃ next, next.kernel = cursor.2 ∧ Steps hole KernelAction config next ∧
      next.spaces = config.spaces ∧ next.frontier = config.frontier + rounds * 4096 := by
  induction rounds generalizing config address with
  | zero =>
      rw [loop_done, Option.some.injEq, Prod.mk.injEq] at ran
      exact ⟨config, by rw [← ran.2], Relation.ReflTransGen.refl, rfl, by omega⟩
  | succ rounds ih =>
      rcases loop_first ran with ⟨middle, left, _⟩ | ⟨middle, went, later⟩
      · exact absurd (mmap_page_mapped left).1 (by simp)
      · obtain ⟨_, after, fresh, moves⟩ := mmap_page_mapped went
        obtain ⟨lower, start, bounds, below⟩ := sound.heap
        obtain ⟨covered, inside⟩ := sound.range
        have contained : hole.Contains address := ⟨by omega, by omega⟩
        obtain ⟨page, taken, between, phys, remaining, takes, effect, aligned, shape⟩ :=
          map_fresh_page_mapped sound contained fresh
        have step : Step hole config (.windowPage address) _ :=
          .windowPage takes effect aligned place (by omega)
        have size : (4096 : U64).toNat = 4096 := rfl
        have bounded := hole.bounded
        have moved : (address + 4096).toNat = config.frontier + 4096 := by
          rw [BitVec.toNat_add, size]
          omega
        rw [moves, shape] at later
        obtain ⟨next, same, steps, spaces, reached⟩ := ih (sound.step step) moved (by
          dsimp only
          omega) later
        refine ⟨next, same, (one_step trivial step).trans steps, spaces, ?_⟩
        dsimp only at reached
        omega

/-- The address the next reservation starts at has its sign bits set. -/
theorem base_signed (sound : Sound hole config) :
    config.kernel.range.baseAddress ||| 0xffff000000000000 = config.kernel.range.baseAddress := by
  obtain ⟨lower, start, bounds, below⟩ := sound.heap
  obtain ⟨covered, _⟩ := sound.range
  have higher := hole.higher
  exact or_sign_bits (by omega)

/-- Kernel addresses reserved below the kernel. -/
theorem reserve_step {size : U64} (sound : Sound hole config)
    (fits : config.kernel.range.baseAddress.toNat + (roundedRequest size).toNat ≤ hole.last) :
    (config.kernel.range.baseAddress + roundedRequest size).toNat =
        config.kernel.range.baseAddress.toNat + (roundedRequest size).toNat ∧
      Step hole config .reserve { config with
        kernel := { config.kernel with
          range := ⟨config.kernel.range.baseAddress + roundedRequest size,
            config.kernel.range.remainingBytes⟩ }
        frontier := config.kernel.range.baseAddress.toNat } := by
  have bounded := hole.bounded
  have sum : (config.kernel.range.baseAddress + roundedRequest size).toNat =
      config.kernel.range.baseAddress.toNat + (roundedRequest size).toNat := by
    rw [BitVec.toNat_add]
    omega
  refine ⟨sum, .reserve _ _ sound.range.1 ?_ ?_⟩
  · dsimp only
    omega
  · dsimp only
    omega

theorem positive_bound {size : U64} (positive : size.sle 0 = false) :
    0 < size.toNat ∧ size.toNat < 2 ^ 63 := by
  have bound := size.isLt
  have zero : (0 : U64).toInt = 0 := by decide
  rw [BitVec.sle, decide_eq_false_iff_not, zero, BitVec.toInt_eq_toNat_cond] at positive
  split_ifs at positive with small <;> omega

/-- The reservation of `mmap` has room for its pages and one more. -/
theorem mmap_reservation {size : U64} (positive : size.sle 0 = false)
    (room : (roundedRequest (alignedSize size)).toNat < 2 ^ 62) :
    (pageCountOf size).toNat * 4096 = roundedUp size ∧
      roundedUp size < (roundedRequest (alignedSize size)).toNat := by
  obtain ⟨_, bound⟩ := positive_bound positive
  have sum : (size + 4096 - 1).toNat = size.toNat + 4095 := by bv_omega
  have aligned : (alignedSize size).toNat = roundedUp size := by
    rw [alignedSize, page_mask_to_nat, sum, roundedUp]
  have noWrap : (alignedSize size).toNat + 4096 < 2 ^ 64 := by
    rw [aligned, roundedUp]
    omega
  obtain ⟨more, _⟩ := rounded_request_bounds noWrap
  rw [aligned] at more
  refine ⟨page_count_exact ?_, more⟩
  unfold roundedUp at more
  omega

theorem mmap_steps {size result : U64} {after : Kernel} (sound : Sound hole config)
    (fits : MmapFits hole config.kernel size) (ran : mmap config.kernel size = some (result, after)) :
    ∃ next, next.kernel = after ∧ Steps hole KernelAction config next ∧
      next.spaces = config.spaces ∧ config.frontier ≤ next.frontier ∧
      (size.sle 0 = false → config.frontier ≤ result.toNat ∧
        next.frontier = result.toNat + roundedUp size) := by
  unfold mmap at ran
  cases positive : size.sle 0 with
  | true =>
      rw [positive, if_pos rfl, Option.some.injEq, Prod.mk.injEq] at ran
      exact ⟨config, ran.2, Relation.ReflTransGen.refl, rfl, Nat.le_refl _, by simp⟩
  | false =>
      rw [positive, if_neg (by simp)] at ran
      have room := fits.resolve_left (by rw [positive]; simp)
      rcases allocate_kernel_cases config.kernel.range (alignedSize size) with
        ⟨_, halted⟩ | ⟨_, returned⟩
      · rw [halted] at ran
        exact absurd ran (by simp)
      · rw [returned, base_signed sound] at ran
        dsimp only at ran
        split_ifs at ran with null
        obtain ⟨⟨again, cursor⟩, looped, shape⟩ := Option.map_eq_some_iff.mp ran
        rw [Prod.mk.injEq] at shape
        obtain ⟨sum, step⟩ := reserve_step sound room
        obtain ⟨lower, start, bounds, below⟩ := sound.heap
        obtain ⟨covered, inside⟩ := sound.range
        have higher := hole.higher
        have bounded := hole.bounded
        obtain ⟨count, more⟩ := mmap_reservation positive (by omega)
        obtain ⟨next, same, steps, spaces, reached⟩ := mmap_rounds_steps (sound.step step) rfl (by
          dsimp only
          omega) looped
        rw [← shape.1]
        dsimp only at reached
        exact ⟨next, same.trans shape.2, (one_step trivial step).trans steps, spaces, by omega,
          fun _ => ⟨covered, by omega⟩⟩

/-! ### Calls of the allocator behind `operator new` -/

def HeapCallFits (hole : Hole) (kernel : Kernel) : HeapCall → Prop
  | .sbrk size => SbrkFits kernel size
  | .mmap size => MmapFits hole kernel size

def HeapCallsFit (hole : Hole) : Kernel → List HeapCall → Prop
  | _, [] => True
  | kernel, call :: rest =>
      HeapCallFits hole kernel call ∧
        ∀ after, performHeapCall kernel call = some after → HeapCallsFit hole after rest

/-- The range a call of `mmap` maps. -/
def callGrant (kernel : Kernel) : HeapCall → List Span
  | .sbrk _ => []
  | .mmap size =>
      match mmap kernel size with
      | some (address, _) => if size.sle 0 then [] else [⟨address.toNat, roundedUp size⟩]
      | none => []

def callGrants : Kernel → List HeapCall → List Span
  | _, [] => []
  | kernel, call :: rest =>
      match performHeapCall kernel call with
      | some after => callGrant kernel call ++ callGrants after rest
      | none => []

theorem heap_call_steps {call : HeapCall} {after : Kernel} (sound : Sound hole config)
    (fits : HeapCallFits hole config.kernel call)
    (ran : performHeapCall config.kernel call = some after) :
    ∃ next, next.kernel = after ∧ Steps hole KernelAction config next ∧
      next.spaces = config.spaces ∧ config.frontier ≤ next.frontier ∧
      ∀ grant ∈ callGrant config.kernel call,
        config.frontier ≤ grant.base ∧ grant.base + grant.length ≤ next.frontier := by
  cases call with
  | sbrk size =>
      obtain ⟨⟨result, state⟩, called, shape⟩ := Option.map_eq_some_iff.mp ran
      obtain ⟨next, same, steps, spaces, reached⟩ := sbrk_steps sound fits called
      refine ⟨next, same.trans shape, steps, spaces, by omega, ?_⟩
      intro grant member
      exact absurd member (by simp [callGrant])
  | mmap size =>
      obtain ⟨⟨result, state⟩, called, shape⟩ := Option.map_eq_some_iff.mp ran
      obtain ⟨next, same, steps, spaces, reached, window⟩ := mmap_steps sound fits called
      refine ⟨next, same.trans shape, steps, spaces, reached, ?_⟩
      intro grant member
      simp only [callGrant, called] at member
      cases positive : size.sle 0 with
      | true =>
          rw [positive, if_pos rfl] at member
          exact absurd member (by simp)
      | false =>
          rw [positive, if_neg (by simp), List.mem_singleton] at member
          obtain ⟨above, ends⟩ := window positive
          rw [member]
          exact ⟨above, Nat.le_of_eq ends.symm⟩

theorem heap_calls_steps {calls : List HeapCall} {after : Kernel} (sound : Sound hole config)
    (fits : HeapCallsFit hole config.kernel calls)
    (ran : performHeapCalls config.kernel calls = some after) :
    ∃ next, next.kernel = after ∧ Steps hole KernelAction config next ∧
      next.spaces = config.spaces ∧ config.frontier ≤ next.frontier ∧
      ∀ grant ∈ callGrants config.kernel calls,
        config.frontier ≤ grant.base ∧ grant.base + grant.length ≤ next.frontier := by
  induction calls generalizing config with
  | nil =>
      refine ⟨config, Option.some.inj ran, Relation.ReflTransGen.refl, rfl, Nat.le_refl _, ?_⟩
      intro grant member
      exact absurd member (by simp [callGrants])
  | cons call calls ih =>
      rw [performHeapCalls, List.foldlM_cons] at ran
      obtain ⟨middle, first, later⟩ := Option.bind_eq_some_iff.mp ran
      obtain ⟨between, same, steps, spaces, reached, granted⟩ := heap_call_steps sound fits.1 first
      have laterFits := fits.2 middle first
      rw [← same] at laterFits later
      obtain ⟨next, nextSame, nextSteps, nextSpaces, nextReached, nextGranted⟩ :=
        ih (sound.run steps) laterFits later
      refine ⟨next, nextSame, steps.trans nextSteps, nextSpaces.trans spaces, by omega, ?_⟩
      intro grant member
      simp only [callGrants, first, List.mem_append] at member
      rcases member with here | there
      · have bounds := granted grant here
        omega
      · rw [← same] at there
        have bounds := nextGranted grant there
        omega

end KittyOs.KernelCalls
