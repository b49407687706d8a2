import KittyOs.SharedHalf

/-!
# Process calls as steps

`create_process` and `allocate_memory_in_process`, when they return, have taken the
configuration through allowed steps: those of the heap calls in between, a new top
table with the kernel's upper half, and pages of the process's lower half.
-/

namespace KittyOs.ProcessCalls

open KittyOs.Lib.ByteMemory KittyOs.Lib.BoundedLoop KittyOs.Lib.SpanPartition
open KittyOs.Lib.RadixForest
open KittyOs.MachineWord KittyOs.PageTable KittyOs.PhysicalModel KittyOs.PhysicalFreelist
open KittyOs.VirtualModel KittyOs.PageForest KittyOs.VirtualMapping KittyOs.MapEffect
open KittyOs.Translation KittyOs.KernelModel KittyOs.KernelHole KittyOs.HeapBounds
open KittyOs.ProcessModel KittyOs.AddressSpaces KittyOs.KernelCalls KittyOs.SharedHalf

set_option autoImplicit false

variable {hole : Hole} {config next : Config}

/-! ### The top table -/

/-- Actions that set up the top table `root` behind `pointer`. -/
def PageMapAction (pointer : U64) (root : Nat) : Action → Prop
  | .reserve | .pageZero => True
  | .pageMap at_ page => at_ = pointer ∧ page = root
  | .emptyPageMap at_ => at_ = pointer
  | _ => False

/-- The top table a new process gets, or page zero when nothing is free. -/
def TopTable (spaces : List Nat) (config : Config) (pointer : U64) (root : Nat) : Prop :=
  PointsTo config pointer root ∧
    ((config.spaces = root :: spaces ∧ root ∉ spaces) ∨
      (root = 0 ∧ config.spaces = spaces ∧ config.blocks = []))

/-- Without free blocks there is nothing left after a call either. -/
theorem blocks_exhausted {state : PhysicalState} {blocks remaining : List Span}
    (list : FreeList state remaining) (taken : ∀ free, FreeAt remaining free → FreeAt blocks free)
    (nothing : blocks = []) : remaining = [] := by
  cases remaining with
  | nil => rfl
  | cons block rest =>
      have occupied := (list.fit block List.mem_cons_self).occupied
      have free : FreeAt (block :: rest) block.base :=
        ⟨block, List.mem_cons_self, by unfold Span.Covers; omega⟩
      obtain ⟨found, member, _⟩ := taken _ free
      rw [nothing] at member
      exact absurd member List.not_mem_nil

theorem taken_bound {page : Nat} {taken : PhysicalState} {between : List Span}
    (sound : Sound hole config)
    (takes : TakesPage config.kernel.phys config.blocks page taken between) :
    page + 4096 ≤ 2 ^ 52 := by
  have last := sound.tables.bounded (page + 4095) (takes.inside _ ⟨by omega, by omega⟩)
  have aligned := takes.aligned
  omega

/-- Memory in which the kernel's walk of a hole address finds no leaf. -/
theorem hole_walk_missing {kernel : Kernel} {pointer : U64} {phys : PhysicalState}
    {blocks : List Span} (kept : TablesKept hole config phys blocks)
    (inside : hole.Contains pointer)
    (missing : liveLeaf (readEntry phys.mem) config.root pointer = none)
    (memory : kernel.phys = phys) (active : kernel.activeMap = config.root) :
    kernel.writablePage pointer = none := by
  apply writable_page_missing
  rw [memory, active]
  rcases walkers_of_leaf (kernel_live config) (kernel_owns _ _) kept.tidy
    (kept.small pointer inside) with ⟨_, walked, _⟩ | ⟨leaf, _, found, _⟩
  · exact walked
  · rw [missing] at found
    exact absurd found (by simp)

/-- The clearing through the new address goes to the page just mapped there, since
the address had no mapping before. -/
theorem page_map_mapped {state : PhysicalState} {blocks : List Span} {page root : Nat}
    {pointer : U64} {outcome : Bool × PhysicalState} {kernel : Kernel}
    (kept : TablesKept hole config state blocks) (inside : hole.Contains pointer)
    (vacant : liveLeaf (readEntry state.mem) config.root pointer = none)
    (aligned : page % 4096 = 0) (bound : page + 4096 ≤ 2 ^ 52)
    (mapped : virtualMap state config.root (BitVec.ofNat 64 page) pointer pageMapFlags =
      some outcome)
    (found : kernel.writablePage pointer = some root) (memory : kernel.phys = outcome.2)
    (active : kernel.activeMap = config.root) :
    pointer.toNat % 4096 = 0 ∧ root = page ∧
      WritableTo (readEntry outcome.2.mem) config.root pointer page ∧
      ∃ remaining, Effect config.Root config.Owns pageMapFlags (BitVec.ofNat 64 page) config.root
        pointer state blocks true outcome.2 remaining := by
  obtain ⟨physicalAligned, virtualAligned⟩ := virtual_map_aligned mapped
  have pointerAligned := (page_offset_to_nat virtualAligned (show 0 < 4096 by omega)).1
  obtain ⟨success, phys, remaining, run, effect⟩ := virtual_map_effect pageMapFlags kept.tables
    (kernel_live config) (kernel_owns _ _) (kept.small pointer inside) physicalAligned
    virtualAligned inside.extended.canonical
  have same : (success, phys) = outcome := Option.some.inj (run.symm.trans mapped)
  subst same
  cases success with
  | false =>
      have missing : liveLeaf (readEntry phys.mem) config.root pointer = none := by
        rw [← vacant]
        exact effect.leaf_elsewhere (kernel_live config) (kernel_owns _ _) (by simp)
      rw [hole_walk_missing (kept.effect rfl effect) inside missing memory active] at found
      exact absurd found (by simp)
  | true =>
      have writable := writable_here effect rfl rfl (kernel_live config) (kernel_owns _ _) aligned
        bound
      have walked : hardwareWalk kernel.phys.mem kernel.activeMap pointer = some (page, true) := by
        rw [memory, active, writable.walkers.1, pointerAligned, Nat.add_zero]
      have here : some root = some page := found.symm.trans (writable_page_found walked)
      exact ⟨pointerAligned, Option.some.inj here, writable, remaining, effect⟩

/-- A page from the free list, mapped at a reserved address and cleared, is a new top
table. -/
theorem top_table_made {pointer : U64} {page : Nat} {taken phys : PhysicalState}
    {between remaining : List Span} (sound : Sound hole config)
    (takes : TakesPage config.kernel.phys config.blocks page taken between)
    (effect : Effect config.Root config.Owns pageMapFlags (BitVec.ofNat 64 page) config.root
      pointer taken between true phys remaining)
    (aligned : pointer.toNat % 4096 = 0) (place : pointer.toNat = config.frontier)
    (fits : config.frontier + 4096 ≤ config.kernel.range.baseAddress.toNat) :
    ∃ next,
      next.kernel = { config.kernel with
        phys := { phys with mem := fill phys.mem page 4096 0 } } ∧
      next.blocks = remaining ∧ Steps hole (PageMapAction pointer page) config next ∧
      next.spaces = page :: config.spaces ∧ page ∉ config.spaces ∧ PointsTo next pointer page := by
  obtain ⟨lower, start, bounds, below⟩ := sound.heap
  have mapping : Step hole config (.pageMap pointer page) _ :=
    .pageMap takes effect aligned place fits
  have steps : Steps hole (PageMapAction pointer page) config _ :=
    one_step (show PageMapAction pointer page (.pageMap pointer page) from ⟨rfl, rfl⟩) mapping
  have writable := writable_here effect rfl rfl (kernel_live config) (kernel_owns _ _)
    takes.aligned (taken_bound sound takes)
  refine ⟨_, rfl, rfl, steps, rfl, ?_, ⟨?_, aligned, ?_, ?_⟩⟩
  · intro member
    have first : Within page 4096 page := ⟨by omega, by omega⟩
    exact sound.off_list (top_table (space_live member)) first (takes.inside _ first)
  · exact writable_agrees (cleared_agrees sound takes effect) (kernel_live config)
      (kernel_owns _ _) writable
  · dsimp only
    omega
  · dsimp only
    omega

/-- The page, its mapping at a reserved address and the clearing. -/
theorem map_page_map_steps {pointer page : U64} {phys : PhysicalState}
    {outcome : Bool × PhysicalState} {root : Nat} (sound : Sound hole config)
    (place : pointer.toNat = config.frontier)
    (fits : config.frontier + 4096 ≤ config.kernel.range.baseAddress.toNat)
    (allocated : allocatePhysicalPage config.kernel.phys = (page, phys))
    (mapped : virtualMap phys config.root page pointer pageMapFlags = some outcome)
    (found : Kernel.writablePage { config.kernel with phys := outcome.2 } pointer = some root) :
    ∃ next,
      next.kernel = { config.kernel with
        phys := { outcome.2 with mem := fill outcome.2.mem root 4096 0 } } ∧
      Steps hole (PageMapAction pointer root) config next ∧
      TopTable config.spaces next pointer root := by
  obtain ⟨lower, start, bounds, below⟩ := sound.heap
  have inside : hole.Contains pointer := ⟨by omega, by have last := sound.range.2; omega⟩
  have vacant := sound.vacant pointer inside (Or.inl (Nat.le_of_eq place.symm))
  rcases allocate_cases sound.tables.list with ⟨nothing, refused⟩ | ⟨frame, taken, between, takes⟩
  · obtain ⟨zero, same⟩ := Prod.mk.inj (refused.symm.trans allocated)
    rw [← zero, ← same] at mapped
    obtain ⟨aligned, sameRoot, writable, remaining, effect⟩ := page_map_mapped sound.kept inside
      vacant (Nat.zero_mod 4096) (by omega) mapped found rfl sound.active
    have mapping : Step hole config (.emptyPageMap pointer) _ :=
      .emptyPageMap nothing effect aligned place fits
    have mappedSound := sound.step mapping
    have clears : ∀ byte, 4096 ≤ byte → fill outcome.2.mem 0 4096 0 byte = outcome.2.mem byte := by
      intro byte large
      apply fill_outside
      unfold Within
      omega
    have points : PointsTo { config.withMemory outcome.2 remaining with
        frontier := config.frontier + 4096 } pointer 0 :=
      ⟨writable, aligned, by dsimp only; omega, by dsimp only; omega⟩
    have clearing : Step hole { config.withMemory outcome.2 remaining with
        frontier := config.frontier + 4096 } .pageZero _ := .pageZero _ clears
    have first : Steps hole (PageMapAction pointer root) config _ :=
      one_step (show PageMapAction pointer root (.emptyPageMap pointer) from rfl) mapping
    have second : Steps hole (PageMapAction pointer root) _ _ :=
      one_step (show PageMapAction pointer root .pageZero from trivial) clearing
    rw [sameRoot]
    rw [sameRoot] at first second
    exact ⟨_, rfl, first.trans second, points.step mappedSound clearing, Or.inr ⟨rfl, rfl,
      blocks_exhausted effect.tables.list effect.taken nothing⟩⟩
  · obtain ⟨samePage, samePhys⟩ := Prod.mk.inj (takes.result.symm.trans allocated)
    rw [← samePage, ← samePhys] at mapped
    have agrees := takes_agrees sound.tables takes
    have stillVacant : liveLeaf (readEntry taken.mem) config.root pointer = none := by
      rw [agrees.leaf (kernel_live config) (kernel_owns _ _)]
      exact vacant
    obtain ⟨aligned, sameRoot, _, remaining, effect⟩ := page_map_mapped
      (sound.kept.takes takes) inside stillVacant takes.aligned (taken_bound sound takes) mapped found
      rfl sound.active
    obtain ⟨next, same, _, steps, spaces, fresh, points⟩ :=
      top_table_made sound takes effect aligned place fits
    rw [sameRoot]
    exact ⟨next, same, steps, points, Or.inl ⟨spaces, fresh⟩⟩

theorem create_page_map_steps {pointer : U64} {after : Kernel} (sound : Sound hole config)
    (room : config.kernel.range.baseAddress.toNat + 8192 ≤ hole.last)
    (ran : createPageMap config.kernel = some (pointer, after)) :
    ∃ root next, next.kernel = after ∧ Steps hole (PageMapAction pointer root) config next ∧
      config.frontier ≤ pointer.toNat ∧ TopTable config.spaces next pointer root := by
  have request : (roundedRequest 4096).toNat = 8192 := by decide
  unfold createPageMap at ran
  rcases allocate_kernel_cases config.kernel.range 4096 with ⟨_, halted⟩ | ⟨_, returned⟩
  · rw [halted] at ran
    exact absurd ran (by simp)
  · rw [returned, base_signed sound] at ran
    obtain ⟨sum, step⟩ := reserve_step sound (by rw [request]; exact room)
    rcases allocated : allocatePhysicalPage config.kernel.phys with ⟨page, phys⟩
    rw [allocated] at ran
    dsimp only at ran
    cases mapped : virtualMap phys config.kernel.kernelPml4 page config.kernel.range.baseAddress
        pageMapFlags with
    | none =>
        rw [mapped] at ran
        exact absurd ran (by simp)
    | some outcome =>
        rw [mapped] at ran
        obtain ⟨root, found, shape⟩ := Option.map_eq_some_iff.mp ran
        obtain ⟨samePointer, sameKernel⟩ := Prod.mk.inj shape
        obtain ⟨next, same, steps, top⟩ := map_page_map_steps (sound.step step) rfl (by
          dsimp only
          omega) allocated mapped found
        rw [← samePointer]
        have first : Steps hole (PageMapAction config.kernel.range.baseAddress root) config _ :=
          one_step (show PageMapAction _ root .reserve from trivial) step
        exact ⟨root, next, same.trans sameKernel, first.trans steps, sound.range.1, top⟩

/-- The pages of `[first, last)` mapped into the space `root`. -/
def SpaceAction (root : Nat) (level : ProcessLevel) (first last : Nat) : Action → Prop
  | .spacePage at_ with_ address _ =>
      at_ = root ∧ with_ = level ∧ first ≤ address.toNat ∧ address.toNat < last
  | _ => False

theorem space_action_mono {root first last start stop : Nat} {level : ProcessLevel}
    (lower : start ≤ first) (upper : last ≤ stop) (action : Action)
    (allowed : SpaceAction root level first last action) :
    SpaceAction root level start stop action := by
  cases action with
  | spacePage _ _ _ _ =>
      obtain ⟨sameRoot, sameLevel, above, below⟩ := allowed
      exact ⟨sameRoot, sameLevel, by omega, by omega⟩
  | _ => exact False.elim allowed

theorem process_root_found {process : ProcessContext} {root : Nat} {taken : PhysicalState}
    (writable : WritableTo (readEntry taken.mem) config.root process.pageMap root)
    (aligned : process.pageMap.toNat % 4096 = 0) (active : config.kernel.activeMap = config.root) :
    Kernel.writablePage { config.kernel with phys := taken } process.pageMap = some root := by
  apply writable_page_found
  have walked := writable.walkers.1
  rw [aligned, Nat.add_zero, ← active] at walked
  exact walked

/-- A round with a page is one call of `virtual_map`. -/
theorem process_page_taken {process : ProcessContext} {root page : Nat} {taken : PhysicalState}
    {between : List Span}
    (takes : TakesPage config.kernel.phys config.blocks page taken between)
    (found : Kernel.writablePage { config.kernel with phys := taken } process.pageMap = some root)
    (address : U64) :
    processPage process (address, config.kernel) =
        (virtualMap taken root (BitVec.ofNat 64 page) address (processFlags process.level)).map
          (fun outcome => (true, (address + 4096, { config.kernel with phys := outcome.2 }))) ∧
      mapOutcome process (address, config.kernel) =
        (virtualMap taken root (BitVec.ofNat 64 page) address (processFlags process.level)).map
          Prod.fst := by
  unfold processPage mapOutcome
  dsimp only
  rw [takes.result]
  dsimp only
  rw [if_neg takes.nonzero, if_neg takes.nonzero, virtualMapProcess, found, Option.bind_some,
    Option.bind_some, Option.map_map]
  exact ⟨rfl, rfl⟩

/-- A round of the loop that maps process memory, when there is a page for it. -/
structure PageRound (hole : Hole) (config next : Config) (process : ProcessContext) (root : Nat)
    (address : U64) (success : Bool) : Prop where
  ran : processPage process (address, config.kernel) =
    some (true, (address + 4096, next.kernel))
  outcome : mapOutcome process (address, config.kernel) = some success
  step : Step hole config (.spacePage root process.level address success) next
  spaces : next.spaces = config.spaces
  frontier : next.frontier = config.frontier
  spent : freeBytes config.blocks ≤ freeBytes next.blocks + 20480
  needed : freeBytes next.blocks + 4096 ≤ freeBytes config.blocks
  starved : success = false → freeBytes config.blocks < 16384 ∧ next.blocks = [] ∧
    walk childTable config.slots 0 root (tablePathOf address) = none
  cost : success = true → freeBytes config.blocks =
    freeBytes next.blocks + 4096 * (1 + (missingTables config.slots root address).card)
  short : success = false →
    freeBytes config.blocks < 4096 * (1 + (missingTables config.slots root address).card)

theorem process_page_cases {process : ProcessContext} {root : Nat} {address : U64}
    (sound : Sound hole config) (points : PointsTo config process.pageMap root)
    (member : root ∈ config.spaces) (lower : address.toNat < 2 ^ 47) :
    (config.blocks = [] ∧
        processPage process (address, config.kernel) = some (false, (address, config.kernel))) ∨
      (address % 4096 ≠ 0 ∧ processPage process (address, config.kernel) = none) ∨
      ∃ success next, PageRound hole config next process root address success := by
  rcases allocate_cases sound.tables.list with ⟨nothing, refused⟩ | ⟨page, taken, between, takes⟩
  · left
    refine ⟨nothing, ?_⟩
    unfold processPage
    dsimp only
    rw [refused]
    rfl
  · right
    have kept := sound.kept.takes takes
    have agrees := takes_agrees sound.tables takes
    have found := process_root_found (writable_agrees agrees (kernel_live config)
      (kernel_owns _ _) points.writable) points.aligned sound.active
    obtain ⟨ran, outcome⟩ := process_page_taken takes found address
    by_cases aligned : address % 4096 = 0
    · right
      have bound := takes.bound
      have pageAligned := page_word_aligned takes.aligned (show page < 2 ^ 64 by omega)
      have canonical : isCanonical address = true := (is_canonical_iff address).mpr (Or.inl (by omega))
      obtain ⟨success, phys, remaining, run, effect⟩ := virtual_map_effect
        (processFlags process.level) kept.tables (space_live member) (lower_owned _ _ lower)
        (kept.lower root member address lower) pageAligned aligned canonical
      have step : Step hole config (.spacePage root process.level address success) _ :=
        .spacePage member lower (page_offset_to_nat aligned (show 0 < 4096 by omega)).1 takes effect
      have bytes := takes.bytes
      obtain ⟨spent, starved⟩ := effect.supply
      have owned : Owned config.Owns root (tablePathOf address) := lower_owned _ _ lower
      have lacks : missingTables (readEntry taken.mem) root address =
          missingTables config.slots root address :=
        missing_tables_congr fun _ early => agree_walk agrees (space_live member) (owned.along early)
      have cost := effect.cost (space_live member) (lower_owned _ _ lower)
      rw [lacks] at cost
      have left := free_bytes_mono takes.list effect.tables.list effect.taken
      refine ⟨success, _, ?_, ?_, step, rfl, rfl, ?_, ?_, ?_, fun worked => ?_, fun failed => ?_⟩
      · rw [ran, run, Option.map_some]
      · rw [outcome, run, Option.map_some]
      · dsimp only
        omega
      · dsimp only
        omega
      · intro failed
        obtain ⟨nothing, few⟩ := starved failed
        refine ⟨by omega, nothing, ?_⟩
        rw [← agree_walk agrees (space_live member) owned]
        exact effect.starved (space_live member) (lower_owned _ _ lower) failed
      · have spentNow := cost.1 worked
        dsimp only
        omega
      · have few := cost.2 failed
        omega
    · left
      refine ⟨aligned, ?_⟩
      have halted : virtualMap taken root (BitVec.ofNat 64 page) address
          (processFlags process.level) = none := by
        cases mapped : virtualMap taken root (BitVec.ofNat 64 page) address
            (processFlags process.level) with
        | none => rfl
        | some outcome => exact absurd (virtual_map_aligned mapped).2 aligned
      rw [ran, halted, Option.map_none]

/-- At a page boundary the round is only refused for want of a page. -/
theorem process_page_aligned {process : ProcessContext} {root : Nat} {address : U64}
    (sound : Sound hole config) (points : PointsTo config process.pageMap root)
    (member : root ∈ config.spaces) (lower : address.toNat < 2 ^ 47)
    (aligned : address.toNat % 4096 = 0) :
    (config.blocks = [] ∧
        processPage process (address, config.kernel) = some (false, (address, config.kernel))) ∨
      ∃ success next, PageRound hole config next process root address success := by
  rcases process_page_cases sound points member lower with refused | ⟨misaligned, _⟩ | round
  · exact Or.inl refused
  · exact absurd (BitVec.eq_of_toNat_eq (by rw [BitVec.toNat_umod]; exact aligned)) misaligned
  · exact Or.inr round

/-- Mapping pages of a space never leaves an address of it unmapped. -/
theorem space_page_stays {root : Nat} {level : ProcessLevel} {address target : U64} {success : Bool}
    (sound : Sound hole config) (bound : target.toNat < 2 ^ 47)
    (step : Step hole config (.spacePage root level address success) next)
    (mapped : (liveLeaf config.slots root target).isSome) :
    (liveLeaf next.slots root target).isSome := by
  cases step with
  | spacePage member lower aligned takes effect =>
      by_cases here : success = true ∧ root = root ∧ pathOf target = pathOf address
      · obtain ⟨worked, _, path⟩ := here
        rw [worked] at effect
        obtain ⟨entry, found⟩ := effect.leaf_here rfl
        rw [live_leaf_path path, found]
        rfl
      · rw [leaf_after sound takes effect (space_live member) (lower_owned _ _ bound) here]
        exact mapped

theorem space_run_stays {root first last : Nat} {level : ProcessLevel} {target : U64}
    (sound : Sound hole config) (bound : target.toNat < 2 ^ 47)
    (steps : Steps hole (SpaceAction root level first last) config next)
    (mapped : (liveLeaf config.slots root target).isSome) :
    (liveLeaf next.slots root target).isSome := by
  have keeps : ∀ before action after, Sound hole before →
      (liveLeaf before.slots root target).isSome → SpaceAction root level first last action →
      Step hole before action after → (liveLeaf after.slots root target).isSome := by
    intro before action after beforeSound holds allowed later
    cases action with
    | spacePage at_ with_ other worked =>
        rw [allowed.1] at later
        exact space_page_stays beforeSound bound later holds
    | _ => exact False.elim allowed
  exact sound.steps keeps steps mapped

theorem space_page_maps {root : Nat} {level : ProcessLevel} {address : U64}
    (step : Step hole config (.spacePage root level address true) next) :
    (liveLeaf next.slots root address).isSome := by
  cases step with
  | spacePage member lower aligned takes effect =>
      obtain ⟨entry, found⟩ := effect.leaf_here rfl
      rw [found]
      rfl

/-- The next page of a range in the lower half, and the range that begins there. -/
theorem page_forward {address : U64} {rounds : Nat}
    (bound : address.toNat + (rounds + 1) * 4096 ≤ 2 ^ 47) :
    (address + 4096).toNat = address.toNat + 4096 ∧
      (address + 4096).toNat + rounds * 4096 = address.toNat + (rounds + 1) * 4096 := by
  have size : (4096 : U64).toNat = 4096 := rfl
  rw [BitVec.toNat_add, size]
  omega

/-- Pages of a process are not taken from the kernel's range. -/
theorem space_range_run {root first last : Nat} {level : ProcessLevel}
    (steps : Steps hole (SpaceAction root level first last) config next) :
    next.kernel.range = config.kernel.range := by
  induction steps with
  | refl => rfl
  | tail _ later ih =>
      obtain ⟨action, allowed, step⟩ := later
      rw [← ih]
      cases step with
      | spacePage _ _ _ _ _ => rfl
      | _ => exact absurd allowed id

section Ranges

variable {root rounds : Nat} {level : ProcessLevel} {address : U64} {middle : Config}

/-- A page and the pages of the range behind it. -/
theorem range_steps {success : Bool} (bound : address.toNat + (rounds + 1) * 4096 ≤ 2 ^ 47)
    (step : Step hole config (.spacePage root level address success) middle)
    (steps : Steps hole (SpaceAction root level (address + 4096).toNat
      ((address + 4096).toNat + rounds * 4096)) middle next) :
    Steps hole (SpaceAction root level address.toNat (address.toNat + (rounds + 1) * 4096))
      config next := by
  obtain ⟨forward, ends⟩ := page_forward bound
  have first : SpaceAction root level address.toNat (address.toNat + (rounds + 1) * 4096)
      (.spacePage root level address success) := ⟨rfl, rfl, Nat.le_refl _, by omega⟩
  have further := steps.widen (space_action_mono (show address.toNat ≤ _ by omega)
    (Nat.le_of_eq ends))
  exact (one_step first step).trans further

theorem range_mapped (sound : Sound hole config)
    (bound : address.toNat + (rounds + 1) * 4096 ≤ 2 ^ 47)
    (step : Step hole config (.spacePage root level address true) middle)
    (steps : Steps hole (SpaceAction root level (address + 4096).toNat
      ((address + 4096).toNat + rounds * 4096)) middle next)
    (mapped : ∀ target : U64, (address + 4096).toNat ≤ target.toNat →
      target.toNat < (address + 4096).toNat + rounds * 4096 →
        (liveLeaf next.slots root target).isSome) :
    ∀ target : U64, address.toNat ≤ target.toNat →
      target.toNat < address.toNat + (rounds + 1) * 4096 →
        (liveLeaf next.slots root target).isSome := by
  obtain ⟨forward, ends⟩ := page_forward bound
  have aligned : address.toNat % 4096 = 0 := by
    cases step with
    | spacePage _ _ aligned _ _ => exact aligned
  intro target above below
  by_cases beyond : address.toNat + 4096 ≤ target.toNat
  · exact mapped target (by omega) (by omega)
  · have path : pathOf target = pathOf address := path_of_page (by omega)
    have here := space_page_maps step
    rw [← live_leaf_path path] at here
    exact space_run_stays (sound.step step) (by omega) steps here

end Ranges

theorem process_pages_steps {process : ProcessContext} {root rounds : Nat} {address : U64}
    {again : Bool} {cursor : U64 × Kernel} (sound : Sound hole config)
    (points : PointsTo config process.pageMap root) (member : root ∈ config.spaces)
    (bound : address.toNat + rounds * 4096 ≤ 2 ^ 47)
    (ran : loop (processPage process) rounds (address, config.kernel) = some (again, cursor)) :
    ∃ next, next.kernel = cursor.2 ∧
      Steps hole (SpaceAction root process.level address.toNat (address.toNat + rounds * 4096))
        config next ∧
      next.spaces = config.spaces ∧ next.frontier = config.frontier := by
  induction rounds generalizing config address with
  | zero =>
      rw [loop_done, Option.some.injEq, Prod.mk.injEq] at ran
      exact ⟨config, by rw [← ran.2], Relation.ReflTransGen.refl, rfl, rfl⟩
  | succ rounds ih =>
      obtain ⟨forward, ends⟩ := page_forward bound
      rcases process_page_cases sound points member (show address.toNat < 2 ^ 47 by omega) with
        ⟨_, left⟩ | ⟨_, halted⟩ | ⟨success, middle, went, _, step, spaces, frontier, _, _, _⟩
      · rw [loop_left left, Option.some.injEq, Prod.mk.injEq] at ran
        exact ⟨config, by rw [← ran.2], Relation.ReflTransGen.refl, rfl, rfl⟩
      · rw [loop_halted halted] at ran
        exact absurd ran (by simp)
      · rw [loop_next went] at ran
        obtain ⟨next, same, steps, nextSpaces, nextFrontier⟩ := ih (sound.step step)
          (points.step sound step) (by rw [spaces]; exact member) (by omega) ran
        exact ⟨next, same, range_steps bound step steps, nextSpaces.trans spaces,
          nextFrontier.trans frontier⟩

theorem supply_left {rounds cost before after : Nat} (enough : (rounds + 1) * cost ≤ before)
    (spent : before ≤ after + cost) : rounds * cost ≤ after := by
  rw [Nat.succ_mul] at enough
  omega

theorem supply_spent {rounds cost before middle after : Nat} (first : before ≤ middle + cost)
    (later : middle ≤ after + rounds * cost) : before ≤ after + (rounds + 1) * cost := by
  rw [Nat.succ_mul]
  omega

/-- A loop that runs to its end has taken a page in every round. -/
theorem process_pages_need {process : ProcessContext} {root rounds : Nat} {address : U64}
    {cursor : U64 × Kernel} (sound : Sound hole config)
    (points : PointsTo config process.pageMap root) (member : root ∈ config.spaces)
    (bound : address.toNat + rounds * 4096 ≤ 2 ^ 47)
    (ran : loop (processPage process) rounds (address, config.kernel) = some (true, cursor)) :
    rounds * 4096 ≤ freeBytes config.blocks := by
  induction rounds generalizing config address with
  | zero => omega
  | succ rounds ih =>
      obtain ⟨forward, ends⟩ := page_forward bound
      rcases process_page_cases sound points member (show address.toNat < 2 ^ 47 by omega) with
        ⟨_, left⟩ | ⟨_, halted⟩ | ⟨success, middle, round⟩
      · rw [loop_left left] at ran
        exact absurd ran (by simp)
      · rw [loop_halted halted] at ran
        exact absurd ran (by simp)
      · rw [loop_next round.ran] at ran
        have later := ih (sound.step round.step) (points.step sound round.step)
          (by rw [round.spaces]; exact member) (by omega) ran
        rw [Nat.succ_mul]
        exact (Nat.add_le_add_right later 4096).trans round.needed

/-- With enough memory every page of the range gets mapped. -/
theorem process_pages_mapped {process : ProcessContext} {root rounds : Nat} {address : U64}
    (sound : Sound hole config) (points : PointsTo config process.pageMap root)
    (member : root ∈ config.spaces) (aligned : address.toNat % 4096 = 0)
    (bound : address.toNat + rounds * 4096 ≤ 2 ^ 47)
    (enough : rounds * 20480 ≤ freeBytes config.blocks) :
    ∃ next cursor, loop (processPage process) rounds (address, config.kernel) =
        some (true, (cursor, next.kernel)) ∧
      Steps hole (SpaceAction root process.level address.toNat (address.toNat + rounds * 4096))
        config next ∧
      next.spaces = config.spaces ∧ next.frontier = config.frontier ∧
      freeBytes config.blocks ≤ freeBytes next.blocks + rounds * 20480 ∧
      ∀ target : U64, address.toNat ≤ target.toNat → target.toNat < address.toNat + rounds * 4096 →
        (liveLeaf next.slots root target).isSome := by
  induction rounds generalizing config address with
  | zero =>
      exact ⟨config, address, loop_done, Relation.ReflTransGen.refl, rfl, rfl,
        Nat.le_add_right _ _, fun _ _ _ => by omega⟩
  | succ rounds ih =>
      obtain ⟨forward, ends⟩ := page_forward bound
      have fits : (address + 4096).toNat + rounds * 4096 ≤ 2 ^ 47 := by omega
      rcases process_page_aligned sound points member (show address.toNat < 2 ^ 47 by omega)
        aligned with ⟨nothing, _⟩ |
        ⟨success, middle, went, _, step, spaces, frontier, spent, _, starved⟩
      · rw [nothing] at enough
        have none : freeBytes [] = 0 := rfl
        omega
      · have worked : success = true := by
          cases success with
          | true => rfl
          | false =>
              have few := (starved rfl).1
              omega
        rw [worked] at step
        obtain ⟨next, cursor, later, steps, nextSpaces, nextFrontier, nextSpent, mapped⟩ :=
          ih (sound.step step) (points.step sound step) (by rw [spaces]; exact member) (by omega)
            fits (supply_left enough spent)
        exact ⟨next, cursor, (loop_next went).trans later, range_steps bound step steps,
          nextSpaces.trans spaces, nextFrontier.trans frontier, supply_spent spent nextSpent,
          range_mapped sound bound step steps mapped⟩

theorem allocate_memory_steps {process : ProcessContext} {root : Nat} {address pageCount : U64}
    {result : Bool} {after : Kernel} (sound : Sound hole config)
    (points : PointsTo config process.pageMap root) (member : root ∈ config.spaces)
    (noWrap : address.toNat + pageCount.toNat * 4096 < 2 ^ 64)
    (ran : allocateMemoryInProcess config.kernel process address pageCount = some (result, after)) :
    ∃ next, next.kernel = after ∧
      Steps hole (SpaceAction root process.level address.toNat
        (address.toNat + pageCount.toNat * 4096)) config next ∧
      next.spaces = config.spaces ∧ next.frontier = config.frontier := by
  unfold allocateMemoryInProcess at ran
  split_ifs at ran with beyond
  · rw [Option.some.injEq, Prod.mk.injEq] at ran
    exact ⟨config, ran.2, Relation.ReflTransGen.refl, rfl, rfl⟩
  · obtain ⟨⟨again, cursor⟩, looped, shape⟩ := Option.map_eq_some_iff.mp ran
    obtain ⟨_, sameKernel⟩ := Prod.mk.inj shape
    have size : (4096 : U64).toNat = 4096 := rfl
    have limit : (0x80000000 : U64).toNat = 0x80000000 := rfl
    rw [gt_iff_lt, BitVec.lt_def, BitVec.toNat_add, BitVec.toNat_mul, size, limit] at beyond
    rw [← sameKernel]
    exact process_pages_steps sound points member (by omega) looped

theorem copy_upper_run {pointer : U64} {root : Nat} (sound : Sound hole config)
    (points : PointsTo config pointer root) :
    copyUpperHalf config.kernel pointer = some { config.kernel with
      phys := { config.kernel.phys with
        mem := copyBlock config.mem (root + 2048) (config.root + 2048) 2048 } } := by
  rw [copyUpperHalf, points.writable_page sound, Option.map_some]

/-- The handle `create_process` returns. -/
def createdProcess (processPath processName : String) (entryPoint : U64) (level : ProcessLevel)
    (startPaused : Bool) (pageMap : U64) : ProcessContext where
  processPath := processPath
  processName := processName
  sseState := List.replicate 256 0
  isPaused := startPaused
  isBeingDebugged := false
  debuggerPid := -1
  level := level
  threads := [⟨entryPoint, 0x80000000 - 8⟩]
  pageMap := pageMap
  availableVmem := createVmem.2

/-- The stack, then the first page unless memory has run out. -/
def Completion (process : ProcessContext) (copied : Kernel) (result : Option ProcessContext)
    (after : Kernel) : Prop :=
  ∃ again cursor, loop (processPage process) 256 (0x7ff00000, copied) = some (again, cursor) ∧
    ((again = false ∧ result = none ∧ after = cursor.2) ∨
      (again = true ∧
        (∃ worked, allocateMemoryInProcess cursor.2 process 0x10000 1 = some (worked, after)) ∧
        result = some process))

theorem create_process_phases {kernel after : Kernel} {processPath processName : String}
    {entryPoint : U64} {level : ProcessLevel} {startPaused : Bool} {newCalls vectorCalls : List HeapCall}
    {result : Option ProcessContext}
    (ran : createProcess kernel processPath processName entryPoint level startPaused newCalls
      vectorCalls = some (result, after)) :
    ∃ grown pointer made filled copied,
      performHeapCalls kernel newCalls = some grown ∧
      createPageMap grown = some (pointer, made) ∧
      performHeapCalls made vectorCalls = some filled ∧
      copyUpperHalf filled pointer = some copied ∧
      Completion (createdProcess processPath processName entryPoint level startPaused pointer)
        copied result after := by
  have reserved : (!createVmem.1.1) = false := by decide
  have rounds : (stackSize / 4096).toNat = 256 := by decide
  have start : (0x80000000 : U64) - stackSize = 0x7ff00000 := by decide
  unfold createProcess at ran
  simp only [reserved, rounds, start, Bool.false_eq_true, if_false] at ran
  obtain ⟨grown, first, ran⟩ := Option.bind_eq_some_iff.mp ran
  obtain ⟨⟨pointer, made⟩, second, ran⟩ := Option.bind_eq_some_iff.mp ran
  obtain ⟨filled, third, ran⟩ := Option.bind_eq_some_iff.mp ran
  obtain ⟨copied, fourth, ran⟩ := Option.bind_eq_some_iff.mp ran
  obtain ⟨⟨again, cursor⟩, fifth, ran⟩ := Option.bind_eq_some_iff.mp ran
  refine ⟨grown, pointer, made, filled, copied, first, second, third, fourth, again, cursor, fifth, ?_⟩
  cases again with
  | false =>
      left
      simp only [Bool.not_false, if_true, Option.some.injEq, Prod.mk.injEq] at ran
      exact ⟨rfl, ran.1.symm, ran.2.symm⟩
  | true =>
      right
      simp only [Bool.not_true, Bool.false_eq_true, if_false] at ran
      obtain ⟨⟨worked, last⟩, sixth, ran⟩ := Option.bind_eq_some_iff.mp ran
      obtain ⟨sameResult, sameKernel⟩ := Prod.mk.inj (Option.some.inj ran)
      rw [← sameKernel]
      exact ⟨rfl, ⟨worked, sixth⟩, sameResult.symm⟩

/-! ### Creation -/

/-- Everything `create_process` does; `root` is the new top table. -/
def CreateAction (pointer : U64) (root : Nat) (level : ProcessLevel) : Action → Prop
  | .reserve | .heapPage _ | .windowPage _ | .pageZero => True
  | .pageMap at_ page => at_ = pointer ∧ page = root
  | .emptyPageMap at_ => at_ = pointer
  | .spacePage at_ with_ address _ => at_ = root ∧ with_ = level ∧
      ((0x7ff00000 ≤ address.toNat ∧ address.toNat < 0x80000000) ∨
        (0x10000 ≤ address.toNat ∧ address.toNat < 0x11000))
  | .copyUpper at_ => at_ = root

/-- What `create_process` does before it copies the upper half. -/
def PrepareAction (pointer : U64) (root : Nat) : Action → Prop
  | .spacePage _ _ _ _ | .copyUpper _ => False
  | .pageMap at_ page => at_ = pointer ∧ page = root
  | .emptyPageMap at_ => at_ = pointer
  | _ => True

def CreateFits (hole : Hole) (kernel : Kernel) (newCalls vectorCalls : List HeapCall) : Prop :=
  HeapCallsFit hole kernel newCalls ∧
    ∀ grown, performHeapCalls kernel newCalls = some grown →
      grown.range.baseAddress.toNat + 8192 ≤ hole.last ∧
        ∀ pointer made, createPageMap grown = some (pointer, made) → HeapCallsFit hole made vectorCalls

/-- The ranges `mmap` maps for the allocator during the call. -/
def createGrants (kernel : Kernel) (newCalls vectorCalls : List HeapCall) : List Span :=
  callGrants kernel newCalls ++
    ((performHeapCalls kernel newCalls).bind createPageMap).elim [] fun made =>
      callGrants made.2 vectorCalls

/-- Nothing comes back to an empty free list. -/
theorem exhausted_step {action : Action} (step : Step hole config action next)
    (nothing : config.blocks = []) : next.blocks = [] := by
  have none : ∀ {page : Nat} {taken : PhysicalState} {between : List Span},
      TakesPage config.kernel.phys config.blocks page taken between → False := by
    intro page taken between takes
    obtain ⟨block, member, _⟩ := takes.inside page ⟨by omega, by omega⟩
    rw [nothing] at member
    exact absurd member List.not_mem_nil
  cases step with
  | reserve _ _ _ _ _ => exact nothing
  | heapPage takes _ _ _ => exact (none takes).elim
  | windowPage takes _ _ _ _ => exact (none takes).elim
  | pageMap takes _ _ _ _ => exact (none takes).elim
  | emptyPageMap _ effect _ _ _ => exact blocks_exhausted effect.tables.list effect.taken nothing
  | pageZero _ _ => exact nothing
  | spacePage _ _ _ takes _ => exact (none takes).elim
  | copyUpper _ => exact nothing

/-- Free memory was free before. -/
theorem free_step {action : Action} (step : Step hole config action next) (byte : Nat)
    (free : FreeAt next.blocks byte) : FreeAt config.blocks byte := by
  cases step with
  | reserve _ _ _ _ _ => exact free
  | heapPage takes effect _ _ => exact ((takes.left byte).mp (effect.taken byte free)).1
  | windowPage takes effect _ _ _ => exact ((takes.left byte).mp (effect.taken byte free)).1
  | pageMap takes effect _ _ _ => exact ((takes.left byte).mp (effect.taken byte free)).1
  | emptyPageMap _ effect _ _ _ => exact effect.taken byte free
  | pageZero _ _ => exact free
  | spacePage _ _ _ takes effect => exact ((takes.left byte).mp (effect.taken byte free)).1
  | copyUpper _ => exact free

theorem free_run {Allowed : Action → Prop} (steps : Steps hole Allowed config next) (byte : Nat)
    (free : FreeAt next.blocks byte) : FreeAt config.blocks byte := by
  induction steps with
  | refl => exact free
  | tail _ last ih =>
      obtain ⟨action, _, step⟩ := last
      exact ih (free_step step byte free)

theorem process_page_refused {process : ProcessContext} {address : U64} (sound : Sound hole config)
    (nothing : config.blocks = []) :
    processPage process (address, config.kernel) = some (false, (address, config.kernel)) ∧
      mapOutcome process (address, config.kernel) = none := by
  unfold processPage mapOutcome
  dsimp only
  rcases allocate_cases sound.tables.list with ⟨_, refused⟩ | ⟨page, taken, between, takes⟩
  · rw [refused]
    exact ⟨rfl, rfl⟩
  · obtain ⟨block, member, _⟩ := takes.inside page ⟨by omega, by omega⟩
    rw [nothing] at member
    exact absurd member List.not_mem_nil

theorem exhausted_run {Allowed : Action → Prop} (steps : Steps hole Allowed config next)
    (nothing : config.blocks = []) : next.blocks = [] := by
  induction steps with
  | refl => exact nothing
  | tail _ last ih =>
      obtain ⟨action, _, step⟩ := last
      exact exhausted_step step ih

theorem points_run {Allowed : Action → Prop} {pointer : U64} {root : Nat} (sound : Sound hole config)
    (steps : Steps hole Allowed config next) (points : PointsTo config pointer root) :
    PointsTo next pointer root := by
  have keeps : ∀ before action after, Sound hole before → PointsTo before pointer root →
      Allowed action → Step hole before action after → PointsTo after pointer root :=
    fun before action after beforeSound here _ step => here.step beforeSound step
  exact sound.steps keeps steps points

theorem linked_run {Allowed : Action → Prop} {pointer : U64} {root : Nat} (sound : Sound hole config)
    (steps : Steps hole Allowed config next) (linked : Linked config pointer root) :
    Linked next pointer root := by
  have keeps : ∀ before action after, Sound hole before → Linked before pointer root →
      Allowed action → Step hole before action after → Linked after pointer root :=
    fun before action after beforeSound here _ step => here.step beforeSound step
  exact sound.steps keeps steps linked

theorem prepare_action_create {pointer : U64} {root : Nat} {level : ProcessLevel} (action : Action)
    (allowed : PrepareAction pointer root action) : CreateAction pointer root level action := by
  cases action with
  | spacePage _ _ _ _ | copyUpper _ => exact False.elim allowed
  | _ => exact allowed

theorem kernel_action_prepare {pointer : U64} {root : Nat} (action : Action)
    (allowed : KernelAction action) : PrepareAction pointer root action := by
  cases action with
  | reserve | heapPage _ | windowPage _ => trivial
  | _ => exact False.elim allowed

theorem page_map_action_prepare {pointer : U64} {root : Nat} (action : Action)
    (allowed : PageMapAction pointer root action) : PrepareAction pointer root action := by
  cases action with
  | reserve | pageZero => trivial
  | pageMap _ _ | emptyPageMap _ => exact allowed
  | _ => exact False.elim allowed

theorem space_action_create (pointer : U64) {root first last : Nat} {level : ProcessLevel}
    (range : (first = 0x7ff00000 ∧ last = 0x80000000) ∨ (first = 0x10000 ∧ last = 0x11000))
    (action : Action) (allowed : SpaceAction root level first last action) :
    CreateAction pointer root level action := by
  cases action with
  | spacePage _ _ address _ =>
      obtain ⟨sameRoot, sameLevel, above, below⟩ := allowed
      exact ⟨sameRoot, sameLevel, by omega⟩
  | _ => exact False.elim allowed

/-- The copy links the new process to the kernel's tables. -/
theorem copy_upper_linked {pointer : U64} {root : Nat} (sound : Sound hole config)
    (points : PointsTo config pointer root) (member : root ∈ config.spaces)
    (step : Step hole config (.copyUpper root) next) : Linked next pointer root := by
  obtain ⟨upper, occupied⟩ := PointsTo.top_slot points sound
  have after := points.step sound step
  cases step with
  | copyUpper _ =>
      have copied : readEntry (copyBlock config.mem (root + 2048) (config.root + 2048) 2048) root
          (splitVirtualAddressToStructure pointer).pml4 = config.slots config.root _ :=
        copied_slot upper
      have shared := congrArg PageEntry.ppn copied
      exact ⟨member, after, fun vacant => occupied (shared.symm.trans vacant)⟩

/-- What a call of `create_process` has done when it returns. -/
structure Creation (hole : Hole) (config next : Config) (pointer : U64) (root : Nat)
    (level : ProcessLevel) (grants : List Span) : Prop where
  steps : Steps hole (CreateAction pointer root level) config next
  above : config.frontier ≤ pointer.toNat
  forward : config.frontier ≤ next.frontier
  granted : ∀ grant ∈ grants, config.frontier ≤ grant.base ∧
    grant.base + grant.length ≤ next.frontier ∧
    (pointer.toNat + 4096 ≤ grant.base ∨ grant.base + grant.length ≤ pointer.toNat)

/-- The stack and the first page, after the top table is in place. -/
theorem fill_process_steps (process : ProcessContext) {root : Nat} {again : Bool}
    {cursor : U64 × Kernel} (sound : Sound hole config)
    (linked : Linked config process.pageMap root)
    (looped : loop (processPage process) 256 (0x7ff00000, config.kernel) = some (again, cursor)) :
    ∃ stacked, stacked.kernel = cursor.2 ∧
      Steps hole (SpaceAction root process.level 0x7ff00000 0x80000000) config stacked ∧
      stacked.spaces = config.spaces ∧ stacked.frontier = config.frontier ∧
      ∀ worked after, allocateMemoryInProcess cursor.2 process 0x10000 1 = some (worked, after) →
        ∃ next, next.kernel = after ∧
          Steps hole (SpaceAction root process.level 0x10000 0x11000) stacked next ∧
          next.spaces = config.spaces ∧ next.frontier = config.frontier := by
  have first : (0x7ff00000 : U64).toNat = 0x7ff00000 := rfl
  have low : (0x10000 : U64).toNat = 0x10000 := rfl
  have one : (1 : U64).toNat = 1 := rfl
  obtain ⟨stacked, same, steps, spaces, frontier⟩ := process_pages_steps sound linked.points
    linked.member (by rw [first]; omega) looped
  refine ⟨stacked, same, steps, spaces, frontier, ?_⟩
  intro worked after ran
  have stackedLinked := linked_run sound steps linked
  rw [← same] at ran
  obtain ⟨next, nextSame, nextSteps, nextSpaces, nextFrontier⟩ := allocate_memory_steps
    (sound.run steps) stackedLinked.points stackedLinked.member (by rw [low, one]; omega) ran
  exact ⟨next, nextSame, nextSteps, nextSpaces.trans spaces, nextFrontier.trans frontier⟩

/-- Once there is a top table, every way the call can end. -/
theorem complete_process_steps (process : ProcessContext) {root : Nat} {copied after : Kernel}
    {result : Option ProcessContext} (sound : Sound hole config)
    (points : PointsTo config process.pageMap root) (member : root ∈ config.spaces)
    (copying : copyUpperHalf config.kernel process.pageMap = some copied)
    (completed : Completion process copied result after) :
    ∃ next, next.kernel = after ∧
      Steps hole (CreateAction process.pageMap root process.level) config next ∧
      next.spaces = config.spaces ∧ next.frontier = config.frontier ∧
      Linked next process.pageMap root ∧ (result = none ∨ result = some process) := by
  rw [copy_upper_run sound points, Option.some.injEq] at copying
  obtain ⟨again, cursor, looped, ends⟩ := completed
  have copy : Step hole config (.copyUpper root) _ := .copyUpper member
  have copySound := sound.step copy
  have linked := copy_upper_linked sound points member copy
  rw [← copying] at looped
  obtain ⟨stacked, stackedSame, stackedSteps, stackedSpaces, stackedFrontier, last⟩ :=
    fill_process_steps process copySound linked looped
  have first : Steps hole (CreateAction process.pageMap root process.level) config _ :=
    one_step (show CreateAction process.pageMap root process.level (.copyUpper root) from rfl) copy
  have whole := first.trans
    (stackedSteps.widen (space_action_create process.pageMap (Or.inl ⟨rfl, rfl⟩)))
  have stackedLinked := linked_run copySound stackedSteps linked
  rcases ends with ⟨_, nothing, sameKernel⟩ | ⟨_, ⟨worked, allocated⟩, returned⟩
  · exact ⟨stacked, stackedSame.trans sameKernel.symm, whole, stackedSpaces, stackedFrontier,
      stackedLinked, Or.inl nothing⟩
  · obtain ⟨next, nextSame, nextSteps, nextSpaces, nextFrontier⟩ := last worked after allocated
    have finishing := nextSteps.widen (space_action_create process.pageMap (Or.inr ⟨rfl, rfl⟩))
    exact ⟨next, nextSame, whole.trans finishing, nextSpaces, nextFrontier,
      linked_run (copySound.run stackedSteps) nextSteps stackedLinked, Or.inr returned⟩

/-- Without free memory the top table is page zero and the call fails. -/
theorem refuse_process_steps (process : ProcessContext) {copied after : Kernel}
    {result : Option ProcessContext} (sound : Sound hole config)
    (points : PointsTo config process.pageMap 0) (nothing : config.blocks = [])
    (copying : copyUpperHalf config.kernel process.pageMap = some copied)
    (completed : Completion process copied result after) :
    result = none ∧ ∃ next, next.kernel = after ∧
      Steps hole (CreateAction process.pageMap 0 process.level) config next ∧
      next.spaces = config.spaces ∧ next.frontier = config.frontier := by
  rw [copy_upper_run sound points, Option.some.injEq] at copying
  obtain ⟨again, cursor, looped, ends⟩ := completed
  have outside : ∀ byte, 4096 ≤ byte →
      copyBlock config.mem (0 + 2048) (config.root + 2048) 2048 byte = config.mem byte := by
    intro byte large
    apply copy_block_outside
    unfold Within
    omega
  have copy : Step hole config .pageZero _ := .pageZero _ outside
  have steps : Steps hole (CreateAction process.pageMap 0 process.level) config _ :=
    one_step (show CreateAction process.pageMap 0 process.level .pageZero from trivial) copy
  rw [← copying, loop_left (process_page_refused (sound.step copy) (exhausted_step copy nothing)).1,
    Option.some.injEq, Prod.mk.injEq] at looped
  rcases ends with ⟨_, none, sameKernel⟩ | ⟨went, _⟩
  · refine ⟨none, _, ?_, steps, rfl, rfl⟩
    rw [sameKernel, ← looped.2]
  · rw [← looped.1] at went
    exact absurd went (by simp)

/-- The heap calls and the top table. -/
theorem prepare_process_steps {grown made filled : Kernel} {pointer : U64}
    {newCalls vectorCalls : List HeapCall} (sound : Sound hole config)
    (fits : CreateFits hole config.kernel newCalls vectorCalls)
    (first : performHeapCalls config.kernel newCalls = some grown)
    (second : createPageMap grown = some (pointer, made))
    (third : performHeapCalls made vectorCalls = some filled) :
    ∃ root ready, ready.kernel = filled ∧ Steps hole (PrepareAction pointer root) config ready ∧
      config.frontier ≤ pointer.toNat ∧ config.frontier ≤ ready.frontier ∧
      (∀ grant ∈ createGrants config.kernel newCalls vectorCalls, config.frontier ≤ grant.base ∧
        grant.base + grant.length ≤ ready.frontier ∧
        (pointer.toNat + 4096 ≤ grant.base ∨ grant.base + grant.length ≤ pointer.toNat)) ∧
      TopTable config.spaces ready pointer root := by
  obtain ⟨newFits, later⟩ := fits
  obtain ⟨room, vectorFits⟩ := later grown first
  have vectorsFit := vectorFits pointer made second
  have grants : createGrants config.kernel newCalls vectorCalls =
      callGrants config.kernel newCalls ++ callGrants made vectorCalls := by
    rw [createGrants, first, Option.bind_some, second, Option.elim_some]
  obtain ⟨grownConfig, grownSame, grownSteps, grownSpaces, grownForward, grownGranted⟩ :=
    heap_calls_steps sound newFits first
  rw [← grownSame] at second room
  have grownSound := sound.run grownSteps
  obtain ⟨root, madeConfig, madeSame, madeSteps, above, points, top⟩ :=
    create_page_map_steps grownSound room second
  rw [← madeSame] at third vectorsFit
  have madeSound := grownSound.run madeSteps
  obtain ⟨ready, same, readySteps, readySpaces, forward, granted⟩ :=
    heap_calls_steps madeSound vectorsFit third
  have below := points.below
  refine ⟨root, ready, same, ((grownSteps.widen kernel_action_prepare).trans
    (madeSteps.widen page_map_action_prepare)).trans (readySteps.widen kernel_action_prepare),
    by omega, by omega, ?_, points_run madeSound readySteps points, ?_⟩
  · rw [grants]
    intro grant member
    rcases List.mem_append.mp member with here | there
    · have bounds := grownGranted grant here
      omega
    · rw [← madeSame] at there
      have bounds := granted grant there
      omega
  · rw [readySpaces, ← grownSpaces]
    rcases top with made | ⟨zero, spaces, nothing⟩
    · exact Or.inl made
    · exact Or.inr ⟨zero, spaces, exhausted_run readySteps nothing⟩

theorem create_process_steps {after : Kernel} {processPath processName : String} {entryPoint : U64}
    {level : ProcessLevel} {startPaused : Bool} {newCalls vectorCalls : List HeapCall}
    {result : Option ProcessContext} (sound : Sound hole config)
    (fits : CreateFits hole config.kernel newCalls vectorCalls)
    (ran : createProcess config.kernel processPath processName entryPoint level startPaused newCalls
      vectorCalls = some (result, after)) :
    ∃ pointer root next, next.kernel = after ∧
      Creation hole config next pointer root level
        (createGrants config.kernel newCalls vectorCalls) ∧
      root ∉ config.spaces ∧
      ((result = none ∧ next.spaces = config.spaces) ∨
        ((result = none ∨ result =
            some (createdProcess processPath processName entryPoint level startPaused pointer)) ∧
          next.spaces = root :: config.spaces ∧ Linked next pointer root)) := by
  obtain ⟨grown, pointer, made, filled, copied, first, second, third, fourth, completed⟩ :=
    create_process_phases ran
  obtain ⟨root, ready, readySame, readySteps, above, forward, granted, points, top⟩ :=
    prepare_process_steps sound fits first second third
  have readySound := sound.run readySteps
  have soFar := readySteps.widen (@prepare_action_create pointer root level)
  obtain ⟨process, isProcess⟩ : ∃ process, process = createdProcess processPath processName
    entryPoint level startPaused pointer := ⟨_, rfl⟩
  have pageMap : process.pageMap = pointer := by rw [isProcess]; rfl
  have sameLevel : process.level = level := by rw [isProcess]; rfl
  rw [← isProcess] at completed
  rw [← readySame] at fourth
  rw [← pageMap] at points fourth
  rcases top with ⟨spaces, fresh⟩ | ⟨zero, spaces, nothing⟩
  · have member : root ∈ ready.spaces := by
      rw [spaces]
      exact List.mem_cons_self
    obtain ⟨next, same, steps, nextSpaces, frontier, linked, returned⟩ :=
      complete_process_steps process readySound points member fourth completed
    rw [← frontier] at granted forward
    rw [pageMap, sameLevel] at steps
    rw [pageMap] at linked
    rw [isProcess] at returned
    exact ⟨pointer, root, next, same, ⟨soFar.trans steps, above, forward, granted⟩, fresh,
      Or.inr ⟨returned, nextSpaces.trans spaces, linked⟩⟩
  · subst zero
    obtain ⟨none, next, same, steps, nextSpaces, frontier⟩ := refuse_process_steps process
      readySound points nothing fourth completed
    rw [← frontier] at granted forward
    rw [pageMap, sameLevel] at steps
    exact ⟨pointer, 0, next, same, ⟨soFar.trans steps, above, forward, granted⟩,
      fun member => sound.nonzero 0 (Or.inr member) rfl, Or.inl ⟨none, nextSpaces.trans spaces⟩⟩

/-! ### Creation with enough memory -/

theorem create_page_map_returns (sound : Sound hole config)
    (room : config.kernel.range.baseAddress.toNat + 8192 ≤ hole.last)
    (aligned : config.kernel.range.baseAddress % 4096 = 0)
    (guard : roundedRequest 4096 ≠ config.kernel.range.remainingBytes)
    (enough : 20480 ≤ freeBytes config.blocks) :
    ∃ root next, createPageMap config.kernel =
        some (config.kernel.range.baseAddress, next.kernel) ∧
      Steps hole (PageMapAction config.kernel.range.baseAddress root) config next ∧
      next.spaces = root :: config.spaces ∧ root ∉ config.spaces ∧
      PointsTo next config.kernel.range.baseAddress root ∧
      freeBytes config.blocks ≤ freeBytes next.blocks + 20480 ∧
      next.kernel.range = ⟨config.kernel.range.baseAddress + roundedRequest 4096,
        config.kernel.range.remainingBytes⟩ := by
  have request : (roundedRequest 4096).toNat = 8192 := by decide
  obtain ⟨sum, reserve⟩ := reserve_step sound (by rw [request]; exact room)
  have reserved := sound.step reserve
  obtain ⟨lower, start, bounds, below⟩ := sound.heap
  obtain ⟨covered, last⟩ := sound.range
  have inside : hole.Contains config.kernel.range.baseAddress := ⟨by omega, by omega⟩
  rcases allocate_cases sound.tables.list with ⟨nothing, _⟩ | ⟨page, taken, between, takes⟩
  · rw [nothing] at enough
    have none : freeBytes [] = 0 := rfl
    omega
  · have kept := sound.kept.takes takes
    have bound := takes.bound
    have bytes := takes.bytes
    obtain ⟨success, phys, remaining, run, effect⟩ := virtual_map_effect pageMapFlags kept.tables
      (kernel_live config) (kernel_owns _ _) (kept.small _ inside)
      (page_word_aligned takes.aligned (by omega)) aligned inside.extended.canonical
    have spent := effect.supply.1
    have worked := effect.succeeds (by omega)
    subst worked
    have pointerAligned := (page_offset_to_nat aligned (show 0 < 4096 by omega)).1
    have writable := writable_here effect rfl rfl (kernel_live config) (kernel_owns _ _)
      takes.aligned (taken_bound sound takes)
    have found : Kernel.writablePage { config.kernel with
        phys
        range := ⟨config.kernel.range.baseAddress + roundedRequest 4096,
          config.kernel.range.remainingBytes⟩ } config.kernel.range.baseAddress = some page := by
      apply writable_page_found
      have walked := writable.walkers.1
      rw [pointerAligned, Nat.add_zero, ← sound.active] at walked
      exact walked
    obtain ⟨next, same, blocks, steps, spaces, fresh, points⟩ :=
      top_table_made reserved takes effect pointerAligned rfl (by dsimp only; omega)
    have reserving : Steps hole (PageMapAction config.kernel.range.baseAddress page) config _ :=
      one_step (show PageMapAction _ page .reserve from trivial) reserve
    refine ⟨page, next, ?_, reserving.trans steps, spaces, fresh, points, by rw [blocks]; omega,
      by rw [same]⟩
    rcases allocate_kernel_cases config.kernel.range 4096 with ⟨full, _⟩ | ⟨_, returned⟩
    · exact absurd full guard
    · unfold createPageMap
      rw [returned, base_signed sound, same]
      dsimp only
      rw [takes.result]
      dsimp only
      rw [run]
      dsimp only
      rw [found, Option.map_some]

/-- A call in which neither `new` nor the vectors need the kernel. -/
theorem create_process_run {kernel made copied after : Kernel} {processPath processName : String}
    {entryPoint pointer : U64} {level : ProcessLevel} {startPaused : Bool}
    {result : Option ProcessContext} (page : createPageMap kernel = some (pointer, made))
    (copying : copyUpperHalf made pointer = some copied)
    (completed : Completion
      (createdProcess processPath processName entryPoint level startPaused pointer) copied result
      after) :
    createProcess kernel processPath processName entryPoint level startPaused [] [] =
      some (result, after) := by
  have reserved : (!createVmem.1.1) = false := by decide
  have rounds : (stackSize / 4096).toNat = 256 := by decide
  have start : (0x80000000 : U64) - stackSize = 0x7ff00000 := by decide
  have none : ∀ kernel, performHeapCalls kernel [] = some kernel := fun _ => rfl
  obtain ⟨again, cursor, looped, ends⟩ := completed
  unfold createProcess
  simp only [reserved, rounds, start, Bool.false_eq_true, if_false]
  refine Option.bind_eq_some_iff.mpr ⟨kernel, none kernel, ?_⟩
  refine Option.bind_eq_some_iff.mpr ⟨(pointer, made), page, ?_⟩
  refine Option.bind_eq_some_iff.mpr ⟨made, none made, ?_⟩
  refine Option.bind_eq_some_iff.mpr ⟨copied, copying, ?_⟩
  refine Option.bind_eq_some_iff.mpr ⟨(again, cursor), looped, ?_⟩
  rcases ends with ⟨stopped, failed, same⟩ | ⟨went, ⟨worked, allocated⟩, returned⟩
  · simp only [stopped, failed, same, Bool.not_false, if_true]
  · simp only [went, returned, Bool.not_true, Bool.false_eq_true, if_false]
    exact Option.bind_eq_some_iff.mpr ⟨(worked, after), allocated, rfl⟩

/-- With memory for the table, 256 stack pages and one more, a process is created. -/
theorem create_process_returns (processPath processName : String) (entryPoint : U64)
    (level : ProcessLevel) (startPaused : Bool) (sound : Sound hole config)
    (room : config.kernel.range.baseAddress.toNat + 8192 ≤ hole.last)
    (aligned : config.kernel.range.baseAddress % 4096 = 0)
    (guard : roundedRequest 4096 ≠ config.kernel.range.remainingBytes)
    (enough : 258 * 20480 ≤ freeBytes config.blocks) :
    ∃ root next, createProcess config.kernel processPath processName entryPoint level startPaused
        [] [] = some (some (createdProcess processPath processName entryPoint level startPaused
          config.kernel.range.baseAddress), next.kernel) ∧
      Steps hole (CreateAction config.kernel.range.baseAddress root level) config next ∧
      Linked next config.kernel.range.baseAddress root ∧
      freeBytes config.blocks ≤ freeBytes next.blocks + 258 * 20480 ∧
      next.kernel.range = ⟨config.kernel.range.baseAddress + roundedRequest 4096,
        config.kernel.range.remainingBytes⟩ ∧
      ∀ target : U64, (0x7ff00000 ≤ target.toNat ∧ target.toNat < 0x80000000) ∨
        (0x10000 ≤ target.toNat ∧ target.toNat < 0x11000) →
          (liveLeaf next.slots root target).isSome := by
  have first : (0x7ff00000 : U64).toNat = 0x7ff00000 := rfl
  have low : (0x10000 : U64).toNat = 0x10000 := rfl
  obtain ⟨root, made, madeRun, madeSteps, spaces, _, points, spent, range⟩ :=
    create_page_map_returns sound room aligned guard (by omega)
  have madeSound := sound.run madeSteps
  have member : root ∈ made.spaces := by
    rw [spaces]
    exact List.mem_cons_self
  have copy : Step hole made (.copyUpper root) _ := .copyUpper member
  have copySound := madeSound.step copy
  have linked := copy_upper_linked madeSound points member copy
  obtain ⟨process, isProcess⟩ : ∃ process, process = createdProcess processPath processName
    entryPoint level startPaused config.kernel.range.baseAddress := ⟨_, rfl⟩
  have pageMap : process.pageMap = config.kernel.range.baseAddress := by rw [isProcess]; rfl
  have sameLevel : process.level = level := by rw [isProcess]; rfl
  rw [← pageMap] at linked
  have supplied : 257 * 20480 ≤ freeBytes made.blocks := by omega
  obtain ⟨stacked, cursor, looped, stackSteps, _, _, stackSpent, stackMapped⟩ :=
    process_pages_mapped copySound linked.points linked.member (show _ % 4096 = 0 from rfl)
      (by rw [first]; omega) (show 256 * 20480 ≤ freeBytes made.blocks by omega)
  have left : freeBytes made.blocks ≤ freeBytes stacked.blocks + 256 * 20480 := stackSpent
  have stackedEnough : 1 * 20480 ≤ freeBytes stacked.blocks := by omega
  have stackedSound := copySound.run stackSteps
  have stackedLinked := linked_run copySound stackSteps linked
  obtain ⟨next, last, oneLooped, oneSteps, _, _, oneSpent, oneMapped⟩ :=
    process_pages_mapped stackedSound stackedLinked.points stackedLinked.member
      (show (0x10000 : U64).toNat % 4096 = 0 from rfl) (by rw [low]; omega) stackedEnough
  refine ⟨root, next, ?_, ?_, ?_, by omega,
    (space_range_run oneSteps).trans ((space_range_run stackSteps).trans range), ?_⟩
  · have below : ¬(0x10000 : U64) + 1 * 4096 > 0x80000000 := by decide
    have one : (1 : U64).toNat = 1 := rfl
    rw [isProcess] at looped oneLooped
    have allocated : allocateMemoryInProcess stacked.kernel
        (createdProcess processPath processName entryPoint level startPaused
          config.kernel.range.baseAddress) 0x10000 1 = some (true, next.kernel) := by
      rw [allocateMemoryInProcess, if_neg below, one, oneLooped, Option.map_some]
    exact create_process_run madeRun (copy_upper_run madeSound points)
      ⟨true, _, looped, Or.inr ⟨rfl, ⟨true, allocated⟩, rfl⟩⟩
  · rw [sameLevel] at stackSteps oneSteps
    have making : Steps hole (CreateAction config.kernel.range.baseAddress root level) config made :=
      (madeSteps.widen page_map_action_prepare).widen prepare_action_create
    have copying : Steps hole (CreateAction config.kernel.range.baseAddress root level) made _ :=
      one_step (show CreateAction _ root level (.copyUpper root) from rfl) copy
    have stacking := stackSteps.widen
      (space_action_create config.kernel.range.baseAddress (Or.inl ⟨rfl, rfl⟩))
    have finishing := oneSteps.widen
      (space_action_create config.kernel.range.baseAddress (Or.inr ⟨rfl, rfl⟩))
    exact ((making.trans copying).trans stacking).trans finishing
  · rw [← pageMap]
    exact linked_run stackedSound oneSteps stackedLinked
  · rintro target (stack | single)
    · exact space_run_stays stackedSound (by omega) oneSteps
        (stackMapped target (by rw [first]; exact stack.1) (by rw [first]; omega))
    · exact oneMapped target (by rw [low]; exact single.1) (by rw [low]; omega)

end KittyOs.ProcessCalls
