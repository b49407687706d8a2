import KittyOs.ProcessGrowth

/-!
# Creating a process

`create_process` ignores whether there was a page for the top table and what
`virtual_map` returns; it only looks for a missing stack page. That is enough for a
process it returns: memory that has run out stays so, and the stack lies in one
last-level table, so every stack page is mapped. It is not enough for a call that
fails: the exit passes the address of the top table to `delete[]`, which never came
from the allocator, and gives nothing back.
-/

namespace KittyOs.ProcessCreation

open KittyOs.Lib.ByteMemory KittyOs.Lib.SpanPartition KittyOs.Lib.BoundedLoop
open KittyOs.MachineWord KittyOs.PageTable KittyOs.PhysicalModel KittyOs.PhysicalFreelist
open KittyOs.VirtualModel KittyOs.VirtualMapping KittyOs.MapEffect
open KittyOs.Translation KittyOs.KernelModel KittyOs.HeapBounds KittyOs.ProcessModel
open KittyOs.AddressSpaces KittyOs.KernelCalls KittyOs.SharedHalf KittyOs.ProcessCalls
open KittyOs.BootState KittyOs.MemoryRuns KittyOs.FrameRoles
open KittyOs.VmemRecords KittyOs.ProcessGrowth

set_option autoImplicit false

variable {hole : Hole} {usable : Nat → Prop} {config next : Config} {root : Nat}
variable {process : ProcessContext}

/-! ### Frames of a new address space -/

/-- Everything mapped in the lower half of `root`, and everything still free, was free in
`blocks`. -/
structure FromBlocks (blocks : List Span) (root : Nat) (config : Config) : Prop where
  free : ∀ byte, FreeAt config.blocks byte → FreeAt blocks byte
  leaf : ∀ target : U64, target.toNat < 2 ^ 47 → ∀ leaf,
    liveLeaf config.slots root target = some leaf →
      ∀ byte, Within leaf.frame 4096 byte → FreeAt blocks byte

theorem FromBlocks.round {blocks : List Span} {level : ProcessLevel} {address : U64} {success : Bool}
    (sound : Sound hole config) (fromBlocks : FromBlocks blocks root config)
    (step : Step hole config (.spacePage root level address success) next) :
    FromBlocks blocks root next := by
  refine ⟨fun byte free => fromBlocks.free byte (free_step step byte free), ?_⟩
  intro target lower leaf found byte inside
  cases step with
  | spacePage member placed aligned takes effect =>
      by_cases here : success = true ∧ root = root ∧ pathOf target = pathOf address
      · obtain ⟨worked, _, path⟩ := here
        rw [worked] at effect
        have writable := writable_here effect rfl rfl (space_live member) (lower_owned _ _ placed)
          takes.aligned (taken_bound sound takes)
        obtain ⟨entry, there, frame⟩ := writable.leaf
        rw [live_leaf_path path] at found
        rw [Option.some.inj (found.symm.trans there), frame] at inside
        exact fromBlocks.free byte (takes.inside byte inside)
      · have same := leaf_after sound takes effect (space_live member) (lower_owned _ _ lower) here
        exact fromBlocks.leaf target lower leaf (same.symm.trans found) byte inside

/-- The upper half of `root` is what `kernel` had in its top table. -/
def UpperFrom (kernel : Kernel) (root : Nat) (config : Config) : Prop :=
  ∀ slot : Slot, 256 ≤ slot.toNat →
    config.slots root slot = readEntry kernel.phys.mem kernel.kernelPml4 slot

theorem UpperFrom.round {kernel : Kernel} {level : ProcessLevel} {address : U64} {success : Bool}
    (sound : Sound hole config) (upperFrom : UpperFrom kernel root config)
    (step : Step hole config (.spacePage root level address success) next) :
    UpperFrom kernel root next := by
  intro slot upper
  have member : root ∈ config.spaces := by
    cases step with
    | spacePage member _ _ _ _ => exact member
  rcases space_slot_step sound step member upper with same | ⟨copies, _⟩
  · rw [same]
    exact upperFrom slot upper
  · exact absurd copies (by simp)

/-! ### The stack -/

/-- The loop over the stack always comes to an end. -/
theorem stack_loop (space : SpaceOf hole usable config process root) :
    ∃ again cursor stacked, loop (processPage process) 256 (0x7ff00000, config.kernel) =
        some (again, (cursor, stacked.kernel)) ∧
      Steps hole (SpaceAction root process.level 0x7ff00000 0x80000000) config stacked ∧
      (again = false → stacked.blocks = []) ∧
      Grown config stacked root 0x7ff00000 0x80000000 again
        (mapResults process 256 (0x7ff00000, config.kernel)) := by
  have aligned : (0x7ff00000 : U64).toNat % 4096 = 0 := rfl
  have bound : (0x7ff00000 : U64).toNat + 256 * 4096 ≤ 2 ^ 47 := by decide
  obtain ⟨again, cursor, stacked, grows⟩ := process_pages_grow space aligned bound
  exact ⟨again, cursor, stacked, grows⟩

/-- A stack loop that runs to its end has mapped the stack. -/
theorem stack_mapped {cursor : U64 × Kernel} (space : SpaceOf hole usable config process root)
    (looped : loop (processPage process) 256 (0x7ff00000, config.kernel) = some (true, cursor)) :
    ∃ stacked, stacked.kernel = cursor.2 ∧
      Steps hole (SpaceAction root process.level 0x7ff00000 0x80000000) config stacked ∧
      ∀ target : U64, 0x7ff00000 ≤ target.toNat → target.toNat < 0x80000000 →
        (liveLeaf stacked.slots root target).isSome := by
  have first : (0x7ff00000 : U64).toNat = 0x7ff00000 := rfl
  have aligned : (0x7ff00000 : U64).toNat % 4096 = 0 := rfl
  have bound : (0x7ff00000 : U64).toNat + (254 + 2) * 4096 ≤ 2 ^ 47 := by rw [first]; omega
  have region : ∀ target : U64, (0x7ff00000 : U64).toNat ≤ target.toNat →
      target.toNat < (0x7ff00000 : U64).toNat + (254 + 2) * 4096 →
        tablePathOf target = tablePathOf 0x7ff00000 := by
    intro target above below
    apply table_path_of_region
    rw [first] at above below ⊢
    omega
  have results := one_table_results space aligned bound region looped
  obtain ⟨again, last, stacked, ran, steps, _, grown⟩ := stack_loop space
  rw [looped, Option.some.injEq, Prod.mk.injEq] at ran
  rw [← ran.1] at grown
  refine ⟨stacked, by rw [ran.2], steps, ?_⟩
  cases grown with
  | mapped _ there => exact there
  | missed _ _ _ failed _ => exact absurd (results false failed) (by simp)

/-! ### A call that returns a process -/

/-- The first page is mapped unless memory has run out. -/
theorem first_page_round {worked : Bool} {after : Kernel}
    (space : SpaceOf hole usable config process root)
    (allocated : allocateMemoryInProcess config.kernel process 0x10000 1 = some (worked, after)) :
    ∃ next, next.kernel = after ∧
      Steps hole (SpaceAction root process.level 0x10000 0x11000) config next ∧
      ((liveLeaf next.slots root 0x10000).isSome ∨ next.blocks = []) := by
  have one : (1 : U64).toNat = 1 := rfl
  rw [allocate_memory_loop config.kernel (by decide), one] at allocated
  rcases space.next_round (show (0x10000 : U64).toNat % 4096 = 0 by decide) (by decide) with
    ⟨nothing, left⟩ | ⟨success, next, round, _⟩
  · rw [loop_left left, Option.map_some, Option.some.injEq, Prod.mk.injEq] at allocated
    exact ⟨config, allocated.2, Relation.ReflTransGen.refl, Or.inr nothing⟩
  · rw [loop_next round.ran, loop_done, Option.map_some, Option.some.injEq, Prod.mk.injEq]
      at allocated
    have inside : SpaceAction root process.level 0x10000 0x11000
        (.spacePage root process.level 0x10000 success) := ⟨rfl, rfl, by decide, by decide⟩
    refine ⟨next, allocated.2, one_step inside round.step, ?_⟩
    cases success with
    | true => exact Or.inl (space_page_maps round.step)
    | false => exact Or.inr (round.starved rfl).2.1

/-- The kernel at the moment the upper half is copied. -/
def copyMoment (kernel : Kernel) (newCalls vectorCalls : List HeapCall) : Option Kernel :=
  (performHeapCalls kernel newCalls).bind fun grown =>
    (createPageMap grown).bind fun made => performHeapCalls made.2 vectorCalls

/-- A new address space: `filled` is the kernel it was copied from, `blocks` what was free
when the call began. -/
structure NewSpace (hole : Hole) (usable : Nat → Prop) (filled : Kernel) (blocks : List Span)
    (config : Config) (process : ProcessContext) (root : Nat) : Prop where
  space : SpaceOf hole usable config process root
  frames : FromBlocks blocks root config
  upper : UpperFrom filled root config

theorem NewSpace.run {filled : Kernel} {blocks : List Span} {first last : Nat}
    (new : NewSpace hole usable filled blocks config process root)
    (steps : Steps hole (SpaceAction root process.level first last) config next) :
    NewSpace hole usable filled blocks next process root := by
  have keeps := new.space.rounds
    (fun other => FromBlocks blocks root other ∧ UpperFrom filled root other)
    (fun _ _ _ _ space _ _ step here =>
      ⟨here.1.round space.orderly.sound step, here.2.round space.orderly.sound step⟩)
    steps ⟨new.frames, new.upper⟩
  exact ⟨keeps.1, keeps.2.1, keeps.2.2⟩

/-- After the copy the new address space has the kernel's upper half and nothing else. -/
theorem copied_space {ready : Config} {pointer : U64} (orderly : Orderly hole usable config)
    (steps : Steps hole (PrepareAction pointer root) config ready) (fresh : root ∉ config.spaces)
    (member : root ∈ ready.spaces) (points : PointsTo ready pointer root)
    (samePointer : process.pageMap = pointer)
    (copy : Step hole ready (.copyUpper root) next) :
    NewSpace hole usable ready.kernel config.blocks next process root := by
  have sound := orderly.sound
  have readySound := sound.run steps
  have linked := copy_upper_linked readySound points member copy
  have copying : Steps hole (CreateAction pointer root process.level) ready next :=
    one_step (show CreateAction pointer root process.level (.copyUpper root) from rfl) copy
  have whole := (steps.widen prepare_action_create).trans copying
  have marked := created_marked sound whole fresh linked.member
  rw [← samePointer] at linked
  refine ⟨⟨orderly.run whole, linked, marked⟩, ⟨fun byte free => free_run whole byte free, ?_⟩, ?_⟩
  · intro target lower leaf found
    have outside : ∀ action, PrepareAction pointer root action → MapsOutside root target action := by
      intro action allowed
      cases action with
      | spacePage _ _ _ _ => exact False.elim allowed
      | _ => trivial
    have missing := new_space_leaf sound steps fresh member lower outside
    rw [← space_leaf_step readySound copy member lower trivial, found] at missing
    exact absurd missing (by simp)
  · intro slot upper
    cases copy with
    | copyUpper _ => exact copied_slot upper

/-- What `create_process` has built when it returns a process. -/
theorem created_process {after : Kernel} {processPath processName : String} {entryPoint : U64}
    {level : ProcessLevel} {startPaused : Bool} {newCalls vectorCalls : List HeapCall}
    (orderly : Orderly hole usable config) (fits : CreateFits hole config.kernel newCalls vectorCalls)
    (ran : createProcess config.kernel processPath processName entryPoint level startPaused newCalls
      vectorCalls = some (some process, after)) :
    process.threads = [⟨entryPoint, 0x80000000 - 8⟩] ∧ process.availableVmem = createVmem.2 ∧
      ∃ root filled next, copyMoment config.kernel newCalls vectorCalls = some filled ∧
        next.kernel = after ∧ NewSpace hole usable filled config.blocks next process root ∧
        (∀ target : U64, 0x7ff00000 ≤ target.toNat → target.toNat < 0x80000000 →
          (liveLeaf next.slots root target).isSome) ∧
        ((liveLeaf next.slots root 0x10000).isSome ∨ next.blocks = []) := by
  have sound := orderly.sound
  obtain ⟨grown, pointer, made, filled, copied, first, second, third, fourth, completed⟩ :=
    create_process_phases ran
  obtain ⟨root, ready, readySame, steps, _, _, _, points, top⟩ :=
    prepare_process_steps sound fits first second third
  have moment : copyMoment config.kernel newCalls vectorCalls = some filled := by
    rw [copyMoment, first, Option.bind_some, second, Option.bind_some, third]
  have readySound := sound.run steps
  obtain ⟨created, isCreated⟩ : ∃ created, created = createdProcess processPath processName
    entryPoint level startPaused pointer := ⟨_, rfl⟩
  have pageMap : created.pageMap = pointer := by rw [isCreated]; rfl
  have threads : created.threads = [⟨entryPoint, 0x80000000 - 8⟩] := by rw [isCreated]; rfl
  have vmem : created.availableVmem = createVmem.2 := by rw [isCreated]; rfl
  rw [← isCreated] at completed
  rw [← readySame] at fourth moment
  rcases top with ⟨spaces, fresh⟩ | ⟨zero, _, nothing⟩
  · have member : root ∈ ready.spaces := by
      rw [spaces]
      exact List.mem_cons_self
    have copy : Step hole ready (.copyUpper root) _ := .copyUpper member
    have new := copied_space orderly steps fresh member points pageMap copy
    rw [copy_upper_run readySound points, Option.some.injEq] at fourth
    obtain ⟨again, cursor, looped, ends⟩ := completed
    rw [← fourth] at looped
    rcases ends with ⟨_, failed, _⟩ | ⟨went, ⟨worked, allocated⟩, returned⟩
    · exact absurd failed (by simp)
    · rw [went] at looped
      obtain ⟨stacked, same, stackSteps, mapped⟩ := stack_mapped new.space looped
      have stackedNew := new.run stackSteps
      rw [← same] at allocated
      obtain ⟨next, nextSame, nextSteps, first⟩ := first_page_round stackedNew.space allocated
      rw [Option.some.inj returned]
      refine ⟨threads, vmem, root, ready.kernel, next, moment, nextSame, stackedNew.run nextSteps,
        ?_, first⟩
      intro target above below
      exact space_run_stays stackedNew.space.orderly.sound (by omega) nextSteps
        (mapped target above below)
  · rw [zero] at points
    rw [← pageMap] at points fourth
    have refused := refuse_process_steps created readySound points nothing fourth completed
    exact absurd refused.1 (by simp)

/-- Page `index` of the stack is present, writable and backed by `frames index`, which was
free in `blocks` and backs no other page. -/
structure StackBacked (after : Kernel) (process : ProcessContext) (blocks : List Span)
    (frames : Nat → Nat) : Prop where
  mapped : ∀ target : U64, 0x80000000 - stackSize.toNat ≤ target.toNat → target.toNat < 0x80000000 →
    translation after process target =
      some (frames ((target.toNat - (0x80000000 - stackSize.toNat)) / 4096) + target.toNat % 4096,
        true)
  free : ∀ index < (stackSize / 4096).toNat, ∀ byte, Within (frames index) 4096 byte →
    FreeAt blocks byte
  distinct : ∀ left < (stackSize / 4096).toNat, ∀ right < (stackSize / 4096).toNat,
    frames left = frames right → left = right

/-- The address of a stack page. -/
def stackPage (index : Nat) : U64 := BitVec.ofNat 64 (0x7ff00000 + index * 4096)

theorem stack_page_to_nat {index : Nat} (bound : index < 256) :
    (stackPage index).toNat = 0x7ff00000 + index * 4096 := by
  rw [stackPage, BitVec.toNat_ofNat]
  omega

theorem NewSpace.stack_backed {filled : Kernel} {blocks : List Span}
    (new : NewSpace hole usable filled blocks config process root)
    (mapped : ∀ target : U64, 0x7ff00000 ≤ target.toNat → target.toNat < 0x80000000 →
      (liveLeaf config.slots root target).isSome) :
    ∃ frames, StackBacked config.kernel process blocks frames := by
  have size : stackSize.toNat = 0x100000 := by decide
  have pages : (stackSize / 4096).toNat = 256 := by decide
  have settled := new.space.orderly.settled
  have member := new.space.linked.member
  have leaves : ∀ index, ∃ leaf, index < 256 →
      liveLeaf config.slots root (stackPage index) = some leaf := by
    intro index
    by_cases bound : index < 256
    · have place := stack_page_to_nat bound
      obtain ⟨leaf, found⟩ := Option.isSome_iff_exists.mp
        (mapped (stackPage index) (by omega) (by omega))
      exact ⟨leaf, fun _ => found⟩
    · exact ⟨blankEntry, fun inside => absurd inside bound⟩
  choose leaf found using leaves
  refine ⟨fun index => (leaf index).frame, ?_, ?_, ?_⟩
  · intro target above below
    rw [size] at above ⊢
    have bound : (target.toNat - (0x80000000 - 0x100000)) / 4096 < 256 := by omega
    have place := stack_page_to_nat bound
    have path : pathOf target = pathOf (stackPage _) := path_of_page (by rw [place]; omega)
    rw [new.space.translation, new.space.lower_walk (by omega), live_leaf_path path, found _ bound,
      Option.map_some]
  · rw [pages]
    intro index bound byte inside
    have place := stack_page_to_nat bound
    exact new.frames.leaf (stackPage index) (by omega) (leaf index) (found index bound) byte inside
  · rw [pages]
    intro left leftBound right rightBound same
    have leftPlace := stack_page_to_nat leftBound
    have rightPlace := stack_page_to_nat rightBound
    have leftLower : (stackPage left).toNat < 2 ^ 47 := by omega
    have rightLower : (stackPage right).toNat < 2 ^ 47 := by omega
    have nonzero := settled.nonzero root member (stackPage right) rightLower (leaf right)
      (found right rightBound)
    have one := settled.single root (stackPage right) (leaf right) (Or.inr ⟨member, rightLower⟩)
      (found right rightBound) nonzero root (stackPage left) (leaf left)
      (Or.inr ⟨member, leftLower⟩) (found left leftBound) same
    have page := page_of_path (Or.inl leftLower) (Or.inl rightLower) one.2
    omega

/-- A process that is returned has its whole stack. -/
theorem created_process_ready {kernel booted after : Kernel} {blocks : List Span} {machine : Machine}
    {processPath processName : String} {entryPoint : U64} {level : ProcessLevel} {startPaused : Bool}
    {newCalls vectorCalls : List HeapCall} (boot : Boot hole kernel blocks)
    (heap : initializeHeap kernel = some booted) (run : Reachable hole ⟨booted, [], []⟩ machine)
    (fits : CreateFits hole machine.kernel newCalls vectorCalls)
    (ran : createProcess machine.kernel processPath processName entryPoint level startPaused newCalls
      vectorCalls = some (some process, after)) :
    (∃ available frames, FreeList machine.kernel.phys available ∧
        StackBacked after process available frames) ∧
      (∃ thread, process.threads = [thread] ∧ 0x80000000 - stackSize.toNat ≤ thread.rsp.toNat ∧
        thread.rsp.toNat < 0x80000000) ∧
      ∃ filled, copyMoment machine.kernel newCalls vectorCalls = some filled ∧
        ∀ slot : Slot, 256 ≤ slot.toNat →
          readEntry after.phys.mem (pageMapRoot after process) slot =
            readEntry filled.phys.mem filled.kernelPml4 slot := by
  obtain ⟨config, _, holds⟩ := (boot_holds boot heap).reach run
  rw [← holds.kernel] at fits ran ⊢
  obtain ⟨threads, _, root, filled, next, moment, same, new, mapped, _⟩ :=
    created_process holds.orderly fits ran
  obtain ⟨frames, backed⟩ := new.stack_backed mapped
  have top : 0x80000000 - stackSize.toNat ≤ ((0x80000000 : U64) - 8).toNat ∧
      ((0x80000000 : U64) - 8).toNat < 0x80000000 := by decide
  rw [← same]
  refine ⟨⟨config.blocks, frames, holds.orderly.sound.tables.list, backed⟩,
    ⟨_, threads, top⟩, filled, moment, ?_⟩
  rw [page_map_root new.space.orderly.sound new.space.linked]
  exact new.upper

theorem large_process_ready :
    ∃ after, createProcess largeHeap "/init" "init" 0x10000 .user false [] [] =
        some (some (largeProcess .user), after) ∧
      (∃ available frames, FreeList largeHeap.phys available ∧
        StackBacked after (largeProcess .user) available frames) := by
  have enough : 258 * 20480 ≤ freeBytes [⟨0x2000, 0x2000000000⟩] := by decide
  obtain ⟨root, next, created, _⟩ := booted_process_created .user large_sound enough
  have fits : CreateFits largeHole largeHeap [] [] := first_create_fits largeHeap.phys
  exact ⟨next.kernel, created, (created_process_ready large_boot large_heap_initialized
    Relation.ReflTransGen.refl fits created).1⟩

/-! ### A call that fails -/

/-- `process->page_map`, which the failure exits pass to `delete[]`. -/
def deletedPointer (kernel : Kernel) (newCalls : List HeapCall) : Option U64 :=
  (performHeapCalls kernel newCalls).bind fun grown => (createPageMap grown).map Prod.fst

/-- The machine after a call, as in `perform`. -/
def machineAfter (machine : Machine) (newCalls vectorCalls : List HeapCall)
    (outcome : Option ProcessContext × Kernel) : Machine where
  kernel := outcome.2
  processes := machine.processes ++ outcome.1.toList
  granted := machine.granted ++ createGrants machine.kernel newCalls vectorCalls

/-- What is deleted came from `operator new`, which hands out heap below the break and
windows of `mmap`, and nothing that was acquired on the way is kept. -/
structure CleanExit (before after : Machine) (deleted : Option U64) : Prop where
  deletes : ∀ pointer, deleted = some pointer → KernelPage after pointer
  bytes : ∀ blocks remaining, FreeList before.kernel.phys blocks →
    FreeList after.kernel.phys remaining → freeBytes remaining = freeBytes blocks
  translations : ∀ target, SignExtended target →
    hardwareWalk after.kernel.phys.mem after.kernel.kernelPml4 target =
      hardwareWalk before.kernel.phys.mem before.kernel.kernelPml4 target

/-- The stack loop only stops when nothing is free any more. -/
theorem failed_completion {ready : Config} {pointer : U64} {copied after : Kernel}
    (orderly : Orderly hole usable config)
    (steps : Steps hole (PrepareAction pointer root) config ready)
    (top : TopTable config.spaces ready pointer root) (samePointer : process.pageMap = pointer)
    (copying : copyUpperHalf ready.kernel pointer = some copied)
    (completed : Completion process copied none after) :
    ∃ next, next.kernel = after ∧ Steps hole (CreateAction pointer root process.level) ready next ∧
      next.blocks = [] := by
  have readySound := orderly.sound.run steps
  obtain ⟨points, made⟩ := top
  rcases made with ⟨spaces, fresh⟩ | ⟨zero, _, nothing⟩
  · have member : root ∈ ready.spaces := by
      rw [spaces]
      exact List.mem_cons_self
    have copy : Step hole ready (.copyUpper root) _ := .copyUpper member
    have new := copied_space orderly steps fresh member points samePointer copy
    rw [copy_upper_run readySound points, Option.some.injEq] at copying
    obtain ⟨again, cursor, looped, ends⟩ := completed
    rw [← copying] at looped
    rcases ends with ⟨stopped, _, same⟩ | ⟨_, _, returned⟩
    · obtain ⟨left, last, next, ran, stackSteps, empty, _⟩ := stack_loop new.space
      have outcomes := Option.some.inj (ran.symm.trans looped)
      have stopping : left = false := (congrArg Prod.fst outcomes).trans stopped
      have final : next.kernel = after := (congrArg (fun outcome => outcome.2.2) outcomes).trans same.symm
      have begun : Steps hole (CreateAction pointer root process.level) ready _ :=
        one_step (show CreateAction pointer root process.level (.copyUpper root) from rfl) copy
      exact ⟨next, final, begun.trans
        (stackSteps.widen (space_action_create pointer (Or.inl ⟨rfl, rfl⟩))), empty stopping⟩
    · exact absurd returned (by simp)
  · rw [zero] at points ⊢
    rw [← samePointer] at points copying ⊢
    obtain ⟨_, next, same, further, _⟩ := refuse_process_steps process readySound points nothing
      copying completed
    exact ⟨next, same, further, exhausted_run further nothing⟩

/-- At a failure exit the top table is still mapped at an address the allocator does not
know, and no memory is left. -/
theorem failure_exit_leaks {machine : Machine} {after : Kernel} {processPath processName : String}
    {entryPoint : U64} {level : ProcessLevel} {startPaused : Bool}
    {newCalls vectorCalls : List HeapCall} (holds : Holds hole usable machine config)
    (fits : CreateFits hole machine.kernel newCalls vectorCalls)
    (ran : createProcess machine.kernel processPath processName entryPoint level startPaused newCalls
      vectorCalls = some (none, after)) :
    ∃ pointer, deletedPointer machine.kernel newCalls = some pointer ∧ SignExtended pointer ∧
      ¬KernelPage (machineAfter machine newCalls vectorCalls (none, after)) pointer ∧
      hardwareWalk machine.kernel.phys.mem machine.kernel.kernelPml4 pointer = none ∧
      (∃ found, hardwareWalk after.phys.mem after.kernelPml4 pointer = some found) ∧
      FreeList after.phys [] := by
  have sound := holds.orderly.sound
  have granted := holds.granted
  unfold KernelPage machineAfter
  rw [← holds.kernel] at fits ran ⊢
  obtain ⟨grown, pointer, made, filled, copied, first, second, third, fourth, completed⟩ :=
    create_process_phases ran
  obtain ⟨root, ready, readySame, steps, above, _, newGranted, top⟩ :=
    prepare_process_steps sound fits first second third
  rw [← readySame] at fourth
  obtain ⟨next, same, further, empty⟩ := failed_completion holds.orderly steps top rfl fourth completed
  have readySound := sound.run steps
  have nextSound := readySound.run further
  have points := points_run readySound further top.1
  have inside := points.contained nextSound
  have startSame := (heap_start_run further).trans (heap_start_run steps)
  have before := sound.heap
  have behind := nextSound.heap
  refine ⟨pointer, ?_, inside.extended, ?_, ?_, ?_, ?_⟩
  · rw [deletedPointer, first, Option.bind_some, second, Option.map_some]
  · dsimp only
    rw [← same]
    rintro (⟨_, below⟩ | ⟨grant, member, covers⟩)
    · rw [startSame] at behind
      omega
    · unfold Span.Covers at covers
      rcases List.mem_append.mp member with old | new
      · have bounds := granted grant old
        omega
      · have bounds := newGranted grant new
        omega
  · rcases walkers_of_leaf (kernel_live config) (kernel_owns _ _) sound.tidy
      (sound.small pointer inside) with ⟨_, missing, _⟩ | ⟨leaf, _, found, _⟩
    · exact missing
    · rw [show liveLeaf (readEntry config.mem) config.root pointer = none from
        sound.vacant pointer inside (Or.inl above)] at found
      exact absurd found (by simp)
  · rw [← same]
    exact ⟨_, points.writable.walkers.1⟩
  · have list := nextSound.tables.list
    rw [empty, same] at list
    exact list

/-- Memory for a top table but not for a stack. -/
theorem create_process_starves (processPath processName : String) (entryPoint : U64)
    (level : ProcessLevel) (startPaused : Bool) (orderly : Orderly hole usable config)
    (room : config.kernel.range.baseAddress.toNat + 8192 ≤ hole.last)
    (aligned : config.kernel.range.baseAddress % 4096 = 0)
    (guard : KernelHole.roundedRequest 4096 ≠ config.kernel.range.remainingBytes)
    (available : 20480 ≤ freeBytes config.blocks) (few : freeBytes config.blocks < 256 * 4096) :
    ∃ made after, createPageMap config.kernel = some (config.kernel.range.baseAddress, made) ∧
      createProcess config.kernel processPath processName entryPoint level startPaused [] [] =
        some (none, after) := by
  have sound := orderly.sound
  obtain ⟨root, made, madeRun, steps, spaces, fresh, points, _⟩ :=
    create_page_map_returns sound room aligned guard available
  have madeSound := sound.run steps
  have member : root ∈ made.spaces := by
    rw [spaces]
    exact List.mem_cons_self
  have copy : Step hole made (.copyUpper root) _ := .copyUpper member
  obtain ⟨process, isProcess⟩ : ∃ process, process = createdProcess processPath processName
    entryPoint level startPaused config.kernel.range.baseAddress := ⟨_, rfl⟩
  have pageMap : process.pageMap = config.kernel.range.baseAddress := by rw [isProcess]; rfl
  have new := copied_space orderly (steps.widen page_map_action_prepare) fresh member points pageMap
    copy
  have bound : (0x7ff00000 : U64).toNat + 256 * 4096 ≤ 2 ^ 47 := by decide
  obtain ⟨again, cursor, next, looped, _⟩ := stack_loop new.space
  have stopped : again = false := by
    cases again with
    | false => rfl
    | true =>
        have need := process_pages_need new.space.orderly.sound new.space.linked.points
          new.space.linked.member bound looped
        have left := free_bytes_mono sound.tables.list madeSound.tables.list (free_run steps)
        exact absurd (need.trans left) (Nat.not_le.mpr few)
  rw [stopped, isProcess] at looped
  exact ⟨made.kernel, next.kernel, madeRun, create_process_run madeRun
    (copy_upper_run madeSound points) ⟨false, _, looped, Or.inl ⟨rfl, rfl, rfl⟩⟩⟩

/-- The first call on a machine without memory for a stack. -/
theorem booted_exit_leaks {phys : PhysicalState} {blocks : List Span}
    (boot : Boot largeHole { largeKernel with phys } blocks) (available : 20480 ≤ freeBytes blocks)
    (few : freeBytes blocks < 256 * 4096) :
    ∃ after, createProcess { largeHeap with phys } "/init" "init" 0x10000 .user false [] [] =
        some (none, after) ∧
      deletedPointer { largeHeap with phys } [] = some 0xffff900400001000 ∧
      ¬KernelPage (machineAfter ⟨{ largeHeap with phys }, [], []⟩ [] [] (none, after))
        0xffff900400001000 ∧
      hardwareWalk phys.mem largeHeap.kernelPml4 0xffff900400001000 = none ∧
      (∃ found, hardwareWalk after.phys.mem after.kernelPml4 0xffff900400001000 = some found) ∧
      FreeList after.phys [] := by
  have holds := boot_holds boot (large_heap_with phys)
  have aligned : largeHeap.range.baseAddress % 4096 = 0 := by decide
  have guard : KernelHole.roundedRequest 4096 ≠ largeHeap.range.remainingBytes := by decide
  have room : largeHeap.range.baseAddress.toNat + 8192 ≤ largeHole.last := by decide
  obtain ⟨made, after, paged, ran⟩ := create_process_starves "/init" "init" 0x10000 .user false
    holds.orderly room aligned guard available few
  have fits : CreateFits largeHole { largeHeap with phys } [] [] := first_create_fits phys
  obtain ⟨pointer, deleted, _, foreign, before, behind, empty⟩ := failure_exit_leaks holds fits ran
  have place : deletedPointer { largeHeap with phys } [] = some 0xffff900400001000 := by
    have none : performHeapCalls { largeHeap with phys } [] = some { largeHeap with phys } := rfl
    rw [deletedPointer, none, Option.bind_some]
    have shape := congrArg (Option.map Prod.fst) paged
    exact shape
  have here : pointer = 0xffff900400001000 := Option.some.inj (deleted.symm.trans place)
  rw [here] at foreign before behind
  exact ⟨after, ran, place, foreign, before, behind, empty⟩

/-- No failure exit is clean: what it deletes was never allocated and stays mapped, and
no memory is left. -/
theorem failure_exit_never_clean {kernel booted after : Kernel} {blocks : List Span}
    {machine : Machine} {processPath processName : String} {entryPoint : U64} {level : ProcessLevel}
    {startPaused : Bool} {newCalls vectorCalls : List HeapCall}
    (boot : Boot hole kernel blocks) (heap : initializeHeap kernel = some booted)
    (run : Reachable hole ⟨booted, [], []⟩ machine)
    (fits : CreateFits hole machine.kernel newCalls vectorCalls)
    (ran : createProcess machine.kernel processPath processName entryPoint level startPaused newCalls
      vectorCalls = some (none, after)) :
    ¬CleanExit machine (machineAfter machine newCalls vectorCalls (none, after))
        (deletedPointer machine.kernel newCalls) ∧
      ∃ pointer, deletedPointer machine.kernel newCalls = some pointer ∧
        ¬KernelPage (machineAfter machine newCalls vectorCalls (none, after)) pointer ∧
        hardwareWalk machine.kernel.phys.mem machine.kernel.kernelPml4 pointer = none ∧
        (∃ found, hardwareWalk after.phys.mem after.kernelPml4 pointer = some found) ∧
        FreeList after.phys [] := by
  obtain ⟨config, _, holds⟩ := (boot_holds boot heap).reach run
  obtain ⟨pointer, deleted, _, foreign, before, behind, empty⟩ := failure_exit_leaks holds fits ran
  refine ⟨?_, pointer, deleted, foreign, before, behind, empty⟩
  intro clean
  exact foreign (clean.deletes pointer deleted)

/-- The machine with half a MiB of memory, before its first process. -/
def starvedMachine : Machine := ⟨{ largeHeap with phys := blankMachine 0x80000 }, [], []⟩

theorem starved_exit_not_clean :
    ∃ after, createProcess starvedMachine.kernel "/init" "init" 0x10000 .user false [] [] =
        some (none, after) ∧
      ¬CleanExit starvedMachine (machineAfter starvedMachine [] [] (none, after))
        (deletedPointer starvedMachine.kernel []) := by
  have boot := @blank_boot 0x80000 (by decide) (by decide) (by decide)
  obtain ⟨after, ran, _⟩ := booted_exit_leaks boot (by decide) (by decide)
  have fits : CreateFits largeHole starvedMachine.kernel [] [] := first_create_fits _
  exact ⟨after, ran, (failure_exit_never_clean boot (large_heap_with _)
    Relation.ReflTransGen.refl fits ran).1⟩

/-- With half a MiB the call fails after the top table has been mapped. -/
theorem starved_exit_leaks :
    ∃ after,
      createProcess starvedMachine.kernel "/init" "init" 0x10000 .user false [] [] =
        some (none, after) ∧
      deletedPointer starvedMachine.kernel [] = some 0xffff900400001000 ∧
      ¬KernelPage (machineAfter starvedMachine [] [] (none, after)) 0xffff900400001000 ∧
      hardwareWalk (blankMachine 0x80000).mem largeHeap.kernelPml4 0xffff900400001000 = none ∧
      (∃ found, hardwareWalk after.phys.mem after.kernelPml4 0xffff900400001000 = some found) ∧
      FreeList (blankMachine 0x80000) [⟨0x2000, 0x80000⟩] ∧ FreeList after.phys [] ∧
      ¬CleanExit starvedMachine (machineAfter starvedMachine [] [] (none, after))
        (deletedPointer starvedMachine.kernel []) := by
  have boot := @blank_boot 0x80000 (by decide) (by decide) (by decide)
  obtain ⟨after, ran, place, foreign, before, behind, empty⟩ :=
    booted_exit_leaks boot (by decide) (by decide)
  refine ⟨after, ran, place, foreign, before, behind, boot.tables.list, empty, ?_⟩
  intro clean
  exact foreign (clean.deletes _ place)

end KittyOs.ProcessCreation
