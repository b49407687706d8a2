import KittyOs.ProcessCreation

/-!
# What every process has

A process that `create_process` returns has its stack, and what is mapped stays mapped.
So every process there is has pages on which its level can be told from the user bit,
and the bit is the wrong way round. Its first page lies in what its own reservation list
offers: unless memory has run out, so that nothing is ever mapped again, the two records
of its address space disagree from the start.
-/

namespace KittyOs.NewProcess

open KittyOs.Lib.SpanPartition KittyOs.Lib.BoundedLoop
open KittyOs.MachineWord
open KittyOs.VirtualModel KittyOs.MapEffect KittyOs.KernelModel
open KittyOs.HeapBounds KittyOs.ProcessModel KittyOs.Reservation KittyOs.AddressSpaces
open KittyOs.ProcessCalls KittyOs.BootState
open KittyOs.MemoryRuns KittyOs.FrameRoles KittyOs.UserPages KittyOs.VmemRecords
open KittyOs.ProcessCreation

set_option autoImplicit false

variable {hole : Hole} {usable : Nat → Prop} {machine after : Machine} {config next : Config}
variable {process : ProcessContext}

/-! ### Levels -/

section Levels

variable {root : Nat} {target : U64}

/-- The lowest page of every stack is mapped. -/
def StacksMapped (machine : Machine) : Prop :=
  ∀ process ∈ machine.processes, Mapped machine.kernel process 0x7ff00000

/-- A page map that was there before a call has its mapped pages afterwards. -/
theorem mapped_after {before : ProcessContext} (holds : Holds hole usable machine config)
    (performed : Performed hole usable machine after config next)
    (member : before ∈ machine.processes) (pointer : before.pageMap = process.pageMap)
    (mapped : Mapped machine.kernel before target) : Mapped after.kernel process target := by
  have sound := holds.orderly.sound
  obtain ⟨root, linked⟩ := holds.linked before member
  rw [← holds.kernel] at mapped
  obtain ⟨lower, leaf, found⟩ := (mapped_iff_leaf sound linked).mp mapped
  have later := linked_run sound performed.steps linked
  rw [pointer] at later
  rw [← performed.holds.kernel]
  refine (mapped_iff_leaf performed.holds.orderly.sound later).mpr ⟨lower, ?_⟩
  exact Option.isSome_iff_exists.mp (mapped_run sound performed.steps linked.member lower
    (by rw [found]; rfl))

theorem StacksMapped.perform {call : Call} (mapped : StacksMapped machine)
    (holds : Holds hole usable machine config) (fits : CallFits hole machine call)
    (ran : perform machine call = some after) : StacksMapped after := by
  obtain ⟨next, performed⟩ := holds.perform fits ran
  have kept : ∀ before ∈ machine.processes, ∀ process, before.pageMap = process.pageMap →
      Mapped after.kernel process 0x7ff00000 := fun before member process pointer =>
    mapped_after holds performed member pointer (mapped before member)
  intro process member
  cases call with
  | createProcess processPath processName entryPoint level startPaused newCalls vectorCalls =>
      obtain ⟨⟨result, kernel⟩, called, shape⟩ := Option.map_eq_some_iff.mp ran
      rw [← shape] at member
      rcases List.mem_append.mp member with old | new
      · exact kept process old process rfl
      · rw [Option.mem_toList] at new
        have made : result = some process := new
        rw [made, ← holds.kernel] at called
        rw [CallFits, ← holds.kernel] at fits
        obtain ⟨_, _, root, _, built, _, same, space, stack, _⟩ :=
          created_process holds.orderly fits called
        rw [← shape, ← same]
        exact (mapped_iff_leaf space.space.orderly.sound space.space.linked).mpr
          ⟨by decide, Option.isSome_iff_exists.mp (stack 0x7ff00000 (by decide) (by decide))⟩
  | allocateVirtualMemoryAt handle requestedBase size =>
      obtain ⟨owner, here, shape⟩ := Option.map_eq_some_iff.mp ran
      rw [← shape] at member
      rcases List.mem_or_eq_of_mem_set member with old | new
      · exact kept process old process rfl
      · exact kept owner (List.mem_of_getElem? here) process (by rw [new])
  | allocateVirtualMemory handle size =>
      obtain ⟨owner, here, shape⟩ := Option.map_eq_some_iff.mp ran
      rw [← shape] at member
      rcases List.mem_or_eq_of_mem_set member with old | new
      · exact kept process old process rfl
      · exact kept owner (List.mem_of_getElem? here) process (by rw [new])
  | allocateMemoryInProcess handle address pageCount =>
      obtain ⟨owner, here, ran⟩ := Option.bind_eq_some_iff.mp ran
      obtain ⟨_, _, shape⟩ := Option.map_eq_some_iff.mp ran
      rw [← shape] at member
      exact kept process member process rfl
  | sbrk size =>
      obtain ⟨_, _, shape⟩ := Option.map_eq_some_iff.mp ran
      rw [← shape] at member
      exact kept process member process rfl
  | mmap size =>
      obtain ⟨_, _, shape⟩ := Option.map_eq_some_iff.mp ran
      rw [← shape] at member
      exact kept process member process rfl

theorem stacks_mapped {kernel booted : Kernel} {blocks : List Span}
    (boot : Boot hole kernel blocks) (heap : initializeHeap kernel = some booted)
    (run : Reachable hole ⟨booted, [], []⟩ machine) : StacksMapped machine := by
  induction run with
  | refl => exact fun _ member => absurd member List.not_mem_nil
  | tail earlier last ih =>
      obtain ⟨call, fits, ran⟩ := last
      obtain ⟨config, _, holds⟩ := (boot_holds boot heap).reach earlier
      exact ih.perform holds fits ran

/-- The bit is the wrong way round on every mapped page of every process, and every
process has one. -/
theorem levels_never_respected {kernel booted : Kernel} {blocks : List Span}
    (boot : Boot hole kernel blocks) (heap : initializeHeap kernel = some booted)
    (run : Reachable hole ⟨booted, [], []⟩ machine) (member : process ∈ machine.processes) :
    ¬LevelRespected machine.kernel process ∧ ∀ address, Mapped machine.kernel process address →
      ¬(userAccessible machine.kernel.phys.mem (pageMapRoot machine.kernel process) address = true ↔
        process.level = .user) := by
  obtain ⟨config, holds, levelled⟩ := boot_levelled boot heap run
  have inverted : ∀ address, Mapped machine.kernel process address →
      ¬(userAccessible machine.kernel.phys.mem (pageMapRoot machine.kernel process) address = true ↔
        process.level = .user) := by
    intro address mapped wanted
    rw [mapped_user_accessible holds levelled member mapped] at wanted
    cases level : process.level <;> rw [level] at wanted <;> simp at wanted
  refine ⟨fun respected => ?_, inverted⟩
  have stack := stacks_mapped boot heap run process member
  exact inverted _ stack (respected _ stack)

end Levels

theorem large_process_levels :
    ∃ machine, Reachable largeHole ⟨largeHeap, [], []⟩ machine ∧
      machine.processes = [largeProcess .kernel] ∧
      ¬LevelRespected machine.kernel (largeProcess .kernel) := by
  obtain ⟨_, next, performed, _⟩ := large_creates .kernel
  have run := Relation.ReflTransGen.single performed
  exact ⟨_, run, rfl,
    (levels_never_respected large_boot large_heap_initialized run List.mem_cons_self).1⟩

/-! ### Two records -/

/-- A call of the three functions on one process; a reservation may be anything that does
not wrap, and memory may be asked for anywhere. -/
def OnProcess (handle : Nat) : Call → Prop
  | .allocateMemoryInProcess on _ _ => on = handle
  | .allocateVirtualMemoryAt on requestedBase size =>
      on = handle ∧ requestedBase.toNat + size.toNat < 2 ^ 64
  | .allocateVirtualMemory on _ => on = handle
  | .sbrk _ | .mmap _ | .createProcess _ _ _ _ _ _ _ => False

def Uses (handle : Nat) (before after : Machine) : Prop :=
  ∃ call, OnProcess handle call ∧ perform before call = some after

section Records

variable {handle : Nat}

/-- Without memory a placement does nothing. -/
theorem memory_exhausted {address pageCount : U64} (sound : Sound hole config)
    (nothing : config.blocks = []) :
    ∃ result, allocateMemoryInProcess config.kernel process address pageCount =
      some (result, config.kernel) := by
  unfold allocateMemoryInProcess
  split_ifs with beyond
  · exact ⟨false, rfl⟩
  · cases pageCount.toNat with
    | zero => exact ⟨true, by rw [loop_done, Option.map_some]⟩
    | succ rounds =>
        exact ⟨false, by rw [loop_left (process_page_refused sound nothing).1, Option.map_some]⟩

theorem exhausted_records_step (sound : Sound hole config) (nothing : config.blocks = [])
    (same : machine.kernel = config.kernel) (below : EntriesBelow machine handle)
    (agree : RecordsAgree machine handle) (uses : Uses handle machine after) :
    after.kernel = config.kernel ∧ EntriesBelow after handle ∧ RecordsAgree after handle ∧
      FramesKept machine after handle := by
  obtain ⟨call, allowed, ran⟩ := uses
  cases call with
  | allocateMemoryInProcess on address pageCount =>
      obtain ⟨owner, here, ran⟩ := Option.bind_eq_some_iff.mp ran
      obtain ⟨result, called⟩ := @memory_exhausted hole config owner address pageCount sound nothing
      rw [same, called, Option.map_some, Option.some.injEq, ← same] at ran
      rw [← ran]
      exact ⟨same, below, agree, fun _ _ _ _ _ mapped => mapped⟩
  | allocateVirtualMemoryAt on requestedBase size =>
      obtain ⟨sameHandle, noWrap⟩ := allowed
      subst sameHandle
      obtain ⟨owner, here, shape⟩ := Option.map_eq_some_iff.mp ran
      rw [← shape]
      exact ⟨same, agree_with_vmem here (allocate_at_offers_less (below owner here) noWrap) below
        agree⟩
  | allocateVirtualMemory on size =>
      have sameHandle : on = handle := allowed
      subst sameHandle
      obtain ⟨owner, here, shape⟩ := Option.map_eq_some_iff.mp ran
      rw [← shape]
      exact ⟨same, agree_with_vmem here (allocate_offers_less (below owner here)) below agree⟩
  | _ => exact False.elim allowed

/-- Once memory has run out, records that agree go on agreeing whatever is asked for. -/
theorem exhausted_records_sound (sound : Sound hole config) (nothing : config.blocks = [])
    (same : machine.kernel = config.kernel) (below : EntriesBelow machine handle)
    (agree : RecordsAgree machine handle) : RecordsSound (Uses handle) machine handle := by
  intro later run
  have reached : later.kernel = config.kernel ∧ EntriesBelow later handle ∧
      RecordsAgree later handle := by
    induction run with
    | refl => exact ⟨same, below, agree⟩
    | tail _ last ih =>
        obtain ⟨sameThere, belowThere, agreeThere⟩ := ih
        obtain ⟨sameNext, belowNext, agreeNext, _⟩ :=
          exhausted_records_step sound nothing sameThere belowThere agreeThere last
        exact ⟨sameNext, belowNext, agreeNext⟩
  obtain ⟨sameThere, belowThere, agreeThere⟩ := reached
  refine ⟨agreeThere, fun after uses => ?_⟩
  exact (exhausted_records_step sound nothing sameThere belowThere agreeThere uses).2.2.2

theorem created_vmem : createVmem.2.entries = [⟨0, 0x7ff00000⟩] := by decide

/-- A new process has records that agree exactly if its first page is not mapped. -/
theorem created_records {kernel : Kernel} {processes : List ProcessContext}
    {granted : List Span} (vmem : process.availableVmem = createVmem.2)
    (rest : ∀ target : U64, target.toNat < 0x7ff00000 →
      ¬(0x10000 ≤ target.toNat ∧ target.toNat < 0x11000) → ¬Translated kernel process target)
    (page : ∀ target : U64, 0x10000 ≤ target.toNat → target.toNat < 0x11000 →
      (Translated kernel process target ↔ Translated kernel process 0x10000)) :
    RecordsAgree ⟨kernel, processes ++ [process], granted⟩ processes.length ↔
      ¬Translated kernel process 0x10000 := by
  have here : (processes ++ [process])[processes.length]? = some process :=
    List.getElem?_concat_length
  constructor
  · intro agree
    refine agree process here 0x10000 ⟨⟨0, 0x7ff00000⟩, ?_, by decide⟩
    rw [vmem, created_vmem]
    exact List.mem_singleton_self _
  · intro missing found there target offered translated
    rw [here, Option.some.injEq] at there
    rw [← there] at offered translated
    obtain ⟨entry, member, lower, upper⟩ := offered
    rw [vmem, created_vmem, List.mem_singleton] at member
    rw [member] at lower upper
    have bound : target.toNat < 0x7ff00000 := by
      have ends : (entrySpan ⟨0, 0x7ff00000⟩).base + (entrySpan ⟨0, 0x7ff00000⟩).length =
        0x7ff00000 := rfl
      omega
    by_cases inside : 0x10000 ≤ target.toNat ∧ target.toNat < 0x11000
    · exact missing ((page target inside.1 inside.2).mp translated)
    · exact rest target bound inside translated

/-- A process that has its first page has it in both records, and so has none of them
right; without that page memory has run out and they agree for good. Where the records
agree, careful calls keep them so. -/
theorem records_agree_iff_first_page_missing {kernel booted created : Kernel} {blocks : List Span}
    {processPath processName : String} {entryPoint : U64} {level : ProcessLevel}
    {startPaused : Bool} {newCalls vectorCalls : List HeapCall}
    (boot : Boot hole kernel blocks) (heap : initializeHeap kernel = some booted)
    (run : Reachable hole ⟨booted, [], []⟩ machine)
    (fits : CreateFits hole machine.kernel newCalls vectorCalls)
    (ran : createProcess machine.kernel processPath processName entryPoint level startPaused newCalls
      vectorCalls = some (some process, created)) :
    (RecordsSound (Uses machine.processes.length)
        (machineAfter machine newCalls vectorCalls (some process, created))
        machine.processes.length ↔ ¬Translated created process 0x10000) ∧
      ∀ start handle, Reachable hole ⟨booted, [], []⟩ start → EntriesBelow start handle →
        RecordsAgree start handle → RecordsSound (Grows handle) start handle := by
  refine ⟨?_, fun start handle there below agree => records_agree_along boot heap there below agree⟩
  obtain ⟨config, _, holds⟩ := (boot_holds boot heap).reach run
  rw [← holds.kernel] at fits ran
  obtain ⟨_, vmem, root, _, next, _, same, new, _, first⟩ := created_process holds.orderly fits ran
  have sound := new.space.orderly.sound
  have leaf := fun target lower => @translated_iff_leaf hole next root target process sound
    new.space.linked lower
  rw [same] at leaf
  have page : ∀ target : U64, 0x10000 ≤ target.toNat → target.toNat < 0x11000 →
      (Translated created process target ↔ Translated created process 0x10000) := by
    intro target above below
    have low : (0x10000 : U64).toNat = 0x10000 := rfl
    have path : pathOf target = pathOf 0x10000 := path_of_page (by rw [low]; omega)
    rw [leaf target (by omega), leaf 0x10000 (by decide), live_leaf_path path]
  have agreeing := @created_records process created machine.processes
    (machine.granted ++ createGrants machine.kernel newCalls vectorCalls) vmem
    (fun target bound outside => created_maps_only holds.orderly.sound fits ran (by omega)
      (by omega) outside) page
  constructor
  · intro records
    exact agreeing.mp (records _ Relation.ReflTransGen.refl).1
  · intro missing
    have nothing : next.blocks = [] := first.resolve_left fun mapped =>
      missing ((leaf 0x10000 (by decide)).mpr (Option.isSome_iff_exists.mp mapped))
    refine exhausted_records_sound sound nothing same.symm ?_ (agreeing.mpr missing)
    intro found there entry member
    have here : (machine.processes ++ [process])[machine.processes.length]? = some process :=
      List.getElem?_concat_length
    have owner : process = found := Option.some.inj (here.symm.trans there)
    rw [← owner, vmem, created_vmem, List.mem_singleton] at member
    rw [member]
    decide

end Records

/-- On 128 GiB the first process has its first page; once it has reserved everything up to
the end of that page, its records agree. -/
theorem large_records :
    ∃ created, createProcess largeHeap "/init" "init" 0x10000 .user false [] [] =
        some (some (largeProcess .user), created) ∧
      Translated created (largeProcess .user) 0x10000 ∧
      ¬RecordsSound (Uses 0) (machineAfter ⟨largeHeap, [], []⟩ [] []
        (some (largeProcess .user), created)) 0 ∧
      RecordsSound (Grows 0) ⟨created, [reservedProcess], []⟩ 0 := by
  obtain ⟨created, _, ran, translated, _⟩ := large_created
  have reserved : Performs largeHole ⟨created, [largeProcess .user], []⟩
      ⟨created, [reservedProcess], []⟩ := ⟨.allocateVirtualMemory 0 0x11000, trivial, rfl⟩
  have run := (Relation.ReflTransGen.single (created_performs ran)).tail reserved
  obtain ⟨below, agree⟩ := reserved_agrees ran rfl
  obtain ⟨never, along⟩ := records_agree_iff_first_page_missing large_boot large_heap_initialized
    Relation.ReflTransGen.refl (first_create_fits largeHeap.phys) ran
  exact ⟨created, ran, translated, fun records => never.mp records translated,
    along _ 0 run below agree⟩

end KittyOs.NewProcess
