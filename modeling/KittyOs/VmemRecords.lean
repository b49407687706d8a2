import KittyOs.FrameRoles
import KittyOs.Reservation

/-!
# Two records of one address space

`available_vmem` says which addresses of a process are on offer, its page map which
are in use, and no function looks at both. `create_process` already maps a page that
its own list offers. From a state in which the records agree they go on agreeing, and
no mapped page changes its frame, as long as memory is placed on pages that are neither
offered nor mapped and no reservation wraps.
-/

namespace KittyOs.VmemRecords

open KittyOs.Lib.ByteMemory KittyOs.Lib.SpanPartition KittyOs.Lib.BoundedLoop
open KittyOs.MachineWord KittyOs.PageTable KittyOs.PhysicalModel KittyOs.PhysicalFreelist
open KittyOs.VirtualModel KittyOs.MapEffect KittyOs.Translation KittyOs.KernelModel
open KittyOs.HeapBounds KittyOs.ProcessModel KittyOs.Reservation KittyOs.AddressSpaces
open KittyOs.SharedHalf KittyOs.ProcessCalls KittyOs.FramePlaces KittyOs.BootState
open KittyOs.MemoryRuns KittyOs.FrameRoles

set_option autoImplicit false

/-- The address lies in an entry of the list. -/
def Offered (vector : VmemVector) (address : U64) : Prop :=
  ∃ entry ∈ vector.entries, (entrySpan entry).Covers address.toNat

def Translated (kernel : Kernel) (process : ProcessContext) (address : U64) : Prop :=
  (virtualToPhysical kernel.phys.mem (pageMapRoot kernel process) address).1 = true

/-- Nothing on offer is translated. -/
def RecordsAgree (machine : Machine) (handle : Nat) : Prop :=
  ∀ process, machine.processes[handle]? = some process →
    ∀ address, Offered process.availableVmem address → ¬Translated machine.kernel process address

/-- Every entry ends in the two GiB of the process. -/
def EntriesBelow (machine : Machine) (handle : Nat) : Prop :=
  ∀ process, machine.processes[handle]? = some process →
    ∀ entry ∈ process.availableVmem.entries,
      entry.base.toNat + entry.length.toNat ≤ 0x80000000

/-- Every page of the lower half that was mapped has the frame it had. -/
def FramesKept (before after : Machine) (handle : Nat) : Prop :=
  ∀ process, before.processes[handle]? = some process →
    ∀ (address : U64) (frame : Nat), address.toNat < 2 ^ 47 →
      Translates before.kernel.phys.mem (pageMapRoot before.kernel process) address frame →
        Translates after.kernel.phys.mem (pageMapRoot after.kernel process) address frame

/-- A call on one process that asks for whole pages which are neither offered nor
mapped, or for a reservation that does not wrap. -/
def CarefulCall (machine : Machine) (handle : Nat) : Call → Prop
  | .allocateMemoryInProcess on address pageCount =>
      on = handle ∧ address.toNat % 4096 = 0 ∧
        address.toNat + pageCount.toNat * 4096 < 2 ^ 64 ∧
        (address.toNat + pageCount.toNat * 4096 ≤ 0x80000000 →
          ∀ process, machine.processes[handle]? = some process → ∀ target : U64,
            address.toNat ≤ target.toNat → target.toNat < address.toNat + pageCount.toNat * 4096 →
              ¬Offered process.availableVmem target ∧ ¬Translated machine.kernel process target)
  | .allocateVirtualMemoryAt on requestedBase size =>
      on = handle ∧ requestedBase.toNat + size.toNat < 2 ^ 64
  | .allocateVirtualMemory on _ => on = handle
  | .sbrk _ | .mmap _ | .createProcess _ _ _ _ _ _ _ => False

/-- In every state of a run the records agree, and no call replaces a frame. -/
def RecordsSound (Makes : Machine → Machine → Prop) (start : Machine) (handle : Nat) : Prop :=
  ∀ later, Relation.ReflTransGen Makes start later →
    RecordsAgree later handle ∧ ∀ after, Makes later after → FramesKept later after handle

def Grows (handle : Nat) (before after : Machine) : Prop :=
  ∃ call, CarefulCall before handle call ∧ perform before call = some after

/-! ### Entries only shrink -/

def EntryInside (entry source : VmemEntry) : Prop :=
  source.base.toNat ≤ entry.base.toNat ∧
    entry.base.toNat + entry.length.toNat ≤ source.base.toNat + source.length.toNat

/-- Every entry is a part of one there was. -/
def OffersLess (after before : VmemVector) : Prop :=
  ∀ entry ∈ after.entries, ∃ source ∈ before.entries, EntryInside entry source

section Entries

variable {vector : VmemVector} {requestedBase size : U64} {entry : VmemEntry}

theorem OffersLess.refl (vector : VmemVector) : OffersLess vector vector :=
  fun entry member => ⟨entry, member, Nat.le_refl _, Nat.le_refl _⟩

theorem OffersLess.offered {after before : VmemVector} (less : OffersLess after before)
    {address : U64} (offered : Offered after address) : Offered before address := by
  obtain ⟨entry, member, lower, upper⟩ := offered
  obtain ⟨source, there, first, last⟩ := less entry member
  unfold entrySpan at lower upper
  dsimp only at lower upper
  refine ⟨source, there, ?_⟩
  unfold Span.Covers entrySpan
  dsimp only
  omega

theorem offered_lower {address : U64}
    (below : ∀ entry ∈ vector.entries, entry.base.toNat + entry.length.toNat ≤ 0x80000000)
    (offered : Offered vector address) : address.toNat < 2 ^ 47 := by
  obtain ⟨entry, member, _, upper⟩ := offered
  have bound := below entry member
  unfold entrySpan at upper
  dsimp only at upper
  omega

/-- What is left in front of a request. -/
theorem front_inside (cut : Cut entry requestedBase size) :
    EntryInside ⟨entry.base, requestedBase - entry.base⟩ entry := by
  obtain ⟨length, _, _⟩ := cut.rests
  obtain ⟨lower, upper, bound⟩ := cut
  refine ⟨Nat.le_refl _, ?_⟩
  dsimp only
  omega

/-- What is left behind a request. -/
theorem back_inside (cut : Cut entry requestedBase size) :
    EntryInside
      ⟨requestedBase + size, entry.base + entry.length - (requestedBase + size)⟩ entry := by
  obtain ⟨_, ends, rest⟩ := cut.rests
  obtain ⟨lower, upper, bound⟩ := cut
  refine ⟨?_, ?_⟩
  · rw [ends]
    omega
  · rw [ends, rest]
    omega

/-- What is left of an entry whose start is taken. -/
theorem rest_inside (cut : Cut entry entry.base size) :
    EntryInside ⟨entry.base + size, entry.length - size⟩ entry := by
  have same : entry.length - size = entry.base + entry.length - (entry.base + size) := by
    bv_omega
  rw [same]
  exact back_inside cut

/-- One entry replaced by parts of it. -/
theorem pieces_offer_less {after : VmemVector} {before behind pieces : List VmemEntry}
    (split : vector.entries = before ++ entry :: behind)
    (inside : ∀ piece ∈ pieces, EntryInside piece entry)
    (origin : ∀ left ∈ after.entries, left ∈ before ∨ left ∈ behind ∨ left ∈ pieces) :
    OffersLess after vector := by
  intro left there
  rcases origin left there with front | back | piece
  · exact ⟨left, by rw [split]; simp [front], Nat.le_refl _, Nat.le_refl _⟩
  · exact ⟨left, by rw [split]; simp [back], Nat.le_refl _, Nat.le_refl _⟩
  · exact ⟨entry, by rw [split]; simp, inside left piece⟩

theorem allocate_at_offers_less
    (below : ∀ entry ∈ vector.entries, entry.base.toNat + entry.length.toNat ≤ 0x80000000)
    (noWrap : requestedBase.toNat + size.toNat < 2 ^ 64) :
    OffersLess (allocateVirtualMemoryAt vector requestedBase size).2 vector := by
  cases found : firstMatch (VmemEntry.offers requestedBase size) vector.entries with
  | none =>
      rw [allocate_at_refused found]
      exact OffersLess.refl vector
  | some parts =>
      obtain ⟨before, entry, behind⟩ := parts
      obtain ⟨split, offered⟩ := first_match_some found
      have bound := below entry (first_match_member found)
      have cut := offered_cut offered (by omega) noWrap
      have same : EntryInside entry entry := ⟨Nat.le_refl _, Nat.le_refl _⟩
      obtain ⟨after, result, shapes⟩ := allocate_at_found found
      rw [result]
      rcases shapes with ⟨start, shape⟩ | ⟨_, _, shape⟩ | ⟨_, _, _, shape⟩ | ⟨_, _, _, shape⟩
      · rw [start] at cut
        apply pieces_offer_less split (List.forall_mem_singleton.mpr (rest_inside cut))
        intro left there
        rw [shape] at there
        simpa [or_comm, or_left_comm] using there
      · apply pieces_offer_less split (List.forall_mem_singleton.mpr (front_inside cut))
        intro left there
        rw [shape] at there
        simpa [or_comm, or_left_comm] using there
      · apply pieces_offer_less split (List.forall_mem_cons.mpr
          ⟨front_inside cut, List.forall_mem_singleton.mpr (back_inside cut)⟩)
        intro left there
        rw [shape] at there
        simpa [or_comm, or_left_comm] using there
      · apply pieces_offer_less split (List.forall_mem_cons.mpr
          ⟨same, List.forall_mem_singleton.mpr (back_inside cut)⟩)
        intro left there
        rw [shape] at there
        simpa [or_comm, or_left_comm] using there

theorem allocate_offers_less
    (below : ∀ entry ∈ vector.entries, entry.base.toNat + entry.length.toNat ≤ 0x80000000) :
    OffersLess (allocateVirtualMemory vector size).2 vector := by
  cases found : firstMatch (fun entry : VmemEntry => decide (size ≤ entry.length))
      vector.entries with
  | none =>
      simp only [allocateVirtualMemory, found]
      exact OffersLess.refl vector
  | some parts =>
      obtain ⟨before, entry, behind⟩ := parts
      obtain ⟨split, long⟩ := first_match_some found
      have bound := below entry (first_match_member found)
      have cut : Cut entry entry.base size := by
        refine ⟨Nat.le_refl _, ?_, by omega⟩
        simp only [decide_eq_true_eq, BitVec.le_def] at long
        omega
      simp only [allocateVirtualMemory, found]
      apply pieces_offer_less split (List.forall_mem_singleton.mpr (rest_inside cut))
      intro left there
      by_cases used : entry.length - size = 0
      · rw [if_pos used, List.mem_append] at there
        exact there.imp_right Or.inl
      · rw [if_neg used] at there
        simpa [or_comm, or_left_comm] using there

end Entries

/-! ### Pages of a process -/

/-- Nothing is mapped at the page of `target` in `root`. -/
def MapsOutside (root : Nat) (target : U64) : Action → Prop
  | .spacePage at_ _ address _ => at_ = root → address.toNat ≠ target.toNat / 4096 * 4096
  | _ => True

section Pages

variable {hole : Hole} {usable : Nat → Prop} {config next : Config} {root : Nat} {target : U64}

theorem space_leaf_step {action : Action} (sound : Sound hole config)
    (step : Step hole config action next) (member : root ∈ config.spaces)
    (lower : target.toNat < 2 ^ 47) (outside : MapsOutside root target action) :
    liveLeaf next.slots root target = liveLeaf config.slots root target := by
  apply leaf_step sound step (space_live member) (lower_owned _ _ lower)
  intro address placed path
  have kernel : ∀ {other : U64}, some (config.root, other) = some (root, address) → False := by
    intro other same
    rw [← (Prod.mk.inj (Option.some.inj same)).1] at member
    exact sound.distinct member
  cases step with
  | spacePage _ bound aligned _ _ =>
      obtain ⟨sameRoot, sameAddress⟩ := Prod.mk.inj (Option.some.inj placed)
      rw [sameAddress] at bound aligned
      have page := page_of_path (Or.inl lower) (Or.inl bound) path
      have apart := outside sameRoot
      rw [sameAddress] at apart
      omega
  | reserve _ _ _ _ _ | pageZero _ _ | copyUpper _ => exact absurd placed (by simp [Action.place])
  | heapPage _ _ _ _ => exact kernel placed
  | windowPage _ _ _ _ _ => exact kernel placed
  | pageMap _ _ _ _ _ => exact kernel placed
  | emptyPageMap _ _ _ _ _ => exact kernel placed

theorem space_leaf_run {Allowed : Action → Prop} (sound : Sound hole config)
    (steps : Steps hole Allowed config next) (member : root ∈ config.spaces)
    (lower : target.toNat < 2 ^ 47)
    (outside : ∀ action, Allowed action → MapsOutside root target action) :
    liveLeaf next.slots root target = liveLeaf config.slots root target := by
  have keeps : ∀ before action after, Sound hole before →
      root ∈ before.spaces ∧
        liveLeaf before.slots root target = liveLeaf config.slots root target →
      Allowed action → Step hole before action after →
      root ∈ after.spaces ∧
        liveLeaf after.slots root target = liveLeaf config.slots root target := by
    intro before action after beforeSound here allowed step
    have same := space_leaf_step beforeSound step here.1 lower (outside action allowed)
    refine ⟨?_, same.trans here.2⟩
    cases step with
    | pageMap _ _ _ _ _ => exact List.mem_cons_of_mem _ here.1
    | _ => exact here.1
  exact (sound.steps keeps steps ⟨member, rfl⟩).2

theorem mapped_step {action : Action} (sound : Sound hole config)
    (step : Step hole config action next) (member : root ∈ config.spaces)
    (lower : target.toNat < 2 ^ 47) (mapped : (liveLeaf config.slots root target).isSome) :
    root ∈ next.spaces ∧ (liveLeaf next.slots root target).isSome := by
  have kept : root ∈ next.spaces := by
    cases step with
    | pageMap _ _ _ _ _ => exact List.mem_cons_of_mem _ member
    | _ => exact member
  refine ⟨kept, ?_⟩
  by_cases outside : MapsOutside root target action
  · rw [space_leaf_step sound step member lower outside]
    exact mapped
  · cases action with
    | spacePage at_ _ address _ =>
        obtain ⟨same, _⟩ := Classical.not_imp.mp outside
        rw [same] at step
        exact space_page_stays sound lower step mapped
    | _ => exact absurd trivial outside

theorem mapped_run {Allowed : Action → Prop} (sound : Sound hole config)
    (steps : Steps hole Allowed config next) (member : root ∈ config.spaces)
    (lower : target.toNat < 2 ^ 47) (mapped : (liveLeaf config.slots root target).isSome) :
    (liveLeaf next.slots root target).isSome := by
  have keeps : ∀ before action after, Sound hole before →
      root ∈ before.spaces ∧ (liveLeaf before.slots root target).isSome → Allowed action →
      Step hole before action after →
      root ∈ after.spaces ∧ (liveLeaf after.slots root target).isSome :=
    fun _ _ _ beforeSound here _ step => mapped_step beforeSound step here.1 lower here.2
  exact (sound.steps keeps steps ⟨member, mapped⟩).2

theorem cleared_root_leaf (phys : PhysicalState) (page : Nat) (target : U64) :
    liveLeaf (readEntry (fill phys.mem page 4096 0)) page target = none := by
  have blank : ∀ slot, readEntry ({ phys with mem := fill phys.mem page 4096 0 } : PhysicalState).mem
      page slot = blankEntry := read_fill_zero _ _
  exact blank_root_leaf blank target

/-- A new address space holds only what is mapped into it. -/
theorem new_space_leaf {Allowed : Action → Prop} (sound : Sound hole config)
    (steps : Steps hole Allowed config next) (new : root ∉ config.spaces)
    (member : root ∈ next.spaces) (lower : target.toNat < 2 ^ 47)
    (outside : ∀ action, Allowed action → MapsOutside root target action) :
    liveLeaf next.slots root target = none := by
  have keeps : ∀ before action after, Sound hole before →
      (root ∈ before.spaces → liveLeaf before.slots root target = none) →
      Allowed action → Step hole before action after →
      (root ∈ after.spaces → liveLeaf after.slots root target = none) := by
    intro before action after beforeSound here allowed step there
    by_cases old : root ∈ before.spaces
    · exact (space_leaf_step beforeSound step old lower (outside action allowed)).trans (here old)
    · cases step with
      | pageMap _ _ _ _ _ =>
          rw [(List.mem_cons.mp there).resolve_right old]
          exact cleared_root_leaf _ _ target
      | _ => exact absurd there old
  exact sound.steps keeps steps (fun old => absurd old new) member

theorem translated_iff_leaf {process : ProcessContext} (sound : Sound hole config)
    (linked : Linked config process.pageMap root) (lower : target.toNat < 2 ^ 47) :
    Translated config.kernel process target ↔
      ∃ leaf, liveLeaf config.slots root target = some leaf := by
  have place : Place hole config.root config.spaces root target := Or.inr ⟨linked.member, lower⟩
  unfold Translated
  rw [page_map_root sound linked]
  constructor
  · intro found
    obtain ⟨leaf, here, _⟩ := (translates_iff sound place).mp ⟨found, rfl⟩
    exact ⟨leaf, here⟩
  · rintro ⟨leaf, here⟩
    exact ((translates_iff sound place).mpr ⟨leaf, here, rfl⟩).1

/-- Mapping a page that is mapped gives it another frame. -/
theorem mapped_again {level : ProcessLevel} {leaf : PageEntry} (orderly : Orderly hole usable config)
    (step : Step hole config (.spacePage root level target true) next)
    (found : liveLeaf config.slots root target = some leaf) :
    ∃ entry, liveLeaf next.slots root target = some entry ∧ entry.frame ≠ leaf.frame := by
  cases step with
  | @spacePage _ page _ _ _ _ _ _ _ member lower aligned takes effect =>
      have writable := writable_here effect rfl rfl (space_live member) (lower_owned _ _ lower)
        takes.aligned (taken_bound orderly.sound takes)
      obtain ⟨entry, here, same⟩ := writable.leaf
      refine ⟨entry, here, ?_⟩
      intro again
      have nonzero := orderly.settled.nonzero root member target lower leaf found
      have first : Within page 4096 page := ⟨by omega, by omega⟩
      have used := orderly.settled.frame root target leaf (Or.inr ⟨member, lower⟩) found nonzero page
        (by rw [← again, same]; exact first)
      exact used.2 (takes.inside page first)

/-- With memory left, a page of the process can be placed over itself and loses its
frame. -/
theorem placement_replaces {process : ProcessContext} (orderly : Orderly hole usable config)
    (linked : Linked config process.pageMap root) (aligned : target % 4096 = 0)
    (below : target.toNat + 4096 ≤ 0x80000000) (mapped : Translated config.kernel process target)
    (enough : 16384 ≤ freeBytes config.blocks) :
    ∃ after, allocateMemoryInProcess config.kernel process target 1 = some (true, after) ∧
      ∃ frame, Translates config.mem (pageMapRoot config.kernel process) target frame ∧
        ¬Translates after.phys.mem (pageMapRoot after process) target frame := by
  have sound := orderly.sound
  have lower : target.toNat < 2 ^ 47 := by omega
  have place : Place hole config.root config.spaces root target := Or.inr ⟨linked.member, lower⟩
  obtain ⟨leaf, found⟩ := (translated_iff_leaf sound linked lower).mp mapped
  rcases process_page_cases sound linked.points linked.member lower with
    ⟨nothing, _⟩ | ⟨misaligned, _⟩ | ⟨success, next, went, _, step, spaces, _, _, _, starved⟩
  · rw [nothing] at enough
    have none : freeBytes [] = 0 := rfl
    omega
  · exact absurd aligned misaligned
  · have worked : success = true := by
      cases success with
      | true => rfl
      | false =>
          have few := (starved rfl).1
          omega
    rw [worked] at step
    have later := linked.step sound step
    have behind : Place hole next.root next.spaces root target := Or.inr ⟨later.member, lower⟩
    obtain ⟨entry, here, changed⟩ := mapped_again orderly step found
    refine ⟨next.kernel, ?_, leaf.frame, ?_, ?_⟩
    · have one : (1 : U64).toNat = 1 := rfl
      have inside : ¬target + 1 * 4096 > 0x80000000 := by bv_omega
      rw [allocateMemoryInProcess, if_neg inside, one, loop_next went, loop_done, Option.map_some]
    · rw [page_map_root sound linked]
      exact (translates_iff sound place).mpr ⟨leaf, found, rfl⟩
    · rw [page_map_root (sound.step step) later]
      intro kept
      obtain ⟨other, there, same⟩ := (translates_iff (sound.step step) behind).mp kept
      rw [here, Option.some.injEq] at there
      rw [there] at changed
      exact changed same

/-- `create_process` maps the stack and the first page, and nothing else. -/
theorem created_maps_only {after : Kernel} {processPath processName : String} {entryPoint : U64}
    {level : ProcessLevel} {startPaused : Bool} {newCalls vectorCalls : List HeapCall}
    {process : ProcessContext} (sound : Sound hole config)
    (fits : CreateFits hole config.kernel newCalls vectorCalls)
    (ran : createProcess config.kernel processPath processName entryPoint level startPaused newCalls
      vectorCalls = some (some process, after))
    (lower : target.toNat < 2 ^ 47)
    (stack : ¬(0x7ff00000 ≤ target.toNat ∧ target.toNat < 0x80000000))
    (first : ¬(0x10000 ≤ target.toNat ∧ target.toNat < 0x11000)) :
    ¬Translated after process target := by
  obtain ⟨pointer, root, next, same, creation, fresh, made⟩ := create_process_steps sound fits ran
  rcases made with ⟨nothing, _⟩ | ⟨nothing | returned, spaces, linked⟩
  · exact absurd nothing (by simp)
  · exact absurd nothing (by simp)
  · have outside : ∀ action, CreateAction pointer root level action →
        MapsOutside root target action := by
      intro action allowed
      cases action with
      | spacePage _ _ address _ =>
          obtain ⟨_, _, placed⟩ := allowed
          intro _
          omega
      | _ => trivial
    have leaf := new_space_leaf sound creation.steps fresh linked.member lower outside
    have pointed : process.pageMap = pointer := by
      rw [Option.some.inj returned]
      rfl
    rw [← pointed] at linked
    rw [← same, translated_iff_leaf (sound.run creation.steps) linked lower, leaf]
    simp

end Pages

/-! ### Runs on one process -/

section Runs

variable {hole : Hole} {usable : Nat → Prop} {machine after : Machine} {config : Config}
variable {handle : Nat}

theorem CarefulCall.fits {call : Call} (careful : CarefulCall machine handle call) :
    CallFits hole machine call := by
  cases call with
  | allocateMemoryInProcess _ _ _ => exact careful.2.2.1
  | allocateVirtualMemoryAt _ _ _ => trivial
  | allocateVirtualMemory _ _ => trivial
  | _ => exact False.elim careful

/-- What a careful placement leaves as it was: every page outside its range. -/
theorem memory_outside {process : ProcessContext} {address pageCount target : U64} {result : Bool}
    {kernel : Kernel} {frame : Nat} (holds : Holds hole usable machine config)
    (member : process ∈ machine.processes) (aligned : address.toNat % 4096 = 0)
    (noWrap : address.toNat + pageCount.toNat * 4096 < 2 ^ 64)
    (called : allocateMemoryInProcess machine.kernel process address pageCount =
      some (result, kernel))
    (lower : target.toNat < 2 ^ 47)
    (outside : target.toNat < address.toNat ∨
      address.toNat + pageCount.toNat * 4096 ≤ target.toNat) :
    Translates kernel.phys.mem (pageMapRoot kernel process) target frame ↔
      Translates machine.kernel.phys.mem (pageMapRoot machine.kernel process) target frame := by
  have sound := holds.orderly.sound
  obtain ⟨root, linked⟩ := holds.linked process member
  rw [← holds.kernel] at called ⊢
  obtain ⟨next, same, steps, _⟩ :=
    allocate_memory_steps sound linked.points linked.member noWrap called
  have later := linked_run sound steps linked
  have apart : ∀ action, SpaceAction root process.level address.toNat
      (address.toNat + pageCount.toNat * 4096) action → MapsOutside root target action := by
    intro action allowed
    cases action with
    | spacePage _ _ placed _ =>
        obtain ⟨_, _, first, last⟩ := allowed
        intro _
        omega
    | _ => trivial
  have leaf := space_leaf_run sound steps linked.member lower apart
  have before : Place hole config.root config.spaces root target := Or.inr ⟨linked.member, lower⟩
  have behind : Place hole next.root next.spaces root target := Or.inr ⟨later.member, lower⟩
  rw [← same, page_map_root sound linked, page_map_root (sound.run steps) later,
    translates_iff sound before, translates_iff (sound.run steps) behind, leaf]

/-- A range beyond the two GiB is refused. -/
theorem memory_refused {kernel after : Kernel} {process : ProcessContext} {address pageCount : U64}
    {result : Bool} (noWrap : address.toNat + pageCount.toNat * 4096 < 2 ^ 64)
    (beyond : 0x80000000 < address.toNat + pageCount.toNat * 4096)
    (called : allocateMemoryInProcess kernel process address pageCount = some (result, after)) :
    after = kernel := by
  have refused : address + pageCount * 4096 > 0x80000000 := by
    have size : (4096 : U64).toNat = 4096 := rfl
    have limit : (0x80000000 : U64).toNat = 0x80000000 := rfl
    rw [gt_iff_lt, BitVec.lt_def, BitVec.toNat_add, BitVec.toNat_mul, size, limit,
      Nat.mod_eq_of_lt (by omega : pageCount.toNat * 4096 < 2 ^ 64), Nat.mod_eq_of_lt noWrap]
    exact beyond
  rw [allocateMemoryInProcess, if_pos refused, Option.some.injEq, Prod.mk.injEq] at called
  exact called.2.symm

/-- Another reservation list that offers less. -/
theorem agree_with_vmem {process : ProcessContext} {availableVmem : VmemVector}
    (here : machine.processes[handle]? = some process)
    (less : OffersLess availableVmem process.availableVmem)
    (below : EntriesBelow machine handle) (agree : RecordsAgree machine handle) :
    EntriesBelow (machine.withVmem handle process availableVmem) handle ∧
      RecordsAgree (machine.withVmem handle process availableVmem) handle ∧
      FramesKept machine (machine.withVmem handle process availableVmem) handle := by
  obtain ⟨bound, _⟩ := List.getElem?_eq_some_iff.mp here
  have found : ∀ changed, (machine.withVmem handle process availableVmem).processes[handle]? =
      some changed → { process with availableVmem } = changed := by
    intro changed there
    rw [Machine.withVmem, List.getElem?_set_self bound, Option.some.injEq] at there
    exact there
  refine ⟨?_, ?_, fun _ _ _ _ _ kept => kept⟩
  · intro changed there entry member
    rw [← found changed there] at member
    obtain ⟨source, old, _, last⟩ := less entry member
    have bounded := below process here source old
    omega
  · intro changed there address offered
    rw [← found changed there] at offered ⊢
    exact agree process here address (less.offered offered)

theorem records_step (holds : Holds hole usable machine config)
    (grows : Grows handle machine after) (below : EntriesBelow machine handle)
    (agree : RecordsAgree machine handle) :
    EntriesBelow after handle ∧ RecordsAgree after handle ∧ FramesKept machine after handle := by
  obtain ⟨call, careful, ran⟩ := grows
  cases call with
  | allocateMemoryInProcess on address pageCount =>
      obtain ⟨sameHandle, aligned, noWrap, free⟩ := careful
      subst sameHandle
      obtain ⟨process, here, ran⟩ := Option.bind_eq_some_iff.mp ran
      obtain ⟨⟨result, kernel⟩, called, shape⟩ := Option.map_eq_some_iff.mp ran
      have member := List.mem_of_getElem? here
      rw [← shape]
      by_cases beyond : 0x80000000 < address.toNat + pageCount.toNat * 4096
      · rw [memory_refused noWrap beyond called]
        exact ⟨below, agree, fun _ _ _ _ _ mapped => mapped⟩
      have vacant := free (by omega) process here
      refine ⟨below, ?_, ?_⟩
      · intro other there target offered translated
        rw [here, Option.some.injEq] at there
        rw [← there] at offered translated
        have lower := offered_lower (below process here) offered
        have outside : target.toNat < address.toNat ∨
            address.toNat + pageCount.toNat * 4096 ≤ target.toNat := by
          by_contra inside
          exact (vacant target (by omega) (by omega)).1 offered
        have before := (memory_outside holds member aligned noWrap called lower outside).mp
          ⟨translated, rfl⟩
        exact agree process here target offered before.1
      · intro other there target frame lower mapped
        rw [here, Option.some.injEq] at there
        rw [← there] at mapped ⊢
        have outside : target.toNat < address.toNat ∨
            address.toNat + pageCount.toNat * 4096 ≤ target.toNat := by
          by_contra inside
          exact (vacant target (by omega) (by omega)).2 mapped.1
        exact (memory_outside holds member aligned noWrap called lower outside).mpr mapped
  | allocateVirtualMemoryAt on requestedBase size =>
      obtain ⟨sameHandle, noWrap⟩ := careful
      subst sameHandle
      obtain ⟨process, here, shape⟩ := Option.map_eq_some_iff.mp ran
      rw [← shape]
      exact agree_with_vmem here (allocate_at_offers_less (below process here) noWrap) below agree
  | allocateVirtualMemory on size =>
      have sameHandle : on = handle := careful
      subst sameHandle
      obtain ⟨process, here, shape⟩ := Option.map_eq_some_iff.mp ran
      rw [← shape]
      exact agree_with_vmem here (allocate_offers_less (below process here)) below agree
  | _ => exact False.elim careful

/-- From a state in which they agree the records go on agreeing along careful calls. -/
theorem records_agree_along {kernel booted : Kernel} {blocks : List Span}
    (boot : Boot hole kernel blocks) (heap : initializeHeap kernel = some booted)
    (run : Reachable hole ⟨booted, [], []⟩ machine)
    (below : EntriesBelow machine handle) (agree : RecordsAgree machine handle) :
    RecordsSound (Grows handle) machine handle := by
  intro later grown
  have reached : Reachable hole ⟨booted, [], []⟩ later ∧ EntriesBelow later handle ∧
      RecordsAgree later handle := by
    induction grown with
    | refl => exact ⟨run, below, agree⟩
    | tail _ last ih =>
        obtain ⟨there, belowThere, agreeThere⟩ := ih
        obtain ⟨config, _, holds⟩ := (boot_holds boot heap).reach there
        obtain ⟨belowNext, agreeNext, _⟩ := records_step holds last belowThere agreeThere
        obtain ⟨call, careful, ran⟩ := last
        exact ⟨there.tail ⟨call, careful.fits, ran⟩, belowNext, agreeNext⟩
  obtain ⟨there, belowThere, agreeThere⟩ := reached
  obtain ⟨config, _, holds⟩ := (boot_holds boot heap).reach there
  refine ⟨agreeThere, ?_⟩
  intro after grows
  exact (records_step holds grows belowThere agreeThere).2.2

end Runs

/-! ### The first process on 128 GiB -/

/-- The process once it has reserved everything up to the end of its first page. -/
def reservedProcess : ProcessContext :=
  { largeProcess .user with
    availableVmem := (allocateVirtualMemory (largeProcess .user).availableVmem 0x11000).2 }

theorem reserved_entries : reservedProcess.availableVmem.entries = [⟨0x11000, 0x7feef000⟩] := by
  decide

theorem created_entries : (largeProcess .user).availableVmem.entries = [⟨0, 0x7ff00000⟩] := by
  decide

theorem reserved_agrees {kernel : Kernel} {machine : Machine}
    (created : createProcess largeHeap "/init" "init" 0x10000 .user false [] [] =
      some (some (largeProcess .user), kernel))
    (shape : machine = ⟨kernel, [reservedProcess], []⟩) :
    EntriesBelow machine 0 ∧ RecordsAgree machine 0 := by
  have only : ∀ process, machine.processes[0]? = some process → reservedProcess = process := by
    intro process here
    rw [shape] at here
    exact Option.some.inj here
  constructor
  · intro process here entry member
    rw [← only process here, reserved_entries, List.mem_singleton] at member
    rw [member]
    decide
  · intro process here target offered
    rw [← only process here] at offered ⊢
    obtain ⟨entry, member, lower, upper⟩ := offered
    rw [reserved_entries, List.mem_singleton] at member
    rw [member] at lower upper
    have base : (entrySpan ⟨0x11000, 0x7feef000⟩).base = 0x11000 := rfl
    have length : (entrySpan ⟨0x11000, 0x7feef000⟩).length = 0x7feef000 := rfl
    rw [base] at lower
    rw [base, length] at upper
    have fits : CreateFits largeHole largeHeap [] [] := first_create_fits largeHeap.phys
    have nothing : ¬Translated kernel (largeProcess .user) target :=
      created_maps_only large_sound fits created (by omega) (by omega) (by omega)
    rw [shape]
    exact nothing

/-- The first page of the process is mapped, and another placement replaces it. -/
theorem large_created :
    ∃ kernel after, createProcess largeHeap "/init" "init" 0x10000 .user false [] [] =
        some (some (largeProcess .user), kernel) ∧
      Translated kernel (largeProcess .user) 0x10000 ∧
      allocateMemoryInProcess kernel (largeProcess .user) 0x10000 1 = some (true, after) ∧
      ∃ frame, Translates kernel.phys.mem (pageMapRoot kernel (largeProcess .user)) 0x10000 frame ∧
        ¬Translates after.phys.mem (pageMapRoot after (largeProcess .user)) 0x10000 frame := by
  have enough : 258 * 20480 ≤ freeBytes [⟨0x2000, 0x2000000000⟩] := by decide
  have total : freeBytes [⟨0x2000, 0x2000000000⟩] = 0x2000000000 := by decide
  obtain ⟨root, next, created, steps, linked, spent, _, mapped⟩ :=
    booted_process_created .user large_sound enough
  have orderly := (boot_holds large_boot large_heap_initialized).orderly.run steps
  have address : (0x10000 : U64).toNat = 0x10000 := rfl
  have leaf := Option.isSome_iff_exists.mp (mapped 0x10000 (Or.inr (by rw [address]; omega)))
  have translated : Translated next.kernel (largeProcess .user) 0x10000 :=
    (translated_iff_leaf orderly.sound linked (by rw [address]; omega)).mpr leaf
  obtain ⟨after, allocated, replaced⟩ := placement_replaces orderly linked (by decide)
    (by rw [address]; omega) translated (by omega)
  exact ⟨next.kernel, after, created, translated, allocated, replaced⟩

/-- The first page of a new process is mapped and on offer, and placing memory there
once more replaces its frame. -/
theorem first_page_on_offer :
    ∃ machine after, Reachable largeHole ⟨largeHeap, [], []⟩ machine ∧
      machine.processes = [largeProcess .user] ∧
      Offered (largeProcess .user).availableVmem 0x10000 ∧
      Translated machine.kernel (largeProcess .user) 0x10000 ∧ ¬RecordsAgree machine 0 ∧
      perform machine (.allocateMemoryInProcess 0 0x10000 1) = some after ∧
      ¬FramesKept machine after 0 := by
  obtain ⟨kernel, after, created, translated, allocated, frame, before, replaced⟩ := large_created
  have offered : Offered (largeProcess .user).availableVmem 0x10000 :=
    ⟨⟨0, 0x7ff00000⟩, by rw [created_entries]; exact List.mem_singleton_self _, by decide⟩
  have performed : perform ⟨kernel, [largeProcess .user], []⟩
      (.allocateMemoryInProcess 0 0x10000 1) = some ⟨after, [largeProcess .user], []⟩ := by
    rw [perform, List.getElem?_cons_zero, Option.bind_some, allocated, Option.map_some]
  refine ⟨_, _, Relation.ReflTransGen.single (created_performs created), rfl, offered, translated,
    ?_, performed, ?_⟩
  · intro agree
    exact agree _ rfl 0x10000 offered translated
  · intro kept
    exact replaced (kept _ rfl 0x10000 frame (by decide) before)

end KittyOs.VmemRecords
