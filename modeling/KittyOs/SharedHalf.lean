import KittyOs.KernelCalls

/-!
# The kernel half of a process

The upper half of a process's top table is a copy of the kernel's, made once. No
later step writes it, and an entry of the kernel's top table that refers to a table
refers to it for good. So every occupied upper slot of a process leads to the table
that the kernel's slot leads to.
-/

namespace KittyOs.SharedHalf

open KittyOs.Lib.ByteMemory KittyOs.Lib.SpanPartition
open KittyOs.MachineWord KittyOs.PageTable KittyOs.PhysicalModel KittyOs.PhysicalFreelist
open KittyOs.VirtualModel KittyOs.PageForest KittyOs.MapEffect KittyOs.Translation
open KittyOs.KernelModel KittyOs.ProcessModel KittyOs.AddressSpaces KittyOs.KernelCalls

set_option autoImplicit false

variable {hole : Hole} {config next : Config}

theorem along_top {address : U64} {slot : Slot} (along : Along (pathOf address) [] slot) :
    slot = (splitVirtualAddressToStructure address).pml4 := by
  obtain ⟨after, split⟩ := along
  exact (List.cons.inj split).1.symm

theorem top_table {root : Nat} (live : config.Root root) : config.Table root [] root :=
  ⟨live, trivial, rfl⟩

/-- Taking a page from the free list changes no slot of a table, owned or not. -/
theorem takes_slot {start table page : Nat} {route : List Slot} {taken : PhysicalState}
    {between : List Span} (sound : Sound hole config)
    (takes : TakesPage config.kernel.phys config.blocks page taken between)
    (here : config.Table start route table) (slot : Slot) :
    readEntry taken.mem table slot = config.slots table slot := by
  apply read_entry_congr
  intro byte inside
  exact takes.frame byte (sound.off_list here inside)

/-- What one mapping does to a slot of a top table. -/
def TopSlotMapped (target : Nat) (address : U64) (root : Nat) (slot : Slot)
    (old new : PageEntry) : Prop :=
  new = old ∨
    (root = target ∧ slot = (splitVirtualAddressToStructure address).pml4 ∧
      (old.ppn ≠ 0 → new.ppn = old.ppn))

theorem effect_top_slot {flags : MapFlags} {physicalAddress address : U64} {target root : Nat}
    {success : Bool} {state phys : PhysicalState} {blocks remaining : List Span}
    (effect : Effect config.Root config.Owns flags physicalAddress target address state blocks success
      phys remaining) (live : config.Root root) (slot : Slot) :
    TopSlotMapped target address root slot (readEntry state.mem root slot)
      (readEntry phys.mem root slot) := by
  have here : Reached config.Root config.Owns state root [] root := ⟨live, trivial, rfl⟩
  by_cases on : root = target ∧ Along (pathOf address) [] slot
  · obtain ⟨sameRoot, along⟩ := on
    subst sameRoot
    rcases effect.upper (effect.stays here) slot (by simp) with
      ⟨_, same⟩ | ⟨new, _⟩ | ⟨_, entry, flagged, _, _, kept⟩
    · exact Or.inl same
    · exact absurd here new
    · right
      refine ⟨rfl, along_top along, fun occupied => ?_⟩
      rw [flagged, on_table_ppn, kept here occupied]
  · exact Or.inl (effect.kept here on)

theorem mapped_top_slot {flags : MapFlags} {physicalAddress address : U64} {target root page : Nat}
    {success : Bool} {taken phys : PhysicalState} {between remaining : List Span}
    (sound : Sound hole config)
    (takes : TakesPage config.kernel.phys config.blocks page taken between)
    (effect : Effect config.Root config.Owns flags physicalAddress target address taken between
      success phys remaining) (live : config.Root root) (slot : Slot) :
    TopSlotMapped target address root slot (config.slots root slot) (readEntry phys.mem root slot) := by
  rw [← takes_slot sound takes (top_table live) slot]
  exact effect_top_slot effect live slot

/-- The upper half of a process after the copy. -/
theorem copied_slot {mem : Memory} {root kernelRoot : Nat} {slot : Slot}
    (upper : 256 ≤ slot.toNat) :
    readEntry (copyBlock mem (root + 2048) (kernelRoot + 2048) 2048) root slot =
      readEntry mem kernelRoot slot := by
  have bound := slot.isLt
  have target : root + 8 * slot.toNat = root + 2048 + (8 * slot.toNat - 2048) := by omega
  have source : kernelRoot + 8 * slot.toNat = kernelRoot + 2048 + (8 * slot.toNat - 2048) := by omega
  unfold readEntry
  rw [target, source, load_copy_block _ _ _ _ _ (by omega)]

/-- Copying into one top table leaves the others as they are. -/
theorem copied_elsewhere {root other : Nat} (sound : Sound hole config)
    (member : root ∈ config.spaces) (live : config.Root other) (different : other ≠ root)
    (slot : Slot) :
    readEntry (copyBlock config.mem (root + 2048) (config.root + 2048) 2048) other slot =
      config.slots other slot := by
  apply read_entry_congr
  intro byte inside
  apply copy_block_outside
  intro copied
  have within : Within root 4096 byte := by
    unfold Within at copied ⊢
    omega
  exact different (sound.same_table (top_table live) (top_table (space_live member)) inside within)

theorem page_zero_slot {root : Nat} {mem : Memory} (sound : Sound hole config)
    (same : ∀ address, 4096 ≤ address → mem address = config.mem address) (live : config.Root root)
    (slot : Slot) : readEntry mem root slot = config.slots root slot := by
  have nonzero := sound.nonzero root live
  have aligned := sound.tables.aligned root live
  apply read_entry_congr
  intro byte inside
  apply same
  unfold Within at inside
  omega

theorem cleared_slot {page root : Nat} {pointer : U64} {taken phys : PhysicalState}
    {between remaining : List Span} (sound : Sound hole config)
    (takes : TakesPage config.kernel.phys config.blocks page taken between)
    (effect : Effect config.Root config.Owns pageMapFlags (BitVec.ofNat 64 page) config.root pointer
      taken between true phys remaining) (live : config.Root root) (slot : Slot) :
    readEntry (fill phys.mem page 4096 0) root slot = readEntry phys.mem root slot := by
  have here : Reached config.Root config.Owns phys root [] root := ⟨live, trivial, rfl⟩
  apply read_entry_congr
  intro byte inside
  exact fill_outside _ _ _ _ _ (taken_page_apart sound takes effect here inside)

/-- A slot of a top table that there was before a step. -/
theorem top_slot_step {action : Action} {root : Nat} (sound : Sound hole config)
    (step : Step hole config action next) (live : config.Root root) (slot : Slot) :
    next.slots root slot = config.slots root slot ∨
      (action = .copyUpper root ∧
        (256 ≤ slot.toNat → next.slots root slot = config.slots config.root slot)) ∨
      ∃ address, Action.place config action = some (root, address) ∧
        slot = (splitVirtualAddressToStructure address).pml4 ∧
        ((config.slots root slot).ppn ≠ 0 →
          (next.slots root slot).ppn = (config.slots root slot).ppn) := by
  have spread : ∀ {target : Nat} {address : U64} {new : PageEntry},
      TopSlotMapped target address root slot (config.slots root slot) new →
      Action.place config action = some (target, address) → next.slots root slot = new →
      next.slots root slot = config.slots root slot ∨
        ∃ address, Action.place config action = some (root, address) ∧
          slot = (splitVirtualAddressToStructure address).pml4 ∧
          ((config.slots root slot).ppn ≠ 0 →
            (next.slots root slot).ppn = (config.slots root slot).ppn) := by
    intro target address new mapped placed read
    rw [read]
    rcases mapped with same | ⟨sameRoot, sameSlot, kept⟩
    · exact Or.inl same
    · rw [← sameRoot] at placed
      exact Or.inr ⟨address, placed, sameSlot, kept⟩
  cases step with
  | reserve range frontier _ _ _ => exact Or.inl rfl
  | heapPage takes effect _ _ =>
      exact (spread (mapped_top_slot sound takes effect live slot) rfl rfl).imp_right Or.inr
  | windowPage takes effect _ _ _ =>
      exact (spread (mapped_top_slot sound takes effect live slot) rfl rfl).imp_right Or.inr
  | pageMap takes effect _ _ _ =>
      exact (spread (mapped_top_slot sound takes effect live slot) rfl
        (cleared_slot sound takes effect live slot)).imp_right Or.inr
  | emptyPageMap _ effect _ _ _ =>
      exact (spread (effect_top_slot effect live slot) rfl rfl).imp_right Or.inr
  | pageZero mem same => exact Or.inl (page_zero_slot sound same live slot)
  | spacePage member _ _ takes effect =>
      exact (spread (mapped_top_slot sound takes effect live slot) rfl rfl).imp_right Or.inr
  | @copyUpper other member =>
      by_cases same : root = other
      · subst same
        exact Or.inr (Or.inl ⟨rfl, copied_slot⟩)
      · exact Or.inl (copied_elsewhere sound member live same slot)

/-! ### Shared tables -/

/-- An upper slot of a process is blank or refers to the kernel's table. -/
def SharesUpper (config : Config) (root : Nat) : Prop :=
  ∀ slot : Slot, 256 ≤ slot.toNat → TidyEntry 0 (config.slots root slot) ∧
    ((config.slots root slot).ppn = 0 ∨
      (config.slots root slot).ppn = (config.slots config.root slot).ppn)

theorem top_tidy {slot : Slot} (sound : Sound hole config) :
    TidyEntry 0 (config.slots config.root slot) :=
  sound.tidy config.root [] config.root slot (top_table (kernel_live config)) (kernel_owns _ _)
    (by simp)

theorem root_stays {action : Action} (step : Step hole config action next) :
    next.root = config.root ∧ ∀ root, config.Root root → next.Root root := by
  cases step with
  | pageMap _ _ _ _ _ =>
      exact ⟨rfl, fun root live => live.imp_right (List.mem_cons_of_mem _)⟩
  | _ => exact ⟨rfl, fun _ live => live⟩

/-- A reference in the kernel's top table is there for good. -/
theorem kernel_slot_step {action : Action} {slot : Slot} (sound : Sound hole config)
    (step : Step hole config action next) (occupied : (config.slots config.root slot).ppn ≠ 0) :
    (next.slots next.root slot).ppn = (config.slots config.root slot).ppn := by
  rw [(root_stays step).1]
  rcases top_slot_step sound step (kernel_live config) slot with
    same | ⟨copies, _⟩ | ⟨_, _, _, kept⟩
  · rw [same]
  · rw [copies] at step
    cases step with
    | copyUpper member => exact absurd member sound.distinct
  · exact kept occupied

/-- The upper half of a process is written by the copy alone. -/
theorem space_slot_step {action : Action} {root : Nat} {slot : Slot} (sound : Sound hole config)
    (step : Step hole config action next) (member : root ∈ config.spaces)
    (upper : 256 ≤ slot.toNat) :
    next.slots root slot = config.slots root slot ∨
      (action = .copyUpper root ∧ next.slots root slot = config.slots config.root slot) := by
  rcases top_slot_step sound step (space_live member) slot with
    same | ⟨copies, copied⟩ | ⟨address, placed, sameSlot, _⟩
  · exact Or.inl same
  · exact Or.inr ⟨copies, copied upper⟩
  · exfalso
    have apart : config.root ≠ root := fun same => sound.distinct (by rw [same]; exact member)
    cases step with
    | spacePage _ lower _ _ _ =>
        obtain ⟨_, sameAddress⟩ := Prod.mk.inj (Option.some.inj placed)
        rw [sameSlot, ← sameAddress, split_pml4_to_nat] at upper
        omega
    | heapPage _ _ _ _ => exact apart (Prod.mk.inj (Option.some.inj placed)).1
    | windowPage _ _ _ _ _ => exact apart (Prod.mk.inj (Option.some.inj placed)).1
    | pageMap _ _ _ _ _ => exact apart (Prod.mk.inj (Option.some.inj placed)).1
    | emptyPageMap _ _ _ _ _ => exact apart (Prod.mk.inj (Option.some.inj placed)).1
    | _ => exact absurd placed (by simp [Action.place])

/-- A process new after a step has an empty top table. -/
theorem new_space {action : Action} {root : Nat} (step : Step hole config action next)
    (member : root ∈ next.spaces) :
    root ∈ config.spaces ∨ ∀ slot, next.slots root slot = blankEntry := by
  cases step with
  | pageMap _ _ _ _ _ =>
      rcases List.mem_cons.mp member with new | old
      · rw [new]
        exact Or.inr (read_fill_zero _ _)
      · exact Or.inl old
  | _ => exact Or.inl member

theorem shares_upper_step {action : Action} (sound : Sound hole config)
    (step : Step hole config action next)
    (shares : ∀ root ∈ config.spaces, SharesUpper config root) :
    ∀ root ∈ next.spaces, SharesUpper next root := by
  intro root member slot upper
  rcases new_space step member with old | blank
  · obtain ⟨tidy, refers⟩ := shares root old slot upper
    rcases space_slot_step sound step old upper with same | ⟨copies, same⟩
    · rw [same]
      refine ⟨tidy, ?_⟩
      by_cases vacant : (config.slots root slot).ppn = 0
      · exact Or.inl vacant
      · right
        have shared := refers.resolve_left vacant
        rw [kernel_slot_step sound step (by rw [← shared]; exact vacant)]
        exact shared
    · rw [same]
      refine ⟨top_tidy sound, ?_⟩
      by_cases vacant : (config.slots config.root slot).ppn = 0
      · exact Or.inl vacant
      · exact Or.inr (kernel_slot_step sound step vacant).symm
  · rw [blank slot]
    exact ⟨blank_tidy 0, Or.inl rfl⟩

/-- A process whose pointer can be followed under its own page map. -/
structure Linked (config : Config) (pointer : U64) (root : Nat) : Prop where
  member : root ∈ config.spaces
  points : PointsTo config pointer root
  upper : (config.slots root (splitVirtualAddressToStructure pointer).pml4).ppn ≠ 0

theorem PointsTo.top_slot {pointer : U64} {root : Nat} (points : PointsTo config pointer root)
    (sound : Sound hole config) :
    256 ≤ (splitVirtualAddressToStructure pointer).pml4.toNat ∧
      (config.slots config.root (splitVirtualAddressToStructure pointer).pml4).ppn ≠ 0 := by
  obtain ⟨first, _⟩ := points.contained sound
  have higher := hole.higher
  constructor
  · rw [split_pml4_to_nat]
    have bound := pointer.isLt
    omega
  · obtain ⟨table, walked, present, _⟩ := points.writable.levels [] _ ⟨_, rfl⟩
    rw [← Option.some.inj walked] at present
    exact ((top_tidy sound).resolve_left (by simp)).mp present

theorem Linked.step {action : Action} {pointer : U64} {root : Nat} (linked : Linked config pointer root)
    (sound : Sound hole config) (step : Step hole config action next) : Linked next pointer root := by
  obtain ⟨member, points, occupied⟩ := linked
  obtain ⟨upper, kernelOccupied⟩ := PointsTo.top_slot points sound
  refine ⟨?_, points.step sound step, ?_⟩
  · cases step with
    | pageMap _ _ _ _ _ => exact List.mem_cons_of_mem _ member
    | _ => exact member
  · rcases space_slot_step sound step member upper with same | ⟨_, same⟩
    · rw [same]
      exact occupied
    · rw [same]
      exact kernelOccupied

/-! ### Walks through shared tables -/

section Walks

variable {mem : Memory} {left right : Nat} {address : U64}

/-- Walks that start with the same reference end in the same place. -/
theorem hardware_walk_shared {target : Nat} {writable : Bool}
    (present : (readEntry mem left (splitVirtualAddressToStructure address).pml4).p =
      (readEntry mem right (splitVirtualAddressToStructure address).pml4).p)
    (reference : (readEntry mem left (splitVirtualAddressToStructure address).pml4).ppn =
      (readEntry mem right (splitVirtualAddressToStructure address).pml4).ppn)
    (walked : hardwareWalk mem right address = some (target, writable)) :
    ∃ allowed, hardwareWalk mem left address = some (target, allowed) := by
  have frame : (readEntry mem left (splitVirtualAddressToStructure address).pml4).frame =
      (readEntry mem right (splitVirtualAddressToStructure address).pml4).frame := by
    rw [PageEntry.frame, PageEntry.frame, reference]
  revert present frame walked
  unfold hardwareWalk
  dsimp only
  generalize readEntry mem = slots
  generalize splitVirtualAddressToStructure address = indexes
  intro present walked frame
  rw [present, frame]
  split_ifs at walked ⊢
  all_goals
    obtain ⟨same, _⟩ := Prod.mk.inj (Option.some.inj walked)
    rw [same]
    exact ⟨_, rfl⟩

theorem virtual_to_physical_shared
    (present : (readEntry mem left (splitVirtualAddressToStructure address).pml4).p =
      (readEntry mem right (splitVirtualAddressToStructure address).pml4).p)
    (reference : (readEntry mem left (splitVirtualAddressToStructure address).pml4).ppn =
      (readEntry mem right (splitVirtualAddressToStructure address).pml4).ppn) :
    virtualToPhysical mem left address = virtualToPhysical mem right address := by
  have frame : (readEntry mem left (splitVirtualAddressToStructure address).pml4).frame =
      (readEntry mem right (splitVirtualAddressToStructure address).pml4).frame := by
    rw [PageEntry.frame, PageEntry.frame, reference]
  unfold virtualToPhysical
  dsimp only
  rw [present, frame]

end Walks

end KittyOs.SharedHalf
