import KittyOs.FramePlaces

/-!
# Bytes the memory calls leave alone

`virtual_map` and the allocator write to page-table pages and to free memory, and
`create_process` also to page zero when nothing is free. Every other byte has the
same value after each step of `sbrk`, `mmap`, `create_process` and
`allocate_memory_in_process`, and it stays such a byte.
-/

namespace KittyOs.DataBytes

open KittyOs.Lib.ByteMemory KittyOs.Lib.SpanPartition
open KittyOs.MachineWord KittyOs.PageTable KittyOs.PhysicalModel KittyOs.PhysicalFreelist
open KittyOs.VirtualModel KittyOs.PageForest KittyOs.MapEffect
open KittyOs.AddressSpaces KittyOs.SharedHalf

set_option autoImplicit false

section Bytes

variable {roots : Nat → Prop} {owns : Nat → Slot → Prop} {root byte : Nat}
variable {state other : PhysicalState} {blocks remaining : List Span}

theorem agreeing_data (data : DataByte roots owns state blocks byte)
    (agrees : Agrees roots owns state other)
    (taken : ∀ free, FreeAt remaining free → FreeAt blocks free) :
    DataByte roots owns other remaining byte where
  used := fun free => data.used (taken byte free)
  apart := fun start route table here =>
    data.apart start route table (agrees.reached.mp here)

theorem taken_data {page : Nat} (data : DataByte roots owns state blocks byte)
    (tables : TableForest roots owns state blocks)
    (takes : TakesPage state blocks page other remaining) :
    DataByte roots owns other remaining byte ∧ other.mem byte = state.mem byte :=
  ⟨agreeing_data data (takes_agrees tables takes) fun free member => ((takes.left free).mp member).1,
    takes.frame byte data.used⟩

/-- An empty top table outside the byte. -/
theorem added_root_data {kernelRoot page : Nat} {spaces : List Nat}
    (data : DataByte (liveRoots kernelRoot spaces) (ownedSlots kernelRoot) state blocks byte)
    (blank : ∀ slot, readEntry state.mem page slot = blankEntry)
    (outside : ¬Within page 4096 byte) :
    DataByte (liveRoots kernelRoot (page :: spaces)) (ownedSlots kernelRoot) state blocks byte where
  used := data.used
  apart := by
    intro start route table here inside
    rcases (reached_add_root kernelRoot spaces blank).mp here with ⟨_, _, same⟩ | old
    · rw [same] at inside
      exact outside inside
    · exact data.apart start route table old inside

end Bytes

/-- A data byte outside page zero. -/
structure InUse (config : Config) (byte : Nat) : Prop where
  above : 4096 ≤ byte
  data : DataByte config.Root config.Owns config.kernel.phys config.blocks byte

section Steps

variable {hole : Hole} {config next : Config} {byte : Nat}

theorem InUse.mapped {flags : MapFlags} {physicalAddress address : U64} {root page : Nat}
    {success : Bool} {taken phys : PhysicalState} {between remaining : List Span}
    (inUse : InUse config byte) (sound : Sound hole config)
    (takes : TakesPage config.kernel.phys config.blocks page taken between)
    (effect : Effect config.Root config.Owns flags physicalAddress root address taken between
      success phys remaining) :
    DataByte config.Root config.Owns phys remaining byte ∧ phys.mem byte = config.mem byte := by
  obtain ⟨data, kept⟩ := taken_data inUse.data sound.tables takes
  obtain ⟨later, same⟩ := effect.data data
  exact ⟨later, same.trans kept⟩

theorem in_use_step {action : Action} (sound : Sound hole config)
    (step : Step hole config action next) (inUse : InUse config byte) :
    InUse next byte ∧ next.mem byte = config.mem byte := by
  have above := inUse.above
  cases step with
  | reserve _ _ _ _ _ => exact ⟨⟨above, inUse.data⟩, rfl⟩
  | heapPage takes effect _ _ =>
      obtain ⟨data, same⟩ := inUse.mapped sound takes effect
      exact ⟨⟨above, data⟩, same⟩
  | windowPage takes effect _ _ _ =>
      obtain ⟨data, same⟩ := inUse.mapped sound takes effect
      exact ⟨⟨above, data⟩, same⟩
  | pageMap takes effect _ _ _ =>
      obtain ⟨data, same⟩ := inUse.mapped sound takes effect
      have outside : ¬Within _ 4096 byte := fun inside =>
        inUse.data.used (takes.inside byte inside)
      have cleared := agreeing_data data (cleared_agrees sound takes effect) fun _ member => member
      exact ⟨⟨above, added_root_data cleared (read_fill_zero _ _) outside⟩,
        (fill_outside _ _ _ _ _ outside).trans same⟩
  | emptyPageMap _ effect _ _ _ =>
      obtain ⟨data, same⟩ := effect.data inUse.data
      exact ⟨⟨above, data⟩, same⟩
  | pageZero _ same =>
      exact ⟨⟨above, agreeing_data inUse.data (page_zero_agrees sound same) fun _ member => member⟩,
        same byte above⟩
  | spacePage _ _ _ takes effect =>
      obtain ⟨data, same⟩ := inUse.mapped sound takes effect
      exact ⟨⟨above, data⟩, same⟩
  | copyUpper member =>
      refine ⟨⟨above, agreeing_data inUse.data (copy_upper_agrees sound member) fun _ free => free⟩,
        copy_block_outside _ _ _ _ _ fun inside => ?_⟩
      apply inUse.data.apart _ [] _ (top_table (space_live member))
      unfold Within at inside ⊢
      omega

theorem in_use_run {Allowed : Action → Prop} (sound : Sound hole config)
    (steps : Steps hole Allowed config next) (inUse : InUse config byte) :
    InUse next byte ∧ next.mem byte = config.mem byte := by
  have keeps : ∀ before action after, Sound hole before →
      (InUse before byte ∧ before.mem byte = config.mem byte) → Allowed action →
      Step hole before action after → InUse after byte ∧ after.mem byte = config.mem byte := by
    intro before action after beforeSound here _ step
    obtain ⟨later, same⟩ := in_use_step beforeSound step here.1
    exact ⟨later, same.trans here.2⟩
  exact sound.steps keeps steps ⟨inUse, rfl⟩

end Steps

end KittyOs.DataBytes
