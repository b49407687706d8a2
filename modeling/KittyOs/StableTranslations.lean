import KittyOs.KernelWindows

/-!
# Translations that stay

No call takes a translation away or redirects it, apart from `allocate_memory_in_process`
on the page itself. Every step writes entries of two kinds: a leaf where nothing was
mapped, and entries above it, which keep what they refer to and get the flags of a
writable page. So a walk that ended somewhere ends there after the step, and may write
if it could before. Windows of uACPI and the kernel's heap are therefore never moved
under a pointer that is in use.
-/

namespace KittyOs.StableTranslations

open KittyOs.Lib.ByteMemory KittyOs.Lib.SpanPartition KittyOs.Lib.RadixForest
open KittyOs.MachineWord KittyOs.PageTable KittyOs.PhysicalModel KittyOs.PhysicalFreelist
open KittyOs.VirtualModel KittyOs.PageForest KittyOs.VirtualMapping KittyOs.MapEffect
open KittyOs.Translation KittyOs.KernelModel KittyOs.KernelHole KittyOs.HeapBounds
open KittyOs.AddressSpaces KittyOs.KernelCalls KittyOs.SharedHalf
open KittyOs.BootState KittyOs.MemoryRuns KittyOs.FrameRoles
open KittyOs.ProcessGrowth KittyOs.UacpiMap KittyOs.KernelWindows

set_option autoImplicit false

/-! ### Entries -/

/-- A present entry stays present, keeps its frame and size, and does not lose the
right to write. -/
def Extends (old new : PageEntry) : Prop :=
  old.p = true → new.p = true ∧ new.frame = old.frame ∧ new.z = old.z ∧
    (old.rw = true → new.rw = true)

theorem extends_same (entry : PageEntry) : Extends entry entry :=
  fun present => ⟨present, rfl, rfl, id⟩

theorem extends_of_eq {old new : PageEntry} (same : new = old) : Extends old new := by
  rw [same]
  exact extends_same old

section Entries

variable {roots : Nat → Prop} {owns : Nat → Slot → Prop} {flags : MapFlags}
variable {physicalAddress address : U64} {root start page : Nat} {route : List Slot} {slot : Slot}
variable {state other : PhysicalState} {blocks remaining : List Span} {success : Bool}

/-- A last-level entry is written at the address of the call alone. -/
theorem effect_leaf_kept
    (effect : Effect roots owns flags physicalAddress root address state blocks success other
      remaining) (here : Reached roots owns state start route page) (last : route.length = 3)
    (elsewhere : start = root → route ++ [slot] ≠ pathOf address) :
    readEntry other.mem page slot = readEntry state.mem page slot := by
  obtain ⟨walked, after, split, progress, _, _⟩ := effect.progress
  apply progress.kept start route page slot here
  rintro ⟨same, along⟩
  have four : (pathOf address).length = 4 := rfl
  have longer := along.longer after
  rw [← split] at longer
  exact elsewhere same (along_last longer (by omega)).symm

/-- A call that maps a writable page extends every entry but the leaf it writes. -/
theorem effect_extends
    (effect : Effect roots owns flags physicalAddress root address state blocks success other
      remaining) (mapped : flags.isPresent = true) (readWrite : flags.isReadWrite = true)
    (tidy : EveryEntry roots owns TidyEntry (readEntry state.mem))
    (small : SmallPages (readEntry state.mem) root address)
    (here : Reached roots owns state start route page) (owned : Owned owns start (route ++ [slot]))
    (short : route.length ≤ 3) (elsewhere : start = root → route ++ [slot] ≠ pathOf address) :
    Extends (readEntry state.mem page slot) (readEntry other.mem page slot) := by
  by_cases on : start = root ∧ Along (pathOf address) route slot
  · by_cases above : route.length < 3
    · rcases effect.upper (effect.stays here) slot above with
        ⟨_, same⟩ | ⟨new, _⟩ | ⟨sameRoot, entry, flagged, _, _, kept⟩
      · exact extends_of_eq same
      · exact absurd here new
      · intro present
        rw [sameRoot] at here owned
        have upper : Along (tablePathOf address) route slot := by
          have along := on.2
          rw [path_of_split] at along
          rcases along_next along with sooner | ⟨whole, _⟩
          · exact sooner
          · rw [whole] at above
            exact absurd above (Nat.lt_irrefl 3)
        have occupied : (readEntry state.mem page slot).ppn ≠ 0 := by
          rcases tidy root route page slot here owned above with ⟨below, large⟩ | iff
          · rw [small route page slot upper below here.walked] at large
            exact absurd large (by simp)
          · exact iff.mp present
        rw [flagged, kept here occupied]
        exact ⟨mapped, on_table_frame flags _, on_table_z flags _, fun _ => readWrite⟩
    · exact extends_of_eq (effect_leaf_kept effect here (by omega) elsewhere)
  · exact extends_of_eq (effect.kept here on)

end Entries

/-! ### Walks -/

/-- The slot a walk for `target` reads at each depth. -/
def levelSlot (target : U64) : Nat → Slot
  | 0 => (splitVirtualAddressToStructure target).pml4
  | 1 => (splitVirtualAddressToStructure target).pdp
  | 2 => (splitVirtualAddressToStructure target).pd
  | _ + 3 => (splitVirtualAddressToStructure target).pt

theorem path_take_next (target : U64) {depth : Nat} (short : depth ≤ 3) :
    (pathOf target).take (depth + 1) = (pathOf target).take depth ++ [levelSlot target depth] := by
  match depth, short with
  | 0, _ | 1, _ | 2, _ | 3, _ => rfl

theorem path_take_length (target : U64) {depth : Nat} (short : depth ≤ 3) :
    ((pathOf target).take depth).length = depth := by
  rw [List.length_take]
  exact Nat.min_eq_left (Nat.le_succ_of_le short)

/-- The walk found `found` before, and finds it after, with no less right to write. -/
def StillFound (found : Nat × Bool) (after : Option (Nat × Bool)) : Prop :=
  ∃ allowed, after = some (found.1, allowed) ∧ (found.2 = true → allowed = true)

/-- A walk through entries that are extended ends where it did. `Kept depth table` is
what is known of the table the walk has come to. -/
theorem hardware_walk_extends {mem other : Memory} {root : Nat} {target : U64}
    {found : Nat × Bool} (Kept : Nat → Nat → Prop)
    (grows : ∀ {depth table}, depth ≤ 3 → Kept depth table →
      Extends (readEntry mem table (levelSlot target depth))
        (readEntry other table (levelSlot target depth)))
    (start : Kept 0 root)
    (down : ∀ {depth table}, depth < 3 → Kept depth table →
      (readEntry mem table (levelSlot target depth)).p = true →
      (0 < depth → (readEntry mem table (levelSlot target depth)).z = false) →
        Kept (depth + 1) (readEntry mem table (levelSlot target depth)).frame)
    (walked : hardwareWalk mem root target = some found) :
    StillFound found (hardwareWalk other root target) := by
  have top := fun table => @grows 0 table (by omega)
  have second := fun table => @grows 1 table (by omega)
  have third := fun table => @grows 2 table (by omega)
  have last := fun table => @grows 3 table (by omega)
  have toSecond := fun table => @down 0 table (by omega)
  have toThird := fun table => @down 1 table (by omega)
  have toLast := fun table => @down 2 table (by omega)
  simp only [levelSlot] at top second third last toSecond toThird toLast
  revert walked top second third last toSecond toThird toLast
  unfold hardwareWalk
  dsimp only
  generalize readEntry other = changed
  generalize readEntry mem = slots
  generalize splitVirtualAddressToStructure target = indexes
  intro walked top second third last toSecond toThird toLast
  split_ifs at walked with pml4e pdpe large pde big pte
  all_goals
    rw [Bool.not_eq_true, Bool.not_eq_false'] at pml4e pdpe
    obtain ⟨pml4p, pml4Frame, _, pml4rw⟩ := top root start pml4e
    have atPdp := toSecond root start pml4e (by omega)
    obtain ⟨pdpp, pdpFrame, pdpz, pdprw⟩ := second _ atPdp pdpe
    rw [pml4p, pml4Frame, pdpp, pdpz, pdpFrame, ← Option.some.inj walked]
  · refine ⟨_, by rw [large]; rfl, ?_⟩
    simp only [Bool.and_eq_true]
    exact fun both => ⟨pml4rw both.1, pdprw both.2⟩
  · rw [Bool.not_eq_true, Bool.not_eq_false'] at pde
    rw [Bool.not_eq_true] at large
    have atPd := toThird _ atPdp pdpe fun _ => large
    obtain ⟨pdep, pdeFrame, pdez, pderw⟩ := third _ atPd pde
    rw [pdep, pdez, pdeFrame]
    refine ⟨_, by rw [large, big]; rfl, ?_⟩
    simp only [Bool.and_eq_true]
    exact fun all => ⟨⟨pml4rw all.1.1, pdprw all.1.2⟩, pderw all.2⟩
  · rw [Bool.not_eq_true, Bool.not_eq_false'] at pde pte
    rw [Bool.not_eq_true] at large big
    have atPd := toThird _ atPdp pdpe fun _ => large
    obtain ⟨pdep, pdeFrame, pdez, pderw⟩ := third _ atPd pde
    obtain ⟨ptp, ptFrame, _, ptrw⟩ := last _ (toLast _ atPd pde fun _ => big) pte
    rw [pdep, pdez, pdeFrame, ptp, ptFrame]
    refine ⟨_, by rw [large, big]; rfl, ?_⟩
    simp only [Bool.and_eq_true]
    exact fun all => ⟨⟨⟨pml4rw all.1.1.1, pdprw all.1.1.2⟩, pderw all.1.2⟩, ptrw all.2⟩

/-! ### Steps -/

section Steps

variable {hole : Hole} {config next : Config} {action : MapAction} {target : U64}
variable {found : Nat × Bool}

theorem taken_entry_extends {flags : MapFlags} {physicalAddress address : U64}
    {root start table page : Nat} {route : List Slot} {slot : Slot} {success : Bool}
    {taken phys : PhysicalState} {between remaining : List Span} (sound : Sound hole config)
    (takes : TakesPage config.kernel.phys config.blocks page taken between)
    (effect : Effect config.Root config.Owns flags physicalAddress root address taken between
      success phys remaining)
    (mapped : flags.isPresent = true) (readWrite : flags.isReadWrite = true)
    (small : SmallPages (readEntry taken.mem) root address)
    (here : config.Table start route table) (owned : Owned config.Owns start (route ++ [slot]))
    (short : route.length ≤ 3) (elsewhere : start = root → route ++ [slot] ≠ pathOf address) :
    Extends (config.slots table slot) (readEntry phys.mem table slot) := by
  have agrees := takes_agrees sound.tables takes
  have extended := effect_extends effect mapped readWrite (sound.kept.takes takes).tidy small
    (agrees.reached.mpr here) owned short elsewhere
  rw [agrees start route table slot here owned] at extended
  exact extended

/-- Every step extends every entry there is, but for the leaf it maps. -/
theorem entry_step {start table : Nat} {route : List Slot} {slot : Slot} (sound : Sound hole config)
    (step : MapStep hole config action next) (here : config.Table start route table)
    (owned : Owned config.Owns start (route ++ [slot])) (short : route.length ≤ 3)
    (spares : ∀ address, action.place config = some (start, address) →
      route ++ [slot] ≠ pathOf address) :
    Extends (config.slots table slot) (next.slots table slot) := by
  have kernelSmall : ∀ {page : Nat} {address : U64} {taken : PhysicalState} {between : List Span},
      TakesPage config.kernel.phys config.blocks page taken between →
      action.place config = some (config.root, address) →
      SmallPages (readEntry taken.mem) config.root address := by
    intro page address taken between takes placed
    exact (sound.kept.takes takes).small address (map_place_vacant sound step placed).inside
  have apart : ∀ {root : Nat} {address : U64}, action.place config = some (root, address) →
      start = root → route ++ [slot] ≠ pathOf address := by
    intro root address placed same
    rw [← same] at placed
    exact spares address placed
  cases step with
  | window effect aligned place fits =>
      have page := map_place_vacant sound (.window effect aligned place fits) rfl
      exact effect_extends effect rfl rfl sound.tidy (sound.small _ page.inside) here owned short
        (apart rfl)
  | memory step =>
      cases step with
      | reserve _ _ _ _ _ => exact extends_same _
      | heapPage takes effect _ _ =>
          exact taken_entry_extends sound takes effect rfl rfl (kernelSmall takes rfl) here owned
            short (apart rfl)
      | windowPage takes effect _ _ _ =>
          exact taken_entry_extends sound takes effect rfl rfl (kernelSmall takes rfl) here owned
            short (apart rfl)
      | pageMap takes effect _ _ _ =>
          have there := effect.stays ((takes_agrees sound.tables takes).reached.mpr here)
          have cleared := cleared_agrees sound takes effect start route table slot there owned
          have extended := taken_entry_extends sound takes effect rfl rfl (kernelSmall takes rfl)
            here owned short (apart rfl)
          rw [← cleared] at extended
          exact extended
      | emptyPageMap nothing effect aligned place fits =>
          have page := place_vacant sound (.emptyPageMap nothing effect aligned place fits) rfl
          exact effect_extends effect rfl rfl sound.tidy (sound.small _ page.inside) here owned
            short (apart rfl)
      | pageZero mem same =>
          exact extends_of_eq (page_zero_agrees sound same start route table slot here owned)
      | spacePage member lower _ takes effect =>
          exact taken_entry_extends sound takes effect rfl rfl
            ((sound.kept.takes takes).lower _ member _ lower) here owned short (apart rfl)
      | copyUpper member =>
          exact extends_of_eq (copy_upper_agrees sound member start route table slot here owned)

theorem owned_level {root depth : Nat}
    (owned : config.Owns root (splitVirtualAddressToStructure target).pml4) (short : depth ≤ 3) :
    Owned config.Owns root ((pathOf target).take depth ++ [levelSlot target depth]) := by
  match depth, short with
  | 0, _ | 1, _ | 2, _ | 3, _ => exact owned

/-- The entries a walk reads are extended if its page is not the one that is mapped. -/
theorem level_step {start table depth : Nat} (sound : Sound hole config)
    (step : MapStep hole config action next) (short : depth ≤ 3)
    (here : config.Table start ((pathOf target).take depth) table)
    (owned : config.Owns start (splitVirtualAddressToStructure target).pml4)
    (spares : ∀ address, action.place config = some (start, address) →
      pathOf target ≠ pathOf address) :
    Extends (config.slots table (levelSlot target depth))
      (next.slots table (levelSlot target depth)) := by
  apply entry_step sound step here (owned_level owned short)
  · rw [path_take_length target short]
    exact short
  · intro address placed same
    have four : ∀ address, (pathOf address).length = 4 := fun _ => rfl
    rw [← path_take_next target short] at same
    have lengths := congrArg List.length same
    rw [List.length_take, four, four] at lengths
    rw [List.take_of_length_le (by rw [four]; omega)] at same
    exact spares address placed same

/-- Where the tables of the walk belong to its own root. -/
theorem owned_walk_step {root : Nat} (sound : Sound hole config)
    (step : MapStep hole config action next) (live : config.Root root)
    (owned : config.Owns root (splitVirtualAddressToStructure target).pml4)
    (spares : ∀ address, action.place config = some (root, address) →
      pathOf target ≠ pathOf address)
    (walked : hardwareWalk config.mem root target = some found) :
    StillFound found (hardwareWalk next.mem root target) := by
  refine hardware_walk_extends (fun depth => config.Table root ((pathOf target).take depth)) ?_
    (top_table live) ?_ walked
  · intro depth table short here
    exact level_step sound step short here owned spares
  · intro depth table upper here present small
    have length := path_take_length target (Nat.le_of_lt upper)
    rw [path_take_next target (Nat.le_of_lt upper)]
    exact table_below sound here (owned_level owned (Nat.le_of_lt upper)) (by rw [length]; exact upper)
      present (by rw [length]; exact small)

/-- A vacant page has no translation. -/
theorem vacant_unwalked {address : U64} (sound : Sound hole config)
    (page : VacantPage hole config address) (path : pathOf target = pathOf address) :
    hardwareWalk config.mem config.root target = none := by
  have vacant : liveLeaf config.slots config.root address = none := by
    apply sound.vacant address page.inside
    rcases page.vacant with above | ⟨beyond, below⟩
    · exact Or.inl above
    · exact Or.inr ⟨beyond, by omega⟩
  rw [← live_leaf_path path] at vacant
  rcases walkers_of_leaf (kernel_live config) (kernel_owns _ _) sound.tidy
    (small_pages_path path.symm (sound.small address page.inside)) with
    ⟨_, nothing, _⟩ | ⟨leaf, _, mapped, _⟩
  · exact nothing
  · rw [vacant] at mapped
    exact absurd mapped (by simp)

theorem kernel_walk_step (sound : Sound hole config) (step : MapStep hole config action next)
    (walked : hardwareWalk config.mem config.root target = some found) :
    StillFound found (hardwareWalk next.mem next.root target) := by
  rw [(map_step_root step).1]
  apply owned_walk_step sound step (kernel_live config) (kernel_owns _ _) _ walked
  intro address placed path
  rw [vacant_unwalked sound (map_place_vacant sound step placed) path] at walked
  exact absurd walked (by simp)

/-- In the top table of a process only pages of the process are mapped. -/
theorem space_place {root : Nat} {address : U64} (sound : Sound hole config)
    (member : root ∈ config.spaces) (spares : SparesPage root target action)
    (placed : action.place config = some (root, address)) : pathOf target ≠ pathOf address := by
  have kernel : ∀ {mapped : U64}, some (config.root, mapped) = some (root, address) → False := by
    intro mapped same
    rw [← (Prod.mk.inj (Option.some.inj same)).1] at member
    exact sound.distinct member
  cases action with
  | window _ => exact (kernel placed).elim
  | memory inner =>
      cases inner with
      | spacePage at_ _ mapped _ =>
          obtain ⟨sameRoot, sameAddress⟩ := Prod.mk.inj (Option.some.inj placed)
          rw [← sameAddress]
          exact spares sameRoot
      | heapPage _ | windowPage _ | pageMap _ _ | emptyPageMap _ => exact (kernel placed).elim
      | reserve | pageZero | copyUpper _ => exact absurd placed (by simp [MapAction.place, Action.place])

theorem walk_present {mem : Memory} {root : Nat}
    (walked : hardwareWalk mem root target = some found) :
    (readEntry mem root (splitVirtualAddressToStructure target).pml4).p = true := by
  by_contra absent
  rw [Bool.not_eq_true] at absent
  simp [hardwareWalk, absent] at walked

/-- A present upper entry of a process is present in the kernel, with the same table. -/
theorem shared_top {root : Nat} {slot : Slot} (sound : Sound hole config)
    (shares : SharesUpper config root) (upper : 256 ≤ slot.toNat)
    (present : (config.slots root slot).p = true) :
    (config.slots config.root slot).p = true ∧
      (config.slots root slot).ppn = (config.slots config.root slot).ppn := by
  obtain ⟨tidy, refers⟩ := shares slot upper
  have occupied := (tidy.resolve_left (by simp)).mp present
  have shared := refers.resolve_left occupied
  exact ⟨((top_tidy sound).resolve_left (by simp)).mpr (by rw [← shared]; exact occupied), shared⟩

/-- The upper half of a process is walked through the tables of the kernel. -/
theorem shared_walk_step {root : Nat} (sound : Sound hole config)
    (shares : SharesUpper config root) (step : MapStep hole config action next)
    (member : root ∈ config.spaces) (spares : SparesPage root target action)
    (upper : 256 ≤ (splitVirtualAddressToStructure target).pml4.toNat)
    (walked : hardwareWalk config.mem root target = some found) :
    StillFound found (hardwareWalk next.mem root target) := by
  obtain ⟨kernelPresent, shared⟩ := shared_top sound shares upper (walk_present walked)
  have frame : (config.slots root (levelSlot target 0)).frame =
      (config.slots config.root (levelSlot target 0)).frame :=
    congrArg (fun ppn : BitVec 40 => ppn.toNat * 4096) shared
  have elsewhere : ∀ address, action.place config = some (config.root, address) →
      pathOf target ≠ pathOf address := by
    intro address placed path
    obtain ⟨_, kernelWalked⟩ := hardware_walk_shared
      (kernelPresent.trans (walk_present walked).symm) shared.symm walked
    rw [vacant_unwalked sound (map_place_vacant sound step placed) path] at kernelWalked
    exact absurd kernelWalked (by simp)
  refine hardware_walk_extends (fun depth table => (depth = 0 ∧ table = root) ∨
    (0 < depth ∧ config.Table config.root ((pathOf target).take depth) table)) ?_
    (Or.inl ⟨rfl, rfl⟩) ?_ walked
  · rintro depth table short (⟨atTop, atRoot⟩ | ⟨_, here⟩)
    · rw [atTop, atRoot]
      rcases map_space_slot sound step member upper with same | ⟨copies, _⟩
      · exact extends_of_eq same
      · rw [copies] at spares
        exact absurd rfl spares
    · exact level_step sound step short here (kernel_owns _ _) elsewhere
  · rintro depth table below (⟨atTop, atRoot⟩ | ⟨_, here⟩) present small
    · rw [atTop, atRoot, frame]
      refine Or.inr ⟨by omega, ?_⟩
      exact table_below sound (top_table (kernel_live config))
        (owned_level (kernel_owns _ _) (Nat.zero_le 3)) (by decide) kernelPresent (by simp)
    · have length := path_take_length target (Nat.le_of_lt below)
      refine Or.inr ⟨by omega, ?_⟩
      rw [path_take_next target (Nat.le_of_lt below)]
      exact table_below sound here (owned_level (kernel_owns _ _) (Nat.le_of_lt below))
        (by rw [length]; exact below) present (by rw [length]; exact small)

theorem space_walk_step {root : Nat} (sound : Sound hole config)
    (shares : SharesUpper config root) (step : MapStep hole config action next)
    (member : root ∈ config.spaces) (extended : SignExtended target)
    (spares : SparesPage root target action)
    (walked : hardwareWalk config.mem root target = some found) :
    StillFound found (hardwareWalk next.mem root target) := by
  rcases extended with lower | upper
  · exact owned_walk_step sound step (space_live member) (lower_owned _ _ lower)
      (fun _ placed => space_place sound member spares placed) walked
  · apply shared_walk_step sound shares step member spares _ walked
    rw [split_pml4_to_nat]
    have bound := target.isLt
    omega

theorem StillFound.trans {first : Nat × Bool} {middle after : Option (Nat × Bool)}
    (earlier : StillFound first middle)
    (later : ∀ second, middle = some second → StillFound second after) : StillFound first after := by
  obtain ⟨allowed, same, kept⟩ := earlier
  obtain ⟨final, found, still⟩ := later _ same
  exact ⟨final, found, fun writable => still (kept writable)⟩

theorem kernel_walk_run {Allowed : MapAction → Prop} (sound : Sound hole config)
    (steps : MapSteps hole Allowed config next)
    (walked : hardwareWalk config.mem config.root target = some found) :
    StillFound found (hardwareWalk next.mem next.root target) := by
  have keeps : ∀ before action after, Sound hole before →
      StillFound found (hardwareWalk before.mem before.root target) → Allowed action →
      MapStep hole before action after →
      StillFound found (hardwareWalk after.mem after.root target) :=
    fun _ _ _ here earlier _ step => earlier.trans fun _ => kernel_walk_step here step
  exact (map_steps_keep sound keeps steps ⟨_, walked, id⟩).2

theorem space_walk_run {root : Nat} (sound : Sound hole config)
    (shares : ∀ root ∈ config.spaces, SharesUpper config root)
    (steps : MapSteps hole (SparesPage root target) config next) (member : root ∈ config.spaces)
    (extended : SignExtended target) (walked : hardwareWalk config.mem root target = some found) :
    StillFound found (hardwareWalk next.mem root target) := by
  have keeps : ∀ before action after, Sound hole before →
      ((∀ root ∈ before.spaces, SharesUpper before root) ∧ root ∈ before.spaces ∧
        StillFound found (hardwareWalk before.mem root target)) →
      SparesPage root target action → MapStep hole before action after →
      ((∀ root ∈ after.spaces, SharesUpper after root) ∧ root ∈ after.spaces ∧
        StillFound found (hardwareWalk after.mem root target)) := by
    rintro before action after here ⟨shared, live, earlier⟩ spares step
    refine ⟨map_step_shares here step shared, (map_step_root step).2 root live, ?_⟩
    exact earlier.trans fun _ =>
      space_walk_step here (shared root live) step live extended spares
  exact (map_steps_keep sound keeps steps ⟨shares, member, _, walked, id⟩).2.2.2

end Steps

/-! ### Runs -/

/-- Where the processor finds an address, and whether it may write there. -/
def walkOf (machine : Machine) : View → U64 → Option (Nat × Bool)
  | .kernel, target => hardwareWalk machine.kernel.phys.mem machine.kernel.kernelPml4 target
  | .process handle, target =>
      machine.processes[handle]?.bind fun process => translation machine.kernel process target

section Runs

variable {hole : Hole} {machine after : Machine} {config : Config} {roots : List Nat}
variable {target : U64} {found : Nat × Bool}

theorem walk_of_process {handle root : Nat} (mapped : Mapped hole machine config roots)
    (here : roots[handle]? = some root) :
    walkOf machine (.process handle) target = hardwareWalk config.mem root target := by
  obtain ⟨bound, _⟩ := List.getElem?_eq_some_iff.mp here
  have lengths := mapped.linked.length_eq
  rw [List.length_map] at lengths
  have process := List.getElem?_eq_getElem (show handle < machine.processes.length by omega)
  obtain ⟨other, there, linked⟩ := mapped.root_of process
  rw [here, Option.some.injEq] at there
  rw [walkOf, process, Option.bind_some, translation, ← mapped.kernel, there,
    page_map_root mapped.sound linked]

/-- One call keeps a translation that it does not replace. -/
theorem walk_of_call {view : View} {call : MapCall} (mapped : Mapped hole machine config roots)
    (fits : MapCallFits hole machine call) (leaves : Leaves target view call)
    (ran : performMap machine call = some after) (extended : SignExtended target)
    (walked : walkOf machine view target = some found) :
    StillFound found (walkOf after view target) := by
  obtain ⟨next, more, steps, there⟩ := mapped.perform fits ran
  cases view with
  | kernel =>
      rw [walkOf, ← mapped.kernel] at walked
      rw [walkOf, ← there.kernel]
      exact kernel_walk_run mapped.sound steps walked
  | process handle =>
      obtain ⟨process, here, _⟩ := Option.bind_eq_some_iff.mp walked
      obtain ⟨root, atHandle, linked⟩ := mapped.root_of here
      have still : (roots ++ more)[handle]? = some root := by
        rw [List.getElem?_append_left (List.getElem?_eq_some_iff.mp atHandle).1, atHandle]
      rw [walk_of_process mapped atHandle] at walked
      rw [walk_of_process there still]
      exact space_walk_run mapped.sound mapped.shares
        (steps.widen fun _ allowed => allowed handle root target atHandle extended leaves)
        linked.member extended walked

theorem boot_mapped {kernel booted : Kernel} {blocks : List Span} (boot : Boot hole kernel blocks)
    (heap : initializeHeap kernel = some booted) :
    Mapped hole ⟨booted, [], []⟩ (bootConfig booted blocks) [] where
  kernel := rfl
  sound := boot_sound boot heap
  shares := fun _ member => absurd member List.not_mem_nil
  linked := .nil
  nodup := List.nodup_nil

theorem mapped_run {Allowed : MapCall → Prop} (mapped : Mapped hole machine config roots)
    (run : MapRun hole Allowed machine after) : ∃ next more, Mapped hole after next more := by
  induction run with
  | refl => exact ⟨config, roots, mapped⟩
  | tail _ last ih =>
      obtain ⟨middle, between, here⟩ := ih
      obtain ⟨call, _, fits, ran⟩ := last
      obtain ⟨next, more, _, there⟩ := here.perform fits ran
      exact ⟨next, between ++ more, there⟩

theorem walk_of_run {view : View} (mapped : Mapped hole machine config roots)
    (extended : SignExtended target) (run : MapRun hole (Leaves target view) machine after)
    (walked : walkOf machine view target = some found) :
    StillFound found (walkOf after view target) := by
  induction run with
  | refl => exact ⟨_, walked, id⟩
  | tail sofar last ih =>
      obtain ⟨call, leaves, fits, ran⟩ := last
      obtain ⟨_, _, here⟩ := mapped_run mapped sofar
      exact ih.trans fun _ => walk_of_call here fits leaves ran extended

/-- No call replaces a translation of the kernel. -/
theorem kernel_left (target : U64) (call : MapCall) : Leaves target .kernel call := by
  cases call <;> trivial

end Runs

/-! ### Windows -/

section Windows

variable {hole : Hole} {config : Config}

/-- The kernel's own tree, among all page maps. -/
theorem kernel_reached {start table : Nat} {route : List Slot}
    (here : Reached (solo config.root) everySlot config.kernel.phys start route table) :
    config.Table start route table := by
  have same : start = config.root := here.live
  refine ⟨Or.inl same, ?_, here.walked⟩
  rw [same]
  cases route with
  | nil => trivial
  | cons index rest => exact kernel_owns _ _

theorem kernel_window_ready (sound : Sound hole config) {len : U64}
    (fits : WindowFits hole config.kernel len) : WindowReady config.kernel len where
  tables := by
    refine ⟨config.blocks, sound.tables.list, sound.tables.bounded, ?_, ?_, ?_⟩
    · intro start route start' route' table first second
      exact sound.tables.forest (kernel_reached first) (kernel_reached second)
    · rintro root rfl
      exact sound.tables.aligned config.root (kernel_live config)
    · intro start route table here
      exact sound.tables.offList start route table (kernel_reached here)
  tidy := by
    intro start route table slot here _ above
    have there := kernel_reached here
    have same : start = config.root := here.live
    apply sound.tidy start route table slot there _ above
    rw [same]
    cases route <;> exact kernel_owns _ _
  small := by
    intro i inside
    obtain ⟨lower, start, _, below⟩ := sound.heap
    obtain ⟨covered, _⟩ := sound.range
    have bounded := hole.bounded
    unfold WindowFits at fits
    apply sound.small
    have place : (pageAt config.kernel.range.baseAddress i).toNat =
        config.kernel.range.baseAddress.toNat + i * 4096 := by
      rw [page_at_to_nat]
      exact Nat.mod_eq_of_lt (by omega)
    rw [base_signed sound]
    exact ⟨by omega, by omega⟩

/-- In the hole `virtual_to_physical` and the processor agree. -/
theorem hole_walkers {target physical : U64} (sound : Sound hole config)
    (inside : hole.Contains target) :
    virtualToPhysical config.mem config.root target = (true, physical) ↔
      ∃ writable, hardwareWalk config.mem config.root target = some (physical.toNat, writable) := by
  rcases walkers_of_leaf (kernel_live config) (kernel_owns _ _) sound.tidy
    (sound.small target inside) with ⟨_, nothing, failed, _⟩ | ⟨leaf, writable, _, walked, read, _⟩
  · rw [nothing, failed]
    simp
  · have value := translate_to_nat leaf target
    rw [walked, read inside.extended.canonical]
    rw [← value]
    constructor
    · intro same
      rw [same]
      exact ⟨writable, rfl⟩
    · rintro ⟨_, same⟩
      exact Prod.ext rfl (BitVec.eq_of_toNat_eq (Prod.mk.inj (Option.some.inj same)).1)

theorem uacpi_map_aligned (kernel : Kernel) (addr len : U64) :
    uacpiKernelMap kernel (alignDown addr) len = uacpiKernelMap kernel addr len := by
  have same : alignDown addr &&& 0xfffffffffffff000 = addr &&& 0xfffffffffffff000 := by
    rw [show alignDown addr = addr &&& 0xfffffffffffff000 from rfl, BitVec.and_assoc, BitVec.and_self]
  rw [uacpiKernelMap, uacpiKernelMap, same]

/-- A window of one page is mapped if there is memory for the tables. -/
theorem one_page_window {len : U64} (sound : Sound hole config)
    (aligned : config.kernel.range.baseAddress % 4096 = 0)
    (returned : roundedRequest len ≠ config.kernel.range.remainingBytes)
    (one : roundedRequest len = 4096) (fits : WindowFits hole config.kernel len) (addr : U64) :
    ∃ success phys, uacpiKernelMap config.kernel addr len =
        some (config.kernel.range.baseAddress, [success], { config.kernel with
          phys, range := ⟨config.kernel.range.baseAddress + 4096,
            config.kernel.range.remainingBytes⟩ }) ∧
      (3 * 4096 ≤ freeBytes config.blocks → success = true) := by
  have first : ∀ base : U64, base + BitVec.ofNat 64 0 * 4096 = base := by
    intro base
    rw [show BitVec.ofNat 64 0 * 4096 = 0#64 by decide, BitVec.add_zero]
  have physicalAligned : (addr &&& 0xfffffffffffff000) % 4096 = 0 := by
    apply BitVec.eq_of_toNat_eq
    have down := align_down_to_nat addr
    rw [BitVec.toNat_umod, show addr &&& 0xfffffffffffff000 = alignDown addr from rfl, down]
    simp
  have pages : (((len + 4096) &&& pageMask) / 4096).toNat = 1 := by
    rw [show (len + 4096) &&& pageMask = roundedRequest len from rfl, one]
    decide
  obtain ⟨lower, start, _, below⟩ := sound.heap
  obtain ⟨covered, _⟩ := sound.range
  have room := fits
  rw [WindowFits, one, show (4096 : U64).toNat = 4096 from rfl] at room
  have contained : hole.Contains config.kernel.range.baseAddress := ⟨by omega, by omega⟩
  obtain ⟨success, phys, remaining, run, effect⟩ := virtual_map_effect windowFlags sound.tables
    (kernel_live config) (kernel_owns _ _) (sound.small _ contained) physicalAligned aligned
    contained.extended.canonical
  refine ⟨success, phys, ?_, effect.succeeds⟩
  rcases allocate_kernel_cases config.kernel.range len with ⟨same, _⟩ | ⟨_, reserved⟩
  · exact absurd same returned
  · simp only [uacpiKernelMap, reserved, base_signed sound, pages, mapWindow, first, run, one,
      Option.map_some, List.nil_append]

/-- What the processor finds in a window that was mapped without a failure. -/
theorem window_walk {mapped : Kernel} {addr len pointer : U64} {results : List Bool} {i : Nat}
    (sound : Sound hole config) (fits : WindowFits hole config.kernel len)
    (bound : addr.toNat + len.toNat < 2 ^ 52)
    (called : uacpiKernelMap config.kernel addr len = some (pointer, results, mapped))
    (succeeded : ∀ result ∈ results, result = true) (inside : i < len.toNat) :
    hole.Contains (pointer + BitVec.ofNat 64 i) ∧
      ∃ writable, hardwareWalk mapped.phys.mem mapped.kernelPml4 (pointer + BitVec.ofNat 64 i) =
        some ((alignDown addr + BitVec.ofNat 64 i).toNat, writable) := by
  obtain ⟨isBase, next, same, steps, _⟩ := uacpi_map_steps sound fits called
  have ready := kernel_window_ready sound fits
  have down := align_down_to_nat addr
  have rounded := (rounded_request_bounds (show len.toNat + 4096 < 2 ^ 64 by omega)).1
  obtain ⟨lower, first, _, below⟩ := sound.heap
  obtain ⟨covered, _⟩ := sound.range
  have higher := hole.higher
  have bounded := hole.bounded
  unfold WindowFits at fits
  have place : (pointer + BitVec.ofNat 64 i).toNat =
      config.kernel.range.baseAddress.toNat + i := by
    rw [isBase, BitVec.toNat_add, of_nat_to_nat (by omega)]
    exact Nat.mod_eq_of_lt (by omega)
  have contained : hole.Contains (pointer + BitVec.ofNat 64 i) := ⟨by omega, by omega⟩
  rw [← uacpi_map_aligned] at called
  have shown := aligned_window_shown ready (by omega) called succeeded (by omega) (by omega) i inside
  rw [← same] at shown ⊢
  exact ⟨contained, (hole_walkers (map_steps_sound sound steps) contained).mp shown⟩

end Windows

theorem large_window_fits : WindowFits largeHole largeHeap 0x24 := by
  unfold WindowFits
  decide

/-- Two windows on the machine with 128 GiB, the first for a table at 0x7fe1f4. -/
theorem large_windows :
    ∃ first second results, uacpiKernelMap largeHeap 0x7fe1f4 0x24 =
        some (0xffff900400001000, [true], first) ∧
      WindowFits largeHole first 0x24 ∧ uacpiKernelMap first 0xfee00000 0x24 =
        some (0xffff900400002000, results, second) := by
  obtain ⟨success, phys, called, enough⟩ := one_page_window large_sound
    (show largeHeap.range.baseAddress % 4096 = 0 by decide)
    (show roundedRequest 0x24 ≠ largeHeap.range.remainingBytes by decide) (by decide)
    large_window_fits 0x7fe1f4
  rw [enough (by decide)] at called
  obtain ⟨_, next, same, steps, _⟩ := uacpi_map_steps large_sound large_window_fits called
  have range : next.kernel.range = ⟨0xffff900400002000, 0x6fff80000000⟩ := by
    rw [same]
    rfl
  have nextFits : WindowFits largeHole next.kernel 0x24 := by
    rw [WindowFits, range]
    decide
  obtain ⟨_, _, again, _⟩ := one_page_window (map_steps_sound large_sound steps)
    (by rw [range]; decide) (by rw [range]; decide) (by decide) nextFits 0xfee00000
  rw [range, same] at again
  rw [same] at nextFits
  exact ⟨_, _, _, called, nextFits, again⟩

theorem large_window_run {first second : Kernel} {addr pointer : U64} {results : List Bool}
    (fits : WindowFits largeHole first 0x24)
    (called : uacpiKernelMap first addr 0x24 = some (pointer, results, second))
    {Allowed : MapCall → Prop} (allowed : Allowed (.window addr 0x24)) :
    MapRun largeHole Allowed ⟨first, [], []⟩ ⟨second, [], []⟩ :=
  Relation.ReflTransGen.single ⟨.window addr 0x24, allowed, fits, by
    rw [performMap, called, Option.map_some]⟩

/-- A translation that the kernel or a process has is there after any calls that do not
map its page again for that process. -/
theorem translations_stay {hole : Hole} {kernel booted : Kernel} {blocks : List Span}
    {earlier later : Machine} {view : View} {target : U64} {found : Nat × Bool}
    (boot : Boot hole kernel blocks) (heap : initializeHeap kernel = some booted)
    (before : MapRun hole (fun _ => True) ⟨booted, [], []⟩ earlier) (extended : SignExtended target)
    (run : MapRun hole (Leaves target view) earlier later)
    (walked : walkOf earlier view target = some found) :
    ∃ allowed, walkOf later view target = some (found.1, allowed) ∧
      (found.2 = true → allowed = true) := by
  obtain ⟨_, _, start⟩ := mapped_run (boot_mapped boot heap) before
  exact walk_of_run start extended run walked

/-- The first window is where it was after the second is mapped. -/
theorem first_window_stays :
    ∃ first second, MapRun largeHole (fun _ => True) ⟨largeHeap, [], []⟩ ⟨first, [], []⟩ ∧
      MapRun largeHole (Leaves 0xffff900400001000 .kernel) ⟨first, [], []⟩ ⟨second, [], []⟩ ∧
      ∃ allowed, walkOf ⟨second, [], []⟩ .kernel 0xffff900400001000 = some (0x7fe000, allowed) := by
  obtain ⟨first, second, results, called, fits, again⟩ := large_windows
  have before : MapRun largeHole (fun _ => True) ⟨largeHeap, [], []⟩ ⟨first, [], []⟩ :=
    large_window_run large_window_fits called trivial
  have after := large_window_run fits again (kernel_left 0xffff900400001000 _)
  obtain ⟨_, writable, walked⟩ := window_walk (i := 0) large_sound large_window_fits
    (by decide) called (by simp) (by decide)
  obtain ⟨allowed, found, _⟩ := translations_stay large_boot large_heap_initialized before
    (by decide) after walked
  exact ⟨first, second, before, after, allowed, found⟩

/-- A window that was mapped without a failure shows its pages for good, whatever is
called later. -/
theorem windows_stay_shown {hole : Hole} {kernel booted mapped : Kernel} {blocks : List Span}
    {earlier later : Machine} {addr len pointer : U64} {results : List Bool}
    (boot : Boot hole kernel blocks) (heap : initializeHeap kernel = some booted)
    (before : MapRun hole (fun _ => True) ⟨booted, [], []⟩ earlier)
    (fits : WindowFits hole earlier.kernel len) (bound : addr.toNat + len.toNat < 2 ^ 52)
    (called : uacpiKernelMap earlier.kernel addr len = some (pointer, results, mapped))
    (succeeded : ∀ result ∈ results, result = true)
    (run : MapRun hole (fun _ => True) { earlier with kernel := mapped } later) :
    ShowsWindow later.kernel pointer (alignDown addr) len := by
  obtain ⟨config, roots, start⟩ := mapped_run (boot_mapped boot heap) before
  rw [← start.kernel] at fits called
  obtain ⟨_, next, same, steps, _⟩ := uacpi_map_steps start.sound fits called
  have there : Mapped hole { earlier with kernel := mapped } next roots :=
    start.advance steps same rfl
  obtain ⟨final, _, finish⟩ := mapped_run there run
  intro i inside
  obtain ⟨contained, writable, walked⟩ :=
    window_walk start.sound fits bound called succeeded inside
  have seen : walkOf { earlier with kernel := mapped } .kernel (pointer + BitVec.ofNat 64 i) =
      some ((alignDown addr + BitVec.ofNat 64 i).toNat, writable) := walked
  have leaving : MapRun hole (Leaves (pointer + BitVec.ofNat 64 i) .kernel)
      { earlier with kernel := mapped } later :=
    Relation.ReflTransGen.mono (fun _ _ ⟨call, _, rest⟩ => ⟨call, kernel_left _ call, rest⟩) _ _ run
  obtain ⟨allowed, found, _⟩ := walk_of_run there contained.extended leaving seen
  rw [walkOf, ← finish.kernel] at found
  rw [← finish.kernel]
  exact (hole_walkers finish.sound contained).mpr ⟨allowed, found⟩

theorem first_window_stays_shown :
    ∃ first second results, uacpiKernelMap largeHeap 0x7fe1f4 0x24 =
        some (0xffff900400001000, [true], first) ∧
      uacpiKernelMap first 0xfee00000 0x24 = some (0xffff900400002000, results, second) ∧
      ShowsWindow second 0xffff900400001000 0x7fe000 0x24 := by
  obtain ⟨first, second, results, called, fits, again⟩ := large_windows
  have down : alignDown 0x7fe1f4 = 0x7fe000 := by decide
  have bound : (0x7fe1f4 : U64).toNat + (0x24 : U64).toNat < 2 ^ 52 := by decide
  have after : MapRun largeHole (fun _ => True) ⟨first, [], []⟩ ⟨second, [], []⟩ :=
    large_window_run fits again trivial
  have shown := @windows_stay_shown largeHole largeKernel largeHeap first _ ⟨largeHeap, [], []⟩
    ⟨second, [], []⟩ 0x7fe1f4 0x24 _ _ large_boot large_heap_initialized
    Relation.ReflTransGen.refl large_window_fits bound called (by simp) after
  rw [down] at shown
  exact ⟨first, second, results, called, again, shown⟩

end KittyOs.StableTranslations
