import KittyOs.UserPages
import KittyOs.VmemRecords

/-!
# Growing a process

`allocate_memory_in_process` checks the end of the range in 64-bit arithmetic, stops
when there is no page for the next address and ignores what `virtual_map` returns.
Every round changes the translation of at most the one page it is for. So the part of
the address space from two GiB on is left alone unless the end of the range wraps.
A page takes one page of memory and one for each table its path lacks, so the free
memory and the tables before the call decide whether it is all or nothing.
-/

namespace KittyOs.ProcessGrowth

open KittyOs.Lib.ByteMemory KittyOs.Lib.SpanPartition KittyOs.Lib.BoundedLoop
open KittyOs.Lib.RadixForest
open KittyOs.MachineWord KittyOs.PageTable KittyOs.PhysicalModel KittyOs.PhysicalFreelist
open KittyOs.VirtualModel KittyOs.PageForest KittyOs.VirtualMapping KittyOs.MapEffect
open KittyOs.Translation KittyOs.KernelModel KittyOs.HeapBounds KittyOs.ProcessModel
open KittyOs.AddressSpaces
open KittyOs.SharedHalf KittyOs.ProcessCalls
open KittyOs.BootState KittyOs.MemoryRuns KittyOs.FrameRoles KittyOs.UserPages
open KittyOs.VmemRecords

set_option autoImplicit false

variable {hole : Hole} {usable : Nat → Prop} {config next : Config} {root : Nat}
variable {level : ProcessLevel} {target : U64}

/-! ### Walks that no round touches -/

/-- A walk that reads only entries that are kept ends where it did. -/
theorem hardware_walk_kept {mem other : Memory} (Kept : Nat → Nat → Slot → Prop)
    (same : ∀ {depth table slot}, Kept depth table slot →
      readEntry other table slot = readEntry mem table slot)
    (start : Kept 0 root (splitVirtualAddressToStructure target).pml4)
    (down : ∀ {depth table slot}, Kept depth table slot → depth < 3 →
      (readEntry mem table slot).p = true → (0 < depth → (readEntry mem table slot).z = false) →
        ∀ index, Kept (depth + 1) (readEntry mem table slot).frame index) :
    hardwareWalk other root target = hardwareWalk mem root target := by
  revert same start down
  unfold hardwareWalk
  dsimp only
  generalize readEntry other = changed
  generalize readEntry mem = slots
  generalize splitVirtualAddressToStructure target = indexes
  intro same start down
  rw [same start]
  cases pml4e : (slots root indexes.pml4).p with
  | false => simp only [Bool.not_false, if_true]
  | true =>
      have atPdp := down start (by omega) pml4e (by omega) indexes.pdp
      rw [same atPdp]
      cases pdpe : (slots (slots root indexes.pml4).frame indexes.pdp).p with
      | false => simp only [Bool.not_false, if_true]
      | true =>
          cases large : (slots (slots root indexes.pml4).frame indexes.pdp).z with
          | true => simp only [if_true]
          | false =>
              have atPd := down atPdp (by omega) pdpe (fun _ => large) indexes.pd
              have atPt := down atPd (by omega)
              rw [same atPd]
              cases pde : (slots (slots (slots root indexes.pml4).frame indexes.pdp).frame
                indexes.pd).p with
              | false => simp only [Bool.not_false, if_true]
              | true =>
                  cases big : (slots (slots (slots root indexes.pml4).frame indexes.pdp).frame
                    indexes.pd).z with
                  | true => simp only [if_true]
                  | false => rw [same (atPt pde (fun _ => big) indexes.pt)]

section Rounds

variable {address : U64} {success : Bool}

/-- A walk goes on at a present entry. -/
theorem table_below (sound : Sound hole config) {start : Nat} {route : List Slot} {table : Nat}
    {slot : Slot} (here : config.Table start route table)
    (owned : Owned config.Owns start (route ++ [slot])) (upper : route.length < 3)
    (present : (config.slots table slot).p = true)
    (small : 0 < route.length → (config.slots table slot).z = false) :
    config.Table start (route ++ [slot]) (config.slots table slot).frame := by
  rcases tidy_next_table sound.tidy here slot owned route.length rfl upper small with
    ⟨_, _, below⟩ | ⟨absent, _⟩
  · exact below
  · rw [absent] at present
    exact absurd present (by simp)

theorem kernel_route_owned (config : Config) (route : List Slot) (slot : Slot) :
    Owned config.Owns config.root (route ++ [slot]) := by
  cases route <;> exact kernel_owns _ _

theorem kernel_table_kept {route : List Slot} {table : Nat} (sound : Sound hole config)
    (step : Step hole config (.spacePage root level address success) next)
    (here : config.Table config.root route table) (slot : Slot) :
    next.slots table slot = config.slots table slot := by
  cases step with
  | spacePage member _ _ takes effect =>
      have there := (takes_agrees sound.tables takes).reached.mpr here
      rw [← takes_slot sound takes here slot]
      apply effect.kept there
      rintro ⟨same, _⟩
      rw [← same] at member
      exact sound.distinct member

/-- Entries a walk of the upper half of `root` may read, by depth. -/
def UpperEntry (config : Config) (root depth table : Nat) (slot : Slot) : Prop :=
  (depth = 0 ∧ table = root ∧ 256 ≤ slot.toNat) ∨
    ∃ route, route.length = depth ∧ config.Table config.root route table

theorem UpperEntry.down {depth table : Nat} {slot : Slot} (sound : Sound hole config)
    (shares : SharesUpper config root) (entry : UpperEntry config root depth table slot)
    (above : depth < 3) (present : (config.slots table slot).p = true)
    (small : 0 < depth → (config.slots table slot).z = false) (index : Slot) :
    UpperEntry config root (depth + 1) (config.slots table slot).frame index := by
  rcases entry with ⟨atTop, atRoot, high⟩ | ⟨route, length, here⟩
  · rw [atRoot] at present ⊢
    obtain ⟨tidy, refers⟩ := shares slot high
    have occupied := (tidy.resolve_left (by simp)).mp present
    have shared := refers.resolve_left occupied
    have kernelPresent : (config.slots config.root slot).p = true :=
      ((top_tidy sound).resolve_left (by simp)).mpr (by rw [← shared]; exact occupied)
    have below := table_below sound (top_table (kernel_live config))
      (kernel_route_owned config [] slot) (by simp) kernelPresent (by simp)
    have frame : (config.slots root slot).frame = (config.slots config.root slot).frame := by
      rw [PageEntry.frame, PageEntry.frame, shared]
    rw [← frame] at below
    exact Or.inr ⟨_, by rw [atTop]; rfl, below⟩
  · rw [← length] at above small ⊢
    exact Or.inr ⟨route ++ [slot], by rw [List.length_append, List.length_singleton],
      table_below sound here (kernel_route_owned config route slot) above present small⟩

/-- The upper half of a process is as before. -/
theorem upper_walk_step (sound : Sound hole config) (shares : SharesUpper config root)
    (step : Step hole config (.spacePage root level address success) next)
    (upper : 256 ≤ (splitVirtualAddressToStructure target).pml4.toNat) :
    hardwareWalk next.mem root target = hardwareWalk config.mem root target := by
  have member : root ∈ config.spaces := by
    cases step with
    | spacePage member _ _ _ _ => exact member
  refine hardware_walk_kept (UpperEntry config root) ?_ (Or.inl ⟨rfl, rfl, upper⟩)
    fun entry => entry.down sound shares
  rintro depth table slot (⟨_, atRoot, high⟩ | ⟨route, _, here⟩)
  · rw [atRoot]
    rcases space_slot_step sound step member high with same | ⟨copies, _⟩
    · exact same
    · exact absurd copies (by simp)
  · exact kernel_table_kept sound step here slot

end Rounds

/-! ### The address space of a process -/

/-- The process's page map is the top table `root`. -/
structure SpaceOf (hole : Hole) (usable : Nat → Prop) (config : Config) (process : ProcessContext)
    (root : Nat) : Prop where
  orderly : Orderly hole usable config
  linked : Linked config process.pageMap root
  marked : Marked config root process.level

section Space

variable {process : ProcessContext} {address : U64} {success : Bool}

theorem SpaceOf.step (space : SpaceOf hole usable config process root)
    (step : Step hole config (.spacePage root process.level address success) next) :
    SpaceOf hole usable next process root := by
  have sound := space.orderly.sound
  have steps : Steps hole AnyAction config next := one_step trivial step
  have apart : root ≠ config.root := by
    intro same
    exact sound.distinct (by rw [← same]; exact space.linked.member)
  exact ⟨space.orderly.run steps, space.linked.step sound step,
    space.marked.step sound step apart fun _ => rfl⟩

/-- In the lower half the processor finds the leaves, and may write all of them. -/
theorem SpaceOf.lower_walk (space : SpaceOf hole usable config process root)
    (lower : target.toNat < 2 ^ 47) :
    hardwareWalk config.mem root target =
      (liveLeaf config.slots root target).map fun leaf => (leaf.frame + target.toNat % 4096, true) := by
  have sound := space.orderly.sound
  have member := space.linked.member
  rcases walkers_of_leaf (space_live member) (lower_owned _ _ lower) sound.tidy
    (sound.lower root member target lower) with ⟨missing, walked, _⟩ | ⟨leaf, _, found, _, _⟩
  · rw [walked, show liveLeaf config.slots root target = none from missing, Option.map_none]
  · have writable := marked_writable space.marked member lower found
    rw [writable.walkers.1, show liveLeaf config.slots root target = some leaf from found,
      Option.map_some]

/-- A round changes the translation of the page it maps, and of no other. -/
theorem SpaceOf.walk_step (space : SpaceOf hole usable config process root)
    (step : Step hole config (.spacePage root process.level address success) next)
    (extended : SignExtended target) (elsewhere : success = true → pathOf target ≠ pathOf address) :
    hardwareWalk next.mem root target = hardwareWalk config.mem root target := by
  have sound := space.orderly.sound
  have member := space.linked.member
  rcases extended with lower | upper
  · rw [space.lower_walk lower, (space.step step).lower_walk lower]
    cases step with
    | spacePage _ _ _ takes effect =>
        have leaf := leaf_after sound takes effect (space_live member) (lower_owned _ _ lower)
          fun all => elsewhere all.1 all.2.2
        rw [show liveLeaf _ root target = liveLeaf config.slots root target from leaf]
  · apply upper_walk_step sound (space.orderly.shares root member) step
    rw [split_pml4_to_nat]
    have bound := target.isLt
    omega

/-- What every round keeps, a run of rounds keeps. -/
theorem SpaceOf.rounds {first last : Nat} (space : SpaceOf hole usable config process root)
    (Keeps : Config → Prop)
    (round : ∀ before after placed success, SpaceOf hole usable before process root →
      first ≤ placed.toNat → placed.toNat < last →
      Step hole before (.spacePage root process.level placed success) after →
      Keeps before → Keeps after)
    (steps : Steps hole (SpaceAction root process.level first last) config next)
    (start : Keeps config) : SpaceOf hole usable next process root ∧ Keeps next := by
  have keeps : ∀ before action after, Sound hole before →
      SpaceOf hole usable before process root ∧ Keeps before →
      SpaceAction root process.level first last action → Step hole before action after →
      SpaceOf hole usable after process root ∧ Keeps after := by
    intro before action after _ here allowed step
    cases action with
    | spacePage at_ with_ placed success =>
        obtain ⟨sameRoot, sameLevel, above, below⟩ := allowed
        rw [sameRoot, sameLevel] at step
        exact ⟨here.1.step step, round before after placed success here.1 above below step here.2⟩
    | _ => exact False.elim allowed
  exact space.orderly.sound.steps keeps steps ⟨space, start⟩

theorem SpaceOf.run {first last : Nat} (space : SpaceOf hole usable config process root)
    (steps : Steps hole (SpaceAction root process.level first last) config next) :
    SpaceOf hole usable next process root :=
  (space.rounds (fun _ => True) (fun _ _ _ _ _ _ _ _ _ => trivial) steps trivial).1

theorem SpaceOf.walk_run {first last : Nat} (space : SpaceOf hole usable config process root)
    (steps : Steps hole (SpaceAction root process.level first last) config next)
    (extended : SignExtended target)
    (outside : target.toNat / 4096 * 4096 < first ∨ last ≤ target.toNat / 4096 * 4096) :
    hardwareWalk next.mem root target = hardwareWalk config.mem root target := by
  refine (space.rounds (fun other => hardwareWalk other.mem root target =
    hardwareWalk config.mem root target) ?_ steps rfl).2
  intro before after placed success here above below step same
  refine (here.walk_step step extended fun _ path => ?_).trans same
  cases step with
  | spacePage _ lower aligned _ _ =>
      have page := page_of_path extended (Or.inl lower) path
      omega

/-- A page that gets mapped is translated differently from then on. -/
theorem SpaceOf.mapping_changes (space : SpaceOf hole usable config process root)
    (step : Step hole config (.spacePage root process.level address true) next) :
    hardwareWalk next.mem root address ≠ hardwareWalk config.mem root address := by
  have lower : address.toNat < 2 ^ 47 := by
    cases step with
    | spacePage _ lower _ _ _ => exact lower
  rw [space.lower_walk lower, (space.step step).lower_walk lower]
  obtain ⟨entry, here⟩ := Option.isSome_iff_exists.mp (space_page_maps step)
  cases before : liveLeaf config.slots root address with
  | none =>
      rw [here]
      simp
  | some leaf =>
      obtain ⟨other, there, changed⟩ := mapped_again space.orderly step before
      rw [there, Option.map_some, Option.map_some]
      intro same
      have frames := (Prod.mk.inj (Option.some.inj same)).1
      omega

end Space

/-! ### A whole call -/

/-- What the `virtual_map` calls of the loop return. -/
def mapResults (process : ProcessContext) (rounds : Nat) (cursor : U64 × Kernel) : List Bool :=
  (visited (processPage process) rounds cursor).filterMap (mapOutcome process)

/-- How the loop over `[first, last)` ends, by what it returns and what its
`virtual_map` calls returned. -/
inductive Grown (config next : Config) (root first last : Nat) : Bool → List Bool → Prop
  | mapped {results : List Bool} (all : ∀ outcome ∈ results, outcome = true)
      (there : ∀ target : U64, first ≤ target.toNat → target.toNat < last →
        (liveLeaf next.slots root target).isSome) : Grown config next root first last true results
  | missed {results : List Bool} (target : U64) (above : first ≤ target.toNat)
      (below : target.toNat < last) (failed : false ∈ results)
      (missing : liveLeaf next.slots root target = none) :
      Grown config next root first last true results
  | untouched {results : List Bool} (all : ∀ outcome ∈ results, outcome = false)
      (same : ∀ target, SignExtended target →
        hardwareWalk next.mem root target = hardwareWalk config.mem root target) :
      Grown config next root first last false results
  | partly {results : List Bool} (target : U64) (extended : SignExtended target)
      (worked : true ∈ results)
      (changed : hardwareWalk next.mem root target ≠ hardwareWalk config.mem root target) :
      Grown config next root first last false results

section Calls

variable {process : ProcessContext} {address : U64} {rounds : Nat}

theorem map_results_next {success : Bool}
    (round : PageRound hole config next process root address success) :
    mapResults process (rounds + 1) (address, config.kernel) =
      success :: mapResults process rounds (address + 4096, next.kernel) := by
  rw [mapResults, visited_next round.ran, List.filterMap_cons_some round.outcome, mapResults]

theorem map_results_refused (sound : Sound hole config) (nothing : config.blocks = []) :
    mapResults process (rounds + 1) (address, config.kernel) = [] := by
  obtain ⟨left, none⟩ := @process_page_refused hole config process address sound nothing
  rw [mapResults, visited_left left, List.filterMap_cons_none none, List.filterMap_nil]

/-- A round is refused for want of a page, or it keeps the address space. -/
theorem SpaceOf.next_round (space : SpaceOf hole usable config process root)
    (aligned : address.toNat % 4096 = 0) (lower : address.toNat < 2 ^ 47) :
    (config.blocks = [] ∧
        processPage process (address, config.kernel) = some (false, (address, config.kernel))) ∨
      ∃ success middle, PageRound hole config middle process root address success ∧
        SpaceOf hole usable middle process root := by
  rcases process_page_aligned space.orderly.sound space.linked.points space.linked.member lower
    aligned with refused | ⟨success, middle, round⟩
  · exact Or.inl refused
  · exact Or.inr ⟨success, middle, round, space.step round.step⟩

/-- The first failure of `virtual_map` takes the last free page, so at most the next
round is still begun. -/
theorem process_pages_grow (space : SpaceOf hole usable config process root)
    (aligned : address.toNat % 4096 = 0) (bound : address.toNat + rounds * 4096 ≤ 2 ^ 47) :
    ∃ again cursor next, loop (processPage process) rounds (address, config.kernel) =
        some (again, (cursor, next.kernel)) ∧
      Steps hole (SpaceAction root process.level address.toNat (address.toNat + rounds * 4096))
        config next ∧
      (again = false → next.blocks = []) ∧
      Grown config next root address.toNat (address.toNat + rounds * 4096) again
        (mapResults process rounds (address, config.kernel)) := by
  induction rounds generalizing config address with
  | zero =>
      refine ⟨true, address, config, loop_done, Relation.ReflTransGen.refl, by simp, .mapped ?_ ?_⟩
      · rw [mapResults, visited_done, List.filterMap_nil]
        exact List.forall_mem_nil _
      · intro target above below
        omega
  | succ rounds ih =>
      have sound := space.orderly.sound
      have lower : address.toNat < 2 ^ 47 := by omega
      obtain ⟨forward, ends⟩ := page_forward bound
      rcases space.next_round aligned lower with ⟨nothing, left⟩ | ⟨success, middle, round, middleSpace⟩
      · refine ⟨false, address, config, loop_left left, Relation.ReflTransGen.refl, fun _ => nothing,
          .untouched ?_ fun _ _ => rfl⟩
        rw [map_results_refused sound nothing]
        exact List.forall_mem_nil _
      · have nextAligned : (address + 4096).toNat % 4096 = 0 := by omega
        have fits : (address + 4096).toNat + rounds * 4096 ≤ 2 ^ 47 := by omega
        have begun : Steps hole (SpaceAction root process.level address.toNat
            (address.toNat + (rounds + 1) * 4096)) config middle :=
          range_steps bound round.step Relation.ReflTransGen.refl
        rw [map_results_next round]
        cases success with
        | true =>
            obtain ⟨again, cursor, next, later, steps, empty, grown⟩ :=
              ih middleSpace nextAligned fits
            have changed : hardwareWalk next.mem root address ≠ hardwareWalk config.mem root address := by
              rw [middleSpace.walk_run steps (Or.inl lower) (Or.inl (by omega))]
              exact space.mapping_changes round.step
            refine ⟨again, cursor, next, (loop_next round.ran).trans later,
              range_steps bound round.step steps, empty, ?_⟩
            cases grown with
            | mapped all there =>
                exact .mapped (List.forall_mem_cons.mpr ⟨rfl, all⟩)
                  (range_mapped sound bound round.step steps there)
            | missed target above below failed missing =>
                exact .missed target (by omega) (by omega) (List.mem_cons_of_mem _ failed) missing
            | untouched _ _ => exact .partly address (Or.inl lower) List.mem_cons_self changed
            | partly _ _ _ _ => exact .partly address (Or.inl lower) List.mem_cons_self changed
        | false =>
            obtain ⟨_, nothing, vacant⟩ := round.starved rfl
            have same : ∀ target, SignExtended target →
                hardwareWalk middle.mem root target = hardwareWalk config.mem root target :=
              fun target extended => space.walk_step round.step extended (by simp)
            cases rounds with
            | zero =>
                refine ⟨true, _, middle, (loop_next round.ran).trans loop_done, begun, by simp,
                  .missed address (Nat.le_refl _) (by omega) List.mem_cons_self ?_⟩
                have missing := same address (Or.inl lower)
                rw [space.lower_walk lower, middleSpace.lower_walk lower, live_leaf_missing vacant,
                  Option.map_none, Option.map_eq_none_iff] at missing
                exact missing
            | succ rounds =>
                refine ⟨false, _, middle, (loop_next round.ran).trans (loop_left
                  (process_page_refused middleSpace.orderly.sound nothing).1), begun, fun _ => nothing,
                  .untouched ?_ same⟩
                rw [map_results_refused middleSpace.orderly.sound nothing]
                simp

theorem space_table_stays {success : Bool} {table : Nat} (sound : Sound hole config)
    (step : Step hole config (.spacePage root level address success) next)
    (here : walk childTable config.slots 0 root (tablePathOf address) = some table) :
    walk childTable next.slots 0 root (tablePathOf address) = some table := by
  cases step with
  | spacePage member lower _ takes effect =>
      have reached : config.Table root (tablePathOf address) table :=
        ⟨space_live member, lower_owned _ _ lower, here⟩
      exact (effect.stays ((takes_agrees sound.tables takes).reached.mpr reached)).walked

/-- Where the last table is there, every `virtual_map` works. -/
theorem linked_results {path : List Slot} {table : Nat}
    (space : SpaceOf hole usable config process root) (aligned : address.toNat % 4096 = 0)
    (bound : address.toNat + rounds * 4096 ≤ 2 ^ 47)
    (here : walk childTable config.slots 0 root path = some table)
    (region : ∀ target : U64, address.toNat ≤ target.toNat →
      target.toNat < address.toNat + rounds * 4096 → tablePathOf target = path) :
    ∀ outcome ∈ mapResults process rounds (address, config.kernel), outcome = true := by
  induction rounds generalizing config address with
  | zero =>
      rw [mapResults, visited_done, List.filterMap_nil]
      exact List.forall_mem_nil _
  | succ rounds ih =>
      have sound := space.orderly.sound
      have lower : address.toNat < 2 ^ 47 := by omega
      obtain ⟨forward, ends⟩ := page_forward bound
      have same := region address (Nat.le_refl _) (by omega)
      rcases space.next_round aligned lower with ⟨nothing, _⟩ | ⟨success, middle, round, middleSpace⟩
      · rw [map_results_refused sound nothing]
        exact List.forall_mem_nil _
      · rw [map_results_next round]
        cases success with
        | false =>
            rw [← same, (round.starved rfl).2.2] at here
            exact absurd here (by simp)
        | true =>
            refine List.forall_mem_cons.mpr ⟨rfl, ?_⟩
            have nextAligned : (address + 4096).toNat % 4096 = 0 := by omega
            have fits : (address + 4096).toNat + rounds * 4096 ≤ 2 ^ 47 := by omega
            rw [← same] at here
            have there := space_table_stays sound round.step here
            rw [same] at there
            exact ih middleSpace nextAligned fits there fun target above below =>
              region target (by omega) (by omega)

/-- A loop over one last table that runs to its end has mapped all of it: without the
tables the first round takes the last page and the second stops. -/
theorem one_table_results {path : List Slot} {cursor : U64 × Kernel}
    (space : SpaceOf hole usable config process root) (aligned : address.toNat % 4096 = 0)
    (bound : address.toNat + (rounds + 2) * 4096 ≤ 2 ^ 47)
    (region : ∀ target : U64, address.toNat ≤ target.toNat →
      target.toNat < address.toNat + (rounds + 2) * 4096 → tablePathOf target = path)
    (ran : loop (processPage process) (rounds + 2) (address, config.kernel) = some (true, cursor)) :
    ∀ outcome ∈ mapResults process (rounds + 2) (address, config.kernel), outcome = true := by
  obtain ⟨forward, ends⟩ := page_forward bound
  rcases space.next_round aligned (by omega) with
    ⟨_, left⟩ | ⟨success, middle, round, middleSpace⟩
  · rw [loop_left left] at ran
    exact absurd ran (by simp)
  · rw [map_results_next round]
    rw [loop_next round.ran] at ran
    cases success with
    | false =>
        have nothing := (round.starved rfl).2.1
        rw [loop_left (process_page_refused middleSpace.orderly.sound nothing).1] at ran
        exact absurd ran (by simp)
    | true =>
        refine List.forall_mem_cons.mpr ⟨rfl, ?_⟩
        obtain ⟨leaf, found⟩ := Option.isSome_iff_exists.mp (space_page_maps round.step)
        obtain ⟨table, walked, _⟩ := live_leaf_some.mp found
        rw [region address (Nat.le_refl _) (by omega)] at walked
        have nextAligned : (address + 4096).toNat % 4096 = 0 := by omega
        have fits : (address + 4096).toNat + (rounds + 1) * 4096 ≤ 2 ^ 47 := by omega
        exact linked_results middleSpace nextAligned fits walked fun target above below =>
          region target (by omega) (by omega)

/-- With some memory, but not enough, the loop stops behind pages it has mapped. -/
theorem process_pages_stopped (space : SpaceOf hole usable config process root)
    (aligned : address.toNat % 4096 = 0) (bound : address.toNat + (rounds + 1) * 4096 ≤ 2 ^ 47)
    (available : 16384 ≤ freeBytes config.blocks)
    (few : freeBytes config.blocks < (rounds + 1) * 4096) :
    ∃ cursor next, loop (processPage process) (rounds + 1) (address, config.kernel) =
        some (false, (cursor, next.kernel)) ∧
      SpaceOf hole usable next process root ∧ (liveLeaf next.slots root address).isSome := by
  have lower : address.toNat < 2 ^ 47 := by omega
  obtain ⟨forward, ends⟩ := page_forward bound
  rcases space.next_round aligned lower with ⟨nothing, _⟩ | ⟨success, middle, round, middleSpace⟩
  · rw [nothing] at available
    exact absurd available (by decide)
  · have worked : success = true := by
      cases success with
      | true => rfl
      | false => exact absurd (round.starved rfl).1 (Nat.not_lt.mpr available)
    rw [worked] at round
    have nextAligned : (address + 4096).toNat % 4096 = 0 := by omega
    have fits : (address + 4096).toNat + rounds * 4096 ≤ 2 ^ 47 := by omega
    obtain ⟨again, cursor, next, later, steps, _, _⟩ :=
      process_pages_grow middleSpace nextAligned fits
    have whole := (loop_next round.ran).trans later
    have stopped : again = false := by
      cases again with
      | false => rfl
      | true =>
          have need := process_pages_need space.orderly.sound space.linked.points
            space.linked.member bound whole
          exact absurd need (Nat.not_le.mpr few)
    rw [stopped] at whole
    exact ⟨cursor, next, whole, middleSpace.run steps,
      space_run_stays middleSpace.orderly.sound lower steps (space_page_maps round.step)⟩

/-! ### Memory for a range -/

/-- The routes to the last tables of `count` pages from `address` on that end at no table. -/
def missingInRange (slots : Nat → Slot → PageEntry) (root : Nat) : Nat → U64 → Finset (List Slot)
  | 0, _ => ∅
  | count + 1, address =>
      missingTables slots root address ∪ missingInRange slots root count (address + 4096)

/-- The pages it takes to map `count` pages from `address` on, tables included. -/
def pagesNeeded (slots : Nat → Slot → PageEntry) (root : Nat) (address : U64) (count : Nat) : Nat :=
  count + (missingInRange slots root count address).card

theorem pages_needed_one (slots : Nat → Slot → PageEntry) (root : Nat) (address : U64) :
    pagesNeeded slots root address 1 = 1 + (missingTables slots root address).card := by
  rw [pagesNeeded, missingInRange, missingInRange, Finset.union_empty]

theorem first_page_needed (slots : Nat → Slot → PageEntry) (root count : Nat) (address : U64) :
    pagesNeeded slots root address 1 ≤ pagesNeeded slots root address (count + 1) := by
  rw [pages_needed_one, pagesNeeded, missingInRange]
  have more : (missingTables slots root address).card ≤ (missingTables slots root address ∪
      missingInRange slots root count (address + 4096)).card :=
    Finset.card_le_card Finset.subset_union_left
  omega

theorem pages_needed_le (slots : Nat → Slot → PageEntry) (root : Nat) (address : U64) (count : Nat) :
    pagesNeeded slots root address count ≤ 5 * count := by
  induction count generalizing address with
  | zero => rw [pagesNeeded, missingInRange, Finset.card_empty]
  | succ count ih =>
      have later := ih (address + 4096)
      have first := missing_tables_few slots root address
      have both := Finset.card_union_le (missingTables slots root address)
        (missingInRange slots root count (address + 4096))
      rw [pagesNeeded] at later
      rw [pagesNeeded, missingInRange]
      omega

/-- A page that gets mapped leaves the tables missing that it did not lack itself. -/
theorem space_page_missing (sound : Sound hole config) {target : U64}
    (step : Step hole config (.spacePage root level address true) next)
    (bound : target.toNat < 2 ^ 47) :
    missingTables next.slots root target =
      missingTables config.slots root target \ missingTables config.slots root address := by
  cases step with
  | spacePage member lower _ takes effect =>
      have agrees := takes_agrees sound.tables takes
      have live := space_live member
      have owned : Owned config.Owns root (tablePathOf target) := lower_owned _ _ bound
      have addressOwned : Owned config.Owns root (tablePathOf address) := lower_owned _ _ lower
      have new := effect.new_routes live (lower_owned _ _ lower)
      rw [missing_tables_congr fun _ early => agree_walk agrees live (addressOwned.along early)] at new
      apply Finset.ext
      intro route
      rw [Finset.mem_sdiff, mem_missing_tables, mem_missing_tables, and_assoc]
      refine and_congr_right fun early => ?_
      rw [← agree_walk agrees live (owned.along early), unreached_iff live (owned.along early),
        unreached_iff live (owned.along early), ← new]
      constructor
      · intro absent
        exact ⟨fun table here => absent table (effect.stays here),
          fun ⟨⟨table, there⟩, _⟩ => absent table there⟩
      · rintro ⟨before, old⟩ table there
        exact old ⟨⟨table, there⟩, before⟩

theorem space_page_missing_range (sound : Sound hole config)
    (step : Step hole config (.spacePage root level address true) next) {start : U64}
    (bound : start.toNat + rounds * 4096 ≤ 2 ^ 47) :
    missingInRange next.slots root rounds start =
      missingInRange config.slots root rounds start \ missingTables config.slots root address := by
  induction rounds generalizing start with
  | zero => rw [missingInRange, missingInRange, Finset.empty_sdiff]
  | succ rounds ih =>
      obtain ⟨forward, ends⟩ := page_forward bound
      rw [missingInRange, missingInRange, space_page_missing sound step (by omega), ih (by omega),
        Finset.union_sdiff_distrib]

/-- What the pages behind a page need once it is mapped. -/
theorem pages_needed_next (sound : Sound hole config)
    (step : Step hole config (.spacePage root level address true) next)
    (bound : address.toNat + (rounds + 1) * 4096 ≤ 2 ^ 47) :
    pagesNeeded config.slots root address (rounds + 1) =
      pagesNeeded config.slots root address 1 + pagesNeeded next.slots root (address + 4096) rounds := by
  obtain ⟨forward, ends⟩ := page_forward bound
  rw [pages_needed_one, pagesNeeded, pagesNeeded, missingInRange,
    space_page_missing_range sound step (by omega), Finset.union_comm, ← Finset.card_sdiff_add_card]
  omega

/-- All pages get mapped exactly if there is memory for them and the tables they lack. -/
theorem SpaceOf.all_mapped_iff {again : Bool} {cursor : U64 × Kernel}
    (space : SpaceOf hole usable config process root) (aligned : address.toNat % 4096 = 0)
    (bound : address.toNat + rounds * 4096 ≤ 2 ^ 47)
    (ran : loop (processPage process) rounds (address, config.kernel) = some (again, cursor)) :
    (again = true ∧ ∀ outcome ∈ mapResults process rounds (address, config.kernel),
        outcome = true) ↔
      4096 * pagesNeeded config.slots root address rounds ≤ freeBytes config.blocks := by
  induction rounds generalizing config address with
  | zero =>
      rw [loop_done, Option.some.injEq, Prod.mk.injEq] at ran
      rw [mapResults, visited_done, List.filterMap_nil, pagesNeeded, missingInRange]
      simp [← ran.1]
  | succ rounds ih =>
      have sound := space.orderly.sound
      obtain ⟨forward, ends⟩ := page_forward bound
      have first := pages_needed_one config.slots root address
      have some := first_page_needed config.slots root rounds address
      rcases space.next_round aligned (by omega) with
        ⟨nothing, left⟩ | ⟨success, middle, round, middleSpace⟩
      · rw [loop_left left, Option.some.injEq, Prod.mk.injEq] at ran
        have none : freeBytes config.blocks = 0 := by rw [nothing]; rfl
        refine iff_of_false (fun all => ?_) (by omega)
        rw [← ran.1] at all
        exact absurd all.1 (by simp)
      · rw [loop_next round.ran] at ran
        rw [map_results_next round]
        cases success with
        | false =>
            have short := round.short rfl
            refine iff_of_false (fun all => ?_) (by omega)
            exact absurd (all.2 false List.mem_cons_self) (by simp)
        | true =>
            have cost := round.cost rfl
            have needed := pages_needed_next sound round.step bound
            have later := ih middleSpace (by omega) (by omega) ran
            rw [List.forall_mem_cons, show (true = true) = True from eq_self true, true_and, later]
            omega

/-- No page gets mapped, and the call says so, exactly if there is too little memory for
the first, and none at all or another page to ask for. -/
theorem SpaceOf.none_mapped_iff {again : Bool} {cursor : U64 × Kernel}
    (space : SpaceOf hole usable config process root) (aligned : address.toNat % 4096 = 0)
    (bound : address.toNat + (rounds + 1) * 4096 ≤ 2 ^ 47)
    (ran : loop (processPage process) (rounds + 1) (address, config.kernel) =
      some (again, cursor)) :
    (again = false ∧ ∀ outcome ∈ mapResults process (rounds + 1) (address, config.kernel),
        outcome = false) ↔
      freeBytes config.blocks < 4096 * pagesNeeded config.slots root address 1 ∧
        (freeBytes config.blocks = 0 ∨ 2 ≤ rounds + 1) := by
  have first := pages_needed_one config.slots root address
  rcases space.next_round aligned (by omega) with
    ⟨nothing, left⟩ | ⟨success, middle, round, middleSpace⟩
  · rw [loop_left left, Option.some.injEq, Prod.mk.injEq] at ran
    have none : freeBytes config.blocks = 0 := by rw [nothing]; rfl
    rw [map_results_refused space.orderly.sound nothing]
    refine iff_of_true ⟨ran.1.symm, List.forall_mem_nil _⟩ (by omega)
  · rw [loop_next round.ran] at ran
    rw [map_results_next round]
    cases success with
    | true =>
        have cost := round.cost rfl
        refine iff_of_false (fun all => ?_) (by omega)
        exact absurd (all.2 true List.mem_cons_self) (by simp)
    | false =>
        have short := round.short rfl
        have needed := round.needed
        have nothing := (round.starved rfl).2.1
        cases rounds with
        | zero =>
            rw [loop_done, Option.some.injEq, Prod.mk.injEq] at ran
            refine iff_of_false (fun all => ?_) (by omega)
            rw [← ran.1] at all
            exact absurd all.1 (by simp)
        | succ rounds =>
            have stopped := (@process_page_refused hole middle process (address + 4096)
              middleSpace.orderly.sound nothing).1
            rw [loop_left stopped, Option.some.injEq, Prod.mk.injEq] at ran
            rw [map_results_refused middleSpace.orderly.sound nothing]
            refine iff_of_true ⟨ran.1.symm, ?_⟩ (by omega)
            simp

end Calls

/-! ### A new process -/

/-- All of a new address space was mapped for its process. -/
theorem created_marked {pointer : U64} (sound : Sound hole config)
    (steps : Steps hole (CreateAction pointer root level) config next) (fresh : root ∉ config.spaces)
    (member : root ∈ next.spaces) : Marked next root level := by
  have apart : root ≠ config.root := by
    intro same
    rw [same, ← root_run steps] at member
    exact (sound.run steps).distinct member
  apply (unused_root_marked fresh apart).run sound steps apart
  intro action allowed
  cases action with
  | spacePage _ _ _ _ => exact fun _ => allowed.2.1
  | _ => trivial

/-- The first process on a machine with enough memory. -/
theorem created_space {phys : PhysicalState} {blocks : List Span} (level : ProcessLevel)
    (boot : Boot largeHole { largeKernel with phys } blocks)
    (enough : 258 * 20480 ≤ freeBytes blocks) :
    ∃ root next, createProcess { largeHeap with phys } "/init" "init" 0x10000 level false [] [] =
        some (some (largeProcess level), next.kernel) ∧
      SpaceOf largeHole (FreeAt blocks) next (largeProcess level) root ∧
      freeBytes next.blocks ≤ freeBytes blocks ∧
      freeBytes blocks ≤ freeBytes next.blocks + 258 * 20480 ∧
      ∀ target : U64, target.toNat < 2 ^ 47 →
        ¬(0x7ff00000 ≤ target.toNat ∧ target.toNat < 0x80000000) →
        ¬(0x10000 ≤ target.toNat ∧ target.toNat < 0x11000) →
          liveLeaf next.slots root target = none := by
  have heap := large_heap_with phys
  have sound := boot_sound boot heap
  obtain ⟨root, next, created, steps, linked, spent, _⟩ := booted_process_created level sound enough
  have orderly := (boot_holds boot heap).orderly.run steps
  have fresh : root ∉ (bootConfig { largeHeap with phys } blocks).spaces := List.not_mem_nil
  have marked : Marked next root level := created_marked sound steps fresh linked.member
  refine ⟨root, next, created, ⟨orderly, linked, marked⟩, ?_, spent, ?_⟩
  · exact free_bytes_mono boot.tables.list orderly.sound.tables.list orderly.settled.free
  · intro target lower stack first
    apply new_space_leaf sound steps fresh linked.member lower
    intro action allowed
    cases action with
    | spacePage _ _ address _ =>
        obtain ⟨_, _, placed⟩ := allowed
        intro _
        omega
    | _ => trivial

/-! ### Translations of a process -/

/-- What the processor makes of an address under the page map of a process. -/
def translation (kernel : Kernel) (process : ProcessContext) (address : U64) : Option (Nat × Bool) :=
  hardwareWalk kernel.phys.mem (pageMapRoot kernel process) address

theorem machine_space {kernel booted : Kernel} {blocks : List Span} {machine : Machine}
    {process : ProcessContext} (boot : Boot hole kernel blocks)
    (heap : initializeHeap kernel = some booted) (run : Reachable hole ⟨booted, [], []⟩ machine)
    (member : process ∈ machine.processes) :
    ∃ config root, config.kernel = machine.kernel ∧
      SpaceOf hole (FreeAt blocks) config process root := by
  obtain ⟨config, holds, levelled⟩ := boot_levelled boot heap run
  obtain ⟨root, linked⟩ := holds.linked process member
  exact ⟨config, root, holds.kernel, holds.orderly, linked, levelled process member root linked⟩

theorem SpaceOf.translation {process : ProcessContext}
    (space : SpaceOf hole usable config process root) (target : U64) :
    translation config.kernel process target = hardwareWalk config.mem root target := by
  rw [ProcessGrowth.translation, page_map_root space.orderly.sound space.linked]

/-! ### Addresses from two GiB on -/

/-- The kernel after at most `rounds` iterations of the loop. -/
def afterRounds (kernel : Kernel) (process : ProcessContext) (address pageCount : U64)
    (rounds : Nat) : Option Kernel :=
  if address + pageCount * 4096 > 0x80000000 then some kernel
  else
    (loop (processPage process) (min rounds pageCount.toNat) (address, kernel)).map
      fun outcome => outcome.2.2

theorem after_all_rounds (kernel : Kernel) (process : ProcessContext) (address pageCount : U64) :
    afterRounds kernel process address pageCount pageCount.toNat =
      (allocateMemoryInProcess kernel process address pageCount).map Prod.snd := by
  unfold afterRounds allocateMemoryInProcess
  rw [Nat.min_self]
  split_ifs
  · rfl
  · rw [Option.map_map]
    rfl

/-- No iteration creates or changes a mapping from two GiB on. -/
def KeepsHigh (kernel : Kernel) (process : ProcessContext) (address pageCount : U64) : Prop :=
  ∀ rounds state, afterRounds kernel process address pageCount rounds = some state →
    ∀ target, SignExtended target → 0x80000000 ≤ target.toNat →
      translation state process target = translation kernel process target

/-- Every process of every machine that has booted and run. -/
def OnEveryMachine (Property : Kernel → ProcessContext → Prop) : Prop :=
  ∀ hole kernel booted blocks machine process, Boot hole kernel blocks →
    initializeHeap kernel = some booted → Reachable hole ⟨booted, [], []⟩ machine →
    process ∈ machine.processes → Property machine.kernel process

/-- The call is refused or the end of its range does not wrap. -/
def EndChecked (address pageCount : U64) : Prop :=
  address + pageCount * 4096 > 0x80000000 ∨ address.toNat + pageCount.toNat * 4096 < 2 ^ 64

section High

variable {process : ProcessContext} {address pageCount : U64}

theorem SpaceOf.keeps_high (space : SpaceOf hole usable config process root)
    (checked : EndChecked address pageCount) :
    KeepsHigh config.kernel process address pageCount := by
  intro rounds state reached target extended high
  unfold afterRounds at reached
  split_ifs at reached with refused
  · rw [← Option.some.inj reached]
  · have noWrap := checked.resolve_left refused
    have size : (4096 : U64).toNat = 4096 := rfl
    have limit : (0x80000000 : U64).toNat = 0x80000000 := rfl
    rw [gt_iff_lt, BitVec.lt_def, BitVec.toNat_add, BitVec.toNat_mul, size, limit] at refused
    obtain ⟨⟨again, cursor⟩, looped, shape⟩ := Option.map_eq_some_iff.mp reached
    have fewer := Nat.min_le_right rounds pageCount.toNat
    have bound : address.toNat + min rounds pageCount.toNat * 4096 ≤ 0x80000000 := by omega
    obtain ⟨next, same, steps, _⟩ := process_pages_steps space.orderly.sound space.linked.points
      space.linked.member (by omega) looped
    rw [← shape, ← same, (space.run steps).translation, space.translation]
    exact space.walk_run steps extended (Or.inr (by omega))

/-- A call from the lower half whose range wraps maps a page from two GiB on, given
enough memory. -/
theorem wrapped_maps_high (aligned : address.toNat % 4096 = 0) (lower : address.toNat < 2 ^ 47)
    (wrapped : ¬EndChecked address pageCount) :
    ∃ machine rounds state target, Reachable largeHole ⟨largeHeap, [], []⟩ machine ∧
      machine.processes = [largeProcess .user] ∧
      afterRounds machine.kernel (largeProcess .user) address pageCount rounds = some state ∧
      target.toNat = max address.toNat 0x80000000 ∧
      translation machine.kernel (largeProcess .user) target = none ∧
      ∃ physical, translation state (largeProcess .user) target = some (physical, true) := by
  have total : freeBytes [⟨0x2000, 0x2000000000⟩] = 0x2000000000 := by decide
  obtain ⟨root, start, created, space, _, least, blank⟩ := created_space .user large_boot
    (by rw [total]; omega)
  rw [total] at least
  obtain ⟨accepted, wraps⟩ := not_or.mp wrapped
  have sound := space.orderly.sound
  -- the page is the first of the range from two GiB on
  obtain ⟨before, last⟩ : ∃ before, address.toNat + before * 4096 = max address.toNat 0x80000000 :=
    ⟨(0x80000000 - address.toNat) / 4096, by omega⟩
  have rounds : min (before + 1) pageCount.toNat = before + 1 := by omega
  obtain ⟨next, cursor, looped, steps, _, _, _, mapped⟩ := process_pages_mapped sound
    space.linked.points space.linked.member aligned
    (show address.toNat + (before + 1) * 4096 ≤ 2 ^ 47 by omega) (by omega)
  have later := space.run steps
  have place : (BitVec.ofNat 64 (max address.toNat 0x80000000)).toNat =
      max address.toNat 0x80000000 := by
    rw [BitVec.toNat_ofNat]
    omega
  have vacant := blank (BitVec.ofNat 64 (max address.toNat 0x80000000)) (by omega) (by omega)
    (by omega)
  obtain ⟨leaf, found⟩ := Option.isSome_iff_exists.mp
    (mapped (BitVec.ofNat 64 (max address.toNat 0x80000000)) (by omega) (by omega))
  refine ⟨_, before + 1, next.kernel, BitVec.ofNat 64 (max address.toNat 0x80000000),
    Relation.ReflTransGen.single (created_performs created), rfl, ?_, place, ?_, ?_⟩
  · rw [afterRounds, if_neg accepted, rounds, looped, Option.map_some]
  · rw [space.translation, space.lower_walk (by omega), vacant, Option.map_none]
  · rw [later.translation, later.lower_walk (by omega), found, Option.map_some]
    exact ⟨_, rfl⟩

/-- Without a wrap nothing from two GiB on changes in any iteration. Where the first page
can be mapped in the lower half, that is the only way. -/
theorem high_mappings_kept (address pageCount : U64) :
    (EndChecked address pageCount →
        OnEveryMachine fun kernel process => KeepsHigh kernel process address pageCount) ∧
      (address.toNat % 4096 = 0 → address.toNat < 2 ^ 47 →
        (OnEveryMachine fun kernel process => KeepsHigh kernel process address pageCount) →
          EndChecked address pageCount) := by
  constructor
  · intro checked hole kernel booted blocks machine process boot heap run member
    obtain ⟨config, root, same, space⟩ := machine_space boot heap run member
    rw [← same]
    exact space.keeps_high checked
  · intro aligned lower every
    by_contra wrapped
    obtain ⟨machine, rounds, state, target, run, processes, reached, place, before, physical, after⟩ :=
      wrapped_maps_high aligned lower wrapped
    have member : largeProcess .user ∈ machine.processes := by
      rw [processes]
      exact List.mem_singleton_self _
    have same := every largeHole largeKernel largeHeap _ machine _ large_boot large_heap_initialized
      run member rounds state reached target (Or.inl (by omega)) (by omega)
    rw [before, after] at same
    exact absurd same (by simp)

end High

/-- `page_count * PAGE_SIZE` is zero here, and the first iteration maps the page at two
GiB. -/
theorem wrapped_count_maps_high :
    ∃ machine rounds state, Reachable largeHole ⟨largeHeap, [], []⟩ machine ∧
      machine.processes = [largeProcess .user] ∧
      afterRounds machine.kernel (largeProcess .user) 0x80000000 0x10000000000000 rounds =
        some state ∧
      translation machine.kernel (largeProcess .user) 0x80000000 = none ∧
      (∃ physical, translation state (largeProcess .user) 0x80000000 = some (physical, true)) ∧
      ¬KeepsHigh machine.kernel (largeProcess .user) 0x80000000 0x10000000000000 := by
  have wrapped : ¬EndChecked 0x80000000 0x10000000000000 := by
    unfold EndChecked
    decide
  obtain ⟨machine, rounds, state, target, run, processes, reached, place, before, physical, after⟩ :=
    wrapped_maps_high (show (0x80000000 : U64).toNat % 4096 = 0 by decide) (by decide) wrapped
  have here : target = 0x80000000 := BitVec.eq_of_toNat_eq place
  rw [here] at before after
  refine ⟨machine, rounds, state, run, processes, reached, before, ⟨physical, after⟩, ?_⟩
  intro kept
  have same := kept rounds state reached 0x80000000 (by decide) (by decide)
  rw [before, after] at same
  exact absurd same (by simp)

/-! ### All or nothing -/

/-- Either the whole range is mapped and the call says so, or it changes nothing. -/
def AllOrNothing (before after : Kernel) (process : ProcessContext) (address pageCount : U64)
    (result : Bool) : Prop :=
  (result = true → ∀ target : U64, address.toNat ≤ target.toNat →
      target.toNat < address.toNat + pageCount.toNat * 4096 →
        ∃ physical, translation after process target = some (physical, true)) ∧
    (result = false → ∀ target, SignExtended target →
      translation after process target = translation before process target)

section Callers

variable {machine : Machine} {process : ProcessContext} {address pageCount : U64}

/-- A range below two GiB passes the check. -/
theorem allocate_memory_loop (kernel : Kernel)
    (inside : address.toNat + pageCount.toNat * 4096 ≤ 0x80000000) :
    allocateMemoryInProcess kernel process address pageCount =
      (loop (processPage process) pageCount.toNat (address, kernel)).map
        fun outcome => (outcome.1, outcome.2.2) := by
  have below : ¬address + pageCount * 4096 > 0x80000000 := by
    have size : (4096 : U64).toNat = 4096 := rfl
    have limit : (0x80000000 : U64).toNat = 0x80000000 := rfl
    rw [gt_iff_lt, BitVec.lt_def, BitVec.toNat_add, BitVec.toNat_mul, size, limit]
    omega
  rw [allocateMemoryInProcess, if_neg below]

theorem Grown.all_or_nothing {result : Bool} {results : List Bool}
    (space : SpaceOf hole usable config process root)
    (later : SpaceOf hole usable next process root)
    (inside : address.toNat + pageCount.toNat * 4096 ≤ 0x80000000)
    (grown : Grown config next root address.toNat (address.toNat + pageCount.toNat * 4096) result
      results) :
    AllOrNothing config.kernel next.kernel process address pageCount result ↔
      ∀ outcome ∈ results, outcome = result := by
  cases grown with
  | mapped all there =>
      refine iff_of_true ⟨fun _ target above below => ?_, by simp⟩ all
      obtain ⟨leaf, found⟩ := Option.isSome_iff_exists.mp (there target above below)
      rw [later.translation, later.lower_walk (by omega), found, Option.map_some]
      exact ⟨_, rfl⟩
  | missed target above below failed missing =>
      refine iff_of_false ?_ fun all => absurd (all false failed) (by simp)
      intro whole
      obtain ⟨_, found⟩ := whole.1 rfl target above below
      rw [later.translation, later.lower_walk (by omega), missing] at found
      exact absurd found (by simp)
  | untouched all same =>
      refine iff_of_true ⟨by simp, fun _ target extended => ?_⟩ all
      rw [later.translation, space.translation]
      exact same target extended
  | partly target extended worked changed =>
      refine iff_of_false ?_ fun all => absurd (all true worked) (by simp)
      intro whole
      have same := whole.2 rfl target extended
      rw [later.translation, space.translation] at same
      exact changed same

/-- There is memory for all pages of the range and the tables they lack, or there is not
even for the first page, and another round or the lack of any page makes the call say so. -/
def EnoughOrTooLittle (slots : Nat → Slot → PageEntry) (root : Nat) (address : U64)
    (pageCount bytes : Nat) : Prop :=
  4096 * pagesNeeded slots root address pageCount ≤ bytes ∨
    (bytes < 4096 * pagesNeeded slots root address 1 ∧ (bytes = 0 ∨ 2 ≤ pageCount))

theorem SpaceOf.results_agree_iff {again : Bool} {cursor : U64 × Kernel} {rounds : Nat}
    (space : SpaceOf hole usable config process root) (aligned : address.toNat % 4096 = 0)
    (bound : address.toNat + rounds * 4096 ≤ 2 ^ 47)
    (ran : loop (processPage process) rounds (address, config.kernel) = some (again, cursor)) :
    (∀ outcome ∈ mapResults process rounds (address, config.kernel), outcome = again) ↔
      EnoughOrTooLittle config.slots root address rounds (freeBytes config.blocks) := by
  have complete := space.all_mapped_iff aligned bound ran
  cases rounds with
  | zero =>
      have enough : 4096 * pagesNeeded config.slots root address 0 ≤ freeBytes config.blocks := by
        rw [pagesNeeded, missingInRange, Finset.card_empty]
        omega
      obtain ⟨same, all⟩ := complete.mpr enough
      rw [same]
      exact iff_of_true all (Or.inl enough)
  | succ rounds =>
      rw [EnoughOrTooLittle, ← complete, ← space.none_mapped_iff aligned bound ran]
      cases again <;> simp

/-- The call is all or nothing exactly if the memory that is free before it is enough for
the range, or is too little for its first page and the call notices. -/
theorem all_or_nothing_iff {kernel booted : Kernel} {blocks free : List Span}
    (boot : Boot hole kernel blocks) (heap : initializeHeap kernel = some booted)
    (run : Reachable hole ⟨booted, [], []⟩ machine) (member : process ∈ machine.processes)
    (list : FreeList machine.kernel.phys free) (aligned : address.toNat % 4096 = 0)
    (inside : address.toNat + pageCount.toNat * 4096 ≤ 0x80000000) :
    ∃ result after,
      allocateMemoryInProcess machine.kernel process address pageCount = some (result, after) ∧
      (AllOrNothing machine.kernel after process address pageCount result ↔
        EnoughOrTooLittle (readEntry machine.kernel.phys.mem) (pageMapRoot machine.kernel process)
          address pageCount.toNat (freeBytes free)) := by
  obtain ⟨config, root, sameKernel, space⟩ := machine_space boot heap run member
  rw [← sameKernel] at list ⊢
  have sound := space.orderly.sound
  have bound : address.toNat + pageCount.toNat * 4096 ≤ 2 ^ 47 := by omega
  obtain ⟨result, cursor, next, looped, steps, _, grown⟩ := process_pages_grow space aligned bound
  refine ⟨result, next.kernel, ?_, ?_⟩
  · rw [allocate_memory_loop config.kernel inside, looped, Option.map_some]
  · rw [grown.all_or_nothing space (space.run steps) inside,
      space.results_agree_iff aligned bound looped, page_map_root sound space.linked,
      free_chain_unique list.chain sound.tables.list.chain]

end Callers

theorem large_range_grows :
    ∃ machine free result after, Reachable largeHole ⟨largeHeap, [], []⟩ machine ∧
      machine.processes = [largeProcess .user] ∧ FreeList machine.kernel.phys free ∧
      EnoughOrTooLittle (readEntry machine.kernel.phys.mem)
        (pageMapRoot machine.kernel (largeProcess .user)) 0x20000 4 (freeBytes free) ∧
      allocateMemoryInProcess machine.kernel (largeProcess .user) 0x20000 4 = some (result, after) ∧
      AllOrNothing machine.kernel after (largeProcess .user) 0x20000 4 result := by
  have total : freeBytes [⟨0x2000, 0x2000000000⟩] = 0x2000000000 := by decide
  obtain ⟨root, start, created, space, _, least, _⟩ := created_space .user large_boot
    (by rw [total]; omega)
  have run := Relation.ReflTransGen.single (created_performs created)
  have list := space.orderly.sound.tables.list
  have enough : EnoughOrTooLittle (readEntry start.kernel.phys.mem)
      (pageMapRoot start.kernel (largeProcess .user)) 0x20000 4 (freeBytes start.blocks) := by
    have few := pages_needed_le (readEntry start.kernel.phys.mem)
      (pageMapRoot start.kernel (largeProcess .user)) 0x20000 4
    rw [total] at least
    exact Or.inl (by omega)
  obtain ⟨result, after, called, whole⟩ := all_or_nothing_iff large_boot
    large_heap_initialized run List.mem_cons_self list (show (0x20000 : U64).toNat % 4096 = 0 by decide)
    (show (0x20000 : U64).toNat + (4 : U64).toNat * 4096 ≤ 0x80000000 by decide)
  exact ⟨_, start.blocks, result, after, run, rfl, list, enough, called, whole.mpr enough⟩

/-- With eight MiB of memory a request for sixteen is refused halfway, and what was
mapped until then stays. -/
theorem refused_range_partly_mapped :
    ∃ machine after,
      Reachable largeHole ⟨{ largeHeap with phys := blankMachine 0x800000 }, [], []⟩ machine ∧
      machine.processes = [largeProcess .user] ∧
      allocateMemoryInProcess machine.kernel (largeProcess .user) 0x100000 0x1000 =
        some (false, after) ∧
      translation machine.kernel (largeProcess .user) 0x100000 = none ∧
      (∃ physical, translation after (largeProcess .user) 0x100000 = some (physical, true)) ∧
      ¬AllOrNothing machine.kernel after (largeProcess .user) 0x100000 0x1000 false := by
  have total : freeBytes [⟨0x2000, (0x800000 : U64).toNat⟩] = 0x800000 := by decide
  obtain ⟨root, start, created, space, most, least, blank⟩ :=
    created_space .user (@blank_boot 0x800000 (by decide) (by decide) (by decide))
      (by rw [total]; omega)
  rw [total] at most least
  have address : (0x100000 : U64).toNat = 0x100000 := rfl
  have count : (0x1000 : U64).toNat = 4095 + 1 := rfl
  have lower : (0x100000 : U64).toNat < 2 ^ 47 := by rw [address]; omega
  obtain ⟨cursor, next, looped, later, mapped⟩ := process_pages_stopped space
    (show (0x100000 : U64).toNat % 4096 = 0 from rfl)
    (show (0x100000 : U64).toNat + (4095 + 1) * 4096 ≤ 2 ^ 47 by rw [address]; omega)
    (by omega) (by omega)
  have called : allocateMemoryInProcess start.kernel (largeProcess .user) 0x100000 0x1000 =
      some (false, next.kernel) := by
    rw [allocate_memory_loop start.kernel (by rw [address, count]; omega), count, looped,
      Option.map_some]
  have before : translation start.kernel (largeProcess .user) 0x100000 = none := by
    rw [space.translation, space.lower_walk lower,
      blank 0x100000 lower (by rw [address]; omega) (by rw [address]; omega), Option.map_none]
  have after : ∃ physical, translation next.kernel (largeProcess .user) 0x100000 =
      some (physical, true) := by
    obtain ⟨leaf, found⟩ := Option.isSome_iff_exists.mp mapped
    exact ⟨_, by rw [later.translation, later.lower_walk lower, found, Option.map_some]⟩
  refine ⟨_, next.kernel, Relation.ReflTransGen.single (created_performs created), rfl, called,
    before, after, ?_⟩
  intro whole
  have same := whole.2 rfl 0x100000 (Or.inl lower)
  obtain ⟨physical, found⟩ := after
  rw [found, before] at same
  exact absurd same (by simp)

end KittyOs.ProcessGrowth
