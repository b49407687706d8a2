import Mathlib.Data.Finset.Card
import KittyOs.PageForest

/-!
# The effect of one `virtual_map`

What a call has done by the time it has walked part of its path: every table
stays where it was, new tables are pages that were free, the slots of the path
carry the call's flags, the other slots of new tables are blank and all other
slots of all tables are untouched. One such record describes a call that ran out
of pages as well as one that wrote its leaf, for any number of page maps in one
forest; leaves, flags and sizes of pages elsewhere follow from it.
-/

namespace KittyOs.MapEffect

open KittyOs.Lib.ByteMemory KittyOs.Lib.SpanPartition KittyOs.Lib.RadixForest
open KittyOs.MachineWord KittyOs.PageTable KittyOs.PhysicalModel KittyOs.PhysicalFreelist
open KittyOs.VirtualModel KittyOs.PageForest

set_option autoImplicit false

/-- The walk of `walked` reads `slot` in the table that `route` selects. -/
def Along (walked route : List Slot) (slot : Slot) : Prop :=
  ∃ after, walked = route ++ slot :: after

theorem Along.shorter {walked route : List Slot} {slot : Slot} (along : Along walked route slot) :
    route.length < walked.length := by
  obtain ⟨after, split⟩ := along
  rw [split, List.length_append, List.length_cons]
  omega

theorem Along.longer {walked route : List Slot} {slot : Slot} (along : Along walked route slot)
    (more : List Slot) : Along (walked ++ more) route slot := by
  obtain ⟨after, split⟩ := along
  exact ⟨after ++ more, by rw [split, List.append_assoc, List.cons_append]⟩

/-- The only slot of a path that no shorter part of it reads is the last. -/
theorem along_last {walked route : List Slot} {slot : Slot} (along : Along walked route slot)
    (last : walked.length ≤ route.length + 1) : walked = route ++ [slot] := by
  obtain ⟨after, split⟩ := along
  rw [split, List.length_append, List.length_cons] at last
  have nothing : after = [] := List.eq_nil_of_length_eq_zero (by omega)
  rw [split, nothing]

theorem along_next {path route : List Slot} {index slot : Slot}
    (along : Along (path ++ [index]) route slot) :
    Along path route slot ∨ (route = path ∧ slot = index) := by
  obtain ⟨after, split⟩ := along
  rcases List.eq_nil_or_concat after with nothing | ⟨before, last, shape⟩
  · rw [nothing] at split
    obtain ⟨sameRoute, sameSlot⟩ := List.append_inj' split rfl
    exact Or.inr ⟨sameRoute.symm, (List.cons.inj sameSlot).1.symm⟩
  · left
    rw [shape, List.concat_eq_append, ← List.cons_append, ← List.append_assoc] at split
    exact ⟨before, (List.append_inj' split rfl).1⟩

section Effect

variable (roots : Nat → Prop) (owns : Nat → Slot → Prop)

/-- `route` selects `table` from the root `start`, in the memory of `state`. -/
abbrev Reached (state : PhysicalState) (start : Nat) (route : List Slot) (table : Nat) : Prop :=
  Reaches childTable roots owns (readEntry state.mem) start route table

/-- A page that was free and is no longer. -/
def TakenPage (blocks remaining : List Span) (page : Nat) : Prop :=
  ∀ address, Within page 4096 address → FreeAt blocks address ∧ ¬FreeAt remaining address

/-- `route` selects a table of `root` in `other` and none in `state`. -/
def NewRoute (state other : PhysicalState) (root : Nat) (route : List Slot) : Prop :=
  (∃ table, Reached roots owns other root route table) ∧
    ∀ table, ¬Reached roots owns state root route table

/-- A byte that is neither free nor in a table. -/
structure DataByte (state : PhysicalState) (blocks : List Span) (byte : Nat) : Prop where
  used : ¬FreeAt blocks byte
  apart : ∀ start route table, Reached roots owns state start route table →
    ¬Within table 4096 byte

structure Progress (flags : MapFlags) (physicalAddress : U64) (root : Nat) (state : PhysicalState)
    (blocks : List Span) (walked : List Slot) (other : PhysicalState) (remaining : List Span) :
    Prop where
  hhdm : other.hhdm = state.hhdm
  taken : ∀ address, FreeAt remaining address → FreeAt blocks address
  bytes : ∀ byte, DataByte roots owns state blocks byte → other.mem byte = state.mem byte
  supply : freeBytes blocks ≤ freeBytes remaining + 4096 * walked.length
  ledger : ∃ added : Finset (List Slot),
    (∀ route, route ∈ added ↔ NewRoute roots owns state other root route) ∧
    freeBytes blocks = freeBytes remaining + 4096 * added.card
  along : ∀ route, NewRoute roots owns state other root route → route <+: walked
  stays : ∀ start route table, Reached roots owns state start route table →
    Reached roots owns other start route table
  arrives : ∀ start route table, Reached roots owns other start route table →
    Reached roots owns state start route table ∨
      (start = root ∧ TakenPage blocks remaining table)
  kept : ∀ start route table slot, Reached roots owns state start route table →
    ¬(start = root ∧ Along walked route slot) →
      readEntry other.mem table slot = readEntry state.mem table slot
  blank : ∀ route table slot, Reached roots owns other root route table →
    ¬Reached roots owns state root route table → ¬Along walked route slot →
      readEntry other.mem table slot = blankEntry
  flagged : ∀ route table slot, Along walked route slot → route.length < 3 →
    Reached roots owns other root route table →
      ∃ entry, readEntry other.mem table slot = flags.onTable entry ∧ entry.ppn ≠ 0 ∧
        (0 < route.length → entry.z = false) ∧
        (Reached roots owns state root route table → (readEntry state.mem table slot).ppn ≠ 0 →
          entry = readEntry state.mem table slot)
  leaf : ∀ route table slot, Along walked route slot → route.length = 3 →
    Reached roots owns other root route table →
      ∃ entry, readEntry other.mem table slot = flags.onPage physicalAddress entry

/-- No entry on the way to the last table of an address is a large page. -/
def SmallPages (slots : Nat → Slot → PageEntry) (root : Nat) (address : U64) : Prop :=
  ∀ route table slot, Along (tablePathOf address) route slot → 0 < route.length →
    walk childTable slots 0 root route = some table → (slots table slot).z = false

/-- The present leaf entry of an address, whatever the entries above it allow. -/
def liveLeaf (slots : Nat → Slot → PageEntry) (root : Nat) (address : U64) : Option PageEntry :=
  ((walk childTable slots 0 root (tablePathOf address)).map fun table =>
    slots table (lastSlotOf address)).filter PageEntry.p

/-- The routes on the way to the last table of an address that end at no table. -/
def missingTables (slots : Nat → Slot → PageEntry) (root : Nat) (address : U64) :
    Finset (List Slot) :=
  (tablePathOf address).inits.toFinset.filter fun route =>
    walk childTable slots 0 root route = none

theorem live_leaf_some {slots : Nat → Slot → PageEntry} {root : Nat} {address : U64}
    {leaf : PageEntry} :
    liveLeaf slots root address = some leaf ↔
      ∃ table, walk childTable slots 0 root (tablePathOf address) = some table ∧
        slots table (lastSlotOf address) = leaf ∧ leaf.p = true := by
  rw [liveLeaf, Option.filter_eq_some_iff, Option.map_eq_some_iff]
  constructor
  · rintro ⟨⟨table, walked, same⟩, present⟩
    exact ⟨table, walked, same, present⟩
  · rintro ⟨table, walked, same, present⟩
    exact ⟨⟨table, walked, same⟩, present⟩

theorem live_leaf_missing {slots : Nat → Slot → PageEntry} {root : Nat} {address : U64}
    (missing : walk childTable slots 0 root (tablePathOf address) = none) :
    liveLeaf slots root address = none := by
  rw [liveLeaf, missing, Option.map_none, Option.filter_none]

theorem table_path_of_path {left right : U64} (same : pathOf left = pathOf right) :
    tablePathOf left = tablePathOf right ∧ lastSlotOf left = lastSlotOf right := by
  rw [path_of_split, path_of_split] at same
  obtain ⟨sameTable, sameSlot⟩ := List.append_inj' same rfl
  exact ⟨sameTable, (List.cons.inj sameSlot).1⟩

theorem live_leaf_path {slots : Nat → Slot → PageEntry} {root : Nat} {left right : U64}
    (same : pathOf left = pathOf right) : liveLeaf slots root left = liveLeaf slots root right := by
  obtain ⟨sameTable, sameSlot⟩ := table_path_of_path same
  rw [liveLeaf, liveLeaf, sameTable, sameSlot]

theorem small_pages_path {slots : Nat → Slot → PageEntry} {root : Nat} {left right : U64}
    (same : pathOf left = pathOf right) (small : SmallPages slots root left) :
    SmallPages slots root right := by
  rw [SmallPages, (table_path_of_path same).1] at small
  exact small

theorem blank_root_small {slots : Nat → Slot → PageEntry} {root : Nat}
    (blank : ∀ index, slots root index = blankEntry) (address : U64) :
    SmallPages slots root address := by
  intro route table slot _ below walked
  cases route with
  | nil => exact absurd below (by simp)
  | cons index rest =>
      obtain ⟨child, linked, _⟩ := Option.bind_eq_some_iff.mp walked
      rw [blank index] at linked
      exact absurd rfl (child_table_frame linked).2.2.1

variable {roots owns}
variable {flags : MapFlags} {physicalAddress : U64} {root : Nat}
variable {state middle other : PhysicalState} {blocks between remaining : List Span}
variable {path walked : List Slot} {table child : Nat} {index : Slot}

theorem new_route_irrefl {route : List Slot} : ¬NewRoute roots owns state state root route :=
  fun ⟨⟨_, here⟩, absent⟩ => absent _ here

theorem progress_start :
    Progress roots owns flags physicalAddress root state blocks [] state blocks where
  hhdm := rfl
  taken := fun _ free => free
  bytes := fun _ _ => rfl
  supply := by omega
  ledger := ⟨∅, fun _ => iff_of_false (Finset.notMem_empty _) new_route_irrefl, by simp⟩
  along := fun _ new => absurd new new_route_irrefl
  stays := fun _ _ _ here => here
  arrives := fun _ _ _ here => Or.inl here
  kept := fun _ _ _ _ _ _ => rfl
  blank := fun _ _ _ here new _ => absurd here new
  flagged := fun _ _ _ along _ _ => absurd along.shorter (by simp)
  leaf := fun _ _ _ along _ _ => absurd along.shorter (by simp)

/-- Before the walk reads a slot, the slot is as the call found it, or blank. -/
theorem Progress.unread
    (progress : Progress roots owns flags physicalAddress root state blocks path middle between)
    (reached : Reached roots owns middle root path table) (index : Slot) :
    (Reached roots owns state root path table ∧
        readEntry middle.mem table index = readEntry state.mem table index) ∨
      (¬Reached roots owns state root path table ∧
        readEntry middle.mem table index = blankEntry) := by
  have beyond : ¬Along path path index := by
    intro along
    exact absurd along.shorter (by omega)
  by_cases old : Reached roots owns state root path table
  · exact Or.inl ⟨old, progress.kept root path table index old fun both => beyond both.2⟩
  · exact Or.inr ⟨old, progress.blank path table index reached old beyond⟩

/-! ### Memory changes outside the tables -/

/-- The owned slots of all tables read the same in `other`. -/
def Agrees (roots : Nat → Prop) (owns : Nat → Slot → Prop) (state other : PhysicalState) : Prop :=
  ∀ start route table slot, Reached roots owns state start route table →
    Owned owns start (route ++ [slot]) →
      readEntry other.mem table slot = readEntry state.mem table slot

section Agreement

variable {start : Nat} {address : U64}

theorem Agrees.reached (agrees : Agrees roots owns state other) {route : List Slot} :
    Reached roots owns other start route table ↔ Reached roots owns state start route table :=
  agree_reaches agrees

theorem Agrees.tables (agrees : Agrees roots owns state other)
    (tables : TableForest roots owns state blocks) (list : FreeList other remaining)
    (taken : ∀ free, FreeAt remaining free → FreeAt blocks free) :
    TableForest roots owns other remaining where
  list := list
  bounded := fun free member => tables.bounded free (taken free member)
  forest := by
    intro start route start' route' table first second
    exact tables.forest (agrees.reached.mp first) (agrees.reached.mp second)
  aligned := tables.aligned
  offList := fun start route page here free inside member =>
    tables.offList start route page (agrees.reached.mp here) free inside (taken free member)

theorem Agrees.every {Property : Nat → PageEntry → Prop} (agrees : Agrees roots owns state other)
    (every : EveryEntry roots owns Property (readEntry state.mem)) :
    EveryEntry roots owns Property (readEntry other.mem) := by
  intro start route page slot here owned above
  have old := agrees.reached.mp here
  rw [agrees start route page slot old owned]
  exact every start route page slot old owned above

theorem Agrees.small (agrees : Agrees roots owns state other) (live : roots start)
    (owned : owns start (splitVirtualAddressToStructure address).pml4)
    (small : SmallPages (readEntry state.mem) start address) :
    SmallPages (readEntry other.mem) start address := by
  intro route page slot along below walked
  have whole : Owned owns start (tablePathOf address) := owned
  obtain ⟨after, split⟩ := along
  rw [split] at whole
  have old := agrees.reached.mp ⟨live, whole.initial, walked⟩
  rw [agrees start route page slot old whole.through]
  exact small route page slot ⟨after, split⟩ below old.walked

theorem Agrees.leaf (agrees : Agrees roots owns state other) (live : roots start)
    (owned : owns start (splitVirtualAddressToStructure address).pml4) :
    liveLeaf (readEntry other.mem) start address = liveLeaf (readEntry state.mem) start address := by
  have whole : Owned owns start (tablePathOf address) := owned
  have slotOwned : Owned owns start (tablePathOf address ++ [lastSlotOf address]) := owned
  apply Option.ext
  intro leaf
  rw [live_leaf_some, live_leaf_some, agree_walk agrees live whole]
  constructor
  · rintro ⟨page, walked, same, present⟩
    rw [agrees start _ page _ ⟨live, whole, walked⟩ slotOwned] at same
    exact ⟨page, walked, same, present⟩
  · rintro ⟨page, walked, same, present⟩
    rw [← agrees start _ page _ ⟨live, whole, walked⟩ slotOwned] at same
    exact ⟨page, walked, same, present⟩

/-- Taking a page off the free list changes no table. -/
theorem takes_agrees {page : Nat} (tables : TableForest roots owns state blocks)
    (takes : TakesPage state blocks page other remaining) : Agrees roots owns state other := by
  intro start route table slot here _
  apply read_entry_congr
  intro free inside
  exact takes.frame free (tables.offList start route table here free inside)

theorem takes_tables {page : Nat} (tables : TableForest roots owns state blocks)
    (takes : TakesPage state blocks page other remaining) :
    TableForest roots owns other remaining :=
  (takes_agrees tables takes).tables tables takes.list fun free member =>
    ((takes.left free).mp member).1

end Agreement

/-- One more slot is written and at most one blank table appears behind it. -/
structure SlotWritten (roots : Nat → Prop) (owns : Nat → Slot → Prop) (flags : MapFlags)
    (physicalAddress : U64) (root : Nat) (path : List Slot) (table : Nat) (index : Slot)
    (state : PhysicalState) (blocks : List Span) (other : PhysicalState) (remaining : List Span) :
    Prop where
  update : SlotUpdate state blocks table index other remaining
  bytes : (freeBytes blocks = freeBytes remaining ∧
      ∀ route, ¬NewRoute roots owns state other root route) ∨
    (freeBytes blocks = freeBytes remaining + 4096 ∧
      NewRoute roots owns state other root (path ++ [index]))
  stays : ∀ start route page, Reached roots owns state start route page →
    Reached roots owns other start route page
  arrives : ∀ start route page, Reached roots owns other start route page →
    Reached roots owns state start route page ∨
      (start = root ∧ route = path ++ [index] ∧ TakenPage blocks remaining page ∧
        ∀ slot, readEntry other.mem page slot = blankEntry)
  flagged : path.length < 3 → ∃ entry, readEntry other.mem table index = flags.onTable entry ∧
    entry.ppn ≠ 0 ∧ entry.z = (readEntry state.mem table index).z ∧
    ((readEntry state.mem table index).ppn ≠ 0 → entry = readEntry state.mem table index)
  leaf : path.length = 3 →
    ∃ entry, readEntry other.mem table index = flags.onPage physicalAddress entry

theorem table_step_written {child : Nat} (upper : path.length < 3)
    (tables : TableForest roots owns state blocks)
    (reached : Reached roots owns state root path table)
    (step : TableStep roots owns flags root path table index state blocks child other remaining) :
    SlotWritten roots owns flags physicalAddress root path table index state blocks other
      remaining := by
  cases step with
  | kept occupied update same entry frame =>
      rw [same]
      have sameChild : childTable path.length (readEntry other.mem table index) =
          childTable path.length (readEntry state.mem table index) := by
        rw [entry, child_table_on_table]
      have sameTables : ∀ start route page, Reached roots owns other start route page ↔
          Reached roots owns state start route page := fun _ _ _ =>
        rewrite_reaches reached tables.forest (update.differs tables reached) sameChild
      refine ⟨update, Or.inl ⟨rfl, ?_⟩, fun start route page => (sameTables start route page).mpr,
        fun start route page here => Or.inl ((sameTables start route page).mp here), ?_, ?_⟩
      · rintro route ⟨⟨page, here⟩, absent⟩
        exact absent page ((sameTables root route page).mp here)
      · intro _
        exact ⟨_, entry, occupied, rfl, fun _ => rfl⟩
      · intro last
        omega
  | linked vacant update entry links blank inside left bytes =>
      have linked := (child_table_frame links.linked).2.2.1
      rw [entry, on_table_ppn] at linked
      refine ⟨update, Or.inr ⟨bytes, ⟨child, ?_⟩, ?_⟩, ?_, ?_, ?_, ?_⟩
      · exact (links.reaches_iff tables.forest).mpr (Or.inr ⟨rfl, rfl, rfl⟩)
      · intro page here
        have walked := here.walked
        rw [walk_append, reached.walked, Option.bind_some, walk, child_table_none vacant] at walked
        exact absurd walked (by simp)
      · intro start route page here
        exact (links.reaches_iff tables.forest).mpr (Or.inl here)
      · intro start route page here
        rcases (links.reaches_iff tables.forest).mp here with old | ⟨sameRoot, sameRoute, samePage⟩
        · exact Or.inl old
        · rw [samePage]
          refine Or.inr ⟨sameRoot, sameRoute, ?_, blank⟩
          intro address within
          exact ⟨inside address within, fun free => ((left address).mp free).2 within⟩
      · intro _
        exact ⟨_, entry, linked, set_page_z _ _, fun occupied => absurd vacant occupied⟩
      · intro last
        omega

theorem leaf_step_written (last : path.length = 3) (tables : TableForest roots owns state blocks)
    (reached : Reached roots owns state root path table)
    (leaf : LeafStep flags physicalAddress table index state blocks other) :
    SlotWritten roots owns flags physicalAddress root path table index state blocks other
      blocks where
  update := leaf.update
  bytes := Or.inl ⟨rfl, fun _ ⟨⟨_, here⟩, absent⟩ =>
    absent _ ((leaf.reaches_iff tables reached last).mp here)⟩
  stays := fun _ _ _ => (leaf.reaches_iff tables reached last).mpr
  arrives := fun _ _ _ here => Or.inl ((leaf.reaches_iff tables reached last).mp here)
  flagged := fun upper => by omega
  leaf := fun _ => ⟨_, leaf.entry⟩

/-- The written slot aside, a table reached before the write reads the same. -/
theorem SlotWritten.same_slot
    (written : SlotWritten roots owns flags physicalAddress root path table index state blocks
      other remaining)
    (tables : TableForest roots owns state blocks)
    (reached : Reached roots owns state root path table) {start page : Nat} {route : List Slot}
    {slot : Slot} (here : Reached roots owns state start route page)
    (different : ¬(start = root ∧ route = path ∧ slot = index)) :
    readEntry other.mem page slot = readEntry state.mem page slot := by
  apply written.update.other_slot (tables.table_aligned reached) (tables.table_aligned here)
    (tables.offList start route page here)
  intro atSlot
  rw [atSlot.1] at here
  obtain ⟨sameRoot, sameRoute⟩ := tables.forest here reached
  exact different ⟨sameRoot, sameRoute, atSlot.2⟩

theorem reached_unique {start left right : Nat} {route : List Slot}
    (first : Reached roots owns state start route left)
    (second : Reached roots owns state start route right) : left = right :=
  Option.some.inj (first.walked.symm.trans second.walked)

/-- An entry that was already written is not written again. -/
theorem SlotWritten.earlier
    (written : SlotWritten roots owns flags physicalAddress root path table index state blocks
      other remaining)
    (tables : TableForest roots owns state blocks)
    (reached : Reached roots owns state root path table) {page : Nat} {route : List Slot}
    {slot : Slot} (along : Along path route slot) (here : Reached roots owns other root route page) :
    Reached roots owns state root route page ∧
      readEntry other.mem page slot = readEntry state.mem page slot := by
  have shorter := along.shorter
  rcases written.arrives root route page here with old | ⟨_, sameRoute, _, _⟩
  · refine ⟨old, written.same_slot tables reached old ?_⟩
    intro ⟨_, sameRoute, _⟩
    rw [sameRoute] at shorter
    omega
  · rw [sameRoute, List.length_append] at shorter
    omega

theorem SlotWritten.new_only
    (written : SlotWritten roots owns flags physicalAddress root path table index state blocks
      other remaining) {route : List Slot} (new : NewRoute roots owns state other root route) :
    route = path ++ [index] := by
  obtain ⟨⟨page, here⟩, absent⟩ := new
  rcases written.arrives root route page here with old | ⟨_, sameRoute, _, _⟩
  · exact absurd old (absent page)
  · exact sameRoute

theorem Progress.new_route
    (progress : Progress roots owns flags physicalAddress root state blocks path middle between)
    (written : SlotWritten roots owns flags physicalAddress root path table index middle between
      other remaining) {route : List Slot} :
    NewRoute roots owns state other root route ↔
      NewRoute roots owns state middle root route ∨ NewRoute roots owns middle other root route := by
  constructor
  · rintro ⟨there, absent⟩
    by_cases between : ∃ page, Reached roots owns middle root route page
    · exact Or.inl ⟨between, absent⟩
    · exact Or.inr ⟨there, not_exists.mp between⟩
  · rintro (⟨⟨page, here⟩, absent⟩ | ⟨there, absent⟩)
    · exact ⟨⟨page, written.stays root route page here⟩, absent⟩
    · exact ⟨there, fun page here => absent page (progress.stays root route page here)⟩

/-- New tables come from free memory. -/
theorem Progress.data {walked : List Slot} {byte : Nat}
    (progress : Progress roots owns flags physicalAddress root state blocks walked other
      remaining) (data : DataByte roots owns state blocks byte) :
    DataByte roots owns other remaining byte where
  used := fun free => data.used (progress.taken byte free)
  apart := by
    intro start route page here inside
    rcases progress.arrives start route page here with old | ⟨_, fresh⟩
    · exact data.apart start route page old inside
    · exact data.used (fresh byte inside).1

/-- One more level takes a page exactly if it adds a route. -/
theorem Progress.ledger_extend
    (progress : Progress roots owns flags physicalAddress root state blocks path middle between)
    (written : SlotWritten roots owns flags physicalAddress root path table index middle between
      other remaining) :
    ∃ added : Finset (List Slot),
      (∀ route, route ∈ added ↔ NewRoute roots owns state other root route) ∧
      freeBytes blocks = freeBytes remaining + 4096 * added.card := by
  obtain ⟨added, member, spent⟩ := progress.ledger
  rcases written.bytes with ⟨now, nothing⟩ | ⟨now, new⟩
  · refine ⟨added, fun route => ?_, by omega⟩
    rw [progress.new_route written, member]
    exact (or_iff_left (nothing route)).symm
  · have fresh : path ++ [index] ∉ added := by
      intro earlier
      obtain ⟨page, here⟩ := ((member _).mp earlier).1
      exact new.2 page here
    refine ⟨insert (path ++ [index]) added, fun route => ?_, ?_⟩
    · rw [Finset.mem_insert, progress.new_route written, member, or_comm]
      refine or_congr_right ⟨fun same => ?_, written.new_only⟩
      rw [same]
      exact new
    · rw [Finset.card_insert_of_notMem fresh]
      omega

theorem Progress.extend
    (progress : Progress roots owns flags physicalAddress root state blocks path middle between)
    (tables : TableForest roots owns middle between)
    (reached : Reached roots owns middle root path table)
    (small : path.length < 3 → 0 < path.length → (readEntry middle.mem table index).z = false)
    (written : SlotWritten roots owns flags physicalAddress root path table index middle between
      other remaining) :
    Progress roots owns flags physicalAddress root state blocks (path ++ [index]) other
      remaining where
  hhdm := written.update.hhdm.trans progress.hhdm
  taken := fun address free => progress.taken address (written.update.taken address free)
  bytes := by
    intro byte data
    have later := progress.data data
    rw [written.update.frame byte later.used, progress.bytes byte data]
    intro inSlot
    apply later.apart root path table reached
    have bound := index.isLt
    unfold Within at inSlot ⊢
    omega
  supply := by
    have before := progress.supply
    rw [List.length_append, List.length_singleton]
    rcases written.bytes with ⟨now, _⟩ | ⟨now, _⟩ <;> omega
  ledger := progress.ledger_extend written
  along := by
    intro route new
    rcases (progress.new_route written).mp new with earlier | now
    · exact (progress.along route earlier).trans (List.prefix_append _ _)
    · rw [written.new_only now]
  stays := fun start route page here =>
    written.stays start route page (progress.stays start route page here)
  arrives := by
    intro start route page here
    rcases written.arrives start route page here with old | ⟨sameRoot, _, fresh, _⟩
    · rcases progress.arrives start route page old with older | ⟨sameRoot, fresh⟩
      · exact Or.inl older
      · refine Or.inr ⟨sameRoot, fun address within => ⟨(fresh address within).1, ?_⟩⟩
        exact fun free => (fresh address within).2 (written.update.taken address free)
    · refine Or.inr ⟨sameRoot, fun address within => ⟨?_, (fresh address within).2⟩⟩
      exact progress.taken address (fresh address within).1
  kept := by
    intro start route page slot here off
    rw [written.same_slot tables reached (progress.stays start route page here)]
    · apply progress.kept start route page slot here
      exact fun both => off ⟨both.1, both.2.longer [index]⟩
    · intro ⟨sameRoot, sameRoute, sameSlot⟩
      exact off ⟨sameRoot, [], by rw [sameRoute, sameSlot]⟩
  blank := by
    intro route page slot here new off
    rcases written.arrives root route page here with old | ⟨_, _, _, blank⟩
    · rw [written.same_slot tables reached old]
      · exact progress.blank route page slot old new fun along => off (along.longer [index])
      · intro ⟨_, sameRoute, sameSlot⟩
        exact off ⟨[], by rw [sameRoute, sameSlot]⟩
    · exact blank slot
  flagged := by
    intro route page slot along upper here
    rcases along_next along with earlier | ⟨sameRoute, sameSlot⟩
    · obtain ⟨old, read⟩ := written.earlier tables reached earlier here
      rw [read]
      exact progress.flagged route page slot earlier upper old
    · subst sameRoute sameSlot
      have samePage : page = table :=
        reached_unique here (written.stays root route table reached)
      subst samePage
      obtain ⟨entry, wrote, occupied, size, same⟩ := written.flagged upper
      refine ⟨entry, wrote, occupied, fun below => size.trans (small upper below), ?_⟩
      intro old oldOccupied
      rcases progress.unread reached slot with ⟨_, read⟩ | ⟨new, _⟩
      · rw [read] at same
        exact same oldOccupied
      · exact absurd old new
  leaf := by
    intro route page slot along last here
    rcases along_next along with earlier | ⟨sameRoute, sameSlot⟩
    · obtain ⟨old, read⟩ := written.earlier tables reached earlier here
      rw [read]
      exact progress.leaf route page slot earlier last old
    · subst sameRoute sameSlot
      have samePage : page = table :=
        reached_unique here (written.stays root route table reached)
      subst samePage
      exact written.leaf last

/-! ### A whole call -/

/-- The outcome of a call on `address`: `walked` is the part of its path that was
written, all of it on success. -/
structure Effect (roots : Nat → Prop) (owns : Nat → Slot → Prop) (flags : MapFlags)
    (physicalAddress : U64) (root : Nat) (address : U64) (state : PhysicalState)
    (blocks : List Span) (success : Bool) (other : PhysicalState) (remaining : List Span) :
    Prop where
  tables : TableForest roots owns other remaining
  progress : ∃ walked after, pathOf address = walked ++ after ∧
    Progress roots owns flags physicalAddress root state blocks walked other remaining ∧
    (success = true → after = [] ∧ ∃ table, Reached roots owns other root (tablePathOf address) table) ∧
    (success = false → walked.length < 3 ∧ remaining = [])
  stopped : success = false →
    walk childTable (readEntry other.mem) 0 root (tablePathOf address) = none

theorem progress_invariant {virtualAddress : U64}
    (small : SmallPages (readEntry state.mem) root virtualAddress) :
    StepInvariant roots owns flags root (tablePathOf virtualAddress)
      (fun path _ other remaining => (∃ after, tablePathOf virtualAddress = path ++ after) ∧
        Progress roots owns flags physicalAddress root state blocks path other remaining) := by
  have next : ∀ path table index rest middle between,
      tablePathOf virtualAddress = path ++ index :: rest →
      Reached roots owns middle root path table →
      Progress roots owns flags physicalAddress root state blocks path middle between →
      0 < path.length → (readEntry middle.mem table index).z = false := by
    intro path table index rest middle between whole reached progress below
    rcases progress.unread reached index with ⟨old, read⟩ | ⟨_, read⟩
    · rw [read]
      exact small path table index ⟨rest, whole⟩ below old.walked
    · rw [read]
      rfl
  constructor
  · intro path table index rest middle between whole reached holds below
    exact next path table index rest middle between whole reached holds.2 below
  · intro path table index rest middle between child other remaining whole tables reached holds step
    have upper : path.length < 3 := Along.shorter ⟨rest, whole⟩
    refine ⟨⟨rest, by rw [whole, List.append_assoc, List.singleton_append]⟩, ?_⟩
    exact holds.2.extend tables reached
      (fun _ => next path table index rest middle between whole reached holds.2)
      (table_step_written upper tables reached step)

theorem virtual_map_effect (flags : MapFlags) {virtualAddress : U64}
    (tables : TableForest roots owns state blocks) (live : roots root)
    (owned : owns root (splitVirtualAddressToStructure virtualAddress).pml4)
    (small : SmallPages (readEntry state.mem) root virtualAddress)
    (physicalAligned : physicalAddress % 4096 = 0) (virtualAligned : virtualAddress % 4096 = 0)
    (canonical : isCanonical virtualAddress = true) :
    ∃ success other remaining,
      virtualMap state root physicalAddress virtualAddress flags = some (success, other) ∧
      Effect roots owns flags physicalAddress root virtualAddress state blocks success other
        remaining := by
  rcases virtual_map_cases (progress_invariant small) tables live owned
    ⟨⟨_, rfl⟩, progress_start⟩ physicalAligned virtualAligned canonical with
    ⟨other, stopped, page, run, otherTables, early, ⟨⟨after, split⟩, progress⟩, incomplete⟩ |
    ⟨table, middle, remaining, other, run, middleTables, reached, ⟨_, progress⟩, leaf⟩
  · refine ⟨false, other, [], run, otherTables, ⟨stopped, after ++ [lastSlotOf virtualAddress], ?_,
      progress, by simp, fun _ => ⟨early, rfl⟩⟩, fun _ => incomplete⟩
    rw [path_of_split, split, List.append_assoc]
  · have written := leaf_step_written rfl middleTables reached leaf
    refine ⟨true, other, remaining, run, leaf.forest middleTables reached rfl,
      ⟨pathOf virtualAddress, [], (List.append_nil _).symm, ?_,
        fun _ => ⟨rfl, table, written.stays _ _ _ reached⟩, by simp⟩, by simp⟩
    rw [path_of_split]
    exact progress.extend middleTables reached (fun upper => absurd upper (Nat.lt_irrefl 3)) written

/-! ### What follows for every address -/

section Consequences

variable {address : U64} {success : Bool} {start : Nat}

theorem Effect.taken
    (effect : Effect roots owns flags physicalAddress root address state blocks success other
      remaining) : ∀ free, FreeAt remaining free → FreeAt blocks free := by
  obtain ⟨_, _, _, progress, _, _⟩ := effect.progress
  exact progress.taken

theorem Effect.hhdm
    (effect : Effect roots owns flags physicalAddress root address state blocks success other
      remaining) : other.hhdm = state.hhdm := by
  obtain ⟨_, _, _, progress, _, _⟩ := effect.progress
  exact progress.hhdm

/-- Bytes outside tables and free memory are kept. -/
theorem Effect.data {byte : Nat}
    (effect : Effect roots owns flags physicalAddress root address state blocks success other
      remaining) (data : DataByte roots owns state blocks byte) :
    DataByte roots owns other remaining byte ∧ other.mem byte = state.mem byte := by
  obtain ⟨_, _, _, progress, _, _⟩ := effect.progress
  exact ⟨progress.data data, progress.bytes byte data⟩

/-- A call takes at most a page for each level, and fails only for want of pages. -/
theorem Effect.supply
    (effect : Effect roots owns flags physicalAddress root address state blocks success other
      remaining) :
    freeBytes blocks ≤ freeBytes remaining + 4 * 4096 ∧
      (success = false → remaining = [] ∧ freeBytes blocks < 3 * 4096) := by
  obtain ⟨walked, after, split, progress, _, starved⟩ := effect.progress
  have supply := progress.supply
  have four : walked.length ≤ 4 := by
    have lengths := congrArg List.length split
    rw [List.length_append] at lengths
    have whole : (pathOf address).length = 4 := rfl
    omega
  refine ⟨by omega, fun failed => ?_⟩
  obtain ⟨early, nothing⟩ := starved failed
  rw [nothing] at supply
  have none : freeBytes [] = 0 := rfl
  exact ⟨nothing, by omega⟩

theorem unreached_iff {route : List Slot} (live : roots start) (owned : Owned owns start route) :
    walk childTable (readEntry state.mem) 0 start route = none ↔
      ∀ table, ¬Reached roots owns state start route table := by
  rw [Option.eq_none_iff_forall_ne_some]
  exact forall_congr' fun table => not_congr ⟨fun walked => ⟨live, owned, walked⟩, Reaches.walked⟩

/-- A call fails only at an address that lacks a table. -/
theorem Effect.starved
    (effect : Effect roots owns flags physicalAddress root address state blocks success other
      remaining) (live : roots root)
    (owned : owns root (splitVirtualAddressToStructure address).pml4) (failed : success = false) :
    walk childTable (readEntry state.mem) 0 root (tablePathOf address) = none := by
  obtain ⟨_, _, _, progress, _, _⟩ := effect.progress
  have whole : Owned owns root (tablePathOf address) := owned
  refine (unreached_iff live whole).mpr fun table here => ?_
  have there := progress.stays root (tablePathOf address) table here
  exact absurd (there.walked.symm.trans (effect.stopped failed)) (by simp)

theorem missing_tables_congr {slots changed : Nat → Slot → PageEntry}
    (same : ∀ route, route <+: tablePathOf address →
      walk childTable changed 0 root route = walk childTable slots 0 root route) :
    missingTables changed root address = missingTables slots root address := by
  apply Finset.filter_congr
  intro route member
  rw [same route ((List.mem_inits _ _).mp (List.mem_toFinset.mp member))]

theorem missing_tables_few (slots : Nat → Slot → PageEntry) (root : Nat) (address : U64) :
    (missingTables slots root address).card ≤ 4 :=
  (Finset.card_filter_le _ _).trans (List.toFinset_card_le _)

theorem mem_missing_tables {slots : Nat → Slot → PageEntry} {route : List Slot} :
    route ∈ missingTables slots root address ↔
      route <+: tablePathOf address ∧ walk childTable slots 0 root route = none := by
  rw [missingTables, Finset.mem_filter, List.mem_toFinset, List.mem_inits]

/-- Tables appear only on the way to the last table of the address. -/
theorem Effect.new_route_missing
    (effect : Effect roots owns flags physicalAddress root address state blocks success other
      remaining) (live : roots root)
    (owned : owns root (splitVirtualAddressToStructure address).pml4) {route : List Slot}
    (new : NewRoute roots owns state other root route) :
    route ∈ missingTables (readEntry state.mem) root address := by
  obtain ⟨walked, after, split, progress, _, _⟩ := effect.progress
  have along : route <+: tablePathOf address ++ [lastSlotOf address] := by
    rw [← path_of_split, split]
    exact (progress.along route new).trans (List.prefix_append _ _)
  obtain ⟨⟨page, here⟩, absent⟩ := new
  have early : route <+: tablePathOf address := by
    rcases List.prefix_concat_iff.mp along with whole | early
    · have walked := here.walked
      rw [whole, walk_append] at walked
      obtain ⟨table, _, last⟩ := Option.bind_eq_some_iff.mp walked
      rw [walk, child_table_last _ (show 3 ≤ 0 + (tablePathOf address).length from Nat.le_refl 3)]
        at last
      exact absurd last (by simp)
    · exact early
  have full : Owned owns root (tablePathOf address) := owned
  exact mem_missing_tables.mpr ⟨early, (unreached_iff live (full.along early)).mpr absent⟩

/-- A call that works adds the tables its address lacks. -/
theorem Effect.new_routes
    (effect : Effect roots owns flags physicalAddress root address state blocks true other
      remaining) (live : roots root)
    (owned : owns root (splitVirtualAddressToStructure address).pml4) (route : List Slot) :
    NewRoute roots owns state other root route ↔
      route ∈ missingTables (readEntry state.mem) root address := by
  refine ⟨effect.new_route_missing live owned, fun member => ?_⟩
  obtain ⟨⟨rest, whole⟩, missing⟩ := mem_missing_tables.mp member
  obtain ⟨_, _, _, _, done, _⟩ := effect.progress
  obtain ⟨_, table, reached⟩ := done rfl
  rw [← whole] at reached
  have through := reached.walked
  rw [walk_append] at through
  obtain ⟨page, there, _⟩ := Option.bind_eq_some_iff.mp through
  exact ⟨⟨page, live, reached.owned.initial, there⟩,
    (unreached_iff live reached.owned.initial).mp missing⟩

/-- A call takes a page for each table its address lacks, and fails if there are
fewer. -/
theorem Effect.cost
    (effect : Effect roots owns flags physicalAddress root address state blocks success other
      remaining) (live : roots root)
    (owned : owns root (splitVirtualAddressToStructure address).pml4) :
    (success = true → freeBytes blocks =
      freeBytes remaining + 4096 * (missingTables (readEntry state.mem) root address).card) ∧
    (success = false →
      freeBytes blocks < 4096 * (missingTables (readEntry state.mem) root address).card) := by
  obtain ⟨walked, _, _, progress, _, starved⟩ := effect.progress
  obtain ⟨added, member, spent⟩ := progress.ledger
  constructor
  · rintro rfl
    have all : added = missingTables (readEntry state.mem) root address :=
      Finset.ext fun route => (member route).trans (effect.new_routes live owned route)
    rw [← all]
    exact spent
  · intro failed
    have fewer : added ⊂ missingTables (readEntry state.mem) root address := by
      refine Finset.ssubset_iff_subset_ne.mpr ⟨fun route new =>
        effect.new_route_missing live owned ((member route).mp new), fun all => ?_⟩
      have last : tablePathOf address ∈ added := by
        rw [all]
        exact mem_missing_tables.mpr ⟨List.prefix_rfl, effect.starved live owned failed⟩
      obtain ⟨⟨page, here⟩, _⟩ := (member _).mp last
      exact absurd (here.walked.symm.trans (effect.stopped failed)) (by simp)
    have count := Finset.card_lt_card fewer
    rw [(starved failed).2] at spent
    have none : freeBytes [] = 0 := rfl
    omega

theorem Effect.succeeds
    (effect : Effect roots owns flags physicalAddress root address state blocks success other
      remaining) (enough : 3 * 4096 ≤ freeBytes blocks) : success = true := by
  cases success with
  | true => rfl
  | false =>
      have few := (effect.supply.2 rfl).2
      omega

theorem Effect.stays
    (effect : Effect roots owns flags physicalAddress root address state blocks success other
      remaining) {route : List Slot} {page : Nat}
    (here : Reached roots owns state start route page) :
    Reached roots owns other start route page := by
  obtain ⟨_, _, _, progress, _, _⟩ := effect.progress
  exact progress.stays start route page here

theorem Effect.arrives
    (effect : Effect roots owns flags physicalAddress root address state blocks success other
      remaining) {route : List Slot} {page : Nat}
    (here : Reached roots owns other start route page) :
    Reached roots owns state start route page ∨
      (start = root ∧ TakenPage blocks remaining page) := by
  obtain ⟨_, _, _, progress, _, _⟩ := effect.progress
  exact progress.arrives start route page here

/-- Slots off the path are untouched, owned or not. -/
theorem Effect.kept
    (effect : Effect roots owns flags physicalAddress root address state blocks success other
      remaining) {route : List Slot} {page : Nat} {slot : Slot}
    (here : Reached roots owns state start route page)
    (off : ¬(start = root ∧ Along (pathOf address) route slot)) :
    readEntry other.mem page slot = readEntry state.mem page slot := by
  obtain ⟨walked, after, split, progress, _, _⟩ := effect.progress
  apply progress.kept start route page slot here
  intro both
  rw [split] at off
  exact off ⟨both.1, both.2.longer after⟩

/-- An entry above the last level is as it was, blank, or carries the flags. -/
theorem Effect.upper
    (effect : Effect roots owns flags physicalAddress root address state blocks success other
      remaining) {route : List Slot} {page : Nat}
    (here : Reached roots owns other start route page) (slot : Slot) (above : route.length < 3) :
    (Reached roots owns state start route page ∧
        readEntry other.mem page slot = readEntry state.mem page slot) ∨
      (¬Reached roots owns state start route page ∧
        readEntry other.mem page slot = blankEntry) ∨
      (start = root ∧ ∃ entry, readEntry other.mem page slot = flags.onTable entry ∧
        entry.ppn ≠ 0 ∧ (0 < route.length → entry.z = false) ∧
        (Reached roots owns state root route page → (readEntry state.mem page slot).ppn ≠ 0 →
          entry = readEntry state.mem page slot)) := by
  obtain ⟨walked, after, split, progress, _, _⟩ := effect.progress
  by_cases on : start = root ∧ Along walked route slot
  · obtain ⟨same, along⟩ := on
    rw [same] at here ⊢
    exact Or.inr (Or.inr ⟨rfl, progress.flagged route page slot along above here⟩)
  · by_cases old : Reached roots owns state start route page
    · exact Or.inl ⟨old, progress.kept start route page slot old on⟩
    · right
      left
      rcases progress.arrives start route page here with before | ⟨same, _⟩
      · exact absurd before old
      · rw [same] at here old on ⊢
        exact ⟨old, progress.blank route page slot here old fun along => on ⟨rfl, along⟩⟩

/-- An entry of any level is as it was, blank, or written by the call. -/
theorem Effect.written
    (effect : Effect roots owns flags physicalAddress root address state blocks success other
      remaining) {route : List Slot} {page : Nat}
    (here : Reached roots owns other start route page) (slot : Slot) :
    (Reached roots owns state start route page ∧
        readEntry other.mem page slot = readEntry state.mem page slot) ∨
      readEntry other.mem page slot = blankEntry ∨
      (start = root ∧ ∃ entry, readEntry other.mem page slot = flags.onTable entry ∨
        readEntry other.mem page slot = flags.onPage physicalAddress entry) := by
  by_cases above : route.length < 3
  · rcases effect.upper here slot above with old | ⟨_, blank⟩ | ⟨same, entry, flagged, _⟩
    · exact Or.inl old
    · exact Or.inr (Or.inl blank)
    · exact Or.inr (Or.inr ⟨same, entry, Or.inl flagged⟩)
  · obtain ⟨walked, after, split, progress, _, _⟩ := effect.progress
    by_cases on : start = root ∧ Along walked route slot
    · obtain ⟨same, along⟩ := on
      have four : (pathOf address).length = 4 := rfl
      have shorter := along.shorter
      rw [split, List.length_append] at four
      rw [same] at here
      obtain ⟨entry, leaf⟩ := progress.leaf route page slot along (by omega) here
      exact Or.inr (Or.inr ⟨same, entry, Or.inr leaf⟩)
    · by_cases old : Reached roots owns state start route page
      · exact Or.inl ⟨old, progress.kept start route page slot old on⟩
      · rcases progress.arrives start route page here with before | ⟨same, _⟩
        · exact absurd before old
        · rw [same] at here old on
          exact Or.inr (Or.inl (progress.blank route page slot here old fun along => on ⟨rfl, along⟩))

/-- A property of entries that blank and newly flagged entries have is kept. -/
theorem Effect.every {Property : Nat → PageEntry → Prop}
    (effect : Effect roots owns flags physicalAddress root address state blocks success other
      remaining)
    (every : EveryEntry roots owns Property (readEntry state.mem))
    (blankHolds : ∀ depth, Property depth blankEntry)
    (flaggedHolds : ∀ depth entry, entry.ppn ≠ 0 → (0 < depth → entry.z = false) →
      Property depth (flags.onTable entry)) :
    EveryEntry roots owns Property (readEntry other.mem) := by
  intro start route page slot here owned above
  rcases effect.upper here slot above with
    ⟨old, same⟩ | ⟨_, blank⟩ | ⟨_, entry, flagged, occupied, small, _⟩
  · rw [same]
    exact every start route page slot old owned above
  · rw [blank]
    exact blankHolds _
  · rw [flagged]
    exact flaggedHolds _ entry occupied small

theorem owned_along {address : U64} {route : List Slot} {slot : Slot}
    (owned : owns start (splitVirtualAddressToStructure address).pml4)
    (along : Along (pathOf address) route slot) : Owned owns start route := by
  obtain ⟨after, split⟩ := along
  have whole : Owned owns start (pathOf address) := owned
  rw [split] at whole
  exact whole.initial

theorem along_path {address : U64} {route : List Slot} {slot : Slot}
    (along : Along (tablePathOf address) route slot) : Along (pathOf address) route slot := by
  rw [path_of_split]
  exact along.longer _

/-- No large page appears on the way to an address that had none. -/
theorem Effect.small {target : U64}
    (effect : Effect roots owns flags physicalAddress root address state blocks success other
      remaining) (live : roots start)
    (owned : owns start (splitVirtualAddressToStructure target).pml4)
    (small : SmallPages (readEntry state.mem) start target) :
    SmallPages (readEntry other.mem) start target := by
  intro route page slot along below walked
  have above : route.length < 3 := along.shorter
  have here : Reached roots owns other start route page :=
    ⟨live, owned_along owned (along_path along), walked⟩
  rcases effect.upper here slot above with
    ⟨old, same⟩ | ⟨_, blank⟩ | ⟨_, entry, flagged, _, flat, _⟩
  · rw [same]
    exact small route page slot along below old.walked
  · rw [blank]
    rfl
  · rw [flagged, on_table_z]
    exact flat below

/-- A leaf changes only at the address of a call that succeeds. -/
theorem Effect.leaf_elsewhere {target : U64}
    (effect : Effect roots owns flags physicalAddress root address state blocks success other
      remaining) (live : roots start)
    (owned : owns start (splitVirtualAddressToStructure target).pml4)
    (elsewhere : ¬(success = true ∧ start = root ∧ pathOf target = pathOf address)) :
    liveLeaf (readEntry other.mem) start target = liveLeaf (readEntry state.mem) start target := by
  obtain ⟨walked, after, split, progress, succeeded, starved⟩ := effect.progress
  have ownedRoute : Owned owns start (tablePathOf target) := owned
  have off : ¬(start = root ∧ Along walked (tablePathOf target) (lastSlotOf target)) := by
    rintro ⟨same, along⟩
    have long := along.shorter
    have three : (tablePathOf target).length = 3 := rfl
    cases success with
    | false =>
        have early := (starved rfl).1
        omega
    | true =>
        have whole := (succeeded rfl).1
        rw [whole, List.append_nil] at split
        have four : (pathOf address).length = 4 := rfl
        rw [← split] at along
        have shape := along_last along (by omega)
        exact elsewhere ⟨rfl, same, (path_of_split target).trans shape.symm⟩
  apply Option.ext
  intro leaf
  rw [live_leaf_some, live_leaf_some]
  constructor
  · rintro ⟨table, walkedTo, same, present⟩
    have here : Reached roots owns other start (tablePathOf target) table :=
      ⟨live, ownedRoute, walkedTo⟩
    by_cases old : Reached roots owns state start (tablePathOf target) table
    · rw [progress.kept start _ table _ old off] at same
      exact ⟨table, old.walked, same, present⟩
    · rcases progress.arrives start _ table here with before | ⟨sameRoot, _⟩
      · exact absurd before old
      · rw [sameRoot] at here old off
        rw [progress.blank _ table _ here old fun along => off ⟨rfl, along⟩] at same
        rw [← same] at present
        exact absurd present (by simp [blankEntry])
  · rintro ⟨table, walkedTo, same, present⟩
    have old : Reached roots owns state start (tablePathOf target) table :=
      ⟨live, ownedRoute, walkedTo⟩
    refine ⟨table, (progress.stays start _ table old).walked, ?_, present⟩
    rw [progress.kept start _ table _ old off]
    exact same

/-- A call that succeeds leaves the requested entry at its address. -/
theorem Effect.leaf_here
    (effect : Effect roots owns flags physicalAddress root address state blocks true other
      remaining) (mapped : flags.isPresent = true) :
    ∃ entry, liveLeaf (readEntry other.mem) root address =
      some (flags.onPage physicalAddress entry) := by
  obtain ⟨walked, after, split, progress, succeeded, _⟩ := effect.progress
  obtain ⟨whole, table, here⟩ := succeeded rfl
  rw [whole, List.append_nil] at split
  have along : Along walked (tablePathOf address) (lastSlotOf address) := ⟨[], by
    rw [← split, path_of_split]⟩
  obtain ⟨entry, read⟩ := progress.leaf _ table _ along rfl here
  exact ⟨entry, live_leaf_some.mpr ⟨table, here.walked, read, mapped⟩⟩

end Consequences

end Effect

end KittyOs.MapEffect
