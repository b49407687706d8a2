import KittyOs.Lib.RadixForest
import KittyOs.PhysicalFreelist
import KittyOs.VirtualModel

/-!
# Page maps as radix forests

The tables of one or several page maps form a forest over physical memory whose
tables are not on the free list. A root owns the slots its own tables hang from;
a process owns its lower half and shares the rest. Every table block of
`virtual_map` either rewrites an entry that keeps its table or links a page just
taken from the free list, and the last block rewrites one leaf. What a whole
call preserves follows from what these steps preserve.
-/

namespace KittyOs.PageForest

open KittyOs.Lib.ByteMemory KittyOs.Lib.SpanPartition KittyOs.Lib.RadixForest
open KittyOs.MachineWord KittyOs.PageTable KittyOs.PhysicalModel KittyOs.PhysicalFreelist
open KittyOs.VirtualModel

set_option autoImplicit false

/-- The table an entry refers to. The last level refers to pages, and so does a
large-page entry of the two middle levels. -/
def childTable (depth : Nat) (entry : PageEntry) : Option Nat :=
  if depth < 3 ∧ entry.ppn ≠ 0 ∧ ¬(0 < depth ∧ entry.z = true) then some entry.frame else none

theorem child_table_some {depth : Nat} {entry : PageEntry} (upper : depth < 3)
    (occupied : entry.ppn ≠ 0) (small : 0 < depth → entry.z = false) :
    childTable depth entry = some entry.frame := by
  unfold childTable
  rw [if_pos]
  refine ⟨upper, occupied, ?_⟩
  intro large
  rw [small large.1] at large
  exact absurd large.2 (by simp)

theorem child_table_none {depth : Nat} {entry : PageEntry} (vacant : entry.ppn = 0) :
    childTable depth entry = none := by
  unfold childTable
  rw [if_neg]
  intro all
  exact all.2.1 vacant

theorem child_table_last {depth : Nat} (entry : PageEntry) (last : 3 ≤ depth) :
    childTable depth entry = none := by
  unfold childTable
  rw [if_neg]
  intro all
  omega

theorem child_table_frame {depth table : Nat} {entry : PageEntry}
    (linked : childTable depth entry = some table) :
    table = entry.frame ∧ depth < 3 ∧ entry.ppn ≠ 0 ∧ ¬(0 < depth ∧ entry.z = true) := by
  unfold childTable at linked
  split_ifs at linked with conditions
  exact ⟨(Option.some.inj linked).symm, conditions⟩

@[simp] theorem on_table_ppn (flags : MapFlags) (entry : PageEntry) :
    (flags.onTable entry).ppn = entry.ppn := rfl

@[simp] theorem on_table_z (flags : MapFlags) (entry : PageEntry) :
    (flags.onTable entry).z = entry.z := rfl

@[simp] theorem on_table_frame (flags : MapFlags) (entry : PageEntry) :
    (flags.onTable entry).frame = entry.frame := by
  rw [PageEntry.frame, on_table_ppn, ← PageEntry.frame]

@[simp] theorem set_page_z (entry : PageEntry) (address : U64) :
    (entry.setPage address).z = entry.z := rfl

/-- The flag assignments leave the reference alone. -/
theorem child_table_on_table (flags : MapFlags) (depth : Nat) (entry : PageEntry) :
    childTable depth (flags.onTable entry) = childTable depth entry := by
  simp only [childTable, on_table_ppn, on_table_z, on_table_frame]

section Forest

variable (roots : Nat → Prop) (owns : Nat → Slot → Prop)

/-- Table pages that form a forest, none of them on the free list; free pages
have physical addresses of at most 52 bits. -/
structure TableForest (state : PhysicalState) (blocks : List Span) : Prop where
  list : FreeList state blocks
  bounded : ∀ address, FreeAt blocks address → address < 2 ^ 52
  forest : Forest childTable roots owns (readEntry state.mem)
  aligned : ∀ root, roots root → root % 4096 = 0
  offList : ∀ root path table, Reaches childTable roots owns (readEntry state.mem) root path table →
    ∀ address, Within table 4096 address → ¬FreeAt blocks address

/-- One slot and otherwise only free memory changes; the free list only shrinks. -/
structure SlotUpdate (state : PhysicalState) (blocks : List Span) (table : Nat) (index : Slot)
    (other : PhysicalState) (remaining : List Span) : Prop where
  hhdm : other.hhdm = state.hhdm
  list : FreeList other remaining
  taken : ∀ address, FreeAt remaining address → FreeAt blocks address
  frame : ∀ address, ¬FreeAt blocks address → ¬Within (table + 8 * index.toNat) 8 address →
    other.mem address = state.mem address

variable {roots owns}
variable {state other : PhysicalState} {blocks remaining : List Span}
variable {root table : Nat} {path : List Slot} {index : Slot}

theorem walk_aligned {slots : Nat → Slot → PageEntry} {depth table reached : Nat}
    {path : List Slot} (aligned : table % 4096 = 0)
    (walked : walk childTable slots depth table path = some reached) : reached % 4096 = 0 := by
  induction path generalizing depth table with
  | nil =>
      have same : table = reached := Option.some.inj walked
      rw [← same]
      exact aligned
  | cons index path ih =>
      obtain ⟨child, linked, later⟩ := Option.bind_eq_some_iff.mp walked
      apply ih _ later
      rw [(child_table_frame linked).1]
      exact frame_aligned _

theorem TableForest.table_aligned (tables : TableForest roots owns state blocks)
    (reached : Reaches childTable roots owns (readEntry state.mem) root path table) :
    table % 4096 = 0 :=
  walk_aligned (tables.aligned root reached.live) reached.walked

theorem SlotUpdate.other_slot (update : SlotUpdate state blocks table index other remaining)
    (aligned : table % 4096 = 0) {page : Nat} (pageAligned : page % 4096 = 0) {slot : Slot}
    (offList : ∀ address, Within page 4096 address → ¬FreeAt blocks address)
    (different : ¬(page = table ∧ slot = index)) :
    readEntry other.mem page slot = readEntry state.mem page slot := by
  have indexBound := index.isLt
  have slotBound := slot.isLt
  have distinct : page = table → slot.toNat ≠ index.toNat := by
    intro same equal
    exact different ⟨same, BitVec.eq_of_toNat_eq equal⟩
  unfold readEntry
  congr 1
  apply load_word_congr
  intro offset small
  apply update.frame
  · exact offList _ ⟨by omega, by omega⟩
  · intro inside
    unfold Within at inside
    by_cases same : page = table
    · have apart := distinct same
      omega
    · omega

theorem SlotUpdate.differs (update : SlotUpdate state blocks table index other remaining)
    (tables : TableForest roots owns state blocks)
    (reached : Reaches childTable roots owns (readEntry state.mem) root path table) :
    DiffersOnlyAt childTable roots owns (readEntry state.mem) (readEntry other.mem) table index := by
  intro start route page slot here _ different
  exact update.other_slot (tables.table_aligned reached) (tables.table_aligned here)
    (tables.offList start route page here) different

/-- Rewriting an entry that keeps its table keeps the forest. -/
theorem TableForest.rewrite (tables : TableForest roots owns state blocks)
    (reached : Reaches childTable roots owns (readEntry state.mem) root path table)
    (update : SlotUpdate state blocks table index other remaining)
    (child : childTable path.length (readEntry other.mem table index) =
      childTable path.length (readEntry state.mem table index)) :
    TableForest roots owns other remaining where
  list := update.list
  bounded := fun address free => tables.bounded address (update.taken address free)
  forest := rewrite_forest reached tables.forest (update.differs tables reached) child
  aligned := tables.aligned
  offList := by
    intro start route page here address inside free
    rw [rewrite_reaches reached tables.forest (update.differs tables reached) child] at here
    exact tables.offList start route page here address inside (update.taken address free)

/-- Linking a blank page that has left the free list keeps the forest. -/
theorem TableForest.link {child : Nat} (tables : TableForest roots owns state blocks)
    (update : SlotUpdate state blocks table index other remaining)
    (links : LinksBlank childTable roots owns (readEntry state.mem) (readEntry other.mem) root path
      table index child)
    (left : ∀ address, Within child 4096 address → ¬FreeAt remaining address) :
    TableForest roots owns other remaining where
  list := update.list
  bounded := fun address free => tables.bounded address (update.taken address free)
  forest := links.forest tables.forest
  aligned := tables.aligned
  offList := by
    intro start route page here address inside free
    rw [links.reaches_iff tables.forest] at here
    rcases here with old | new
    · exact tables.offList start route page old address inside (update.taken address free)
    · rw [new.2.2] at inside
      exact left address inside free

/-- A property of every owned entry above the last level, by its depth. -/
def EveryEntry (roots : Nat → Prop) (owns : Nat → Slot → Prop)
    (Holds : Nat → PageEntry → Prop) (slots : Nat → Slot → PageEntry) : Prop :=
  ∀ root path table index, Reaches childTable roots owns slots root path table →
    Owned owns root (path ++ [index]) → path.length < 3 → Holds path.length (slots table index)

/-- It survives an update of one slot that has it, as long as new tables are blank. -/
theorem EveryEntry.update {Holds : Nat → PageEntry → Prop}
    {slots changed : Nat → Slot → PageEntry} (every : EveryEntry roots owns Holds slots)
    (blankHolds : ∀ depth, Holds depth blankEntry)
    (forest : Forest childTable roots owns slots)
    (reached : Reaches childTable roots owns slots root path table)
    (differs : DiffersOnlyAt childTable roots owns slots changed table index)
    (arrives : ∀ start route page, Reaches childTable roots owns changed start route page →
      Reaches childTable roots owns slots start route page ∨
        ∀ slot, changed page slot = blankEntry)
    (here : path.length < 3 → Holds path.length (changed table index)) :
    EveryEntry roots owns Holds changed := by
  intro start route page slot there owned upper
  rcases arrives start route page there with old | blank
  · by_cases atSlot : page = table ∧ slot = index
    · rw [atSlot.1] at old
      rw [(forest old reached).2] at upper ⊢
      rw [atSlot.1, atSlot.2]
      exact here upper
    · rw [differs start route page slot old owned atSlot]
      exact every start route page slot old owned upper
  · rw [blank slot]
    exact blankHolds _

/-! ### One table block of `virtual_map` -/

theorem write_entry_slot (mem : Memory) (table : Nat) (index : Slot) (entry : PageEntry)
    {address : Nat} (outside : ¬Within (table + 8 * index.toNat) 8 address) :
    writeEntry mem table index entry address = mem address :=
  store_word_outside _ _ _ _ outside

/-- An occupied slot keeps its table and takes the flags. -/
theorem setup_table_occupied (flags : MapFlags)
    (occupied : (readEntry state.mem table index).ppn ≠ 0) :
    ∃ other, setupTable flags state table index =
        (some (readEntry state.mem table index).frame, other) ∧
      other.hhdm = state.hhdm ∧ other.head = state.head ∧
      readEntry other.mem table index = flags.onTable (readEntry state.mem table index) ∧
      ∀ address, ¬Within (table + 8 * index.toNat) 8 address →
        other.mem address = state.mem address := by
  refine ⟨⟨state.hhdm, writeEntry state.mem table index
      (flags.onTable (readEntry state.mem table index)), state.head⟩, ?_, rfl, rfl, ?_, ?_⟩
  · simp only [setupTable, if_neg occupied, applyTableFlags, on_table_frame]
  · simp only [read_write_same]
  · intro address outside
    exact write_entry_slot _ _ _ _ outside

/-- An empty slot gets the page just allocated, zeroed, and takes the flags. -/
theorem setup_table_vacant (flags : MapFlags) {page : Nat}
    (vacant : (readEntry state.mem table index).ppn = 0)
    (takes : TakesPage state blocks page other remaining)
    (offList : ∀ address, Within table 4096 address → ¬FreeAt blocks address)
    (bound : page + 4096 ≤ 2 ^ 52) :
    ∃ last, setupTable flags state table index = (some page, last) ∧
      last.hhdm = other.hhdm ∧ last.head = other.head ∧
      readEntry last.mem table index =
        flags.onTable ((readEntry state.mem table index).setPage (BitVec.ofNat 64 page)) ∧
      (∀ slot, readEntry last.mem page slot = blankEntry) ∧
      ∀ address, ¬Within page 4096 address → ¬Within (table + 8 * index.toNat) 8 address →
        last.mem address = other.mem address := by
  have pageValue : (BitVec.ofNat 64 page).toNat = page := of_nat_to_nat (by omega)
  have indexBound := index.isLt
  have apart : ∀ address, Within table 4096 address → ¬Within page 4096 address := by
    intro address inTable inPage
    exact offList address inTable (takes.inside address inPage)
  have entrySame : readEntry (fill other.mem page 4096 0) table index =
      readEntry state.mem table index := by
    apply read_entry_congr
    intro address inside
    rw [fill_outside _ _ _ _ _ (apart address inside)]
    exact takes.frame address (offList address inside)
  obtain ⟨entry, entryIs⟩ : ∃ entry,
      (readEntry state.mem table index).setPage (BitVec.ofNat 64 page) = entry := ⟨_, rfl⟩
  have frame : entry.frame = page := by
    rw [← entryIs]
    exact set_page_frame _ takes.aligned bound
  obtain ⟨linked, linkedIs⟩ : ∃ linked,
      writeEntry (fill other.mem page 4096 0) table index entry = linked := ⟨_, rfl⟩
  have reread : readEntry linked table index = entry := by
    rw [← linkedIs, read_write_same]
  refine ⟨⟨other.hhdm, writeEntry linked table index (flags.onTable entry), other.head⟩,
    ?_, rfl, rfl, ?_, ?_, ?_⟩
  · simp only [setupTable, if_pos vacant, takes.result, if_neg takes.nonzero, applyTableFlags,
      pageValue, entrySame, entryIs, linkedIs, reread, on_table_frame, frame]
  · rw [entryIs]
    simp only [read_write_same]
  · intro slot
    rw [← read_fill_zero other.mem page slot]
    apply read_entry_congr
    intro address inside
    have outside : ¬Within (table + 8 * index.toNat) 8 address := by
      intro inSlot
      apply apart address _ inside
      unfold Within at inSlot ⊢
      omega
    simp only [← linkedIs]
    rw [write_entry_slot _ _ _ _ outside, write_entry_slot _ _ _ _ outside]
  · intro address outPage outSlot
    simp only [← linkedIs]
    rw [write_entry_slot _ _ _ _ outSlot, write_entry_slot _ _ _ _ outSlot,
      fill_outside _ _ _ _ _ outPage]

/-- What one table block does to the slot it visits. -/
inductive TableStep (roots : Nat → Prop) (owns : Nat → Slot → Prop) (flags : MapFlags)
    (root : Nat) (path : List Slot) (table : Nat) (index : Slot) (state : PhysicalState)
    (blocks : List Span) (child : Nat) (other : PhysicalState) (remaining : List Span) : Prop
  | kept (occupied : (readEntry state.mem table index).ppn ≠ 0)
      (update : SlotUpdate state blocks table index other blocks)
      (same : remaining = blocks)
      (entry : readEntry other.mem table index = flags.onTable (readEntry state.mem table index))
      (frame : child = (readEntry state.mem table index).frame)
  | linked (vacant : (readEntry state.mem table index).ppn = 0)
      (update : SlotUpdate state blocks table index other remaining)
      (entry : readEntry other.mem table index =
        flags.onTable ((readEntry state.mem table index).setPage (BitVec.ofNat 64 child)))
      (links : LinksBlank childTable roots owns (readEntry state.mem) (readEntry other.mem) root
        path table index child)
      (blank : ∀ slot, readEntry other.mem child slot = blankEntry)
      (inside : ∀ address, Within child 4096 address → FreeAt blocks address)
      (left : ∀ address, FreeAt remaining address ↔
        FreeAt blocks address ∧ ¬Within child 4096 address)
      (bytes : freeBytes blocks = freeBytes remaining + 4096)

theorem setup_table_cases (flags : MapFlags) (tables : TableForest roots owns state blocks)
    (reached : Reaches childTable roots owns (readEntry state.mem) root path table)
    (slotOwned : Owned owns root (path ++ [index])) (upper : path.length < 3)
    (small : 0 < path.length → (readEntry state.mem table index).z = false) :
    (∃ child other remaining, setupTable flags state table index = (some child, other) ∧
        TableStep roots owns flags root path table index state blocks child other remaining) ∨
      ((readEntry state.mem table index).ppn = 0 ∧ blocks = [] ∧
        setupTable flags state table index = (none, state)) := by
  have aligned := tables.table_aligned reached
  have offList := tables.offList root path table reached
  have indexBound := index.isLt
  have slotInTable : ∀ address, Within (table + 8 * index.toNat) 8 address →
      Within table 4096 address := by
    unfold Within
    omega
  by_cases vacant : (readEntry state.mem table index).ppn = 0
  · rcases allocate_cases tables.list with ⟨nothing, refused⟩ | ⟨page, other, remaining, takes⟩
    · refine Or.inr ⟨vacant, nothing, ?_⟩
      simp only [setupTable, if_pos vacant, refused, if_true]
    · have bound : page + 4096 ≤ 2 ^ 52 := by
        have last := tables.bounded (page + 4095)
          (takes.inside _ ⟨by omega, by omega⟩)
        have pageAligned := takes.aligned
        omega
      obtain ⟨final, result, hhdm, head, entry, blank, frame⟩ :=
        setup_table_vacant flags vacant takes offList bound
      have update : SlotUpdate state blocks table index final remaining := by
        refine ⟨hhdm.trans takes.hhdm, ?_, fun address free => ((takes.left address).mp free).1, ?_⟩
        · apply takes.list.frame hhdm head
          intro block member address covers
          have free := (takes.left address).mp ⟨block, member, covers⟩
          apply frame address free.2
          intro inSlot
          exact offList address (slotInTable address inSlot) free.1
        · intro address outside outSlot
          rw [frame address (fun inside => outside (takes.inside address inside)) outSlot]
          exact takes.frame address outside
      have smallNew : 0 < path.length → ((readEntry state.mem table index).setPage
          (BitVec.ofNat 64 page)).z = false := by
        rw [set_page_z]
        exact small
      refine Or.inl ⟨page, final, remaining, result, .linked vacant update entry ?_ blank
        takes.inside takes.left takes.bytes⟩
      refine ⟨reached, slotOwned, child_table_none vacant, ?_, ?_, ?_,
        update.differs tables reached⟩
      · rw [entry, child_table_on_table]
        rw [child_table_some upper (set_page_occupied _ takes.above bound) smallNew,
          set_page_frame _ takes.aligned bound]
      · intro start route here
        exact tables.offList start route page here page ⟨by omega, by omega⟩
          (takes.inside page ⟨by omega, by omega⟩)
      · intro slot
        rw [blank slot]
        exact child_table_none rfl
  · obtain ⟨other, result, hhdm, head, entry, frame⟩ := setup_table_occupied flags vacant
    refine Or.inl ⟨_, other, blocks, result, .kept vacant ⟨hhdm, ?_, fun _ free => free, ?_⟩ rfl
      entry rfl⟩
    · apply tables.list.frame hhdm head
      intro block member address covers
      apply frame address
      intro inSlot
      exact offList address (slotInTable address inSlot) ⟨block, member, covers⟩
    · intro address _ outSlot
      exact frame address outSlot

theorem TableStep.update {flags : MapFlags} {child : Nat}
    (step : TableStep roots owns flags root path table index state blocks child other remaining) :
    SlotUpdate state blocks table index other remaining := by
  cases step with
  | kept _ update same _ _ =>
      rw [same]
      exact update
  | linked _ update _ _ _ _ _ _ => exact update

/-- After a table block the forest stands and the walk is one table longer. -/
theorem TableStep.forest {flags : MapFlags} {child : Nat}
    (step : TableStep roots owns flags root path table index state blocks child other remaining)
    (tables : TableForest roots owns state blocks)
    (reached : Reaches childTable roots owns (readEntry state.mem) root path table)
    (slotOwned : Owned owns root (path ++ [index])) (upper : path.length < 3)
    (small : 0 < path.length → (readEntry state.mem table index).z = false) :
    TableForest roots owns other remaining ∧
      Reaches childTable roots owns (readEntry other.mem) root (path ++ [index]) child := by
  cases step with
  | kept occupied update same entry frame =>
      have child : childTable path.length (readEntry other.mem table index) =
          childTable path.length (readEntry state.mem table index) := by
        rw [entry, child_table_on_table]
      rw [same]
      refine ⟨tables.rewrite reached update child, ?_⟩
      rw [rewrite_reaches reached tables.forest (update.differs tables reached) child]
      refine ⟨reached.live, slotOwned, ?_⟩
      rw [walk_through reached, child_table_some upper occupied small, frame]
      rfl
  | linked vacant update entry links blank inside left bytes =>
      refine ⟨tables.link update links ?_, ?_⟩
      · intro address within free
        exact ((left address).mp free).2 within
      · rw [links.reaches_iff tables.forest]
        exact Or.inr ⟨rfl, rfl, rfl⟩

/-- A property of entries that blank entries have and the table blocks restore
carries over a table block. -/
theorem TableStep.every {flags : MapFlags} {child : Nat} {Property : Nat → PageEntry → Prop}
    (step : TableStep roots owns flags root path table index state blocks child other remaining)
    (tables : TableForest roots owns state blocks)
    (reached : Reaches childTable roots owns (readEntry state.mem) root path table)
    (every : EveryEntry roots owns Property (readEntry state.mem))
    (blankHolds : ∀ depth, Property depth blankEntry)
    (here : ∀ entry, entry.ppn ≠ 0 → entry.z = (readEntry state.mem table index).z →
      Property path.length (flags.onTable entry)) :
    EveryEntry roots owns Property (readEntry other.mem) := by
  cases step with
  | kept occupied update same entry frame =>
      have sameChild : childTable path.length (readEntry other.mem table index) =
          childTable path.length (readEntry state.mem table index) := by
        rw [entry, child_table_on_table]
      have differs := update.differs tables reached
      apply every.update blankHolds tables.forest reached differs
      · intro start route page there
        exact Or.inl ((rewrite_reaches reached tables.forest differs sameChild).mp there)
      · intro _
        rw [entry]
        exact here _ occupied rfl
  | linked vacant update entry links blank inside left bytes =>
      apply every.update blankHolds tables.forest reached links.differs
      · intro start route page there
        rcases (links.reaches_iff tables.forest).mp there with old | new
        · exact Or.inl old
        · rw [new.2.2]
          exact Or.inr blank
      · intro _
        have linked := (child_table_frame links.linked).2.2.1
        rw [entry, on_table_ppn] at linked
        rw [entry]
        exact here _ linked (set_page_z _ _)

/-- What a table block must preserve for `Holds` to carry over a whole call. The
first argument of `Holds` is the part of `full` already walked. -/
structure StepInvariant (roots : Nat → Prop) (owns : Nat → Slot → Prop) (flags : MapFlags)
    (root : Nat) (full : List Slot)
    (Holds : List Slot → Nat → PhysicalState → List Span → Prop) : Prop where
  small : ∀ path table index rest state blocks, full = path ++ index :: rest →
    Reaches childTable roots owns (readEntry state.mem) root path table →
    Holds path table state blocks → 0 < path.length → (readEntry state.mem table index).z = false
  step : ∀ path table index rest state blocks child other remaining, full = path ++ index :: rest →
    TableForest roots owns state blocks →
    Reaches childTable roots owns (readEntry state.mem) root path table →
    Holds path table state blocks →
    TableStep roots owns flags root path table index state blocks child other remaining →
    Holds (path ++ [index]) child other remaining

variable {flags : MapFlags} {full : List Slot}
variable {Holds : List Slot → Nat → PhysicalState → List Span → Prop}

theorem setup_tables_cases (invariant : StepInvariant roots owns flags root full Holds)
    (short : full.length ≤ 3) (owned : Owned owns root full) (indexes : List Slot) :
    ∀ path table state blocks, full = path ++ indexes → TableForest roots owns state blocks →
      Reaches childTable roots owns (readEntry state.mem) root path table →
      Holds path table state blocks →
      ∃ result other remaining, setupTables flags state table indexes = (result, other) ∧
        TableForest roots owns other remaining ∧
        ((∃ last, result = some last ∧
            Reaches childTable roots owns (readEntry other.mem) root full last ∧
            Holds full last other remaining) ∨
          (result = none ∧ remaining = [] ∧
            walk childTable (readEntry other.mem) 0 root full = none ∧
            ∃ stopped page, stopped.length < full.length ∧ Holds stopped page other [])) := by
  induction indexes with
  | nil =>
      intro path table state blocks whole tables reached holds
      rw [List.append_nil] at whole
      rw [whole]
      refine ⟨some table, state, blocks, ?_, tables, Or.inl ⟨table, rfl, reached, holds⟩⟩
      rw [setupTables, descend_done]
  | cons index rest ih =>
      intro path table state blocks whole tables reached holds
      have upper : path.length < 3 := by
        have lengths := congrArg List.length whole
        rw [List.length_append, List.length_cons] at lengths
        omega
      have slotOwned : Owned owns root (path ++ [index]) := by
        rw [whole] at owned
        exact owned.through
      have small := invariant.small path table index rest state blocks whole reached holds
      rcases setup_table_cases flags tables reached slotOwned upper small with
        ⟨child, other, remaining, result, step⟩ | ⟨vacant, nothing, result⟩
      · obtain ⟨nextTables, nextReached⟩ := step.forest tables reached slotOwned upper small
        have nextHolds := invariant.step path table index rest state blocks child other remaining
          whole tables reached holds step
        obtain ⟨final, last, left, run, rest⟩ := ih (path ++ [index]) child other remaining
          (by rw [whole, List.append_assoc]; rfl) nextTables nextReached nextHolds
        refine ⟨final, last, left, ?_, rest⟩
        rw [setupTables] at run ⊢
        rw [descend_found result, run]
      · refine ⟨none, state, blocks, ?_, tables, Or.inr ⟨rfl, nothing, ?_, path, table, ?_, ?_⟩⟩
        · rw [setupTables, descend_missing result]
        · rw [whole, walk_append, reached.walked, Option.bind_some, walk,
            child_table_none vacant, Option.bind_none]
        · rw [whole, List.length_append, List.length_cons]
          omega
        · rw [← nothing]
          exact holds

/-- A table block takes at most one page, so an invariant may keep account of
the free memory a call started from. -/
theorem StepInvariant.supplied (invariant : StepInvariant roots owns flags root full Holds)
    (supply : Nat) :
    StepInvariant roots owns flags root full (fun path table state blocks =>
      Holds path table state blocks ∧ supply ≤ freeBytes blocks + 4096 * path.length) where
  small := fun path table index rest state blocks whole reached holds =>
    invariant.small path table index rest state blocks whole reached holds.1
  step := by
    intro path table index rest state blocks child other remaining whole tables reached holds step
    refine ⟨invariant.step path table index rest state blocks child other remaining whole tables
      reached holds.1 step, ?_⟩
    have account := holds.2
    rw [List.length_append, List.length_singleton]
    cases step with
    | kept _ _ same _ _ =>
        rw [same]
        omega
    | linked _ _ _ _ _ _ _ bytes => omega

/-- The last block of `virtual_map`: one leaf entry is written. -/
structure LeafStep (flags : MapFlags) (physicalAddress : U64) (table : Nat) (index : Slot)
    (state : PhysicalState) (blocks : List Span) (other : PhysicalState) : Prop where
  update : SlotUpdate state blocks table index other blocks
  entry : readEntry other.mem table index =
    flags.onPage physicalAddress (readEntry state.mem table index)

theorem leaf_step (flags : MapFlags) (physicalAddress : U64)
    (tables : TableForest roots owns state blocks)
    (reached : Reaches childTable roots owns (readEntry state.mem) root path table) :
    LeafStep flags physicalAddress table index state blocks
      ⟨state.hhdm, writeEntry state.mem table index
        (flags.onPage physicalAddress (readEntry state.mem table index)), state.head⟩ := by
  have indexBound := index.isLt
  refine ⟨⟨rfl, ?_, fun _ free => free, ?_⟩, read_write_same _ _ _ _⟩
  · apply FreeList.frame tables.list
    · rfl
    · rfl
    · intro block member address covers
      apply write_entry_slot
      intro inSlot
      apply tables.offList root path table reached address _ ⟨block, member, covers⟩
      unfold Within at inSlot ⊢
      omega
  · intro address _ outSlot
    exact write_entry_slot _ _ _ _ outSlot

/-- How a call that does not halt ends: some table is missing and nothing is free,
or the tables are there and the leaf is written. -/
theorem virtual_map_cases {physicalAddress virtualAddress : U64}
    (invariant : StepInvariant roots owns flags root (tablePathOf virtualAddress) Holds)
    (tables : TableForest roots owns state blocks) (live : roots root)
    (owned : owns root (splitVirtualAddressToStructure virtualAddress).pml4)
    (holds : Holds [] root state blocks)
    (physicalAligned : physicalAddress % 4096 = 0) (virtualAligned : virtualAddress % 4096 = 0)
    (canonical : isCanonical virtualAddress = true) :
    (∃ other stopped page,
        virtualMap state root physicalAddress virtualAddress flags = some (false, other) ∧
        TableForest roots owns other [] ∧ stopped.length < 3 ∧ Holds stopped page other [] ∧
        walk childTable (readEntry other.mem) 0 root (tablePathOf virtualAddress) = none) ∨
      ∃ table middle remaining other,
        virtualMap state root physicalAddress virtualAddress flags = some (true, other) ∧
        TableForest roots owns middle remaining ∧
        Reaches childTable roots owns (readEntry middle.mem) root
          (tablePathOf virtualAddress) table ∧
        Holds (tablePathOf virtualAddress) table middle remaining ∧
        LeafStep flags physicalAddress table (lastSlotOf virtualAddress) middle remaining other := by
  have start : Reaches childTable roots owns (readEntry state.mem) root [] root :=
    ⟨live, trivial, rfl⟩
  obtain ⟨result, middle, remaining, run, middleTables, outcome⟩ :=
    setup_tables_cases invariant (by simp [tablePathOf]) owned (tablePathOf virtualAddress) []
      root state blocks rfl tables start holds
  rw [tablePathOf] at run
  have physicalOk : ¬physicalAddress % 4096 ≠ 0 := not_not.mpr physicalAligned
  have virtualOk : ¬virtualAddress % 4096 ≠ 0 := not_not.mpr virtualAligned
  have canonicalOk : ¬(!isCanonical virtualAddress) = true := by simp [canonical]
  rcases outcome with ⟨table, found, reached, after⟩ |
      ⟨missing, nothing, incomplete, stopped, page, early, after⟩
  · refine Or.inr ⟨table, middle, remaining, _, ?_, middleTables, reached, after,
      leaf_step flags physicalAddress middleTables reached⟩
    simp only [virtualMap, if_neg physicalOk, if_neg virtualOk, if_neg canonicalOk, run, found,
      lastSlotOf]
  · rw [nothing] at middleTables
    refine Or.inl ⟨middle, stopped, page, ?_, middleTables, early, after, incomplete⟩
    simp only [virtualMap, if_neg physicalOk, if_neg virtualOk, if_neg canonicalOk, run, missing]

section Leaf

variable {physicalAddress : U64}

theorem LeafStep.same_child
    (_leaf : LeafStep flags physicalAddress table index state blocks other)
    (last : path.length = 3) :
    childTable path.length (readEntry other.mem table index) =
      childTable path.length (readEntry state.mem table index) := by
  rw [child_table_last _ (by omega), child_table_last _ (by omega)]

theorem LeafStep.forest (leaf : LeafStep flags physicalAddress table index state blocks other)
    (tables : TableForest roots owns state blocks)
    (reached : Reaches childTable roots owns (readEntry state.mem) root path table)
    (last : path.length = 3) : TableForest roots owns other blocks :=
  tables.rewrite reached leaf.update (leaf.same_child last)

theorem LeafStep.reaches_iff (leaf : LeafStep flags physicalAddress table index state blocks other)
    (tables : TableForest roots owns state blocks)
    (reached : Reaches childTable roots owns (readEntry state.mem) root path table)
    (last : path.length = 3) {start page : Nat} {route : List Slot} :
    Reaches childTable roots owns (readEntry other.mem) start route page ↔
      Reaches childTable roots owns (readEntry state.mem) start route page :=
  rewrite_reaches reached tables.forest (leaf.update.differs tables reached) (leaf.same_child last)

/-- Nothing above the last level changes. -/
theorem LeafStep.every {Property : Nat → PageEntry → Prop}
    (leaf : LeafStep flags physicalAddress table index state blocks other)
    (tables : TableForest roots owns state blocks)
    (reached : Reaches childTable roots owns (readEntry state.mem) root path table)
    (last : path.length = 3) (every : EveryEntry roots owns Property (readEntry state.mem)) :
    EveryEntry roots owns Property (readEntry other.mem) := by
  intro start route page slot there owned upper
  rw [leaf.reaches_iff tables reached last] at there
  rw [leaf.update.differs tables reached start route page slot there owned]
  · exact every start route page slot there owned upper
  · intro atSlot
    rw [atSlot.1] at there
    rw [(tables.forest there reached).2] at upper
    omega

theorem LeafStep.trail_here (leaf : LeafStep flags physicalAddress table index state blocks other)
    (tables : TableForest roots owns state blocks)
    (reached : Reaches childTable roots owns (readEntry state.mem) root path table) :
    trail childTable (readEntry other.mem) 0 root (path ++ [index]) =
      trail childTable (readEntry state.mem) 0 root path ++
        [flags.onPage physicalAddress (readEntry state.mem table index)] := by
  obtain ⟨kept, keptTrail⟩ :=
    reaches_initial_kept tables.forest reached (leaf.update.differs tables reached)
  rw [trail_last kept, keptTrail, leaf.entry]

theorem LeafStep.trail_elsewhere
    (leaf : LeafStep flags physicalAddress table index state blocks other)
    (tables : TableForest roots owns state blocks)
    (reached : Reaches childTable roots owns (readEntry state.mem) root path table)
    (last : path.length = 3) {start : Nat} {route : List Slot} (live : roots start)
    (owned : Owned owns start route) (four : route.length = 4)
    (elsewhere : ¬(start = root ∧ route = path ++ [index])) :
    trail childTable (readEntry other.mem) 0 start route =
      trail childTable (readEntry state.mem) 0 start route := by
  apply (untouched tables.forest reached (leaf.update.differs tables reached) live owned _).2
  intro through
  obtain ⟨sameRoot, after, split⟩ := through
  have lengths := congrArg List.length split
  rw [List.length_append, List.length_cons, last, four] at lengths
  have nothing : after = [] := List.eq_nil_of_length_eq_zero (by omega)
  rw [nothing] at split
  exact elsewhere ⟨sameRoot, split⟩

end Leaf

/-- A call that returns was given aligned addresses. -/
theorem virtual_map_aligned {physicalAddress virtualAddress : U64} {result : Bool × PhysicalState}
    (run : virtualMap state root physicalAddress virtualAddress flags = some result) :
    physicalAddress % 4096 = 0 ∧ virtualAddress % 4096 = 0 := by
  unfold virtualMap at run
  split_ifs at run with physical virtual
  · exact ⟨not_not.mp physical, not_not.mp virtual⟩
  · exact ⟨not_not.mp physical, not_not.mp virtual⟩

end Forest

end KittyOs.PageForest
