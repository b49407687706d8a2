import KittyOs.PageForest

/-!
# Mapping one page

`virtual_to_physical` read over `virtual_map`. For a page map whose tables form a
tree, a successful call makes the page translate to the requested frame and
leaves every other translation alone; a call that runs out of pages for its
tables leaves all of them alone. The tree survives either way.
-/

namespace KittyOs.VirtualMapping

open KittyOs.Lib.ByteMemory KittyOs.Lib.SpanPartition KittyOs.Lib.RadixForest
open KittyOs.MachineWord KittyOs.PageTable KittyOs.PhysicalModel KittyOs.PhysicalFreelist
open KittyOs.VirtualModel KittyOs.PageForest

set_option autoImplicit false

/-- The only root of a forest that is a single tree. -/
def solo (root : Nat) : Nat → Prop := fun frame => frame = root

def everySlot : Nat → Slot → Prop := fun _ _ => True

/-- `path` selects the table at `table`. -/
abbrev TableAt (slots : Nat → Slot → PageEntry) (root : Nat) (path : List Slot) (table : Nat) :
    Prop :=
  Reaches childTable (solo root) everySlot slots root path table

/-- No large page, and present exactly when there is a table to refer to. -/
def LeveledEntry (depth : Nat) (entry : PageEntry) : Prop :=
  (0 < depth → entry.z = false) ∧ (entry.p = true ↔ entry.ppn ≠ 0)

abbrev Leveled (slots : Nat → Slot → PageEntry) (root : Nat) : Prop :=
  EveryEntry (solo root) everySlot LeveledEntry slots

/-- A page map whose table pages form a tree apart from the free list. -/
structure PageTree (state : PhysicalState) (root : Nat) : Prop where
  tables : ∃ blocks, TableForest (solo root) everySlot state blocks
  leveled : Leveled (readEntry state.mem) root

theorem owned_everywhere (root : Nat) (path : List Slot) : Owned everySlot root path := by
  cases path with
  | nil => trivial
  | cons index rest => trivial

/-! ### Translation as a function of the trail -/

abbrev trailOf (slots : Nat → Slot → PageEntry) (root : Nat) (address : U64) : List PageEntry :=
  trail childTable slots 0 root (pathOf address)

/-- The leaf a complete trail ends in, when it is present. -/
def leafOf : List PageEntry → Option PageEntry
  | [_, _, _, leaf] => if leaf.p then some leaf else none
  | _ => none

def translate (leaf : Option PageEntry) (offset : BitVec 12) : Bool × U64 :=
  match leaf with
  | some leaf => (true, (leaf.ppn.setWidth 64 <<< 12) ||| offset.setWidth 64)
  | none => (false, 0)

theorem leaf_of_short {entries : List PageEntry} (short : entries.length < 4) :
    leafOf entries = none := by
  unfold leafOf
  split
  · simp at short
  · rfl

/-- Entries above the last one do not enter the leaf. -/
theorem leaf_of_upper {before after : List PageEntry} (upper : before.length < 3)
    (entry other : PageEntry) :
    leafOf (before ++ entry :: after) = leafOf (before ++ other :: after) := by
  rcases before with _ | ⟨a, _ | ⟨b, _ | ⟨c, before⟩⟩⟩
  · rcases after with _ | ⟨x, _ | ⟨y, _ | ⟨z, _ | ⟨w, after⟩⟩⟩⟩ <;> rfl
  · rcases after with _ | ⟨x, _ | ⟨y, _ | ⟨z, after⟩⟩⟩ <;> rfl
  · rcases after with _ | ⟨x, _ | ⟨y, after⟩⟩ <;> rfl
  · simp at upper
    omega

theorem leaf_of_absent {before : List PageEntry} {leaf : PageEntry} (absent : leaf.p = false) :
    leafOf (before ++ [leaf]) = none := by
  rcases before with _ | ⟨a, _ | ⟨b, _ | ⟨c, _ | ⟨d, before⟩⟩⟩⟩
  · rfl
  · rfl
  · rfl
  · simp [leafOf, absent]
  · unfold leafOf
    split
    · rename_i shape
      have lengths := congrArg List.length shape
      simp at lengths
    · rfl

theorem leaf_of_present {before : List PageEntry} {leaf : PageEntry} (three : before.length = 3)
    (present : leaf.p = true) : leafOf (before ++ [leaf]) = some leaf := by
  obtain ⟨a, b, c, rfl⟩ := List.length_eq_three.mp three
  simp [leafOf, present]

/-- At a slot above the last level the walk goes on exactly when the entry is
present. -/
theorem leveled_next_table {slots : Nat → Slot → PageEntry} {root table : Nat} {path : List Slot}
    (leveled : Leveled slots root) (here : TableAt slots root path table) (depth : Nat)
    (level : path.length = depth) (upper : depth < 3) (index : Slot) :
    ((slots table index).p = true ∧
        childTable depth (slots table index) = some (slots table index).frame ∧
        TableAt slots root (path ++ [index]) (slots table index).frame) ∨
      ((slots table index).p = false ∧ childTable depth (slots table index) = none) := by
  rw [← level] at upper ⊢
  obtain ⟨small, present⟩ := leveled root path table index here (owned_everywhere _ _) upper
  cases bit : (slots table index).p with
  | false =>
      right
      refine ⟨rfl, child_table_none ?_⟩
      by_contra occupied
      have set := present.mpr occupied
      rw [bit] at set
      exact absurd set (by simp)
  | true =>
      left
      have child := child_table_some upper (present.mp bit) small
      refine ⟨rfl, child, here.live, owned_everywhere _ _, ?_⟩
      rw [walk_append, here.walked]
      simp only [Option.bind_some, walk, Nat.zero_add, child]

theorem virtual_to_physical_trail {mem : Memory} {root : Nat}
    (leveled : Leveled (readEntry mem) root) (address : U64) :
    virtualToPhysical mem root address =
      if isCanonical address then
        translate (leafOf (trailOf (readEntry mem) root address))
          (splitVirtualAddressToStructure address).offset
      else (false, 0) := by
  unfold virtualToPhysical trailOf pathOf VirtualAddress.path
  revert leveled
  generalize readEntry mem = slots
  generalize splitVirtualAddressToStructure address = indexes
  intro leveled
  cases isCanonical address with
  | false => simp only [Bool.not_false, Bool.false_eq_true, if_true, if_false]
  | true =>
      have top : TableAt slots root [] root := ⟨rfl, trivial, rfl⟩
      simp only [Bool.not_true, Bool.false_eq_true, if_true, if_false]
      rcases leveled_next_table leveled top 0 rfl (by simp) indexes.pml4 with
        ⟨pml4e, pdp, atPdp⟩ | ⟨pml4e, stop⟩
      · rcases leveled_next_table leveled atPdp 1 rfl (by simp) indexes.pdp with
          ⟨pdpe, pd, atPd⟩ | ⟨pdpe, stop⟩
        · rcases leveled_next_table leveled atPd 2 rfl (by simp) indexes.pd with
            ⟨pde, pt, atPt⟩ | ⟨pde, stop⟩
          · rw [trail_linked pdp, trail_linked pd, trail_linked pt,
              trail_stopped (child_table_last _ (by omega))]
            simp only [pml4e, pdpe, pde, leafOf, Bool.not_true, Bool.false_eq_true, if_false]
            cases (slots (slots (slots (slots root indexes.pml4).frame indexes.pdp).frame
              indexes.pd).frame indexes.pt).p with
            | false =>
                simp only [Bool.not_false, Bool.false_eq_true, if_true, if_false, translate]
            | true => simp only [Bool.not_true, Bool.false_eq_true, if_true, if_false, translate]
          · rw [trail_linked pdp, trail_linked pd, trail_stopped stop]
            simp only [pml4e, pdpe, pde, leafOf, translate, Bool.not_true, Bool.not_false,
              Bool.false_eq_true, if_true, if_false]
        · rw [trail_linked pdp, trail_stopped stop]
          simp only [pml4e, pdpe, leafOf, translate, Bool.not_true, Bool.not_false,
            Bool.false_eq_true, if_true, if_false]
      · rw [trail_stopped stop]
        simp only [pml4e, leafOf, translate, Bool.not_false, if_true]

/-! ### What the steps of a call keep -/

section Steps

variable {slots other : Nat → Slot → PageEntry} {root table child : Nat}
variable {path : List Slot} {index : Slot}

/-- Rewriting an entry above the last level changes no leaf. -/
theorem leaf_of_rewrite (forest : Forest childTable (solo root) everySlot slots)
    (reached : TableAt slots root path table)
    (differs : DiffersOnlyAt childTable (solo root) everySlot slots other table index)
    (same : childTable path.length (other table index) = childTable path.length (slots table index))
    (upper : path.length < 3) (address : U64) :
    leafOf (trailOf other root address) = leafOf (trailOf slots root address) := by
  by_cases through : Through root path index root (pathOf address)
  · obtain ⟨_, after, route⟩ := through
    obtain ⟨rest, before, now⟩ :=
      rewrite_trail reached forest differs (owned_everywhere _ _) same after
    rw [trailOf, trailOf, route, before, now]
    apply leaf_of_upper
    rw [trail_length reached.walked]
    exact upper
  · rw [trailOf, trailOf,
      (untouched forest reached differs rfl (owned_everywhere _ _) through).2]

/-- Linking a blank table changes no leaf: there was none, and there is none. -/
theorem leaf_of_link (forest : Forest childTable (solo root) everySlot slots)
    (links : LinksBlank childTable (solo root) everySlot slots other root path table index child)
    (blank : ∀ slot, other child slot = blankEntry) (upper : path.length < 3) (address : U64) :
    leafOf (trailOf other root address) = leafOf (trailOf slots root address) := by
  by_cases through : Through root path index root (pathOf address)
  · obtain ⟨_, after, route⟩ := through
    have lengths : path.length + (after.length + 1) = 4 := by
      have whole := congrArg List.length route
      rw [List.length_append, List.length_cons] at whole
      exact whole.symm
    have walked := trail_length links.reached.walked
    have before : leafOf (trailOf slots root address) = none := by
      rw [trailOf, route, (links.stopped after).2]
      apply leaf_of_short
      rw [List.length_append, List.length_singleton]
      omega
    rw [before, trailOf, route, (links.extended forest after).2]
    cases after with
    | nil =>
        rw [List.length_nil] at lengths
        omega
    | cons slot rest =>
        rw [List.head?_cons, Option.map_some, Option.toList_some, blank slot]
        rw [show ∀ front : List PageEntry, front ++ [other table index, blankEntry] =
          (front ++ [other table index]) ++ [blankEntry] by simp]
        exact leaf_of_absent rfl
  · rw [trailOf, trailOf,
      (untouched forest links.reached links.differs rfl (owned_everywhere _ _) through).2]

end Steps

/-- While tables are set up every address keeps the leaf it started with. -/
structure Unmoved (start : Memory) (root : Nat) (state : PhysicalState) : Prop where
  leveled : Leveled (readEntry state.mem) root
  leaves : ∀ address, leafOf (trailOf (readEntry state.mem) root address) =
    leafOf (trailOf (readEntry start) root address)

theorem split_upper {full path rest : List Slot} {index : Slot} (short : full.length ≤ 3)
    (whole : full = path ++ index :: rest) : path.length < 3 := by
  rw [whole, List.length_append, List.length_cons] at short
  omega

theorem blank_leveled (depth : Nat) : LeveledEntry depth blankEntry := by
  refine ⟨fun _ => rfl, ?_⟩
  simp [blankEntry]

theorem unmoved_step {flags : MapFlags} {start : Memory} {root table child : Nat}
    {path : List Slot} {index : Slot} {state other : PhysicalState} {blocks remaining : List Span}
    (mapped : flags.isPresent = true) (upper : path.length < 3)
    (tables : TableForest (solo root) everySlot state blocks)
    (reached : TableAt (readEntry state.mem) root path table)
    (unmoved : Unmoved start root state)
    (step : TableStep (solo root) everySlot flags root path table index state blocks child other
      remaining) :
    Unmoved start root other := by
  have small := (unmoved.leveled root path table index reached (owned_everywhere _ _) upper).1
  refine ⟨step.every tables reached unmoved.leveled blank_leveled ?_, ?_⟩
  · intro entry occupied sameSize
    refine ⟨fun below => ?_, iff_of_true mapped occupied⟩
    rw [on_table_z, sameSize]
    exact small below
  · intro address
    rw [← unmoved.leaves address]
    cases step with
    | kept occupied update same entry frame =>
        have sameChild : childTable path.length (readEntry other.mem table index) =
            childTable path.length (readEntry state.mem table index) := by
          rw [entry, child_table_on_table]
        exact leaf_of_rewrite tables.forest reached (update.differs tables reached) sameChild upper
          address
    | linked vacant update entry links blank inside left bytes =>
        exact leaf_of_link tables.forest links blank upper address

theorem unmoved_invariant {flags : MapFlags} (mapped : flags.isPresent = true) (start : Memory)
    (root : Nat) {full : List Slot} (short : full.length ≤ 3) :
    StepInvariant (solo root) everySlot flags root full
      (fun _ _ state _ => Unmoved start root state) where
  small := by
    intro path table index rest state _ whole reached unmoved below
    exact (unmoved.leveled root path table index reached (owned_everywhere _ _)
      (split_upper short whole)).1 below
  step := by
    intro path table index rest state blocks child other remaining whole tables reached unmoved step
    exact unmoved_step mapped (split_upper short whole) tables reached unmoved step

theorem page_offset_to_nat {address : U64} (aligned : address % 4096 = 0) {offset : Nat}
    (small : offset < 4096) :
    address.toNat % 4096 = 0 ∧
      (address + BitVec.ofNat 64 offset).toNat = address.toNat + offset := by
  have value := congrArg BitVec.toNat aligned
  rw [BitVec.toNat_umod] at value
  have whole : address.toNat % 4096 = 0 := value
  have bound := address.isLt
  refine ⟨whole, ?_⟩
  rw [BitVec.toNat_add, of_nat_to_nat (by omega)]
  omega

/-- The word assembled from a page number and an offset. -/
theorem assemble_address {entry : PageEntry} {address : U64} (aligned : address % 4096 = 0)
    (bound : address.toNat < 2 ^ 52) {offset : BitVec 12} (number : entry.ppn =
      (address >>> 12).setWidth 40) :
    (entry.ppn.setWidth 64 <<< 12) ||| offset.setWidth 64 =
      address + BitVec.ofNat 64 offset.toNat := by
  have small := offset.isLt
  obtain ⟨whole, sum⟩ := page_offset_to_nat aligned small
  apply BitVec.eq_of_toNat_eq
  rw [sum, number]
  simp only [BitVec.toNat_or, BitVec.toNat_shiftLeft, BitVec.toNat_setWidth,
    BitVec.toNat_ushiftRight, Nat.shiftRight_eq_div_pow]
  rw [Nat.mod_eq_of_lt (show offset.toNat < 2 ^ 64 by omega),
    Nat.mod_eq_of_lt (show address.toNat / 2 ^ 12 < 2 ^ 40 by omega),
    Nat.mod_eq_of_lt (show address.toNat / 2 ^ 12 < 2 ^ 64 by omega),
    Nat.mod_eq_of_lt (show (address.toNat / 2 ^ 12) <<< 12 < 2 ^ 64 by
      rw [Nat.shiftLeft_eq]; omega),
    ← Nat.shiftLeft_add_eq_or_of_lt small, Nat.shiftLeft_eq]
  omega

/-- What a call does to the leaf of every address. -/
theorem virtual_map_leaves {state : PhysicalState} {root : Nat} (tree : PageTree state root)
    {physicalAddress virtualAddress : U64} (physicalAligned : physicalAddress % 4096 = 0)
    (virtualAligned : virtualAddress % 4096 = 0) (canonical : isCanonical virtualAddress = true)
    {flags : MapFlags} (mapped : flags.isPresent = true) :
    ∃ success other,
      virtualMap state root physicalAddress virtualAddress flags = some (success, other) ∧
      PageTree other root ∧
      (success = true → ∃ leaf : PageEntry, leaf.ppn = (physicalAddress >>> 12).setWidth 40 ∧
        ∀ address, leafOf (trailOf (readEntry other.mem) root address) =
          if pathOf address = pathOf virtualAddress then some leaf
          else leafOf (trailOf (readEntry state.mem) root address)) ∧
      (success = false → other.head = 0 ∧
        ∀ address, leafOf (trailOf (readEntry other.mem) root address) =
          leafOf (trailOf (readEntry state.mem) root address)) := by
  obtain ⟨blocks, tables⟩ := tree.tables
  have start : Unmoved state.mem root state := ⟨tree.leveled, fun _ => rfl⟩
  rcases virtual_map_cases (unmoved_invariant mapped state.mem root (Nat.le_refl 3)) tables rfl
    trivial start physicalAligned virtualAligned canonical with
    ⟨other, stopped, page, run, otherTables, _, unmoved, _⟩ |
    ⟨table, middle, remaining, other, run, middleTables, reached, unmoved, leaf⟩
  · refine ⟨false, other, run, ⟨⟨_, otherTables⟩, unmoved.leveled⟩, by simp, fun _ => ?_⟩
    exact ⟨otherTables.list.chain, unmoved.leaves⟩
  · have leveled := leaf.every middleTables reached rfl unmoved.leveled
    refine ⟨true, other, run, ⟨⟨_, leaf.forest middleTables reached rfl⟩, leveled⟩,
      fun _ => ⟨flags.onPage physicalAddress (readEntry middle.mem table (lastSlotOf virtualAddress)),
        rfl, ?_⟩, by simp⟩
    intro address
    split_ifs with route
    · rw [trailOf, route, path_of_split, leaf.trail_here middleTables reached,
        leaf_of_present (trail_length reached.walked) mapped]
    · rw [← unmoved.leaves address, trailOf, trailOf, leaf.trail_elsewhere middleTables reached rfl
        rfl (owned_everywhere _ _) rfl]
      intro through
      exact route (through.2.trans (path_of_split _).symm)

/-- `virtual_to_physical` read over `virtual_map`, on success and on each failure. -/
theorem virtual_map_reads_back {state : PhysicalState} {root : Nat} (tree : PageTree state root)
    {physicalAddress virtualAddress : U64} (physicalAligned : physicalAddress % 4096 = 0)
    (physicalBound : physicalAddress.toNat < 2 ^ 52) (virtualAligned : virtualAddress % 4096 = 0)
    (extended : SignExtended virtualAddress) {flags : MapFlags} (mapped : flags.isPresent = true) :
    ∃ success other,
      virtualMap state root physicalAddress virtualAddress flags = some (success, other) ∧
      PageTree other root ∧
      (success = true →
        (∀ offset, offset < 4096 →
          virtualToPhysical other.mem root (virtualAddress + BitVec.ofNat 64 offset) =
            (true, physicalAddress + BitVec.ofNat 64 offset)) ∧
        ∀ address, SignExtended address →
          ¬Within virtualAddress.toNat 4096 address.toNat →
          virtualToPhysical other.mem root address = virtualToPhysical state.mem root address) ∧
      (success = false → other.head = 0 ∧
        ∀ address,
          virtualToPhysical other.mem root address = virtualToPhysical state.mem root address) := by
  obtain ⟨success, other, run, otherTree, succeeds, fails⟩ :=
    virtual_map_leaves tree physicalAligned virtualAligned extended.canonical mapped
  have agree : ∀ address, leafOf (trailOf (readEntry other.mem) root address) =
        leafOf (trailOf (readEntry state.mem) root address) →
      virtualToPhysical other.mem root address = virtualToPhysical state.mem root address := by
    intro address same
    rw [virtual_to_physical_trail otherTree.leveled, virtual_to_physical_trail tree.leveled, same]
  refine ⟨success, other, run, otherTree, fun done => ⟨?_, ?_⟩, fun failed => ?_⟩
  · obtain ⟨leaf, number, leaves⟩ := succeeds done
    intro offset small
    obtain ⟨whole, sum⟩ := page_offset_to_nat virtualAligned small
    have route : pathOf (virtualAddress + BitVec.ofNat 64 offset) = pathOf virtualAddress := by
      apply path_of_page
      omega
    have canonical : isCanonical (virtualAddress + BitVec.ofNat 64 offset) = true := by
      apply SignExtended.canonical
      unfold SignExtended at extended ⊢
      omega
    have remainder : (splitVirtualAddressToStructure
        (virtualAddress + BitVec.ofNat 64 offset)).offset.toNat = offset := by
      rw [split_offset_to_nat]
      omega
    rw [virtual_to_physical_trail otherTree.leveled, if_pos canonical, leaves, if_pos route,
      translate, assemble_address physicalAligned physicalBound number, remainder]
  · obtain ⟨leaf, number, leaves⟩ := succeeds done
    intro address addressExtended outside
    apply agree address
    rw [leaves, if_neg]
    intro route
    have page := page_of_path addressExtended extended route
    have whole := (page_offset_to_nat virtualAligned (show 0 < 4096 by omega)).1
    apply outside
    unfold Within
    omega
  · exact ⟨(fails failed).1, fun address => agree address ((fails failed).2 address)⟩

/-- A table without references reaches nothing but itself. -/
theorem blank_root_reaches {slots : Nat → Slot → PageEntry} {root table : Nat} {path : List Slot}
    (blank : ∀ index, slots root index = blankEntry) (here : TableAt slots root path table) :
    path = [] ∧ table = root := by
  cases path with
  | nil => exact ⟨rfl, (Option.some.inj here.walked).symm⟩
  | cons index rest =>
      obtain ⟨child, linked, _⟩ := Option.bind_eq_some_iff.mp here.walked
      rw [blank index] at linked
      exact absurd rfl (child_table_frame linked).2.2.1

/-- A blank top table at 0x1000 and one free block from 0x2000. -/
def blankMachine (length : U64) : PhysicalState where
  hhdm := 0xffff800000000000
  mem := storeWord (fun _ => 0) 0x2008 length
  head := 0xffff800000002000

theorem blank_machine_blank (length : U64) (index : Slot) :
    readEntry (blankMachine length).mem 0x1000 index = blankEntry := by
  rw [← read_fill_zero (fun _ => 0) 0x1000 index]
  apply read_entry_congr
  intro address inside
  have outside : ¬Within 0x2008 8 address := by
    unfold Within at inside ⊢
    omega
  simp only [blankMachine, storeWord, if_neg outside, fill, ite_self]

section BlankMachine

variable {length : U64} (aligned : length.toNat % 4096 = 0) (occupied : 0 < length.toNat)
variable (bound : length.toNat ≤ 2 ^ 46)

include aligned occupied bound

theorem blank_machine_list : FreeList (blankMachine length) [⟨0x2000, length.toNat⟩] where
  chain := by
    have size : loadWord (blankMachine length).mem 0x2008 = length := load_store_same _ _ _
    have next : loadWord (blankMachine length).mem 0x2000 = 0 := by
      rw [blankMachine, load_store_apart _ _ _ _ (by omega)]
      simp [loadWord]
    refine ⟨show (0xffff800000002000 : U64) ≠ 0 by decide,
      show 0x2000 = ((0xffff800000002000 : U64) - 0xffff800000000000).toNat by decide, ?_, next⟩
    rw [size]
  fit := by
    intro block member
    have hhdm : (blankMachine length).hhdm.toNat = 0xffff800000000000 := rfl
    rw [List.mem_singleton.mp member]
    constructor <;> dsimp only <;> omega
  apart := List.pairwise_singleton _ _

theorem blank_machine_forest :
    TableForest (solo 0x1000) everySlot (blankMachine length) [⟨0x2000, length.toNat⟩] where
  list := blank_machine_list aligned occupied bound
  bounded := by
    intro address free
    obtain ⟨block, member, covers⟩ := free
    rw [List.mem_singleton.mp member] at covers
    unfold Span.Covers at covers
    dsimp only at covers
    omega
  forest := by
    intro root path root' path' table first second
    have left : root = 0x1000 := first.live
    have right : root' = 0x1000 := second.live
    subst left right
    exact ⟨rfl, (blank_root_reaches (blank_machine_blank length) first).1.trans
      (blank_root_reaches (blank_machine_blank length) second).1.symm⟩
  aligned := by
    intro root live
    rw [live]
  offList := by
    intro root path table here address inside free
    rw [here.live] at here
    rw [(blank_root_reaches (blank_machine_blank length) here).2] at inside
    obtain ⟨block, member, covers⟩ := free
    rw [List.mem_singleton.mp member] at covers
    unfold Span.Covers at covers
    unfold Within at inside
    dsimp only at covers
    omega

end BlankMachine

theorem blank_machine_every (length : U64) {Holds : Nat → PageEntry → Prop}
    (blank : ∀ depth, Holds depth blankEntry) :
    EveryEntry (solo 0x1000) everySlot Holds (readEntry (blankMachine length).mem) := by
  intro root path table index here _ _
  have same : root = 0x1000 := here.live
  subst same
  rw [(blank_root_reaches (blank_machine_blank length) here).2, blank_machine_blank]
  exact blank _

/-- A blank top table at 0x1000 and eight free pages from 0x2000. -/
def smallMachine : PhysicalState := blankMachine 0x8000

theorem small_machine_blank (index : Slot) :
    readEntry smallMachine.mem 0x1000 index = blankEntry :=
  blank_machine_blank 0x8000 index

theorem small_machine_forest :
    TableForest (solo 0x1000) everySlot smallMachine [⟨0x2000, 0x8000⟩] :=
  blank_machine_forest (by decide) (by decide) (by decide)

theorem small_machine_tree : PageTree smallMachine 0x1000 where
  tables := ⟨_, small_machine_forest⟩
  leveled := blank_machine_every 0x8000 blank_leveled

theorem small_machine_reads_back :
    ∃ success other,
      virtualMap smallMachine 0x1000 0x10000 0xffff900000000000
          ⟨true, true, true, true, true, false, 0, true⟩ = some (success, other) ∧
      PageTree other 0x1000 ∧
      (success = true →
        (∀ offset, offset < 4096 →
          virtualToPhysical other.mem 0x1000 (0xffff900000000000 + BitVec.ofNat 64 offset) =
            (true, 0x10000 + BitVec.ofNat 64 offset)) ∧
        ∀ address, SignExtended address →
          ¬Within (0xffff900000000000 : U64).toNat 4096 address.toNat →
          virtualToPhysical other.mem 0x1000 address =
            virtualToPhysical smallMachine.mem 0x1000 address) ∧
      (success = false → other.head = 0 ∧
        ∀ address,
          virtualToPhysical other.mem 0x1000 address =
            virtualToPhysical smallMachine.mem 0x1000 address) :=
  virtual_map_reads_back small_machine_tree (by decide) (by decide) (by decide) (by decide) rfl

end KittyOs.VirtualMapping
