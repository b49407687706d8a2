import KittyOs.VirtualMapping

/-!
# Rights under the hardware walk

The processor combines the four entries of a walk: a page is present, writable
or open to user code only if every level says so, and not executable if any
level says so. `virtual_map` writes its flag arguments into all four levels. The
page it maps gets what was requested but for the user right, which is the opposite:
`is_supervisor` is stored in the bit that admits user code. Pages that share upper
entries with it get the flags too, combined with their own lower entries.
-/

namespace KittyOs.EffectiveRights

open KittyOs.Lib.ByteMemory KittyOs.Lib.SpanPartition KittyOs.Lib.RadixForest
open KittyOs.MachineWord KittyOs.PageTable KittyOs.PhysicalModel KittyOs.PhysicalFreelist
open KittyOs.VirtualModel KittyOs.PageForest KittyOs.VirtualMapping

set_option autoImplicit false

structure Rights where
  present : Bool
  writable : Bool
  user : Bool
  noExecute : Bool
deriving DecidableEq, Repr

def combine (entries : List PageEntry) : Rights where
  present := entries.all PageEntry.p
  writable := entries.all PageEntry.rw
  user := entries.all PageEntry.us
  noExecute := entries.any PageEntry.nx

/-- The four entries the processor reads for an address. -/
def walkEntries (slots : Nat → Slot → PageEntry) (root : Nat) (indexes : VirtualAddress) :
    List PageEntry :=
  let pml4e := slots root indexes.pml4
  let pdpe := slots pml4e.frame indexes.pdp
  let pde := slots pdpe.frame indexes.pd
  [pml4e, pdpe, pde, slots pde.frame indexes.pt]

def effectiveRights (mem : Memory) (root : Nat) (address : U64) : Rights :=
  combine (walkEntries (readEntry mem) root (splitVirtualAddressToStructure address))

/-- The rights a caller of `virtual_map` asks for, in the terms of the walk. -/
def requestedRights (flags : MapFlags) : Rights where
  present := flags.isPresent
  writable := flags.isReadWrite
  user := !flags.isSupervisor
  noExecute := flags.disableExecution

/-- The rights the mapped page gets. -/
def grantedRights (flags : MapFlags) : Rights :=
  { requestedRights flags with user := flags.isSupervisor }

theorem granted_not_requested (flags : MapFlags) : grantedRights flags ≠ requestedRights flags := by
  intro same
  have user : flags.isSupervisor = !flags.isSupervisor := congrArg Rights.user same
  cases supervisor : flags.isSupervisor <;> simp [supervisor] at user

/-- No large page, and a present entry refers to a table; page zero is not one. -/
def ReferringEntry (depth : Nat) (entry : PageEntry) : Prop :=
  (0 < depth → entry.z = false) ∧ (entry.p = true → entry.ppn ≠ 0)

/-- Tables in a tree of distinct pages, no large pages. References are page
numbers, whether the entry is present or not. -/
structure RightsTree (state : PhysicalState) (root : Nat) : Prop where
  tables : ∃ blocks, TableForest (solo root) everySlot state blocks
  refers : EveryEntry (solo root) everySlot ReferringEntry (readEntry state.mem)

/-! ### The hardware walk and the trail -/

/-- On a complete trail the processor reads exactly the entries of the trail. -/
theorem walk_entries_trail {slots : Nat → Slot → PageEntry} {root : Nat}
    {indexes : VirtualAddress} (complete : (trail childTable slots 0 root indexes.path).length = 4) :
    walkEntries slots root indexes = trail childTable slots 0 root indexes.path := by
  unfold VirtualAddress.path at complete ⊢
  cases pdp : childTable 0 (slots root indexes.pml4) with
  | none =>
      rw [trail_stopped pdp] at complete
      simp at complete
  | some second =>
      rw [trail_linked pdp] at complete ⊢
      cases pd : childTable 1 (slots second indexes.pdp) with
      | none =>
          rw [trail_stopped pd] at complete
          simp at complete
      | some third =>
          rw [trail_linked pd] at complete ⊢
          cases pt : childTable 2 (slots third indexes.pd) with
          | none =>
              rw [trail_stopped pt] at complete
              simp at complete
          | some fourth =>
              rw [trail_linked pt, trail_stopped (child_table_last _ (by omega))]
              have secondFrame := (child_table_frame pdp).1
              have thirdFrame := (child_table_frame pd).1
              have fourthFrame := (child_table_frame pt).1
              subst secondFrame thirdFrame fourthFrame
              rfl

theorem effective_rights_trail {mem : Memory} {root : Nat} {address : U64}
    (complete : (trailOf (readEntry mem) root address).length = 4) :
    effectiveRights mem root address = combine (trailOf (readEntry mem) root address) := by
  rw [effectiveRights, walk_entries_trail complete, trailOf, pathOf]

/-- A page the processor finds present has a complete trail. -/
theorem mapped_trail {state : PhysicalState} {root : Nat} (tree : RightsTree state root)
    {address : U64} (mapped : (effectiveRights state.mem root address).present = true) :
    (trailOf (readEntry state.mem) root address).length = 4 := by
  have refers := tree.refers
  simp only [effectiveRights, combine, walkEntries, List.all_cons, List.all_nil, Bool.and_true,
    Bool.and_eq_true] at mapped
  unfold trailOf pathOf VirtualAddress.path
  revert refers mapped
  generalize readEntry state.mem = slots
  generalize splitVirtualAddressToStructure address = indexes
  intro refers mapped
  obtain ⟨pml4e, pdpe, pde, _⟩ := mapped
  have top : TableAt slots root [] root := ⟨rfl, trivial, rfl⟩
  have pdp : childTable 0 (slots root indexes.pml4) = some (slots root indexes.pml4).frame :=
    child_table_some (by omega) ((refers root [] root _ top trivial (by simp)).2 pml4e) (by omega)
  have atPdp : TableAt slots root [indexes.pml4] (slots root indexes.pml4).frame := by
    refine ⟨rfl, owned_everywhere _ _, ?_⟩
    rw [walk_linked pdp, walk]
  have pd : childTable 1 (slots (slots root indexes.pml4).frame indexes.pdp) =
      some (slots (slots root indexes.pml4).frame indexes.pdp).frame :=
    child_table_some (by omega) ((refers _ _ _ _ atPdp trivial (by simp)).2 pdpe)
      (refers _ _ _ _ atPdp trivial (by simp)).1
  have atPd : TableAt slots root [indexes.pml4, indexes.pdp]
      (slots (slots root indexes.pml4).frame indexes.pdp).frame := by
    refine ⟨rfl, owned_everywhere _ _, ?_⟩
    rw [walk_linked pdp, walk_linked pd, walk]
  have pt := child_table_some (show 2 < 3 by omega) 
    ((refers _ _ _ _ atPd trivial (by simp)).2 pde) (refers _ _ _ _ atPd trivial (by simp)).1
  rw [trail_linked pdp, trail_linked pd, trail_linked pt,
    trail_stopped (child_table_last _ (by omega))]
  rfl

/-! ### Entries shared between two paths -/

/-- How many slots two paths have in common before they part. -/
def sharedLevels : List Slot → List Slot → Nat
  | left :: lefts, right :: rights => if left = right then sharedLevels lefts rights + 1 else 0
  | _, _ => 0

theorem shared_levels_self (path rest : List Slot) :
    sharedLevels path (path ++ rest) = path.length := by
  induction path with
  | nil => cases rest <;> rfl
  | cons index path ih =>
      rw [List.cons_append, sharedLevels, if_pos rfl, ih, List.length_cons]

/-- A path that does not go through the next slot shares nothing more. -/
theorem shared_levels_apart {path : List Slot} {index : Slot} {route : List Slot}
    (apart : ¬∃ after, route = path ++ index :: after) :
    sharedLevels (path ++ [index]) route = sharedLevels path route := by
  induction path generalizing route with
  | nil =>
      cases route with
      | nil => rfl
      | cons first rest =>
          have different : index ≠ first := by
            intro same
            exact apart ⟨rest, by rw [same]; rfl⟩
          simp [sharedLevels, different]
  | cons slot path ih =>
      cases route with
      | nil => rfl
      | cons first rest =>
          simp only [List.cons_append, sharedLevels]
          by_cases same : slot = first
          · rw [if_pos same, if_pos same, ih]
            intro found
            obtain ⟨after, split⟩ := found
            exact apart ⟨after, by rw [split, same]; rfl⟩
          · rw [if_neg same, if_neg same]

/-- The trail of a page whose first `count` entries took the flags. -/
def overwritten (flags : MapFlags) (count : Nat) (entries : List PageEntry) : List PageEntry :=
  (entries.take count).map flags.onTable ++ entries.drop count

theorem overwritten_length (flags : MapFlags) (count : Nat) (entries : List PageEntry) :
    (overwritten flags count entries).length = entries.length := by
  rw [overwritten, List.length_append, List.length_map, List.length_take, List.length_drop]
  omega

theorem overwritten_next {flags : MapFlags} {entries before after : List PageEntry}
    {entry : PageEntry}
    (split : overwritten flags before.length entries = before ++ entry :: after) :
    overwritten flags (before.length + 1) entries = before ++ flags.onTable entry :: after := by
  have lengths := congrArg List.length split
  rw [overwritten_length, List.length_append, List.length_cons] at lengths
  have takeLength : ((entries.take before.length).map flags.onTable).length = before.length := by
    rw [List.length_map, List.length_take]
    omega
  obtain ⟨front, back⟩ := List.append_inj split takeLength
  have more : entries.take (before.length + 1) = entries.take before.length ++ [entry] := by
    rw [List.take_add, back]
    rfl
  have rest : entries.drop (before.length + 1) = after := by
    rw [← List.drop_drop, back]
    rfl
  rw [overwritten, more, rest, List.map_append, front]
  simp

/-! ### What a call does to the page it maps and to another mapped page -/

/-- Where a call stands after walking `path`: the entries on its way carry the
flags, and the other page's entries do as far as the two paths agree. -/
structure Overwriting (flags : MapFlags) (root : Nat) (address : U64) (entries : List PageEntry)
    (path : List Slot) (state : PhysicalState) : Prop where
  refers : EveryEntry (solo root) everySlot ReferringEntry (readEntry state.mem)
  page : entries.length = 4 → trailOf (readEntry state.mem) root address =
    overwritten flags (sharedLevels path (pathOf address)) entries
  flagged : ∀ entry ∈ trail childTable (readEntry state.mem) 0 root path,
    flags.onTable entry = entry

theorem blank_referring (depth : Nat) : ReferringEntry depth blankEntry :=
  ⟨fun _ => rfl, fun absent => absurd absent (by simp [blankEntry])⟩

theorem overwriting_step {flags : MapFlags} {root table child : Nat} {address : U64}
    {entries : List PageEntry} {path : List Slot} {index : Slot} {state other : PhysicalState}
    {blocks remaining : List Span} (upper : path.length < 3)
    (tables : TableForest (solo root) everySlot state blocks)
    (reached : TableAt (readEntry state.mem) root path table)
    (overwriting : Overwriting flags root address entries path state)
    (step : TableStep (solo root) everySlot flags root path table index state blocks child other
      remaining) :
    Overwriting flags root address entries (path ++ [index]) other := by
  have small := (overwriting.refers root path table index reached (owned_everywhere _ _) upper).1
  have differs := step.update.differs tables reached
  obtain ⟨kept, keptTrail⟩ := reaches_initial_kept tables.forest reached differs
  have written : ∃ before, readEntry other.mem table index = flags.onTable before := by
    cases step with
    | kept _ _ _ entry _ => exact ⟨_, entry⟩
    | linked _ _ entry _ _ _ _ _ => exact ⟨_, entry⟩
  have walked := trail_length reached.walked
  refine ⟨step.every tables reached overwriting.refers blank_referring ?_, ?_, ?_⟩
  · intro entry occupied sameSize
    refine ⟨fun below => ?_, fun _ => occupied⟩
    rw [on_table_z, sameSize]
    exact small below
  · intro complete
    have before := overwriting.page complete
    by_cases through : Through root path index root (pathOf address)
    · obtain ⟨_, after, route⟩ := through
      have levels : sharedLevels (path ++ [index]) (pathOf address) = path.length + 1 := by
        rw [route, show path ++ index :: after = (path ++ [index]) ++ after by simp,
          shared_levels_self, List.length_append, List.length_singleton]
      rw [route, shared_levels_self, ← walked, trailOf, route] at before
      rw [levels, ← walked]
      cases step with
      | kept occupied update same entry frame =>
          have sameChild : childTable path.length (readEntry other.mem table index) =
              childTable path.length (readEntry state.mem table index) := by
            rw [entry, child_table_on_table]
          obtain ⟨rest, was, now⟩ :=
            rewrite_trail reached tables.forest differs (owned_everywhere _ _) sameChild after
          rw [was] at before
          rw [overwritten_next before.symm, trailOf, route, now, entry]
      | linked vacant update entry links blank inside left bytes =>
          rw [(links.stopped after).2] at before
          have lengths := congrArg List.length before
          rw [overwritten_length, complete, List.length_append, List.length_singleton] at lengths
          omega
    · have apart : ¬∃ after, pathOf address = path ++ index :: after := by
        intro found
        exact through ⟨rfl, found⟩
      rw [shared_levels_apart apart, ← before, trailOf, trailOf,
        (untouched tables.forest reached differs rfl (owned_everywhere _ _) through).2]
  · intro entry member
    rw [trail_last kept, keptTrail] at member
    rcases List.mem_append.mp member with earlier | last
    · exact overwriting.flagged entry earlier
    · obtain ⟨old, is⟩ := written
      rw [List.mem_singleton.mp last, is]
      rfl

theorem overwriting_invariant (root : Nat) (flags : MapFlags) (address : U64)
    (entries : List PageEntry) {full : List Slot} (short : full.length ≤ 3) :
    StepInvariant (solo root) everySlot flags root full
      (fun path _ state _ => Overwriting flags root address entries path state) where
  small := by
    intro path table index rest state _ whole reached overwriting below
    exact (overwriting.refers root path table index reached (owned_everywhere _ _)
      (split_upper short whole)).1 below
  step := by
    intro path table index rest state blocks child other remaining whole tables reached overwriting
      step
    exact overwriting_step (split_upper short whole) tables reached overwriting step

theorem all_constant {entries : List PageEntry} (some : entries ≠ []) (value : Bool) :
    entries.all (fun _ => value) = value := by
  cases entries with
  | nil => exact absurd rfl some
  | cons entry rest => cases value <;> simp

theorem any_constant {entries : List PageEntry} (some : entries ≠ []) (value : Bool) :
    entries.any (fun _ => value) = value := by
  cases entries with
  | nil => exact absurd rfl some
  | cons entry rest => cases value <;> simp

/-- Entries that took the flags, followed by the page's own. -/
theorem combine_flagged (flags : MapFlags) {shared : List PageEntry} (some : shared ≠ [])
    (own : List PageEntry) :
    combine (shared.map flags.onTable ++ own) =
      { present := flags.isPresent && own.all PageEntry.p
        writable := flags.isReadWrite && own.all PageEntry.rw
        user := flags.isSupervisor && own.all PageEntry.us
        noExecute := flags.disableExecution || own.any PageEntry.nx } := by
  simp only [combine, List.all_append, List.any_append, List.all_map, List.any_map]
  rw [show PageEntry.p ∘ flags.onTable = fun _ => flags.isPresent from rfl,
    show PageEntry.rw ∘ flags.onTable = fun _ => flags.isReadWrite from rfl,
    show PageEntry.us ∘ flags.onTable = fun _ => flags.isSupervisor from rfl,
    show PageEntry.nx ∘ flags.onTable = fun _ => flags.disableExecution from rfl,
    all_constant some, all_constant some, all_constant some, any_constant some]

theorem combine_granted {flags : MapFlags} {entries : List PageEntry} (some : entries ≠ [])
    (flagged : ∀ entry ∈ entries, flags.onTable entry = entry) :
    combine entries = grantedRights flags := by
  have fixed : entries.map flags.onTable ++ [] = entries := by
    rw [List.append_nil]
    exact (List.map_congr_left flagged).trans (List.map_id' entries)
  rw [← fixed, combine_flagged flags some]
  simp [grantedRights, requestedRights]

/-- The condition under which another mapped page keeps its rights: it shares no
entry with the mapped one, or the call maps a present page and every right it
requests is either what the shared entries granted together or already decided
by the entries the page has to itself. -/
def FlagsAgree (flags : MapFlags) (shared own : List PageEntry) : Prop :=
  shared = [] ∨
    (flags.isPresent = true ∧
      (own.all PageEntry.rw = false ∨ flags.isReadWrite = shared.all PageEntry.rw) ∧
      (own.all PageEntry.us = false ∨ flags.isSupervisor = shared.all PageEntry.us) ∧
      (own.any PageEntry.nx = true ∨ flags.disableExecution = shared.any PageEntry.nx))

theorem and_agree (left right own : Bool) :
    (left && own) = (right && own) ↔ own = false ∨ left = right := by
  cases left <;> cases right <;> cases own <;> decide

theorem or_agree (left right own : Bool) :
    (left || own) = (right || own) ↔ own = true ∨ left = right := by
  cases left <;> cases right <;> cases own <;> decide

theorem combine_overwritten_iff {flags : MapFlags} {shared own : List PageEntry}
    (mapped : (combine (shared ++ own)).present = true) :
    combine (shared.map flags.onTable ++ own) = combine (shared ++ own) ↔
      FlagsAgree flags shared own := by
  by_cases nothing : shared = []
  · rw [nothing]
    exact iff_of_true rfl (Or.inl rfl)
  · rw [combine_flagged flags nothing, FlagsAgree, or_iff_right nothing, combine, Rights.mk.injEq]
    simp only [combine] at mapped
    rw [mapped]
    simp only [List.all_append, Bool.and_eq_true] at mapped
    rw [mapped.2, Bool.and_true, List.all_append, List.all_append, List.any_append, and_agree,
      and_agree, or_agree]

/-- Everything a successful call does to rights. -/
theorem rights_after {state other : PhysicalState} {root : Nat} (tree : RightsTree state root)
    {physicalAddress virtualAddress : U64} {flags : MapFlags}
    (extended : SignExtended virtualAddress)
    (run : virtualMap state root physicalAddress virtualAddress flags = some (true, other))
    (address : U64) :
    RightsTree other root ∧
      effectiveRights other.mem root virtualAddress = grantedRights flags ∧
      (SignExtended address → address.toNat / 4096 ≠ virtualAddress.toNat / 4096 →
        (trailOf (readEntry state.mem) root address).length = 4 →
        effectiveRights other.mem root address =
          combine (overwritten flags (sharedLevels (tablePathOf virtualAddress) (pathOf address))
            (trailOf (readEntry state.mem) root address))) := by
  obtain ⟨blocks, tables⟩ := tree.tables
  obtain ⟨physicalAligned, virtualAligned⟩ := virtual_map_aligned run
  have start : Overwriting flags root address (trailOf (readEntry state.mem) root address) []
      state := by
    refine ⟨tree.refers, fun _ => ?_, ?_⟩
    · rw [show sharedLevels [] (pathOf address) = 0 from rfl, overwritten]
      simp
    · intro entry member
      exact absurd member (by simp [trail])
  rcases virtual_map_cases (overwriting_invariant root flags address _ (Nat.le_refl 3)) tables rfl trivial
    start physicalAligned virtualAligned extended.canonical with
    ⟨_, _, _, failed, _⟩ |
    ⟨table, middle, remaining, last, ran, middleTables, reached, overwriting, leaf⟩
  · rw [failed] at run
    exact absurd run (by simp)
  · rw [run] at ran
    have same : other = last := by simpa using ran
    subst same
    have here := leaf.trail_here middleTables reached
    rw [← path_of_split] at here
    refine ⟨⟨⟨_, leaf.forest middleTables reached rfl⟩,
      leaf.every middleTables reached rfl overwriting.refers⟩, ?_, ?_⟩
    · have complete : (trailOf (readEntry other.mem) root virtualAddress).length = 4 := by
        rw [trailOf, here, List.length_append, trail_length reached.walked]
        rfl
      rw [effective_rights_trail complete]
      apply combine_granted
      · intro nothing
        rw [nothing] at complete
        exact absurd complete (by simp)
      · intro entry member
        rw [trailOf, here] at member
        rcases List.mem_append.mp member with upper | last
        · exact overwriting.flagged entry upper
        · rw [List.mem_singleton.mp last]
          rfl
    · intro addressExtended different complete
      have page := overwriting.page complete
      have kept : trailOf (readEntry other.mem) root address =
          trailOf (readEntry middle.mem) root address := by
        apply leaf.trail_elsewhere middleTables reached rfl rfl (owned_everywhere _ _) rfl
        intro same
        rw [← path_of_split] at same
        exact different (page_of_path addressExtended extended same.2)
      rw [page] at kept
      have keptComplete : (trailOf (readEntry other.mem) root address).length = 4 := by
        rw [kept, overwritten_length, complete]
      rw [← kept, effective_rights_trail keptComplete]

/-- The other page keeps its rights and the mapped page gets those requested. -/
def RightsKept (state other : PhysicalState) (root : Nat) (virtualAddress address : U64)
    (flags : MapFlags) : Prop :=
  effectiveRights other.mem root address = effectiveRights state.mem root address ∧
    effectiveRights other.mem root virtualAddress = requestedRights flags

/-- No successful call gives the mapped page the user right that was requested; another
mapped page keeps its rights exactly when the flags agree with the entries it shares. -/
theorem rights_never_granted {state other : PhysicalState} {root : Nat}
    (tree : RightsTree state root) {physicalAddress virtualAddress address : U64}
    {flags : MapFlags} (extended : SignExtended virtualAddress)
    (addressExtended : SignExtended address)
    (different : address.toNat / 4096 ≠ virtualAddress.toNat / 4096)
    (mapped : (effectiveRights state.mem root address).present = true)
    (run : virtualMap state root physicalAddress virtualAddress flags = some (true, other)) :
    ¬RightsKept state other root virtualAddress address flags ∧
      effectiveRights other.mem root virtualAddress =
        { requestedRights flags with user := !(requestedRights flags).user } ∧
      (effectiveRights other.mem root address = effectiveRights state.mem root address ↔
        FlagsAgree flags
          ((walkEntries (readEntry state.mem) root (splitVirtualAddressToStructure address)).take
            (sharedLevels (tablePathOf virtualAddress) (pathOf address)))
          ((walkEntries (readEntry state.mem) root (splitVirtualAddressToStructure address)).drop
            (sharedLevels (tablePathOf virtualAddress) (pathOf address)))) := by
  have complete := mapped_trail tree mapped
  obtain ⟨_, granted, after⟩ := rights_after tree extended run address
  refine ⟨?_, ?_, ?_⟩
  · rintro ⟨_, requested⟩
    exact granted_not_requested flags (granted.symm.trans requested)
  · rw [granted]
    simp [grantedRights, requestedRights]
  · rw [after addressExtended different complete]
    rw [effectiveRights, walk_entries_trail complete] at mapped ⊢
    rw [← pathOf, ← trailOf] at mapped ⊢
    have whole := List.take_append_drop
      (sharedLevels (tablePathOf virtualAddress) (pathOf address))
      (trailOf (readEntry state.mem) root address)
    rw [← whole] at mapped
    rw [← combine_overwritten_iff mapped, whole, overwritten]

/-- Three free pages are enough for any call. -/
theorem virtual_map_supplied {state : PhysicalState} {root : Nat} {blocks : List Span}
    (tables : TableForest (solo root) everySlot state blocks)
    (refers : EveryEntry (solo root) everySlot ReferringEntry (readEntry state.mem))
    {supply : Nat} (enough : supply + 3 * 4096 ≤ freeBytes blocks)
    {physicalAddress virtualAddress : U64} (physicalAligned : physicalAddress % 4096 = 0)
    (virtualAligned : virtualAddress % 4096 = 0) (extended : SignExtended virtualAddress)
    (flags : MapFlags) :
    ∃ other remaining,
      virtualMap state root physicalAddress virtualAddress flags = some (true, other) ∧
      TableForest (solo root) everySlot other remaining ∧ supply ≤ freeBytes remaining ∧
      EveryEntry (solo root) everySlot ReferringEntry (readEntry other.mem) := by
  have start : Overwriting flags root virtualAddress [] [] state := by
    refine ⟨refers, fun complete => absurd complete (by simp), ?_⟩
    intro entry member
    exact absurd member (by simp [trail])
  have three : (tablePathOf virtualAddress).length = 3 := rfl
  have invariant := overwriting_invariant root flags virtualAddress [] (Nat.le_of_eq three)
  rcases virtual_map_cases (invariant.supplied (supply + 3 * 4096)) tables rfl trivial
      ⟨start, by rw [List.length_nil]; omega⟩ physicalAligned
    virtualAligned extended.canonical with
    ⟨_, _, _, _, _, early, ⟨_, account⟩, _⟩ |
    ⟨table, middle, remaining, other, run, middleTables, reached, overwriting, leaf⟩
  · have nothing : freeBytes [] = 0 := rfl
    omega
  · refine ⟨other, remaining, run, leaf.forest middleTables reached rfl, ?_,
      leaf.every middleTables reached rfl overwriting.1.refers⟩
    have account := overwriting.2
    omega

/-- The flags of a writable, executable, present page. -/
def writableFlags : MapFlags := ⟨true, false, true, false, false, false, 0, true⟩

/-- Two calls on the small machine, one page after the other. -/
theorem small_machine_pair (virtualAddress : U64) (virtualAligned : virtualAddress % 4096 = 0)
    (extended : SignExtended virtualAddress) (flags : MapFlags) :
    ∃ first second, RightsTree first 0x1000 ∧
      virtualMap smallMachine 0x1000 0x10000 0x400000 writableFlags = some (true, first) ∧
      effectiveRights first.mem 0x1000 0x400000 = ⟨true, true, true, false⟩ ∧
      virtualMap first 0x1000 0x11000 virtualAddress flags = some (true, second) := by
  have bytes : freeBytes [⟨0x2000, 0x8000⟩] = 0x8000 := by decide
  have refers := blank_machine_every 0x8000 blank_referring
  obtain ⟨first, remaining, run, tables, supply, later⟩ := virtual_map_supplied
    small_machine_forest refers (show 3 * 4096 + 3 * 4096 ≤ _ by rw [bytes]; omega)
    (show (0x10000 : U64) % 4096 = 0 by decide) (show (0x400000 : U64) % 4096 = 0 by decide)
    (by decide) writableFlags
  obtain ⟨second, _, again, _⟩ := virtual_map_supplied tables later
    (show 0 + 3 * 4096 ≤ _ by omega) (show (0x11000 : U64) % 4096 = 0 by decide) virtualAligned
    extended flags
  have tree : RightsTree smallMachine 0x1000 := ⟨⟨_, small_machine_forest⟩, refers⟩
  exact ⟨first, second, ⟨⟨_, tables⟩, later⟩, run,
    (rights_after tree (by decide) run 0).2.1, again⟩

/-- A page in another top-level slot keeps its rights; the page mapped for user code is
closed to it. -/
theorem distant_page_keeps_rights :
    ∃ first second,
      virtualMap smallMachine 0x1000 0x10000 0x400000 writableFlags = some (true, first) ∧
      virtualMap first 0x1000 0x11000 0xffff900000000000
        ⟨true, true, false, false, false, false, 0, true⟩ = some (true, second) ∧
      effectiveRights second.mem 0x1000 0x400000 = effectiveRights first.mem 0x1000 0x400000 ∧
      effectiveRights second.mem 0x1000 0xffff900000000000 = ⟨true, true, false, true⟩ ∧
      ¬RightsKept first second 0x1000 0xffff900000000000 0x400000
        ⟨true, true, false, false, false, false, 0, true⟩ := by
  obtain ⟨first, second, tree, run, rights, again⟩ := small_machine_pair 0xffff900000000000
    (by decide) (by decide) ⟨true, true, false, false, false, false, 0, true⟩
  obtain ⟨never, mapped, kept⟩ := rights_never_granted tree (by decide)
    (show SignExtended 0x400000 by decide) (by decide) (by rw [rights]) again
  have levels : sharedLevels (tablePathOf 0xffff900000000000) (pathOf 0x400000) = 0 := by decide
  refine ⟨first, second, run, again, kept.mpr (Or.inl ?_), mapped, never⟩
  rw [levels, List.take_zero]

/-- Mapping the next page read-only takes the write right from its neighbour, and admits
user code to a page requested for the supervisor. -/
theorem read_only_neighbour_revokes_write :
    ∃ first second, RightsTree first 0x1000 ∧
      virtualMap smallMachine 0x1000 0x10000 0x400000 writableFlags = some (true, first) ∧
      virtualMap first 0x1000 0x11000 0x401000
        ⟨false, false, true, false, false, false, 0, true⟩ = some (true, second) ∧
      (effectiveRights first.mem 0x1000 0x400000).writable = true ∧
      (effectiveRights second.mem 0x1000 0x400000).writable = false ∧
      (effectiveRights second.mem 0x1000 0x401000).user = true ∧
      (requestedRights ⟨false, false, true, false, false, false, 0, true⟩).user = false := by
  obtain ⟨first, second, tree, run, rights, again⟩ := small_machine_pair 0x401000
    (by decide) (by decide) ⟨false, false, true, false, false, false, 0, true⟩
  have mapped := (rights_after tree (by decide) again 0x400000).2.1
  refine ⟨first, second, tree, run, again, by rw [rights], ?_, by rw [mapped]; rfl, rfl⟩
  have complete := mapped_trail tree (show (effectiveRights first.mem 0x1000 0x400000).present =
    true by rw [rights])
  have levels : sharedLevels (tablePathOf 0x401000) (pathOf 0x400000) = 3 := by decide
  rw [(rights_after tree (by decide) again 0x400000).2.2 (by decide) (by decide) complete, levels,
    overwritten, combine_flagged]
  · rfl
  · intro nothing
    have lengths := congrArg List.length nothing
    rw [List.length_take, complete] at lengths
    exact absurd lengths (by simp)

end KittyOs.EffectiveRights
