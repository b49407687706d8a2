import KittyOs.KernelModel
import KittyOs.MapEffect
import KittyOs.VirtualMapping

/-!
# Translation by leaf entries

Where no large page is in the way and every entry above the last level is present
exactly when it refers to a table, both `virtual_to_physical` and the processor
give an address the page of its live leaf. A page that all levels allow to be
written stays so under later calls that map writable pages elsewhere.
-/

namespace KittyOs.Translation

open KittyOs.Lib.ByteMemory KittyOs.Lib.SpanPartition KittyOs.Lib.RadixForest
open KittyOs.MachineWord KittyOs.PageTable KittyOs.PhysicalModel
open KittyOs.VirtualModel KittyOs.PageForest KittyOs.VirtualMapping KittyOs.MapEffect
open KittyOs.KernelModel

set_option autoImplicit false

/-- A large page, or present exactly when there is a table to refer to. -/
def TidyEntry (depth : Nat) (entry : PageEntry) : Prop :=
  (0 < depth ∧ entry.z = true) ∨ (entry.p = true ↔ entry.ppn ≠ 0)

theorem blank_tidy (depth : Nat) : TidyEntry depth blankEntry := by
  right
  simp [blankEntry]

section Leaves

variable {roots : Nat → Prop} {owns : Nat → Slot → Prop}
variable {slots : Nat → Slot → PageEntry} {root : Nat} {address : U64}

/-- At a slot above the last level the walk goes on exactly when the entry is
present. -/
theorem tidy_next_table (tidy : EveryEntry roots owns TidyEntry slots) {route : List Slot}
    {table : Nat} (here : Reaches childTable roots owns slots root route table) (slot : Slot)
    (owned : Owned owns root (route ++ [slot])) (depth : Nat) (level : route.length = depth)
    (upper : depth < 3) (small : 0 < depth → (slots table slot).z = false) :
    ((slots table slot).p = true ∧
        childTable depth (slots table slot) = some (slots table slot).frame ∧
        Reaches childTable roots owns slots root (route ++ [slot]) (slots table slot).frame) ∨
      ((slots table slot).p = false ∧ childTable depth (slots table slot) = none) := by
  rw [← level] at upper small ⊢
  have present : (slots table slot).p = true ↔ (slots table slot).ppn ≠ 0 := by
    rcases tidy root route table slot here owned upper with ⟨below, large⟩ | present
    · rw [small below] at large
      exact absurd large (by simp)
    · exact present
  cases bit : (slots table slot).p with
  | false =>
      refine Or.inr ⟨rfl, child_table_none ?_⟩
      by_contra occupied
      rw [present.mpr occupied] at bit
      exact absurd bit (by simp)
  | true =>
      have child := child_table_some upper (present.mp bit) small
      refine Or.inl ⟨rfl, child, here.live, owned, ?_⟩
      rw [walk_through here, child]
      rfl

/-- The two walkers and the live leaf, for one address. -/
theorem walkers_of_leaf {mem : Memory} (live : roots root)
    (owned : owns root (splitVirtualAddressToStructure address).pml4)
    (tidy : EveryEntry roots owns TidyEntry (readEntry mem))
    (small : SmallPages (readEntry mem) root address) :
    (liveLeaf (readEntry mem) root address = none ∧ hardwareWalk mem root address = none ∧
        virtualToPhysical mem root address = (false, 0) ∧
        ∀ filter, ensureVirtualMemoryFlags mem root address filter = false) ∨
      ∃ leaf writable, liveLeaf (readEntry mem) root address = some leaf ∧
        hardwareWalk mem root address = some (leaf.frame + address.toNat % 4096, writable) ∧
        (isCanonical address = true → virtualToPhysical mem root address =
          translate (some leaf) (splitVirtualAddressToStructure address).offset) ∧
        ∀ filter, ensureVirtualMemoryFlags mem root address filter = filter leaf := by
  have pmlSmall : ∀ pml table, walk childTable (readEntry mem) 0 root [pml] = some table →
      pml = (splitVirtualAddressToStructure address).pml4 →
      (readEntry mem table (splitVirtualAddressToStructure address).pdp).z = false := by
    intro pml table walked same
    exact small [pml] table _ ⟨[(splitVirtualAddressToStructure address).pd], by
      rw [same]
      rfl⟩ (by simp) walked
  have pdpSmall : ∀ pml pdp table, walk childTable (readEntry mem) 0 root [pml, pdp] = some table →
      pml = (splitVirtualAddressToStructure address).pml4 →
      pdp = (splitVirtualAddressToStructure address).pdp →
      (readEntry mem table (splitVirtualAddressToStructure address).pd).z = false := by
    intro pml pdp table walked samePml samePdp
    exact small [pml, pdp] table _ ⟨[], by
      rw [samePml, samePdp]
      rfl⟩ (by simp) walked
  unfold hardwareWalk virtualToPhysical ensureVirtualMemoryFlags liveLeaf tablePathOf lastSlotOf
  dsimp only
  revert tidy pmlSmall pdpSmall owned
  generalize readEntry mem = slots
  generalize splitVirtualAddressToStructure address = indexes
  intro owned tidy pmlSmall pdpSmall
  have top : Reaches childTable roots owns slots root [] root := ⟨live, trivial, rfl⟩
  rcases tidy_next_table tidy top indexes.pml4 owned 0 rfl (by simp) (by simp) with
    ⟨pml4e, pdp, atPdp⟩ | ⟨pml4e, stop⟩
  · rcases tidy_next_table tidy atPdp indexes.pdp owned 1 rfl (by simp)
        (fun _ => pmlSmall _ _ atPdp.walked rfl) with ⟨pdpe, pd, atPd⟩ | ⟨pdpe, stop⟩
    · rcases tidy_next_table tidy atPd indexes.pd owned 2 rfl (by simp)
          (fun _ => pdpSmall _ _ _ atPd.walked rfl rfl) with ⟨pde, pt, atPt⟩ | ⟨pde, stop⟩
      · rw [walk_linked pdp, walk_linked pd, walk_linked pt]
        simp only [walk, Option.map_some, Option.filter_some, pml4e, pdpe, pde,
          pmlSmall _ _ atPdp.walked rfl, pdpSmall _ _ _ atPd.walked rfl rfl, Bool.not_true,
          Bool.false_eq_true, if_false]
        generalize slots _ indexes.pt = leaf
        cases bit : leaf.p with
        | false =>
            left
            simp only [Bool.not_false, Bool.false_eq_true, if_true, if_false, ite_self, and_self,
              implies_true]
        | true =>
            right
            refine ⟨leaf, _, rfl, rfl, ?_, ?_⟩
            · intro canonical
              simp only [canonical, Bool.not_true, Bool.false_eq_true, if_false, VirtualMapping.translate]
            · intro filter
              simp only [Bool.not_true, Bool.false_eq_true, if_false]
      · left
        rw [walk_linked pdp, walk_linked pd]
        simp only [walk, stop, Option.bind_none, Option.map_none, Option.filter_none, pml4e, pdpe,
          pde, pmlSmall _ _ atPdp.walked rfl, Bool.not_true, Bool.not_false, Bool.false_eq_true,
          if_true, if_false, ite_self, and_self, implies_true]
    · left
      rw [walk_linked pdp]
      simp only [walk, stop, Option.bind_none, Option.map_none, Option.filter_none, pml4e, pdpe,
        Bool.not_true, Bool.not_false, Bool.false_eq_true, if_true, ite_self, and_self,
        implies_true]
  · left
    simp only [walk, stop, Option.bind_none, Option.map_none, Option.filter_none, pml4e,
      Bool.not_false, if_true, ite_self, and_self, implies_true]

/-! ### Writable pages -/

/-- Every level on the way to the page at `frame` is present and writable. -/
structure WritableTo (slots : Nat → Slot → PageEntry) (root : Nat) (address : U64) (frame : Nat) :
    Prop where
  levels : ∀ route slot, Along (pathOf address) route slot →
    ∃ table, walk childTable slots 0 root route = some table ∧
      (slots table slot).p = true ∧ (slots table slot).rw = true
  leaf : ∃ leaf, liveLeaf slots root address = some leaf ∧ leaf.frame = frame

theorem walk_snoc {route : List Slot} {table child : Nat} {slot : Slot}
    (walked : walk childTable slots 0 root route = some table)
    (further : walk childTable slots 0 root (route ++ [slot]) = some child) :
    childTable route.length (slots table slot) = some child := by
  rw [walk_append, walked, Option.bind_some, Nat.zero_add] at further
  obtain ⟨next, linked, same⟩ := Option.bind_eq_some_iff.mp further
  rw [linked]
  exact same

/-- What holds of every entry on the way to a page, level by level. -/
theorem four_levels (Property : PageEntry → Prop)
    (levels : ∀ route slot, Along (pathOf address) route slot →
      ∃ table, walk childTable slots 0 root route = some table ∧ Property (slots table slot)) :
    ∃ pdp pd pt, (slots root (splitVirtualAddressToStructure address).pml4).frame = pdp ∧
      (slots pdp (splitVirtualAddressToStructure address).pdp).frame = pd ∧
      (slots pd (splitVirtualAddressToStructure address).pd).frame = pt ∧
      (slots pdp (splitVirtualAddressToStructure address).pdp).z = false ∧
      (slots pd (splitVirtualAddressToStructure address).pd).z = false ∧
      walk childTable slots 0 root (tablePathOf address) = some pt ∧
      Property (slots root (splitVirtualAddressToStructure address).pml4) ∧
      Property (slots pdp (splitVirtualAddressToStructure address).pdp) ∧
      Property (slots pd (splitVirtualAddressToStructure address).pd) ∧
      Property (slots pt (splitVirtualAddressToStructure address).pt) := by
  revert levels
  unfold pathOf tablePathOf VirtualAddress.path
  generalize splitVirtualAddressToStructure address = indexes
  intro levels
  obtain ⟨top, topWalked, atTop⟩ := levels [] indexes.pml4 ⟨_, rfl⟩
  obtain ⟨pdp, pdpWalked, pdpHas⟩ := levels [indexes.pml4] indexes.pdp ⟨_, rfl⟩
  obtain ⟨pd, pdWalked, pdHas⟩ := levels [indexes.pml4, indexes.pdp] indexes.pd ⟨_, rfl⟩
  obtain ⟨pt, ptWalked, ptHas⟩ :=
    levels [indexes.pml4, indexes.pdp, indexes.pd] indexes.pt ⟨_, rfl⟩
  have sameTop : root = top := Option.some.inj topWalked
  rw [← sameTop] at topWalked atTop
  have atPdp := child_table_frame (walk_snoc topWalked pdpWalked)
  have atPd := child_table_frame (walk_snoc pdpWalked pdWalked)
  have atPt := child_table_frame (walk_snoc pdWalked ptWalked)
  exact ⟨pdp, pd, pt, atPdp.1.symm, atPd.1.symm, atPt.1.symm, by simpa using atPd.2.2.2,
    by simpa using atPt.2.2.2, ptWalked, atTop, pdpHas, pdHas, ptHas⟩

/-- Both walkers find the page, and the processor may write it. -/
theorem WritableTo.walkers {mem : Memory} {frame : Nat}
    (writable : WritableTo (readEntry mem) root address frame) :
    hardwareWalk mem root address = some (frame + address.toNat % 4096, true) ∧
      ∃ leaf : PageEntry, leaf.frame = frame ∧
        (isCanonical address = true → virtualToPhysical mem root address =
          translate (some leaf) (splitVirtualAddressToStructure address).offset) := by
  obtain ⟨levels, leaf, found, here⟩ := writable
  obtain ⟨last, lastWalked, read, present⟩ := live_leaf_some.mp found
  obtain ⟨pdp, pd, pt, atPdp, atPd, atPt, pdpSmall, pdSmall, walked, ⟨pml4p, pml4rw⟩,
    ⟨pdpp, pdprw⟩, ⟨pdep, pderw⟩, _, ptrw⟩ :=
    four_levels (fun entry => entry.p = true ∧ entry.rw = true) levels
  have samePt : last = pt := Option.some.inj (lastWalked.symm.trans walked)
  rw [samePt, lastSlotOf] at read
  rw [read] at ptrw
  unfold hardwareWalk virtualToPhysical
  dsimp only
  rw [atPdp, atPd, atPt, read]
  simp only [pml4p, pml4rw, pdpp, pdprw, pdpSmall, pdep, pderw, pdSmall, present, ptrw, here,
    Bool.not_true, Bool.false_eq_true, if_false, Bool.and_self, true_and]
  refine ⟨leaf, here, ?_⟩
  intro canonical
  simp only [canonical, Bool.not_true, Bool.false_eq_true, if_false, VirtualMapping.translate]

end Leaves

section Calls

variable {roots : Nat → Prop} {owns : Nat → Slot → Prop}
variable {flags : MapFlags} {physicalAddress address target : U64} {root start : Nat}
variable {state other : PhysicalState} {blocks remaining : List Span} {success : Bool}

theorem walk_before {slots : Nat → Slot → PageEntry} {route more : List Slot} {table : Nat}
    (walked : walk childTable slots 0 root (route ++ more) = some table) :
    ∃ before, walk childTable slots 0 root route = some before := by
  rw [walk_append] at walked
  obtain ⟨before, found, _⟩ := Option.bind_eq_some_iff.mp walked
  exact ⟨before, found⟩

theorem along_last_table {route : List Slot} {slot : Slot}
    (along : Along (pathOf address) route slot) (deep : ¬route.length < 3) :
    route = tablePathOf address ∧ slot = lastSlotOf address := by
  have shorter := along.shorter
  have four : (pathOf address).length = 4 := rfl
  have shape := along_last along (by omega)
  rw [path_of_split] at shape
  obtain ⟨sameRoute, sameSlot⟩ := List.append_inj' shape rfl
  exact ⟨sameRoute.symm, (List.cons.inj sameSlot).1.symm⟩

/-- Calls that map writable pages elsewhere leave a writable page writable. -/
theorem writable_kept {frame : Nat}
    (effect : Effect roots owns flags physicalAddress root address state blocks success other
      remaining) (mapped : flags.isPresent = true) (readWrite : flags.isReadWrite = true)
    (live : roots start) (owned : owns start (splitVirtualAddressToStructure target).pml4)
    (elsewhere : ¬(start = root ∧ pathOf target = pathOf address))
    (writable : WritableTo (readEntry state.mem) start target frame) :
    WritableTo (readEntry other.mem) start target frame := by
  constructor
  · intro route slot along
    obtain ⟨table, walked, present, allowed⟩ := writable.levels route slot along
    have old : Reached roots owns state start route table := ⟨live, owned_along owned along, walked⟩
    refine ⟨table, (effect.stays old).walked, ?_⟩
    by_cases above : route.length < 3
    · rcases effect.upper (effect.stays old) slot above with
        ⟨_, same⟩ | ⟨new, _⟩ | ⟨_, entry, flagged, _⟩
      · rw [same]
        exact ⟨present, allowed⟩
      · exact absurd old new
      · rw [flagged]
        exact ⟨mapped, readWrite⟩
    · obtain ⟨sameRoute, sameSlot⟩ := along_last_table along above
      rw [effect.kept old]
      · exact ⟨present, allowed⟩
      · rintro ⟨sameRoot, there⟩
        obtain ⟨otherRoute, otherSlot⟩ := along_last_table there above
        apply elsewhere
        rw [path_of_split, path_of_split, ← sameRoute, ← sameSlot, ← otherRoute, ← otherSlot]
        exact ⟨sameRoot, rfl⟩
  · obtain ⟨leaf, found, here⟩ := writable.leaf
    refine ⟨leaf, ?_, here⟩
    rw [effect.leaf_elsewhere live owned fun all => elsewhere all.2]
    exact found

theorem writable_agrees {frame : Nat} (agrees : Agrees roots owns state other) (live : roots start)
    (owned : owns start (splitVirtualAddressToStructure target).pml4)
    (writable : WritableTo (readEntry state.mem) start target frame) :
    WritableTo (readEntry other.mem) start target frame := by
  constructor
  · intro route slot along
    obtain ⟨table, walked, present, allowed⟩ := writable.levels route slot along
    have old : Reached roots owns state start route table := ⟨live, owned_along owned along, walked⟩
    obtain ⟨after, split⟩ := along
    have whole : Owned owns start (pathOf target) := owned
    rw [split] at whole
    refine ⟨table, (agrees.reached.mpr old).walked, ?_⟩
    rw [agrees start route table slot old whole.through]
    exact ⟨present, allowed⟩
  · rw [agrees.leaf live owned]
    exact writable.leaf

/-- The page a call has just mapped is writable if the call says so. -/
theorem writable_here {page : Nat}
    (effect : Effect roots owns flags (BitVec.ofNat 64 page) root address state blocks true other
      remaining) (mapped : flags.isPresent = true) (readWrite : flags.isReadWrite = true)
    (live : roots root) (owned : owns root (splitVirtualAddressToStructure address).pml4)
    (aligned : page % 4096 = 0) (bound : page + 4096 ≤ 2 ^ 52) :
    WritableTo (readEntry other.mem) root address page := by
  constructor
  · obtain ⟨walked, after, split, progress, succeeded, _⟩ := effect.progress
    obtain ⟨whole, last, here⟩ := succeeded rfl
    rw [whole, List.append_nil] at split
    intro route slot along
    have before : ∃ table, walk childTable (readEntry other.mem) 0 root route = some table := by
      have lastWalked := here.walked
      rw [path_of_split] at along
      rcases along_next along with ⟨rest, shape⟩ | ⟨same, _⟩
      · rw [shape] at lastWalked
        exact walk_before lastWalked
      · rw [same]
        exact ⟨last, lastWalked⟩
    obtain ⟨table, found⟩ := before
    have reached : Reached roots owns other root route table :=
      ⟨live, owned_along owned along, found⟩
    refine ⟨table, found, ?_⟩
    rw [split] at along
    by_cases above : route.length < 3
    · obtain ⟨entry, flagged, _⟩ := progress.flagged route table slot along above reached
      rw [flagged]
      exact ⟨mapped, readWrite⟩
    · have three : route.length = 3 := by
        have shorter := along.shorter
        have four : (pathOf address).length = 4 := rfl
        rw [← split] at shorter
        omega
      obtain ⟨entry, flagged⟩ := progress.leaf route table slot along three reached
      rw [flagged]
      exact ⟨mapped, readWrite⟩
  · obtain ⟨entry, found⟩ := effect.leaf_here mapped
    exact ⟨_, found, set_page_frame entry aligned bound⟩

end Calls

end KittyOs.Translation
