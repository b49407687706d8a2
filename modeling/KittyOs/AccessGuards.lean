import KittyOs.ProcessModel

/-!
# The guards of `process_write` and `process_read`

Both functions test the end of the range against 0x80000000, ask for the pages to
be invalidated and check the flags of every page, each time with the word
`at_address + buffer_size`. As long as that sum does not wrap, the three tests
confine the copy. A sum that wraps into the page of `at_address`, or to the end
of the page before it, passes them with one page checked or none.
-/

namespace KittyOs.AccessGuards

open KittyOs.Lib.ByteMemory KittyOs.MachineWord KittyOs.PageTable
open KittyOs.VirtualModel KittyOs.KernelModel KittyOs.ProcessModel

set_option autoImplicit false

/-- If the copy is reached, its bytes lie below 0x80000000, in pages that are
present at all four levels and passed the filter. -/
def CopyConfined (kernel : Kernel) (process : ProcessContext) (address bufferSize : U64)
    (filter : PageEntry → Bool) : Prop :=
  ∀ switched, processAccess kernel process address bufferSize filter = some (.copies switched) →
    address.toNat + bufferSize.toNat ≤ 0x80000000 ∧
      ∀ index, index < bufferSize.toNat → ∃ root,
        rangeRoot switched process address bufferSize = some root ∧
        ensureVirtualMemoryFlags switched.phys.mem root (address + BitVec.ofNat 64 index) filter =
          true

/-- The requests that wrap and still pass every guard. -/
def WrapsThrough (kernel : Kernel) (process : ProcessContext) (address bufferSize : U64)
    (filter : PageEntry → Bool) : Prop :=
  address.toNat < 0x80000000 ∧ 2 ^ 64 ≤ address.toNat + bufferSize.toNat ∧
    address.toNat / 4096 * 4096 < (address + bufferSize).toNat + 4096 ∧
    ∃ switched, setPageMap kernel process.pageMap = (true, switched) ∧
      ((address + bufferSize).toNat ≤ address.toNat / 4096 * 4096 ∨
        ∃ root writable,
          hardwareWalk switched.phys.mem switched.activeMap process.pageMap =
            some (root, writable) ∧
          ensureVirtualMemoryFlags switched.phys.mem root address filter = true)

/-! ### The range check -/

/-- The check looks at an address only through its path. -/
theorem ensure_flags_congr {left right : U64} (path : pathOf left = pathOf right) (mem : Memory)
    (root : Nat) (filter : PageEntry → Bool) :
    ensureVirtualMemoryFlags mem root left filter =
      ensureVirtualMemoryFlags mem root right filter := by
  simp only [pathOf, VirtualAddress.path, List.cons.injEq, and_true] at path
  obtain ⟨pml4, pdp, pd, pt⟩ := path
  simp only [ensureVirtualMemoryFlags, pml4, pdp, pd, pt]

theorem pages_between_member {first last address : U64} (aligned : first.toNat % 4096 = 0)
    (lastAligned : last.toNat % 4096 = 0) (lower : first.toNat ≤ address.toNat)
    (upper : address.toNat < last.toNat) :
    ∃ page ∈ pagesBetween first last, pathOf page = pathOf address := by
  have lastBound := last.isLt
  refine ⟨first + BitVec.ofNat 64 ((address.toNat - first.toNat) / 4096 * 4096), ?_, ?_⟩
  · apply List.mem_map.mpr
    exact ⟨(address.toNat - first.toNat) / 4096, List.mem_range.mpr (by omega), rfl⟩
  · apply path_of_page
    rw [BitVec.toNat_add, of_nat_to_nat (by omega)]
    omega

theorem pages_between_empty {first last : U64} (none : last.toNat ≤ first.toNat) :
    pagesBetween first last = [] := by
  rw [pagesBetween, show (last.toNat - first.toNat) / 4096 = 0 by omega]
  rfl

theorem pages_between_one {first last : U64} (one : last.toNat = first.toNat + 4096) :
    pagesBetween first last = [first] := by
  rw [pagesBetween, show (last.toNat - first.toNat) / 4096 = 1 by omega]
  simp

/-! ### Reaching the copy -/

variable {kernel switched : Kernel} {process : ProcessContext} {address bufferSize : U64}
variable {filter : PageEntry → Bool}

theorem access_copies_iff :
    processAccess kernel process address bufferSize filter = some (.copies switched) ↔
      (address.toNat < 0x80000000 ∧ (address + bufferSize).toNat ≤ 0x80000000) ∧
        setPageMap kernel process.pageMap = (true, switched) ∧
        alignDown address ≤ alignUp (address + bufferSize) ∧
        ∃ root, rangeRoot switched process address bufferSize = some root ∧
          (pagesBetween (alignDown address) (alignUp (address + bufferSize))).all (fun page =>
            ensureVirtualMemoryFlags switched.phys.mem root page filter) = true := by
  have bounds : (decide (address ≥ 0x80000000) ||
      decide (address + bufferSize > 0x80000000)) = true ↔
        ¬(address.toNat < 0x80000000 ∧ (address + bufferSize).toNat ≤ 0x80000000) := by
    have limit : (0x80000000 : U64).toNat = 0x80000000 := rfl
    simp only [Bool.or_eq_true, decide_eq_true_eq, ge_iff_le, gt_iff_lt, BitVec.le_def,
      BitVec.lt_def, limit]
    omega
  unfold processAccess
  by_cases denied : (decide (address ≥ 0x80000000) ||
      decide (address + bufferSize > 0x80000000)) = true
  · rw [if_pos denied]
    refine iff_of_false (by simp) ?_
    intro all
    exact bounds.mp denied all.1
  · rw [if_neg denied, and_iff_right (not_not.mp (fun outside => denied (bounds.mpr outside)))]
    rcases setPageMap kernel process.pageMap with ⟨set, current⟩
    cases set with
    | false => simp
    | true =>
        simp only [Prod.mk.injEq, true_and]
        by_cases ordered : alignDown address ≤ alignUp (address + bufferSize)
        · have invalidated : invalidatePagesInRange address (address + bufferSize) = true := by
            unfold invalidatePagesInRange
            simpa using ordered
          simp only [invalidated, Bool.not_true, Bool.false_eq_true, if_false]
          cases found : rangeRoot current process address bufferSize with
          | none =>
              refine iff_of_false (by simp) ?_
              rintro ⟨same, _, root, present, _⟩
              rw [← same, found] at present
              exact absurd present (by simp)
          | some root =>
              have checked : ensureVirtualMemoryFlagsInRange current.phys.mem root address
                  (address + bufferSize) filter =
                  (pagesBetween (alignDown address) (alignUp (address + bufferSize))).all
                    (fun page => ensureVirtualMemoryFlags current.phys.mem root page filter) := by
                unfold ensureVirtualMemoryFlagsInRange
                rw [if_neg (BitVec.not_lt.mpr ordered)]
              dsimp only
              rw [checked]
              constructor
              · intro copies
                split_ifs at copies with passed
                · have same : current = switched := by simpa using copies
                  subst same
                  exact ⟨rfl, ordered, root, found, passed⟩
                · exact absurd copies (by simp)
              · rintro ⟨same, _, other, present, passed⟩
                subst same
                rw [found] at present
                rw [Option.some.inj present, if_pos passed]
        · have refused : invalidatePagesInRange address (address + bufferSize) = false := by
            unfold invalidatePagesInRange
            simpa using ordered
          simp only [refused, Bool.not_false, if_true]
          refine iff_of_false (by simp) ?_
          intro all
          exact ordered all.2.1

/-- Without a wrap the guards confine the copy. -/
theorem confined_without_wrap (noWrap : address.toNat + bufferSize.toNat < 2 ^ 64) :
    CopyConfined kernel process address bufferSize filter := by
  intro switched reached
  obtain ⟨⟨below, bounded⟩, _, _, root, found, checked⟩ := access_copies_iff.mp reached
  have sum : (address + bufferSize).toNat = address.toNat + bufferSize.toNat := by
    rw [BitVec.toNat_add, Nat.mod_eq_of_lt noWrap]
  rw [sum] at bounded
  refine ⟨bounded, ?_⟩
  intro index small
  have lower := align_down_to_nat address
  have upper := align_up_to_nat (address + bufferSize) (by omega)
  have here : (address + BitVec.ofNat 64 index).toNat = address.toNat + index := by
    rw [BitVec.toNat_add, of_nat_to_nat (by omega)]
    omega
  obtain ⟨page, member, path⟩ := pages_between_member (show (alignDown address).toNat % 4096 = 0 by
    omega) (show (alignUp (address + bufferSize)).toNat % 4096 = 0 by omega)
    (show (alignDown address).toNat ≤ (address + BitVec.ofNat 64 index).toNat by omega)
    (show (address + BitVec.ofNat 64 index).toNat < (alignUp (address + bufferSize)).toNat by omega)
  refine ⟨root, found, ?_⟩
  rw [← ensure_flags_congr path]
  exact List.all_eq_true.mp checked page member

/-- No page is checked when the range ends by the start of its first page. -/
theorem range_check_empty (none : (alignUp (address + bufferSize)).toNat ≤ (alignDown address).toNat) :
    ∃ root, rangeRoot switched process address bufferSize = some root ∧
      (pagesBetween (alignDown address) (alignUp (address + bufferSize))).all (fun page =>
        ensureVirtualMemoryFlags switched.phys.mem root page filter) = true := by
  refine ⟨0, ?_, ?_⟩
  · rw [rangeRoot, pages_between_empty none]
    rfl
  · rw [pages_between_empty none]
    rfl

/-- Only the first page is checked when the range ends inside it. -/
theorem range_check_one
    (one : (alignUp (address + bufferSize)).toNat = (alignDown address).toNat + 4096) :
    (∃ root, rangeRoot switched process address bufferSize = some root ∧
        (pagesBetween (alignDown address) (alignUp (address + bufferSize))).all (fun page =>
          ensureVirtualMemoryFlags switched.phys.mem root page filter) = true) ↔
      ∃ root writable,
        hardwareWalk switched.phys.mem switched.activeMap process.pageMap = some (root, writable) ∧
        ensureVirtualMemoryFlags switched.phys.mem root address filter = true := by
  have path : pathOf (alignDown address) = pathOf address := by
    apply path_of_page
    rw [align_down_to_nat]
    omega
  have walks : rangeRoot switched process address bufferSize =
      (hardwareWalk switched.phys.mem switched.activeMap process.pageMap).map Prod.fst := by
    rw [rangeRoot, pages_between_one one]
    rfl
  rw [walks, pages_between_one one]
  cases hardwareWalk switched.phys.mem switched.activeMap process.pageMap with
  | none => simp
  | some found =>
      obtain ⟨root, writable⟩ := found
      simp [ensure_flags_congr path]

/-- With a wrap the copy is reached exactly by the requests described above. -/
theorem wrapping_copies_iff (wraps : 2 ^ 64 ≤ address.toNat + bufferSize.toNat) :
    (∃ switched, processAccess kernel process address bufferSize filter =
        some (.copies switched)) ↔
      WrapsThrough kernel process address bufferSize filter := by
  have addressBound := address.isLt
  have sizeBound := bufferSize.isLt
  have sum : (address + bufferSize).toNat = address.toNat + bufferSize.toNat - 2 ^ 64 := by
    rw [BitVec.toNat_add]
    omega
  have lower := align_down_to_nat address
  unfold WrapsThrough
  simp only [access_copies_iff, BitVec.le_def]
  by_cases below : address.toNat < 0x80000000
  · have upper := align_up_to_nat (address + bufferSize) (by omega)
    constructor
    · rintro ⟨switched, _, set, ordered, checked⟩
      refine ⟨below, wraps, by omega, switched, set, ?_⟩
      by_cases before : (address + bufferSize).toNat ≤ address.toNat / 4096 * 4096
      · exact Or.inl before
      · exact Or.inr ((range_check_one (by omega)).mp checked)
    · rintro ⟨_, _, near, switched, set, passes⟩
      refine ⟨switched, ⟨below, by omega⟩, set, by omega, ?_⟩
      rcases passes with before | checked
      · exact range_check_empty (by omega)
      · by_cases before : (address + bufferSize).toNat ≤ address.toNat / 4096 * 4096
        · exact range_check_empty (by omega)
        · exact (range_check_one (by omega)).mpr checked
  · simp [below]

/-- The copy is confined exactly when the request is not one that wraps through. -/
theorem copy_confined_iff_not_wraps (kernel : Kernel) (process : ProcessContext)
    (address bufferSize : U64) (filter : PageEntry → Bool) :
    CopyConfined kernel process address bufferSize filter ↔
      ¬WrapsThrough kernel process address bufferSize filter := by
  by_cases wraps : 2 ^ 64 ≤ address.toNat + bufferSize.toNat
  · rw [← wrapping_copies_iff wraps]
    constructor
    · rintro confined ⟨switched, reached⟩
      have bounded := (confined switched reached).1
      omega
    · intro never switched reached
      exact absurd ⟨switched, reached⟩ never
  · refine iff_of_true (confined_without_wrap (by omega)) ?_
    intro through
    exact wraps through.2.1

def exposedEntry (page : U64) : PageEntry := pageMapFlags.onTable (blankEntry.setPage page)

/-- Tables from 0x1000 to 0x4000 that map the page at 0x5000 to 0xffff800000000000. -/
def exposedMemory : Memory :=
  writeEntry
    (writeEntry
      (writeEntry (writeEntry (fun _ => 0) 0x1000 256 (exposedEntry 0x2000)) 0x2000 0
        (exposedEntry 0x3000)) 0x3000 0 (exposedEntry 0x4000)) 0x4000 0 (exposedEntry 0x5000)

def exposedKernel : Kernel where
  phys := ⟨0xffff900000000000, exposedMemory, 0⟩
  range := ⟨0, 0⟩
  kernelPml4 := 0x1000
  heapStart := 0
  heapEnd := 0
  cr3 := 0x1000

/-- A process whose top table is the page mapped there. -/
def exposedProcess : ProcessContext where
  processPath := ""
  processName := ""
  sseState := []
  isPaused := false
  isBeingDebugged := false
  debuggerPid := -1
  level := .user
  threads := []
  pageMap := 0xffff800000000000
  availableVmem := createVmem.2

theorem exposed_page_map_set :
    ∃ switched, setPageMap exposedKernel exposedProcess.pageMap = (true, switched) := by
  have pt : readEntry exposedMemory 0x4000 0 = exposedEntry 0x5000 := by
    rw [exposedMemory, read_write_same]
  have pd : readEntry exposedMemory 0x3000 0 = exposedEntry 0x4000 := by
    rw [exposedMemory, read_write_other _ _ (by decide) (by decide) (by decide), read_write_same]
  have pdp : readEntry exposedMemory 0x2000 0 = exposedEntry 0x3000 := by
    rw [exposedMemory, read_write_other _ _ (by decide) (by decide) (by decide),
      read_write_other _ _ (by decide) (by decide) (by decide), read_write_same]
  have pml4 : readEntry exposedMemory 0x1000 256 = exposedEntry 0x2000 := by
    rw [exposedMemory, read_write_other _ _ (by decide) (by decide) (by decide),
      read_write_other _ _ (by decide) (by decide) (by decide),
      read_write_other _ _ (by decide) (by decide) (by decide), read_write_same]
  have split : splitVirtualAddressToStructure 0xffff800000000000 =
      ⟨0xffff, 256, 0, 0, 0, 0⟩ := by decide
  have translated := virtual_to_physical_present (by decide) split
    (show (readEntry exposedMemory 0x1000 256).p = true by rw [pml4]; decide)
    (show _ = 0x2000 by rw [pml4]; decide)
    (show (readEntry exposedMemory 0x2000 0).p = true by rw [pdp]; decide)
    (show _ = 0x3000 by rw [pdp]; decide)
    (show (readEntry exposedMemory 0x3000 0).p = true by rw [pd]; decide)
    (show _ = 0x4000 by rw [pd]; decide)
    (show (readEntry exposedMemory 0x4000 0).p = true by rw [pt]; decide)
  exact ⟨_, set_page_map_translated translated⟩

/-- With one byte less than the whole word range, the copy is reached and no page
has been checked. -/
theorem wrapping_request_reaches_copy :
    ¬CopyConfined exposedKernel exposedProcess 0x1000 0xffffffffffffffff writeFilter ∧
      ¬CopyConfined exposedKernel exposedProcess 0x1000 0xffffffffffffffff readFilter := by
  have reached : ∀ filter, ∃ switched, processAccess exposedKernel exposedProcess 0x1000
      0xffffffffffffffff filter = some (.copies switched) := by
    intro filter
    obtain ⟨switched, set⟩ := exposed_page_map_set
    exact ⟨switched, access_copies_iff.mpr
      ⟨by decide, set, by decide, range_check_empty (by decide)⟩⟩
  constructor
  · intro confined
    obtain ⟨switched, copies⟩ := reached writeFilter
    exact absurd (confined switched copies).1 (by decide)
  · intro confined
    obtain ⟨switched, copies⟩ := reached readFilter
    exact absurd (confined switched copies).1 (by decide)

end KittyOs.AccessGuards
