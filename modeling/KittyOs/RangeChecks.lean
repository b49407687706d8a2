import KittyOs.AccessGuards

/-!
# The check of a range of pages

`ensure_virtual_memory_flags_in_range` goes from one rounded bound to the other by
pages. The rounded bounds are page aligned, so the loop meets its end exactly and
never wraps, also at the top of the address space; below there the rounding does not
wrap either, and the answer is that of all pages of the widened range.
-/

namespace KittyOs.RangeChecks

open KittyOs.Lib.ByteMemory KittyOs.MachineWord KittyOs.PageTable KittyOs.VirtualModel
open KittyOs.AccessGuards

set_option autoImplicit false

/-! ### One page -/

/-- The page of an address is present at all four levels and its last entry passes the
filter. -/
def PagePasses (mem : Memory) (pageMap : Nat) (address : U64) (filter : PageEntry → Bool) : Prop :=
  ∃ pml4e pdpe pde pte : PageEntry,
    readEntry mem pageMap (splitVirtualAddressToStructure address).pml4 = pml4e ∧ pml4e.p = true ∧
    readEntry mem pml4e.frame (splitVirtualAddressToStructure address).pdp = pdpe ∧
      pdpe.p = true ∧
    readEntry mem pdpe.frame (splitVirtualAddressToStructure address).pd = pde ∧ pde.p = true ∧
    readEntry mem pde.frame (splitVirtualAddressToStructure address).pt = pte ∧ pte.p = true ∧
    filter pte = true

theorem ensure_flags_iff (mem : Memory) (pageMap : Nat) (address : U64)
    (filter : PageEntry → Bool) :
    ensureVirtualMemoryFlags mem pageMap address filter = true ↔
      PagePasses mem pageMap address filter := by
  unfold ensureVirtualMemoryFlags PagePasses
  simp only [Bool.if_false_left, Bool.and_eq_true, exists_and_left, exists_eq_left',
    Bool.not_eq_true', decide_eq_false_iff_not, Bool.not_eq_false]

/-- Without a filter the check is whether the software walk translates. -/
theorem ensure_flags_translates (mem : Memory) (pageMap : Nat) {address : U64}
    (extended : SignExtended address) :
    ensureVirtualMemoryFlags mem pageMap address (fun _ => true) =
      (virtualToPhysical mem pageMap address).1 := by
  unfold ensureVirtualMemoryFlags virtualToPhysical
  rw [extended.canonical]
  simp only [Bool.not_true, Bool.false_eq_true, if_false]
  split_ifs <;> rfl

/-! ### The loop -/

section Loop

variable (mem : Memory) (pageMap : Nat) (filter : PageEntry → Bool)

/-- The loop of the source, up to a number of rounds: `none` if it has not ended then. -/
def checkPages (rangeEnd : U64) : Nat → U64 → Option Bool
  | 0, _ => none
  | rounds + 1, addr =>
      if addr < rangeEnd then
        if !ensureVirtualMemoryFlags mem pageMap addr filter then some false
        else checkPages rangeEnd rounds (addr + 0x1000)
      else some true

theorem pages_between_next {first last : U64} (aligned : first.toNat % 4096 = 0)
    (lastAligned : last.toNat % 4096 = 0) (below : first.toNat < last.toNat) :
    pagesBetween first last = first :: pagesBetween (first + 0x1000) last := by
  have lastBound := last.isLt
  have next : (first + 0x1000 : U64).toNat = first.toNat + 4096 := by
    have page : (0x1000 : U64).toNat = 4096 := rfl
    rw [BitVec.toNat_add, page]
    omega
  have count : (last.toNat - first.toNat) / 4096 =
      (last.toNat - (first + 0x1000 : U64).toNat) / 4096 + 1 := by
    rw [next]
    omega
  have shifted : ∀ index, first + BitVec.ofNat 64 ((index + 1) * 4096) =
      first + 0x1000 + BitVec.ofNat 64 (index * 4096) := by
    intro index
    rw [Nat.succ_mul, Nat.add_comm, BitVec.ofNat_add, BitVec.add_assoc]
    rfl
  rw [pagesBetween, count, List.range_succ_eq_map, List.map_cons, List.map_map, Nat.zero_mul,
    BitVec.ofNat_eq_ofNat, BitVec.add_zero, pagesBetween]
  apply congrArg (List.cons first)
  apply List.map_congr_left
  intro index _
  exact shifted index

/-- The loop ends after as many rounds as there are pages, and one more. -/
theorem check_pages_ends {first last : U64} (aligned : first.toNat % 4096 = 0)
    (lastAligned : last.toNat % 4096 = 0) {rounds : Nat}
    (enough : (last.toNat - first.toNat) / 4096 < rounds) :
    checkPages mem pageMap filter last rounds first =
      some ((pagesBetween first last).all fun page =>
        ensureVirtualMemoryFlags mem pageMap page filter) := by
  induction rounds generalizing first with
  | zero => omega
  | succ rounds ih =>
      rw [checkPages]
      by_cases below : first < last
      · have order : first.toNat < last.toNat := below
        have lastBound := last.isLt
        have next : (first + 0x1000 : U64).toNat = first.toNat + 4096 := by
          have page : (0x1000 : U64).toNat = 4096 := rfl
          rw [BitVec.toNat_add, page]
          omega
        rw [if_pos below, pages_between_next aligned lastAligned order, List.all_cons,
          ih (by omega) (by omega)]
        cases ensureVirtualMemoryFlags mem pageMap first filter <;> rfl
      · have none : last.toNat ≤ first.toNat := BitVec.not_lt.mp below
        rw [if_neg below, pages_between_empty none]
        rfl

/-- The whole function, with the loop of the source. -/
def checkRange (rangeStart rangeEnd : U64) (rounds : Nat) : Option Bool :=
  if alignDown rangeStart > alignUp rangeEnd then some false
  else checkPages mem pageMap filter (alignUp rangeEnd) rounds (alignDown rangeStart)

theorem check_range_ends (rangeStart rangeEnd : U64) {rounds : Nat} (enough : 2 ^ 52 < rounds) :
    checkRange mem pageMap filter rangeStart rangeEnd rounds =
      some (ensureVirtualMemoryFlagsInRange mem pageMap rangeStart rangeEnd filter) := by
  have lower : (alignDown rangeStart).toNat % 4096 = 0 := by
    rw [align_down_to_nat]
    omega
  have upper : (alignUp rangeEnd).toNat % 4096 = 0 := by
    rw [alignUp, page_mask_to_nat]
    omega
  have bound := (alignUp rangeEnd).isLt
  unfold checkRange ensureVirtualMemoryFlagsInRange
  split_ifs with empty
  · rfl
  · exact check_pages_ends mem pageMap filter lower upper (by omega)

end Loop

/-! ### The range -/

/-- The page with that number meets the range, widened to page boundaries. -/
def Meets (rangeStart rangeEnd page : Nat) : Prop :=
  page * 4096 < (rangeEnd + 4095) / 4096 * 4096 ∧ rangeStart / 4096 * 4096 < page * 4096 + 4096

/-- The check ends and answers for all pages of the range, each as the software walk
would. -/
structure ChecksRange (mem : Memory) (pageMap : Nat) (filter : PageEntry → Bool)
    (rangeStart rangeEnd : U64) : Prop where
  ends : ∀ rounds, 2 ^ 52 < rounds →
    checkRange mem pageMap filter rangeStart rangeEnd rounds =
      some (ensureVirtualMemoryFlagsInRange mem pageMap rangeStart rangeEnd filter)
  answer : ensureVirtualMemoryFlagsInRange mem pageMap rangeStart rangeEnd filter = true ↔
    ∀ page, Meets rangeStart.toNat rangeEnd.toNat page →
      PagePasses mem pageMap (BitVec.ofNat 64 (page * 4096)) filter
  agrees : ∀ address, SignExtended address →
    ensureVirtualMemoryFlags mem pageMap address (fun _ => true) =
      (virtualToPhysical mem pageMap address).1

theorem Meets.of_index {rangeStart rangeEnd index : Nat}
    (below : index < ((rangeEnd + 4095) / 4096 * 4096 - rangeStart / 4096 * 4096) / 4096) :
    Meets rangeStart rangeEnd (rangeStart / 4096 + index) := by
  unfold Meets
  omega

theorem Meets.index {rangeStart rangeEnd page : Nat} (meets : Meets rangeStart rangeEnd page) :
    ∃ index, index < ((rangeEnd + 4095) / 4096 * 4096 - rangeStart / 4096 * 4096) / 4096 ∧
      page = rangeStart / 4096 + index := by
  unfold Meets at meets
  exact ⟨page - rangeStart / 4096, by omega, by omega⟩

theorem pages_between_meets {rangeStart rangeEnd : U64}
    (bound : rangeEnd.toNat ≤ 2 ^ 64 - 4096) (page : U64) :
    page ∈ pagesBetween (alignDown rangeStart) (alignUp rangeEnd) ↔
      ∃ number, Meets rangeStart.toNat rangeEnd.toNat number ∧
        page = BitVec.ofNat 64 (number * 4096) := by
  have first : alignDown rangeStart = BitVec.ofNat 64 (rangeStart.toNat / 4096 * 4096) := by
    rw [← align_down_to_nat, BitVec.ofNat_toNat, BitVec.setWidth_eq]
  have place : ∀ index, alignDown rangeStart + BitVec.ofNat 64 (index * 4096) =
      BitVec.ofNat 64 ((rangeStart.toNat / 4096 + index) * 4096) := by
    intro index
    rw [first, ← BitVec.ofNat_add, Nat.add_mul]
  simp only [pagesBetween, align_down_to_nat, align_up_to_nat rangeEnd (by omega), List.mem_map,
    List.mem_range, place]
  constructor
  · rintro ⟨index, below, rfl⟩
    exact ⟨_, Meets.of_index below, rfl⟩
  · rintro ⟨number, meets, rfl⟩
    obtain ⟨index, below, rfl⟩ := meets.index
    exact ⟨index, below, rfl⟩

theorem range_check_exact {mem : Memory} {pageMap : Nat} {filter : PageEntry → Bool}
    {rangeStart rangeEnd : U64} (ordered : rangeStart ≤ rangeEnd)
    (bound : rangeEnd.toNat ≤ 2 ^ 64 - 4096) :
    ChecksRange mem pageMap filter rangeStart rangeEnd := by
  have order : rangeStart.toNat ≤ rangeEnd.toNat := ordered
  have lower := align_down_to_nat rangeStart
  have upper := align_up_to_nat rangeEnd (by omega)
  have forward : ¬alignDown rangeStart > alignUp rangeEnd := by
    rw [gt_iff_lt, BitVec.lt_def]
    omega
  constructor
  · intro rounds enough
    exact check_range_ends mem pageMap filter rangeStart rangeEnd enough
  · rw [ensureVirtualMemoryFlagsInRange, if_neg forward, List.all_eq_true]
    constructor
    · intro passed page meets
      rw [← ensure_flags_iff]
      exact passed _ ((pages_between_meets bound _).mpr ⟨page, meets, rfl⟩)
    · intro passes page member
      obtain ⟨number, meets, rfl⟩ := (pages_between_meets bound page).mp member
      rw [ensure_flags_iff]
      exact passes number meets
  · intro address extended
    exact ensure_flags_translates mem pageMap extended

theorem last_pages_checked :
    ChecksRange (fun _ => 0xff) 0x1000 (fun _ => true) 0xffffffffffffe800 0xfffffffffffff000 :=
  range_check_exact (by decide) (by decide)

end KittyOs.RangeChecks
