import KittyOs.AccessGuards
import KittyOs.FrameRoles

/-!
# What processes see through `process_read` and `process_write`

In an orderly configuration a process address denotes the byte of its leaf. Both
calls switch to the process's page map, check the leaves of the pages in the range
and copy byte by byte; a request that does not wrap is decided by the leaves alone.
A write changes bytes of pages of that process and nothing else: no table, no free
block, no page of another process.
-/

namespace KittyOs.ProcessViews

open KittyOs.Lib.ByteMemory
open KittyOs.MachineWord KittyOs.PageTable KittyOs.PhysicalFreelist
open KittyOs.VirtualModel KittyOs.VirtualMapping KittyOs.MapEffect
open KittyOs.Translation KittyOs.KernelModel KittyOs.ProcessModel KittyOs.AccessGuards
open KittyOs.AddressSpaces KittyOs.KernelCalls KittyOs.SharedHalf KittyOs.FramePlaces
open KittyOs.MemoryRuns KittyOs.FrameRoles

set_option autoImplicit false

/-! ### CR3 -/

theorem cr3_word_to_nat (cr3 word : U64) (aligned : word.toNat % 4096 = 0) :
    ((cr3 &&& 0xfff) ||| word).toNat = cr3.toNat % 4096 + word.toNat := by
  have low : (0xfff : U64).toNat = 2 ^ 12 - 1 := rfl
  have page : word.toNat = (word.toNat / 4096) <<< 12 := by
    rw [Nat.shiftLeft_eq]
    omega
  rw [BitVec.toNat_or, BitVec.toNat_and, low, Nat.and_two_pow_sub_one_eq_mod, Nat.or_comm, page,
    ← Nat.shiftLeft_add_eq_or_of_lt (Nat.mod_lt _ (by omega))]
  omega

theorem cr3_page_to_nat (cr3 : U64) : (cr3 &&& 0xfffffffffffff000).toNat = cr3.toNat / 4096 * 4096 :=
  page_mask_to_nat cr3

/-- The kernel of a configuration under another CR3. -/
abbrev under (config : Config) (cr3 : U64) : Kernel := { config.kernel with cr3 }

/-- `virtual_to_physical` finds the frame in CR3 through the direct map. -/
def DirectMapped (kernel : Kernel) (mem : Memory) : Prop :=
  virtualToPhysical mem kernel.kernelPml4 kernel.currentPageMapAddress =
    (true, kernel.cr3 &&& 0xfffffffffffff000)

section Switching

variable {hole : Hole} {usable : Nat → Prop} {config : Config} {cr3 : U64} {root : Nat}
variable {process : ProcessContext}

/-- The address space of the process becomes the active one. -/
theorem switch_to_process (cr3 : U64) (sound : Sound hole config)
    (linked : Linked config process.pageMap root) :
    ∃ switched, setPageMap (under config cr3) process.pageMap = (true, under config switched) ∧
      switched.toNat = cr3.toNat % 4096 + root ∧ (under config switched).activeMap = root := by
  obtain ⟨leaf, here, translated⟩ := linked.points.writable.walkers.2
  have canonical := (linked.points.contained sound).extended.canonical
  have aligned := sound.tables.aligned root (Or.inr linked.member)
  have word := translate_to_nat leaf process.pageMap
  rw [here, linked.points.aligned, Nat.add_zero] at word
  have result : virtualToPhysical config.mem config.root process.pageMap =
      (true, (translate (some leaf) (splitVirtualAddressToStructure process.pageMap).offset).2) :=
    translated canonical
  have value := cr3_word_to_nat cr3
    (translate (some leaf) (splitVirtualAddressToStructure process.pageMap).offset).2
    (by rw [word]; exact aligned)
  rw [word] at value
  refine ⟨_, set_page_map_translated result, value, ?_⟩
  unfold Kernel.activeMap
  rw [cr3_page_to_nat, value]
  omega

/-- Restoring the page map brings CR3 back, whatever was in between. -/
theorem switch_back {kernel : Kernel} {address : U64}
    (offset : kernel.cr3.toNat % 4096 = cr3.toNat % 4096)
    (direct : virtualToPhysical kernel.phys.mem kernel.kernelPml4 address =
      (true, cr3 &&& 0xfffffffffffff000)) :
    (setPageMap kernel address).2 = { kernel with cr3 } := by
  have restored : (kernel.cr3 &&& 0xfff) ||| (cr3 &&& 0xfffffffffffff000) = cr3 := by
    apply BitVec.eq_of_toNat_eq
    rw [cr3_word_to_nat _ _ (by rw [cr3_page_to_nat]; omega), cr3_page_to_nat, offset]
    omega
  rw [set_page_map_translated direct]
  dsimp only
  rw [restored]

/-- The page map is found under the process's own address space too. -/
theorem own_page_map (orderly : Orderly hole usable config)
    (linked : Linked config process.pageMap root) :
    ∃ writable, hardwareWalk config.mem root process.pageMap = some (root, writable) := by
  have sound := orderly.sound
  obtain ⟨upper, kernelOccupied⟩ := PointsTo.top_slot linked.points sound
  obtain ⟨tidy, refers⟩ := orderly.shares root linked.member _ upper
  have reference := refers.resolve_left linked.upper
  have present := (tidy.resolve_left (by simp)).mpr linked.upper
  have kernelPresent := ((top_tidy sound).resolve_left (by simp)).mpr kernelOccupied
  have walked := linked.points.writable.walkers.1
  rw [linked.points.aligned, Nat.add_zero] at walked
  exact hardware_walk_shared (present.trans kernelPresent.symm) reference walked

end Switching

/-! ### The guards -/

def InBounds (address size : U64) : Prop :=
  address.toNat < 0x80000000 ∧ address.toNat + size.toNat ≤ 0x80000000

/-- Every page of the range has a leaf that passes the filter. -/
def Passes (mem : Memory) (root : Nat) (address size : U64) (filter : PageEntry → Bool) : Prop :=
  ∀ page ∈ pagesBetween (alignDown address) (alignUp (address + size)),
    ∃ leaf, liveLeaf (readEntry mem) root page = some leaf ∧ filter leaf = true

section Guards

variable {hole : Hole} {usable : Nat → Prop} {config : Config} {cr3 : U64} {root : Nat}
variable {process : ProcessContext} {address size : U64}

theorem pages_between_bounds {first last page : U64} (aligned : first.toNat % 4096 = 0)
    (lastAligned : last.toNat % 4096 = 0) (member : page ∈ pagesBetween first last) :
    first.toNat ≤ page.toNat ∧ page.toNat + 4096 ≤ last.toNat := by
  obtain ⟨index, small, same⟩ := List.mem_map.mp member
  have bound := List.mem_range.mp small
  have lastBound := last.isLt
  rw [← same, BitVec.toNat_add, of_nat_to_nat (by omega)]
  omega

/-- In bounds, the pages of a range lie below 0x80000000 and cover it. -/
theorem range_pages (bounds : InBounds address size) :
    (alignDown address).toNat = address.toNat / 4096 * 4096 ∧
      (alignUp (address + size)).toNat = (address.toNat + size.toNat + 4095) / 4096 * 4096 := by
  unfold InBounds at bounds
  have sum : (address + size).toNat = address.toNat + size.toNat := by
    rw [BitVec.toNat_add]
    omega
  rw [align_down_to_nat, align_up_to_nat _ (by omega), sum]
  exact ⟨rfl, rfl⟩

theorem page_lower {page : U64} (bounds : InBounds address size)
    (member : page ∈ pagesBetween (alignDown address) (alignUp (address + size))) :
    page.toNat < 2 ^ 47 := by
  obtain ⟨first, last⟩ := range_pages bounds
  have inside := pages_between_bounds (by omega) (by omega) member
  unfold InBounds at bounds
  omega

theorem ensure_flags_leaf {page : U64} (sound : Sound hole config) (member : root ∈ config.spaces)
    (lower : page.toNat < 2 ^ 47) (filter : PageEntry → Bool) :
    ensureVirtualMemoryFlags config.mem root page filter = true ↔
      ∃ leaf, liveLeaf config.slots root page = some leaf ∧ filter leaf = true := by
  rcases walkers_of_leaf (space_live member) (lower_owned _ _ lower) sound.tidy
    (sound.lower root member page lower) with
    ⟨missing, _, _, refused⟩ | ⟨leaf, _, found, _, _, checked⟩
  · rw [refused, missing]
    simp
  · rw [checked, found]
    simp

/-- The range check reads the leaves of the process. -/
theorem range_check {switched : U64} (orderly : Orderly hole usable config)
    (linked : Linked config process.pageMap root) (bounds : InBounds address size)
    (active : (under config switched).activeMap = root) (filter : PageEntry → Bool) :
    ∃ found, rangeRoot (under config switched) process address size = some found ∧
      (ensureVirtualMemoryFlagsInRange config.mem found address (address + size) filter = true ↔
        Passes config.mem root address size filter) := by
  obtain ⟨first, last⟩ := range_pages bounds
  have ordered : ¬alignDown address > alignUp (address + size) := by
    rw [gt_iff_lt, BitVec.lt_def]
    omega
  unfold rangeRoot ensureVirtualMemoryFlagsInRange
  simp only [if_neg ordered]
  by_cases empty : (pagesBetween (alignDown address) (alignUp (address + size))).isEmpty = true
  · refine ⟨0, by rw [if_pos empty], ?_⟩
    have nothing := List.isEmpty_iff.mp empty
    unfold Passes
    rw [nothing]
    simp
  · obtain ⟨writable, walked⟩ := own_page_map orderly linked
    refine ⟨root, ?_, ?_⟩
    · rw [if_neg empty, active, walked]
      rfl
    · rw [List.all_eq_true]
      constructor
      · intro all page member
        exact (ensure_flags_leaf orderly.sound linked.member (page_lower bounds member) filter).mp
          (all page member)
      · intro passes page member
        exact (ensure_flags_leaf orderly.sound linked.member (page_lower bounds member) filter).mpr
          (passes page member)

/-- How a request that does not wrap is decided. -/
theorem access_cases (orderly : Orderly hole usable config)
    (linked : Linked config process.pageMap root)
    (noWrap : address.toNat + size.toNat < 2 ^ 64) (filter : PageEntry → Bool) :
    (¬InBounds address size ∧
        processAccess (under config cr3) process address size filter = some .denied) ∨
      (InBounds address size ∧ ∃ switched : U64, switched.toNat % 4096 = cr3.toNat % 4096 ∧
        (under config switched).activeMap = root ∧
        ((Passes config.mem root address size filter ∧
            processAccess (under config cr3) process address size filter =
              some (.copies (under config switched))) ∨
          (¬Passes config.mem root address size filter ∧
            processAccess (under config cr3) process address size filter =
              some (.flagsWrong (under config switched))))) := by
  have sum : (address + size).toNat = address.toNat + size.toNat := by
    rw [BitVec.toNat_add, Nat.mod_eq_of_lt noWrap]
  have denied : (decide (address ≥ 0x80000000) || decide (address + size > 0x80000000)) = true ↔
      ¬InBounds address size := by
    have limit : (0x80000000 : U64).toNat = 0x80000000 := rfl
    simp only [Bool.or_eq_true, decide_eq_true_eq, ge_iff_le, gt_iff_lt, BitVec.le_def,
      BitVec.lt_def, limit, sum, InBounds]
    omega
  unfold processAccess
  by_cases bounds : InBounds address size
  · right
    obtain ⟨first, last⟩ := range_pages bounds
    obtain ⟨switched, set, value, active⟩ := switch_to_process cr3 orderly.sound linked
    have aligned := orderly.sound.tables.aligned root (Or.inr linked.member)
    refine ⟨bounds, switched, by omega, active, ?_⟩
    have ordered : ¬alignDown address > alignUp (address + size) := by
      rw [gt_iff_lt, BitVec.lt_def]
      omega
    have invalidated : invalidatePagesInRange address (address + size) = true := by
      rw [invalidatePagesInRange, decide_eq_false ordered]
      rfl
    obtain ⟨found, isFound, checked⟩ := range_check orderly linked bounds active filter
    rw [if_neg (fun outside => denied.mp outside bounds), set]
    dsimp only
    rw [invalidated]
    simp only [Bool.not_true, Bool.false_eq_true, if_false]
    rw [isFound]
    dsimp only
    by_cases passes : Passes config.mem root address size filter
    · exact Or.inl ⟨passes, by rw [if_pos (checked.mpr passes)]⟩
    · exact Or.inr ⟨passes, by rw [if_neg (fun holds => passes (checked.mp holds))]⟩
  · left
    refine ⟨bounds, ?_⟩
    rw [if_pos (denied.mpr bounds)]

end Guards

/-! ### Reading -/

/-- The physical byte behind an address that has a leaf. -/
def byteAt (mem : Memory) (root : Nat) (address : U64) : Nat :=
  ((liveLeaf (readEntry mem) root address).map PageEntry.frame).getD 0 + address.toNat % 4096

theorem copy_in_bytes {mem : Memory} {root : Nat} {address : U64} {source : Nat → Nat} {count : Nat}
    (walks : ∀ index, index < count → ∃ writable,
      hardwareWalk mem root (address + BitVec.ofNat 64 index) = some (source index, writable)) :
    copyIn mem root address count = some ((List.range count).map fun index => mem (source index)) := by
  induction count with
  | zero => simp only [copyIn, List.range_zero, List.map_nil]
  | succ count ih =>
      obtain ⟨writable, walked⟩ := walks count (by omega)
      rw [copyIn, ih fun index small => walks index (by omega), Option.bind_some, walked,
        Option.map_some, List.range_succ, List.map_append, List.map_singleton]

section Reading

variable {hole : Hole} {usable : Nat → Prop} {config : Config} {cr3 : U64} {root : Nat}
variable {process : ProcessContext} {address size : U64}

theorem offset_to_nat {index : Nat} (bounds : InBounds address size) (small : index < size.toNat) :
    (address + BitVec.ofNat 64 index).toNat = address.toNat + index := by
  unfold InBounds at bounds
  rw [BitVec.toNat_add, of_nat_to_nat (by omega)]
  omega

/-- Every byte of a range that passes has a leaf. -/
theorem passes_leaf {mem : Memory} {filter : PageEntry → Bool} {index : Nat}
    (bounds : InBounds address size) (passes : Passes mem root address size filter)
    (small : index < size.toNat) :
    ∃ leaf, liveLeaf (readEntry mem) root (address + BitVec.ofNat 64 index) = some leaf ∧
      filter leaf = true := by
  obtain ⟨first, last⟩ := range_pages bounds
  have here := offset_to_nat bounds small
  obtain ⟨page, member, path⟩ := pages_between_member
    (show (alignDown address).toNat % 4096 = 0 by omega)
    (show (alignUp (address + size)).toNat % 4096 = 0 by omega)
    (show (alignDown address).toNat ≤ (address + BitVec.ofNat 64 index).toNat by omega)
    (show (address + BitVec.ofNat 64 index).toNat < (alignUp (address + size)).toNat by omega)
  rw [← live_leaf_path path]
  exact passes page member

/-- The processor finds the byte of the leaf. -/
theorem walk_byte_at {target : U64} {leaf : PageEntry} (sound : Sound hole config)
    (member : root ∈ config.spaces) (lower : target.toNat < 2 ^ 47)
    (found : liveLeaf config.slots root target = some leaf) :
    byteAt config.mem root target = leaf.frame + target.toNat % 4096 ∧
      ∃ writable, hardwareWalk config.mem root target =
        some (byteAt config.mem root target, writable) := by
  have byte : byteAt config.mem root target = leaf.frame + target.toNat % 4096 := by
    rw [byteAt, found, Option.map_some, Option.getD_some]
  refine ⟨byte, ?_⟩
  rcases walkers_of_leaf (space_live member) (lower_owned _ _ lower) sound.tidy
    (sound.lower root member target lower) with ⟨missing, _⟩ | ⟨entry, writable, same, walked, _⟩
  · rw [found] at missing
    exact absurd missing (by simp)
  · rw [found] at same
    rw [byte, Option.some.inj same]
    exact ⟨writable, walked⟩

/-- What `process_read` returns to a request that does not wrap. -/
theorem process_read_result (orderly : Orderly hole usable config)
    (linked : Linked config process.pageMap root)
    (noWrap : address.toNat + size.toNat < 2 ^ 64)
    (direct : DirectMapped (under config cr3) config.mem) :
    (¬(InBounds address size ∧ Passes config.mem root address size readFilter) ∧
        processRead (under config cr3) process address size = some (false, under config cr3, [])) ∨
      (InBounds address size ∧ Passes config.mem root address size readFilter ∧
        processRead (under config cr3) process address size =
          some (true, under config cr3, (List.range size.toNat).map fun index =>
            config.mem (byteAt config.mem root (address + BitVec.ofNat 64 index)))) := by
  have restore : ∀ {switched : U64}, switched.toNat % 4096 = cr3.toNat % 4096 →
      (setPageMap (under config switched) (under config cr3).currentPageMapAddress).2 =
        under config cr3 := fun offset => switch_back offset direct
  unfold processRead
  rcases access_cases orderly linked noWrap readFilter with
    ⟨outside, denied⟩ | ⟨bounds, switched, offset, active, ⟨passes, copies⟩ | ⟨fails, wrong⟩⟩
  · left
    rw [denied]
    exact ⟨fun both => outside both.1, rfl⟩
  · right
    have walks : ∀ index, index < size.toNat → ∃ writable,
        hardwareWalk config.mem root (address + BitVec.ofNat 64 index) =
          some (byteAt config.mem root (address + BitVec.ofNat 64 index), writable) := by
      intro index small
      obtain ⟨leaf, found, _⟩ := passes_leaf bounds passes small
      have here := offset_to_nat bounds small
      unfold InBounds at bounds
      exact (walk_byte_at orderly.sound linked.member (by omega) found).2
    refine ⟨bounds, passes, ?_⟩
    rw [copies]
    dsimp only
    rw [active, copy_in_bytes walks]
    dsimp only
    rw [restore offset]
  · left
    rw [wrong]
    dsimp only
    rw [restore offset]
    exact ⟨fun both => fails both.2, rfl⟩

end Reading

/-! ### Writing -/

/-- Memory after some bytes of the range have been written. -/
structure Written (config : Config) (root : Nat) (address : U64) (buffer : Nat → Byte) (count : Nat)
    (mem : Memory) : Prop where
  data : DataMemory config mem
  leaves : ∀ index, index < count → ∃ leaf,
    liveLeaf config.slots root (address + BitVec.ofNat 64 index) = some leaf
  bytes : ∀ index, index < count →
    mem (byteAt config.mem root (address + BitVec.ofNat 64 index)) = buffer index
  rest : ∀ byte, (∀ index, index < count →
    byte ≠ byteAt config.mem root (address + BitVec.ofNat 64 index)) → mem byte = config.mem byte

section Writing

variable {hole : Hole} {usable : Nat → Prop} {config : Config} {cr3 : U64} {root : Nat}
variable {process : ProcessContext} {address size : U64} {buffer : Nat → Byte}

theorem leaf_byte {mem : Memory} {target : U64} {leaf : PageEntry}
    (found : liveLeaf (readEntry mem) root target = some leaf) :
    byteAt mem root target = leaf.frame + target.toNat % 4096 := by
  rw [byteAt, found, Option.map_some, Option.getD_some]

/-- Bytes of process pages are in no table and not free. -/
theorem leaf_byte_data {target : U64} {leaf : PageEntry} (orderly : Orderly hole usable config)
    (member : root ∈ config.spaces) (lower : target.toNat < 2 ^ 47)
    (found : liveLeaf config.slots root target = some leaf) :
    (∀ start route table, config.Table start route table →
        ¬Within table 4096 (byteAt config.mem root target)) ∧
      ¬FreeAt config.blocks (byteAt config.mem root target) := by
  have place : Place hole config.root config.spaces root target := Or.inr ⟨member, lower⟩
  have inside : Within leaf.frame 4096 (byteAt config.mem root target) := by
    rw [leaf_byte found]
    unfold Within
    omega
  constructor
  · intro start route table here there
    have frameAligned := frame_aligned leaf
    have tableAligned := orderly.sound.tables.table_aligned here
    have same : leaf.frame = table := by
      unfold Within at inside there
      omega
    rw [← same] at here
    obtain ⟨kernel, _⟩ := orderly.settled.table root target leaf place found start route here
    rw [kernel] at member
    exact orderly.sound.distinct member
  · have nonzero := orderly.settled.nonzero root member target lower leaf found
    exact (orderly.settled.frame root target leaf place found nonzero _ inside).2

/-- Different bytes of process memory are different bytes of physical memory. -/
theorem byte_at_injective {left right : U64} {other : Nat} {leaf entry : PageEntry}
    (orderly : Orderly hole usable config) (member : root ∈ config.spaces)
    (otherMember : other ∈ config.spaces) (lower : left.toNat < 2 ^ 47)
    (otherLower : right.toNat < 2 ^ 47) (found : liveLeaf config.slots root left = some leaf)
    (otherFound : liveLeaf config.slots other right = some entry)
    (same : byteAt config.mem other right = byteAt config.mem root left) :
    other = root ∧ right.toNat = left.toNat := by
  have place : Place hole config.root config.spaces root left := Or.inr ⟨member, lower⟩
  have otherPlace : Place hole config.root config.spaces other right :=
    Or.inr ⟨otherMember, otherLower⟩
  rw [leaf_byte found, leaf_byte otherFound] at same
  have frameAligned := frame_aligned leaf
  have entryAligned := frame_aligned entry
  have nonzero := orderly.settled.nonzero root member left lower leaf found
  obtain ⟨sameRoot, path⟩ := orderly.settled.single root left leaf place found nonzero other right
    entry otherPlace otherFound (by omega)
  have page := page_of_path otherPlace.extended place.extended path
  exact ⟨sameRoot, by omega⟩

/-- One more byte. -/
theorem Written.store {count : Nat} {mem : Memory} {target : Nat} {writable : Bool}
    (written : Written config root address buffer count mem)
    (orderly : Orderly hole usable config) (member : root ∈ config.spaces)
    (bound : address.toNat + count < 2 ^ 47)
    (walked : hardwareWalk mem root (address + BitVec.ofNat 64 count) = some (target, writable)) :
    Written config root address buffer (count + 1) (storeByte mem target (buffer count)) := by
  have value : ∀ index, index ≤ count →
      (address + BitVec.ofNat 64 index).toNat = address.toNat + index := by
    intro index small
    rw [BitVec.toNat_add, of_nat_to_nat (by omega)]
    omega
  have lower : ∀ index, index ≤ count → (address + BitVec.ofNat 64 index).toNat < 2 ^ 47 := by
    intro index small
    rw [value index small]
    omega
  have sound := written.data.sound orderly.sound
  obtain ⟨leaf, found, here⟩ : ∃ leaf,
      liveLeaf config.slots root (address + BitVec.ofNat 64 count) = some leaf ∧
        target = byteAt config.mem root (address + BitVec.ofNat 64 count) := by
    rcases walkers_of_leaf (space_live member) (lower_owned _ _ (lower count (Nat.le_refl _)))
      sound.tidy (sound.lower root member _ (lower count (Nat.le_refl _))) with
      ⟨_, missing, _⟩ | ⟨leaf, _, found, same, _⟩
    · exact absurd (walked.symm.trans missing) (by simp)
    · have now : liveLeaf config.slots root (address + BitVec.ofNat 64 count) = some leaf :=
        (written.data.leaf member (lower count (Nat.le_refl _))).symm.trans found
      obtain ⟨sameTarget, _⟩ := Prod.mk.inj (Option.some.inj (walked.symm.trans same))
      exact ⟨leaf, now, by rw [sameTarget, leaf_byte now]⟩
  obtain ⟨offTables, offList⟩ :=
    leaf_byte_data orderly member (lower count (Nat.le_refl _)) found
  rw [here]
  have elsewhere : ∀ byte, byte ≠ byteAt config.mem root (address + BitVec.ofNat 64 count) →
      storeByte mem (byteAt config.mem root (address + BitVec.ofNat 64 count)) (buffer count) byte =
        mem byte := fun byte apart => if_neg apart
  refine ⟨⟨?_, ?_⟩, ?_, ?_, ?_⟩
  · intro start route table reached byte inside
    rw [elsewhere byte fun same => offTables start route table reached (by rw [← same]; exact inside)]
    exact written.data.tables start route table reached byte inside
  · intro byte free
    rw [elsewhere byte fun same => offList (by rw [← same]; exact free)]
    exact written.data.free byte free
  · intro index small
    rcases Nat.lt_succ_iff_lt_or_eq.mp small with before | last
    · exact written.leaves index before
    · rw [last]
      exact ⟨leaf, found⟩
  · intro index small
    rcases Nat.lt_succ_iff_lt_or_eq.mp small with before | last
    · obtain ⟨entry, entryFound⟩ := written.leaves index before
      rw [elsewhere]
      · exact written.bytes index before
      · intro same
        have apart := (byte_at_injective orderly member member (lower count (Nat.le_refl _))
          (lower index (by omega)) found entryFound same).2
        rw [value index (by omega), value count (Nat.le_refl _)] at apart
        omega
    · rw [last]
      exact if_pos rfl
  · intro byte apart
    rw [elsewhere byte (apart count (by omega))]
    exact written.rest byte fun index small => apart index (by omega)

theorem copy_out_written {count : Nat} {mem : Memory} (orderly : Orderly hole usable config)
    (member : root ∈ config.spaces) (bound : address.toNat + count ≤ 2 ^ 47)
    (ran : copyOut root buffer address count config.mem = some mem) :
    Written config root address buffer count mem := by
  induction count generalizing mem with
  | zero =>
      rw [copyOut, Option.some.injEq] at ran
      rw [← ran]
      exact ⟨⟨fun _ _ _ _ _ _ => rfl, fun _ _ => rfl⟩, fun _ small => absurd small (by omega),
        fun _ small => absurd small (by omega), fun _ _ => rfl⟩
  | succ count ih =>
      rw [copyOut] at ran
      obtain ⟨middle, before, ran⟩ := Option.bind_eq_some_iff.mp ran
      obtain ⟨⟨target, writable⟩, walked, ran⟩ := Option.bind_eq_some_iff.mp ran
      dsimp only at ran
      split_ifs at ran
      rw [← Option.some.inj ran]
      exact (ih (by omega) before).store orderly member (by omega) walked

end Writing

end KittyOs.ProcessViews
