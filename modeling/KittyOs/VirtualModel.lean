import KittyOs.PageTable
import KittyOs.PhysicalModel

/-!
# Four-level page maps

A transcription of `mem/virtual.h` and `mem/virtual.cpp`. A page map is the
physical address of its top table; the tables below it are reached through the
direct map, so `(ppn << 12) + hhdm` is the table at `ppn << 12`. The three
blocks of `virtual_map` that look up or create a lower table are the same code
at three levels and are written once. Cache maintenance has no effect on what is
modelled here.
-/

namespace KittyOs.VirtualModel

open KittyOs.Lib.ByteMemory KittyOs.MachineWord KittyOs.PageTable KittyOs.PhysicalModel

set_option autoImplicit false

/-- `struct virtual_address`. -/
structure VirtualAddress where
  canonical : BitVec 16
  pml4 : Slot
  pdp : Slot
  pd : Slot
  pt : Slot
  offset : BitVec 12
deriving DecidableEq, Repr

def splitVirtualAddressToStructure (address : U64) : VirtualAddress where
  canonical := ((address >>> 48) &&& 0xFFFF).setWidth 16
  pml4 := ((address >>> 39) &&& 0x1FF).setWidth 9
  pdp := ((address >>> 30) &&& 0x1FF).setWidth 9
  pd := ((address >>> 21) &&& 0x1FF).setWidth 9
  pt := ((address >>> 12) &&& 0x1FF).setWidth 9
  offset := (address &&& 0xFFF).setWidth 12

def structureToVirtualAddress (address : VirtualAddress) : U64 :=
  ((address.canonical.setWidth 64 &&& 0xFFFF) <<< 48) |||
    ((address.pml4.setWidth 64 &&& 0x1FF) <<< 39) |||
    ((address.pdp.setWidth 64 &&& 0x1FF) <<< 30) |||
    ((address.pd.setWidth 64 &&& 0x1FF) <<< 21) |||
    ((address.pt.setWidth 64 &&& 0x1FF) <<< 12) |||
    (address.offset.setWidth 64 &&& 0xFFF)

def isCanonical (address : U64) : Bool :=
  address >>> 48 == 0 || address >>> 48 == 0xFFFF

/-! ### Reading a page map -/

def virtualToPhysical (mem : Memory) (pageMap : Nat) (address : U64) : Bool × U64 :=
  if !isCanonical address then (false, 0)
  else
    let indexes := splitVirtualAddressToStructure address
    let pml4e := readEntry mem pageMap indexes.pml4
    if !pml4e.p then (false, 0)
    else
      let pdpe := readEntry mem pml4e.frame indexes.pdp
      if !pdpe.p then (false, 0)
      else
        let pde := readEntry mem pdpe.frame indexes.pd
        if !pde.p then (false, 0)
        else
          let pte := readEntry mem pde.frame indexes.pt
          if !pte.p then (false, 0)
          else (true, (pte.ppn.setWidth 64 <<< 12) ||| indexes.offset.setWidth 64)

def ensureVirtualMemoryFlags (mem : Memory) (pageMap : Nat) (address : U64)
    (filter : PageEntry → Bool) : Bool :=
  let indexes := splitVirtualAddressToStructure address
  let pml4e := readEntry mem pageMap indexes.pml4
  if !pml4e.p then false
  else
    let pdpe := readEntry mem pml4e.frame indexes.pdp
    if !pdpe.p then false
    else
      let pde := readEntry mem pdpe.frame indexes.pd
      if !pde.p then false
      else
        let pte := readEntry mem pde.frame indexes.pt
        if !pte.p then false else filter pte

/-- Four present entries, each naming the table of the next, translate. -/
theorem virtual_to_physical_present {mem : Memory} {root pdp pd pt : Nat} {address : U64}
    (canonical : isCanonical address = true) {indexes : VirtualAddress}
    (split : splitVirtualAddressToStructure address = indexes)
    (pml4e : (readEntry mem root indexes.pml4).p = true)
    (atPdp : (readEntry mem root indexes.pml4).frame = pdp)
    (pdpe : (readEntry mem pdp indexes.pdp).p = true)
    (atPd : (readEntry mem pdp indexes.pdp).frame = pd)
    (pde : (readEntry mem pd indexes.pd).p = true)
    (atPt : (readEntry mem pd indexes.pd).frame = pt)
    (pte : (readEntry mem pt indexes.pt).p = true) :
    virtualToPhysical mem root address =
      (true, ((readEntry mem pt indexes.pt).ppn.setWidth 64 <<< 12) |||
        indexes.offset.setWidth 64) := by
  simp only [virtualToPhysical, canonical, split, pml4e, atPdp, pdpe, atPd, pde, atPt, pte,
    Bool.not_true, Bool.false_eq_true, if_false]

/-- The values `addr` takes in a loop from `first` up to `last` by pages; both
ends are page aligned, so the step never passes `last`. -/
def pagesBetween (first last : U64) : List U64 :=
  (List.range ((last.toNat - first.toNat) / 4096)).map fun index =>
    first + BitVec.ofNat 64 (index * 4096)

def ensureVirtualMemoryFlagsInRange (mem : Memory) (pageMap : Nat) (rangeStart rangeEnd : U64)
    (filter : PageEntry → Bool) : Bool :=
  if alignDown rangeStart > alignUp rangeEnd then false
  else (pagesBetween (alignDown rangeStart) (alignUp rangeEnd)).all fun address =>
    ensureVirtualMemoryFlags mem pageMap address filter

def invalidatePagesInRange (rangeStart rangeEnd : U64) : Bool :=
  !(alignDown rangeStart > alignUp rangeEnd)

/-! ### Writing a page map -/

/-- The flag arguments of `virtual_map`, under its own names. -/
structure MapFlags where
  isReadWrite : Bool
  disableExecution : Bool
  isSupervisor : Bool
  pageWriteThrough : Bool
  pageCacheDisable : Bool
  pageAttributeTable : Bool
  protectionKeys : BitVec 8
  isPresent : Bool
deriving DecidableEq, Repr

/-- The assignments made to an entry of every level. -/
def MapFlags.onTable (flags : MapFlags) (entry : PageEntry) : PageEntry :=
  { entry with
    p := flags.isPresent
    rw := flags.isReadWrite
    nx := flags.disableExecution
    us := flags.isSupervisor }

/-- The assignments made to the last-level entry. -/
def MapFlags.onPage (flags : MapFlags) (physicalAddress : U64) (entry : PageEntry) : PageEntry :=
  { flags.onTable (entry.setPage physicalAddress) with
    pwt := flags.pageWriteThrough
    pcd := flags.pageCacheDisable
    pat := flags.pageAttributeTable
    pk := flags.protectionKeys.setWidth 4 }

/-- The common end of the three table blocks: flags applied, lower table returned. -/
def applyTableFlags (state : PhysicalState) (table : Nat) (index : Slot) (flags : MapFlags) :
    Option Nat × PhysicalState :=
  let entry := flags.onTable (readEntry state.mem table index)
  (some entry.frame, { state with mem := writeEntry state.mem table index entry })

/-- One table block of `virtual_map`: an empty slot gets a zeroed page first. The
result is the lower table, or `none` when no page could be allocated. -/
def setupTable (flags : MapFlags) (state : PhysicalState) (table : Nat) (index : Slot) :
    Option Nat × PhysicalState :=
  if (readEntry state.mem table index).ppn = 0 then
    let (p, state) := allocatePhysicalPage state
    if p = 0 then (none, state)
    else
      let zeroed := fill state.mem p.toNat 4096 0
      let linked := writeEntry zeroed table index ((readEntry zeroed table index).setPage p)
      applyTableFlags { state with mem := linked } table index flags
  else applyTableFlags state table index flags

/-- Blocks run in order, each from the table the one before found, up to the
first that finds none. -/
def descend {State : Type} (block : State → Nat → Slot → Option Nat × State) :
    State → Nat → List Slot → Option Nat × State
  | state, table, [] => (some table, state)
  | state, table, index :: rest =>
      match block state table index with
      | (none, state) => (none, state)
      | (some child, state) => descend block state child rest

section Descend

variable {State : Type} {block : State → Nat → Slot → Option Nat × State}
variable {state other : State} {table child : Nat} {index : Slot} {rest : List Slot}

theorem descend_done : descend block state table [] = (some table, state) := by
  simp only [descend]

theorem descend_found (found : block state table index = (some child, other)) :
    descend block state table (index :: rest) = descend block other child rest := by
  simp only [descend, found]

theorem descend_missing (missing : block state table index = (none, other)) :
    descend block state table (index :: rest) = (none, other) := by
  simp only [descend, missing]

end Descend

def setupTables (flags : MapFlags) : PhysicalState → Nat → List Slot → Option Nat × PhysicalState :=
  descend (setupTable flags)

/-- `none` is the `cli; hlt` taken on a misaligned address. -/
def virtualMap (state : PhysicalState) (pageMap : Nat) (physicalAddress virtualAddress : U64)
    (flags : MapFlags) : Option (Bool × PhysicalState) :=
  if physicalAddress % 4096 ≠ 0 then none
  else if virtualAddress % 4096 ≠ 0 then none
  else if !isCanonical virtualAddress then some (false, state)
  else
    let indexes := splitVirtualAddressToStructure virtualAddress
    match setupTables flags state pageMap [indexes.pml4, indexes.pdp, indexes.pd] with
    | (none, state) => some (false, state)
    | (some pt, state) =>
        let pte := flags.onPage physicalAddress (readEntry state.mem pt indexes.pt)
        some (true, { state with mem := writeEntry state.mem pt indexes.pt pte })

/-! ### Kernel virtual addresses -/

/-- The globals `base_address` and `remaining_bytes`. -/
structure KernelRange where
  baseAddress : U64
  remainingBytes : U64
deriving DecidableEq, Repr

/-- `initialize_virtual_memory`, given `get_higher_half_memory_offset()`,
`get_highest_address()` and `get_kernel_base_address()`. -/
def initializeVirtualMemory (hhdm highest kernelBase : U64) : KernelRange where
  baseAddress := hhdm + highest
  remainingBytes := kernelBase - (hhdm + highest)

/-- `none` is the halt. The difference is unsigned, so `<= 0` is `= 0`. -/
def allocateVirtualMemoryKernel (range : KernelRange) (size : U64) : Option (U64 × KernelRange) :=
  let size := (size + 4096) &&& pageMask
  if range.remainingBytes - size ≤ 0 then none
  else
    some (range.baseAddress ||| 0xffff000000000000,
      { range with baseAddress := range.baseAddress + size })

/-! ### Addresses as paths -/

/-- The slots a walk visits, top level first. -/
def VirtualAddress.path (address : VirtualAddress) : List Slot :=
  [address.pml4, address.pdp, address.pd, address.pt]

def pathOf (address : U64) : List Slot := (splitVirtualAddressToStructure address).path

/-- The part of the path that selects the last-level table. -/
def tablePathOf (address : U64) : List Slot :=
  [(splitVirtualAddressToStructure address).pml4, (splitVirtualAddressToStructure address).pdp,
    (splitVirtualAddressToStructure address).pd]

def lastSlotOf (address : U64) : Slot := (splitVirtualAddressToStructure address).pt

theorem path_of_split (address : U64) :
    pathOf address = tablePathOf address ++ [lastSlotOf address] := rfl

/-- Bits 48 to 63 repeat bit 47. -/
def SignExtended (address : U64) : Prop :=
  address.toNat < 2 ^ 47 ∨ 2 ^ 64 - 2 ^ 47 ≤ address.toNat

instance (address : U64) : Decidable (SignExtended address) :=
  inferInstanceAs (Decidable (_ ∨ _))

theorem slot_to_nat (address : U64) (shift : Nat) :
    (((address >>> shift) &&& 0x1FF).setWidth 9).toNat = address.toNat / 2 ^ shift % 512 := by
  have mask : (0x1FF : U64).toNat = 2 ^ 9 - 1 := rfl
  rw [BitVec.toNat_setWidth, BitVec.toNat_and, BitVec.toNat_ushiftRight, mask,
    Nat.and_two_pow_sub_one_eq_mod, Nat.shiftRight_eq_div_pow, Nat.mod_mod]

theorem split_pml4_to_nat (address : U64) :
    (splitVirtualAddressToStructure address).pml4.toNat = address.toNat / 2 ^ 39 % 512 :=
  slot_to_nat address 39

theorem split_pdp_to_nat (address : U64) :
    (splitVirtualAddressToStructure address).pdp.toNat = address.toNat / 2 ^ 30 % 512 :=
  slot_to_nat address 30

theorem split_pd_to_nat (address : U64) :
    (splitVirtualAddressToStructure address).pd.toNat = address.toNat / 2 ^ 21 % 512 :=
  slot_to_nat address 21

theorem split_pt_to_nat (address : U64) :
    (splitVirtualAddressToStructure address).pt.toNat = address.toNat / 2 ^ 12 % 512 :=
  slot_to_nat address 12

theorem split_offset_to_nat (address : U64) :
    (splitVirtualAddressToStructure address).offset.toNat = address.toNat % 4096 := by
  have mask : (0xFFF : U64).toNat = 2 ^ 12 - 1 := rfl
  rw [splitVirtualAddressToStructure, BitVec.toNat_setWidth, BitVec.toNat_and, mask,
    Nat.and_two_pow_sub_one_eq_mod, Nat.mod_mod]

/-- The physical address of a page and an offset. -/
theorem page_and_offset (ppn : BitVec 40) (offset : BitVec 12) :
    ((ppn.setWidth 64 <<< 12) ||| offset.setWidth 64 : U64).toNat =
      ppn.toNat * 4096 + offset.toNat := by
  have pageBound := ppn.isLt
  have offsetBound := offset.isLt
  simp only [BitVec.toNat_or, BitVec.toNat_shiftLeft, BitVec.toNat_setWidth]
  rw [Nat.mod_eq_of_lt (show ppn.toNat < 2 ^ 64 by omega),
    Nat.mod_eq_of_lt (show offset.toNat < 2 ^ 64 by omega),
    Nat.mod_eq_of_lt (show ppn.toNat <<< 12 < 2 ^ 64 by rw [Nat.shiftLeft_eq]; omega),
    ← Nat.shiftLeft_add_eq_or_of_lt offsetBound, Nat.shiftLeft_eq]

/-- Page-table paths repeat after 2^48 bytes. -/
theorem path_eq_iff (left right : U64) :
    pathOf left = pathOf right ↔
      left.toNat / 4096 % 2 ^ 36 = right.toNat / 4096 % 2 ^ 36 := by
  simp only [pathOf, VirtualAddress.path, List.cons.injEq, ← BitVec.toNat_inj, split_pml4_to_nat,
    split_pdp_to_nat, split_pd_to_nat, split_pt_to_nat, and_true]
  omega

/-- The offset does not enter the path. -/
theorem path_of_page {left right : U64} (page : left.toNat / 4096 = right.toNat / 4096) :
    pathOf left = pathOf right := by
  rw [path_eq_iff, page]

/-- The two MiB around an address share the tables on the way to it. -/
theorem table_path_of_region {left right : U64}
    (region : left.toNat / 2 ^ 21 = right.toNat / 2 ^ 21) : tablePathOf left = tablePathOf right := by
  simp only [tablePathOf, List.cons.injEq, ← BitVec.toNat_inj, split_pml4_to_nat, split_pdp_to_nat,
    split_pd_to_nat, and_true]
  omega

/-- A sign-extended address is determined by its path up to the offset. -/
theorem page_of_path {left right : U64} (leftExtended : SignExtended left)
    (rightExtended : SignExtended right) (path : pathOf left = pathOf right) :
    left.toNat / 4096 = right.toNat / 4096 := by
  rw [path_eq_iff] at path
  have leftBound := left.isLt
  have rightBound := right.isLt
  unfold SignExtended at leftExtended rightExtended
  omega

theorem is_canonical_iff (address : U64) :
    isCanonical address = true ↔ address.toNat < 2 ^ 48 ∨ 2 ^ 64 - 2 ^ 48 ≤ address.toNat := by
  have bound := address.isLt
  have zero : (0 : U64).toNat = 0 := rfl
  have ones : (0xFFFF : U64).toNat = 0xFFFF := rfl
  simp only [isCanonical, Bool.or_eq_true, beq_iff_eq, ← BitVec.toNat_inj,
    BitVec.toNat_ushiftRight, Nat.shiftRight_eq_div_pow, zero, ones]
  omega

theorem SignExtended.canonical {address : U64} (extended : SignExtended address) :
    isCanonical address = true := by
  rw [is_canonical_iff]
  unfold SignExtended at extended
  omega

end KittyOs.VirtualModel
