import KittyOs.KernelHole
import KittyOs.MapEffect
import KittyOs.VirtualMapping

/-!
# What the guards of `virtual_map` rest on

`virtual_map` halts on a misaligned address and refuses one that is not canonical.
Kernel addresses keep whatever alignment the end of the memory map gave the first
of them, and the canonical test looks at bits 48 to 63 alone, so that it accepts
the addresses whose bit 47 differs from them. Each of those shares its table
slots with a proper address. A page mapped as absent takes the other pages of its
top-level entry away.
-/

namespace KittyOs.MapGuards

open KittyOs.MachineWord KittyOs.PageTable
open KittyOs.PhysicalModel KittyOs.PhysicalFreelist KittyOs.VirtualModel KittyOs.PageForest
open KittyOs.VirtualMapping KittyOs.KernelHole KittyOs.MapEffect

set_option autoImplicit false

/-! ### Alignment -/

theorem aligned_iff (address : U64) : address % 4096 = 0 ↔ address.toNat % 4096 = 0 := by
  rw [← BitVec.toNat_inj, BitVec.toNat_umod]
  exact Iff.rfl

theorem virtual_map_returns {state : PhysicalState} {pageMap : Nat}
    {physicalAddress virtualAddress : U64} {flags : MapFlags}
    (physicalAligned : physicalAddress % 4096 = 0) (virtualAligned : virtualAddress % 4096 = 0) :
    virtualMap state pageMap physicalAddress virtualAddress flags ≠ none := by
  have physicalOk : ¬physicalAddress % 4096 ≠ 0 := not_not.mpr physicalAligned
  have virtualOk : ¬virtualAddress % 4096 ≠ 0 := not_not.mpr virtualAligned
  by_cases refused : (!isCanonical virtualAddress) = true
  · rw [virtualMap, if_neg physicalOk, if_neg virtualOk, if_pos refused]
    exact Option.some_ne_none _
  · cases found : setupTables flags state pageMap
        [(splitVirtualAddressToStructure virtualAddress).pml4,
          (splitVirtualAddressToStructure virtualAddress).pdp,
          (splitVirtualAddressToStructure virtualAddress).pd] with
    | mk table after =>
        cases table <;>
          simp only [virtualMap, if_neg physicalOk, if_neg virtualOk, if_neg refused, found] <;>
          exact Option.some_ne_none _

/-- The misalignment exits are the only ones that do not return. -/
theorem virtual_map_halts_iff {state : PhysicalState} {pageMap : Nat}
    {physicalAddress virtualAddress : U64} {flags : MapFlags}
    (physicalAligned : physicalAddress % 4096 = 0) :
    virtualMap state pageMap physicalAddress virtualAddress flags = none ↔
      virtualAddress % 4096 ≠ 0 := by
  constructor
  · intro halted virtualAligned
    exact virtual_map_returns physicalAligned virtualAligned halted
  · intro misaligned
    cases run : virtualMap state pageMap physicalAddress virtualAddress flags with
    | none => rfl
    | some result => exact absurd (virtual_map_aligned run).2 misaligned

/-- No call of `virtual_map` with an aligned frame halts on the address. -/
def NeverHalts (address : U64) : Prop :=
  ∀ (state : PhysicalState) (pageMap : Nat) (physicalAddress : U64) (flags : MapFlags),
    physicalAddress % 4096 = 0 → virtualMap state pageMap physicalAddress address flags ≠ none

theorem never_halts_iff (address : U64) : NeverHalts address ↔ address % 4096 = 0 := by
  constructor
  · intro never
    by_contra misaligned
    exact never ⟨0, fun _ => 0, 0⟩ 0 0 ⟨true, true, true, true, true, true, 0, true⟩ (by decide)
      ((virtual_map_halts_iff (by decide)).mpr misaligned)
  · intro aligned state pageMap physicalAddress flags physicalAligned halted
    exact (virtual_map_halts_iff physicalAligned).mp halted aligned

/-- Every address handed out is page-aligned and `virtual_map` takes all its pages. -/
def GrantsAligned (range : KernelRange) (sizes : List U64) : Prop :=
  ∀ grant ∈ kernelGrants range sizes, grant.base % 4096 = 0 ∧
    ∀ page, NeverHalts (BitVec.ofNat 64 (grant.base + page * 4096))

/-- The sign bits and the rounded requests leave the low twelve bits alone. -/
theorem grant_low_bits {range : KernelRange} {sizes : List U64} :
    ∀ grant ∈ kernelGrants range sizes, grant.base % 4096 = range.baseAddress.toNat % 4096 := by
  induction sizes generalizing range with
  | nil => simp [kernelGrants]
  | cons size sizes ih =>
      rcases allocate_kernel_cases range size with ⟨_, halted⟩ | ⟨_, returned⟩
      · simp [kernelGrants, halted]
      · have sign : (range.baseAddress ||| 0xffff000000000000).toNat % 4096 =
            range.baseAddress.toNat % 4096 := by
          rw [BitVec.toNat_or, show 4096 = 2 ^ 12 from rfl, Nat.or_mod_two_pow]
          exact Nat.or_zero _
        have rounded : (range.baseAddress + roundedRequest size).toNat % 4096 =
            range.baseAddress.toNat % 4096 := by
          rw [BitVec.toNat_add, roundedRequest, page_mask_to_nat]
          omega
        intro grant member
        simp only [kernelGrants, returned, List.mem_cons] at member
        rcases member with first | later
        · rw [first]
          exact sign
        · rw [ih grant later]
          exact rounded

/-- Nothing is handed out exactly if the first request rounds to all that remains. -/
theorem no_grants_iff (range : KernelRange) (sizes : List U64) :
    kernelGrants range sizes = [] ↔
      ∀ size ∈ sizes.head?, roundedRequest size = range.remainingBytes := by
  cases sizes with
  | nil => simp [kernelGrants]
  | cons size rest =>
      rcases allocate_kernel_cases range size with ⟨equal, halted⟩ | ⟨different, returned⟩
      · simp [kernelGrants, halted, equal]
      · simp [kernelGrants, returned, different]

/-- Kernel addresses are aligned if and only if the memory map ends on a page
boundary, or the first request already rounds to all that remains. -/
theorem grants_aligned_iff {hhdm : U64} (hhdmAligned : hhdm % 4096 = 0)
    (entries : List MemmapEntry) (kernelBase : U64) (sizes : List U64) :
    GrantsAligned (initializeVirtualMemory hhdm (getHighestAddress (some entries)) kernelBase)
        sizes ↔
      (∀ size ∈ sizes.head?, roundedRequest size =
          (initializeVirtualMemory hhdm (getHighestAddress (some entries))
            kernelBase).remainingBytes) ∨
        getHighestAddress (some entries) % 4096 = 0 := by
  have first : (initializeVirtualMemory hhdm (getHighestAddress (some entries))
      kernelBase).baseAddress.toNat % 4096 = (getHighestAddress (some entries)).toNat % 4096 := by
    have offset := (aligned_iff hhdm).mp hhdmAligned
    simp only [initializeVirtualMemory, BitVec.toNat_add]
    omega
  have low := @grant_low_bits (initializeVirtualMemory hhdm (getHighestAddress (some entries))
    kernelBase) sizes
  rw [first] at low
  rw [aligned_iff, GrantsAligned, ← no_grants_iff]
  generalize kernelGrants (initializeVirtualMemory hhdm (getHighestAddress (some entries))
    kernelBase) sizes = grants at low
  constructor
  · intro aligned
    cases grants with
    | nil => exact Or.inl rfl
    | cons grant rest =>
        right
        rw [← low grant List.mem_cons_self]
        exact (aligned grant List.mem_cons_self).1
  · intro holds grant member
    rcases holds with nothing | highest
    · rw [nothing] at member
      exact absurd member (by simp)
    · have base : grant.base % 4096 = 0 := by
        rw [low grant member]
        exact highest
      refine ⟨base, ?_⟩
      intro page
      rw [never_halts_iff, aligned_iff, BitVec.toNat_ofNat]
      omega

/-- One usable region and the tables behind it, which end within a page. -/
def unevenMap : List MemmapEntry := [⟨0x1000, 0xff000, 0⟩, ⟨0x100000, 0x123, 2⟩]

theorem even_map_aligned :
    (0xffff800000000000 : U64) % 4096 = 0 ∧
      GrantsAligned (initializeVirtualMemory 0xffff800000000000
        (getHighestAddress (some [⟨0x1000, 0xff000, 0⟩, ⟨0x100000, 0x1000, 2⟩])) 0xffffffff80000000)
        [0x400000000, 0x1000] :=
  ⟨by decide, (grants_aligned_iff (by decide) _ _ _).mpr (Or.inr (by decide))⟩

/-- The usable entry is aligned, and the first kernel address is 0xffff800000100123. -/
theorem uneven_map_misaligned :
    (∀ entry ∈ unevenMap, entry.type = limineMemmapUsable →
        entry.base % 4096 = 0 ∧ entry.length % 4096 = 0) ∧
      (0xffff800000000000 : U64) % 4096 = 0 ∧
      kernelGrants (initializeVirtualMemory 0xffff800000000000
        (getHighestAddress (some unevenMap)) 0xffffffff80000000) [0x1000] =
          [⟨0xffff800000100123, 0x1000⟩] ∧
      ¬GrantsAligned (initializeVirtualMemory 0xffff800000000000
        (getHighestAddress (some unevenMap)) 0xffffffff80000000) [0x1000] := by
  have grants : kernelGrants (initializeVirtualMemory 0xffff800000000000
      (getHighestAddress (some unevenMap)) 0xffffffff80000000) [0x1000] =
        [⟨0xffff800000100123, 0x1000⟩] := by decide
  refine ⟨by decide, by decide, grants, ?_⟩
  intro aligned
  have first := (aligned ⟨0xffff800000100123, 0x1000⟩ (by rw [grants]; simp)).1
  exact absurd first (by decide)

/-! ### The canonical form -/

/-- Bit 47 differs from bits 48 to 63, which agree. -/
def InBlindSpot (address : U64) : Prop :=
  (2 ^ 47 ≤ address.toNat ∧ address.toNat < 2 ^ 48) ∨
    (2 ^ 64 - 2 ^ 48 ≤ address.toNat ∧ address.toNat < 2 ^ 64 - 2 ^ 47)

instance (address : U64) : Decidable (InBlindSpot address) :=
  inferInstanceAs (Decidable (_ ∨ _))

/-- Mapping `left` with these flags leaves the translation of `right` alone, in every page
map. -/
def MapsApart (flags : MapFlags) (left right : U64) : Prop :=
  ∀ (state other : PhysicalState) (root : Nat) (physicalAddress : U64) (success : Bool),
    PageTree state root → physicalAddress % 4096 = 0 →
    virtualMap state root physicalAddress left flags = some (success, other) →
    virtualToPhysical other.mem root right = virtualToPhysical state.mem root right

/-- Two different pages that the canonical test accepts. -/
structure AcceptedPages (left right : U64) : Prop where
  leftCanonical : isCanonical left = true
  rightCanonical : isCanonical right = true
  leftAligned : left % 4096 = 0
  rightAligned : right % 4096 = 0
  different : left ≠ right

/-- The canonical test is right about both addresses, and two pages it accepts do not
get into each other's way. -/
structure TestedApart (flags : MapFlags) (left right : U64) : Prop where
  judgesLeft : isCanonical left = true ↔ SignExtended left
  judgesRight : isCanonical right = true ↔ SignExtended right
  slots : AcceptedPages left right → pathOf left ≠ pathOf right
  mappings : AcceptedPages left right → MapsApart flags left right

abbrev topSlot (address : U64) : Slot := (splitVirtualAddressToStructure address).pml4

/-- The call maps an absent page below a top-level entry that the other page needs too. -/
def Withdraws (flags : MapFlags) (left right : U64) : Prop :=
  flags.isPresent = false ∧ AcceptedPages left right ∧ topSlot left = topSlot right

theorem judged_iff (address : U64) :
    (isCanonical address = true ↔ SignExtended address) ↔ ¬InBlindSpot address := by
  have bound := address.isLt
  rw [is_canonical_iff]
  unfold SignExtended InBlindSpot
  omega

theorem different_paths_map_apart {flags : MapFlags} {left right : U64}
    (mapped : flags.isPresent = true) (canonical : isCanonical left = true)
    (aligned : left % 4096 = 0) (different : pathOf left ≠ pathOf right) :
    MapsApart flags left right := by
  intro state other root physicalAddress success tree physicalAligned ran
  obtain ⟨worked, after, run, afterTree, succeeds, fails⟩ :=
    virtual_map_leaves tree physicalAligned aligned canonical mapped
  obtain ⟨sameResult, sameState⟩ := Prod.mk.inj (Option.some.inj (run.symm.trans ran))
  subst sameResult sameState
  have leaves : leafOf (trailOf (readEntry after.mem) root right) =
      leafOf (trailOf (readEntry state.mem) root right) := by
    cases worked with
    | false => exact (fails rfl).2 right
    | true =>
        obtain ⟨leaf, _, every⟩ := succeeds rfl
        rw [every, if_neg (Ne.symm different)]
  rw [virtual_to_physical_trail afterTree.leveled, virtual_to_physical_trail tree.leveled, leaves]

/-- In a page map without large pages no walk meets one. -/
theorem leveled_small {slots : Nat → Slot → PageEntry} {root : Nat} (leveled : Leveled slots root)
    (address : U64) : SmallPages slots root address := by
  intro route table slot along below walked
  exact (leveled root route table slot ⟨rfl, owned_everywhere _ _, walked⟩ (owned_everywhere _ _)
    along.shorter).1 below

/-- A walk from another top-level slot reads nothing that the call writes, whatever its
flags. -/
theorem different_tops_map_apart {flags : MapFlags} {left right : U64}
    (canonical : isCanonical left = true) (aligned : left % 4096 = 0)
    (different : topSlot left ≠ topSlot right) : MapsApart flags left right := by
  intro state other root physicalAddress success tree physicalAligned ran
  obtain ⟨blocks, tables⟩ := tree.tables
  obtain ⟨worked, after, remaining, run, effect⟩ := virtual_map_effect flags tables rfl trivial
    (leveled_small tree.leveled left) physicalAligned aligned canonical
  obtain ⟨_, sameState⟩ := Prod.mk.inj (Option.some.inj (run.symm.trans ran))
  subst sameState
  have same : ∀ (rest : List Slot) {route : List Slot} {table : Nat} {slot : Slot},
      TableAt (readEntry state.mem) root route table → route ++ [slot] = topSlot right :: rest →
        readEntry after.mem table slot = readEntry state.mem table slot := by
    intro rest route table slot here top
    apply effect.kept here
    rintro ⟨_, behind, along⟩
    rw [← List.singleton_append, ← List.append_assoc, top] at along
    exact different (List.cons.inj along).1
  have top : TableAt (readEntry state.mem) root [] root := ⟨rfl, trivial, rfl⟩
  unfold virtualToPhysical
  dsimp only
  rw [same [] top rfl]
  rcases leveled_next_table tree.leveled top 0 rfl (by omega) (topSlot right) with
    ⟨_, _, second⟩ | ⟨absent, _⟩
  · rw [same _ second rfl]
    rcases leveled_next_table tree.leveled second 1 rfl (by omega)
      (splitVirtualAddressToStructure right).pdp with ⟨_, _, third⟩ | ⟨absent, _⟩
    · rw [same _ third rfl]
      rcases leveled_next_table tree.leveled third 2 rfl (by omega)
        (splitVirtualAddressToStructure right).pd with ⟨_, _, fourth⟩ | ⟨absent, _⟩
      · rw [same _ fourth rfl]
      · simp only [absent, Bool.not_false, if_true]
    · simp only [absent, Bool.not_false, if_true]
  · simp only [absent, Bool.not_false, if_true]

/-- The flags of a present page. -/
def presentFlags : MapFlags := ⟨true, true, true, true, true, false, 0, true⟩

/-- On the small machine a page that the test accepts can be mapped, and translates. -/
theorem small_machine_maps {address : U64} (canonical : isCanonical address = true)
    (aligned : address % 4096 = 0) :
    ∃ first remaining, virtualMap smallMachine 0x1000 0x10000 address presentFlags =
        some (true, first) ∧
      PageTree first 0x1000 ∧ TableForest (solo 0x1000) everySlot first remaining ∧
      3 * 4096 ≤ freeBytes remaining ∧
      ∀ other, isCanonical other = true → pathOf other = pathOf address →
        (virtualToPhysical first.mem 0x1000 other).1 = true := by
  have physical : (0x10000 : U64) % 4096 = 0 := by decide
  obtain ⟨success, first, remaining, run, effect⟩ := virtual_map_effect presentFlags
    small_machine_forest rfl trivial (blank_root_small small_machine_blank address) physical aligned
    canonical
  have total : freeBytes [⟨0x2000, 0x8000⟩] = 0x8000 := by decide
  have done : success = true := effect.succeeds (by rw [total]; omega)
  obtain ⟨worked, after, ran, tree, succeeds, _⟩ :=
    virtual_map_leaves small_machine_tree physical aligned canonical
      (show presentFlags.isPresent = true from rfl)
  obtain ⟨sameResult, sameState⟩ := Prod.mk.inj (Option.some.inj (ran.symm.trans run))
  subst sameState
  obtain ⟨leaf, _, leaves⟩ := succeeds (sameResult.trans done)
  have left := effect.supply.1
  rw [done] at run
  refine ⟨after, remaining, run, tree, effect.tables, by omega, ?_⟩
  intro other otherCanonical same
  rw [virtual_to_physical_trail tree.leveled, if_pos otherCanonical, leaves, if_pos same]
  rfl

/-- A page mapped as absent takes every page below its top-level entry away. -/
theorem withdraws_not_apart {flags : MapFlags} {left right : U64}
    (withdraws : Withdraws flags left right) : ¬MapsApart flags left right := by
  obtain ⟨absent, accepted, tops⟩ := withdraws
  obtain ⟨first, blocks, _, tree, tables, enough, translated⟩ :=
    small_machine_maps accepted.rightCanonical accepted.rightAligned
  have physical : (0x10000 : U64) % 4096 = 0 := by decide
  obtain ⟨success, other, remaining, run, effect⟩ := virtual_map_effect flags tables rfl trivial
    (leveled_small tree.leveled left) physical accepted.leftAligned accepted.leftCanonical
  have done : success = true := effect.succeeds enough
  obtain ⟨walked, after, split, progress, succeeded, _⟩ := effect.progress
  rw [(succeeded done).1, List.append_nil] at split
  have along : Along walked [] (topSlot left) := ⟨_, split.symm⟩
  obtain ⟨entry, flagged, _⟩ := progress.flagged [] 0x1000 (topSlot left) along (by simp)
    ⟨rfl, trivial, rfl⟩
  have gone : (readEntry other.mem 0x1000 (topSlot right)).p = false := by
    rw [← tops, flagged]
    exact absent
  intro apart
  have same := apart first other 0x1000 0x10000 success tree physical run
  have before := translated right accepted.rightCanonical rfl
  rw [← same] at before
  simp only [virtualToPhysical, accepted.rightCanonical, gone, Bool.not_false, if_true] at before
  exact absurd before (by simp)

/-- The test does what it should for two addresses if and only if it is not blind to
one of them and the call does not withdraw the other page. -/
theorem tested_apart_iff (flags : MapFlags) (left right : U64) :
    TestedApart flags left right ↔
      ¬InBlindSpot left ∧ ¬InBlindSpot right ∧ ¬Withdraws flags left right := by
  constructor
  · intro apart
    refine ⟨(judged_iff left).mp apart.judgesLeft, (judged_iff right).mp apart.judgesRight, ?_⟩
    intro withdraws
    exact withdraws_not_apart withdraws (apart.mappings withdraws.2.1)
  · rintro ⟨leftSeen, rightSeen, keeps⟩
    have judgesLeft := (judged_iff left).mpr leftSeen
    have judgesRight := (judged_iff right).mpr rightSeen
    have slots : AcceptedPages left right → pathOf left ≠ pathOf right := by
      intro accepted same
      have page := page_of_path (judgesLeft.mp accepted.leftCanonical)
        (judgesRight.mp accepted.rightCanonical) same
      have leftAligned := (aligned_iff left).mp accepted.leftAligned
      have rightAligned := (aligned_iff right).mp accepted.rightAligned
      apply accepted.different
      apply BitVec.eq_of_toNat_eq
      omega
    refine ⟨judgesLeft, judgesRight, slots, ?_⟩
    intro accepted
    cases present : flags.isPresent with
    | true =>
        exact different_paths_map_apart present accepted.leftCanonical accepted.leftAligned
          (slots accepted)
    | false =>
        exact different_tops_map_apart accepted.leftCanonical accepted.leftAligned fun same =>
          keeps ⟨present, accepted, same⟩

/-- Mapping a page makes every address with its slots translate. -/
theorem blind_page_maps_another :
    pathOf 0x800000000000 = pathOf 0xffff800000000000 ∧
      ¬MapsApart presentFlags 0x800000000000 0xffff800000000000 := by
  have slots : pathOf 0x800000000000 = pathOf 0xffff800000000000 := by decide
  refine ⟨slots, ?_⟩
  intro apart
  obtain ⟨first, _, run, _, _, _, translated⟩ := small_machine_maps
    (show isCanonical 0x800000000000 = true by decide) (by decide)
  have before : virtualToPhysical smallMachine.mem 0x1000 0xffff800000000000 = (false, 0) := by
    simp [virtualToPhysical, small_machine_blank, blankEntry]
  have after := translated 0xffff800000000000 (by decide) slots.symm
  rw [apart smallMachine first 0x1000 0x10000 true small_machine_tree (by decide) run, before] at after
  exact absurd after (by simp)

/-- 0x401000 mapped as absent: 0x400000, in the same tables, is gone. -/
example :
    ¬TestedApart { presentFlags with isPresent := false } 0x401000 0x400000 := by
  intro apart
  have accepted : AcceptedPages 0x401000 0x400000 :=
    ⟨by decide, by decide, by decide, by decide, by decide⟩
  exact withdraws_not_apart ⟨rfl, accepted, by decide⟩ (apart.mappings accepted)

/-- 0x800000000000 is accepted and takes the slots of the first address of the higher
half: mapping it makes that address translate too. -/
theorem accepted_pages_collide :
    isCanonical 0x800000000000 = true ∧ ¬SignExtended 0x800000000000 ∧
      isCanonical 0xffff800000000000 = true ∧
      pathOf 0x800000000000 = pathOf 0xffff800000000000 ∧
      ¬MapsApart presentFlags 0x800000000000 0xffff800000000000 ∧
      ¬TestedApart presentFlags 0x800000000000 0xffff800000000000 := by
  obtain ⟨slots, collide⟩ := blind_page_maps_another
  refine ⟨by decide, by decide, by decide, slots, collide, ?_⟩
  intro apart
  exact collide (apart.mappings ⟨by decide, by decide, by decide, by decide, by decide⟩)

end KittyOs.MapGuards
