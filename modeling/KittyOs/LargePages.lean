import KittyOs.KernelModel

/-!
# Large pages

`virtual_to_physical` never looks at the page-size bit: where the processor stops
at a 1 GiB or 2 MiB page, it goes on and reads the first bytes of that page as
the missing tables. The two walks agree on an address exactly when no large page
maps it, or when those bytes happen to be tables that send it to the same place.
-/

namespace KittyOs.LargePages

open KittyOs.Lib.ByteMemory KittyOs.MachineWord KittyOs.PageTable
open KittyOs.VirtualModel KittyOs.KernelModel

set_option autoImplicit false

/-- A result of `virtual_to_physical` says what the processor's walk gives: the same
address, or that a level is not present. -/
def ResultsAgree (software : Bool × U64) (hardware : Option (Nat × Bool)) : Prop :=
  (∀ physical : U64, software = (true, physical) ↔
    ∃ writable, hardware = some (physical.toNat, writable)) ∧
  (software = (false, 0) ↔ hardware = none)

/-- The address that the last level of tables gives, read at `table`. -/
def readPt (slots : Nat → Slot → PageEntry) (table : Nat) (indexes : VirtualAddress) :
    Bool × U64 :=
  let pte := slots table indexes.pt
  if !pte.p then (false, 0)
  else (true, (pte.ppn.setWidth 64 <<< 12) ||| indexes.offset.setWidth 64)

def readPd (slots : Nat → Slot → PageEntry) (table : Nat) (indexes : VirtualAddress) :
    Bool × U64 :=
  let pde := slots table indexes.pd
  if !pde.p then (false, 0) else readPt slots pde.frame indexes

/-- The large page that maps an address: what `virtual_to_physical` reads behind its
entry, and the physical address it stands for. -/
def largePage (slots : Nat → Slot → PageEntry) (root : Nat) (address : U64) :
    Option ((Bool × U64) × Nat) :=
  let indexes := splitVirtualAddressToStructure address
  let pml4e := slots root indexes.pml4
  let pdpe := slots pml4e.frame indexes.pdp
  let pde := slots pdpe.frame indexes.pd
  if !(pml4e.p && pdpe.p) then none
  else if pdpe.z then
    some (readPd slots pdpe.frame indexes,
      pdpe.frame / 2 ^ 30 * 2 ^ 30 + address.toNat % 2 ^ 30)
  else if pde.p && pde.z then
    some (readPt slots pde.frame indexes, pde.frame / 2 ^ 21 * 2 ^ 21 + address.toNat % 2 ^ 21)
  else none

/-- Large pages start with tables that map the address to where it is anyway. -/
def LargePagesMimicked (mem : Memory) (root : Nat) (address : U64) : Prop :=
  ∀ found target, largePage (readEntry mem) root address = some (found, target) →
    found = (true, BitVec.ofNat 64 target)

theorem agree_missing : ResultsAgree (false, 0) none := by
  refine ⟨fun physical => ?_, iff_of_true rfl rfl⟩
  simp

/-- A translation of the hardware is matched by the same translation and nothing else. -/
theorem agree_translated {software : Bool × U64} {target : Nat} {writable : Bool}
    (bound : target < 2 ^ 64) :
    ResultsAgree software (some (target, writable)) ↔
      software = (true, BitVec.ofNat 64 target) := by
  have value : (BitVec.ofNat 64 target).toNat = target := of_nat_to_nat bound
  constructor
  · intro agree
    exact (agree.1 _).mpr ⟨writable, by rw [value]⟩
  · intro same
    rw [same]
    refine ⟨fun physical => ?_, iff_of_false (by simp) (by simp)⟩
    constructor
    · intro equal
      rw [Prod.mk.injEq] at equal
      refine ⟨writable, ?_⟩
      rw [← equal.2, value]
    · rintro ⟨_, equal⟩
      rw [Option.some.injEq, Prod.mk.injEq] at equal
      rw [equal.1, BitVec.ofNat_toNat, BitVec.setWidth_eq]

theorem agree_last_level (slots : Nat → Slot → PageEntry) (table : Nat) (address : U64)
    (rights : Bool) :
    ResultsAgree (readPt slots table (splitVirtualAddressToStructure address))
      (if !(slots table (splitVirtualAddressToStructure address).pt).p then none
      else some ((slots table (splitVirtualAddressToStructure address).pt).frame +
        address.toNat % 4096, rights && (slots table (splitVirtualAddressToStructure address).pt).rw)) := by
  unfold readPt
  dsimp only
  generalize slots table (splitVirtualAddressToStructure address).pt = pte
  cases pte.p with
  | false => exact agree_missing
  | true =>
      have pageBound := pte.ppn.isLt
      have offset := split_offset_to_nat address
      simp only [Bool.not_true, Bool.false_eq_true, if_false]
      rw [agree_translated]
      · congr 1
        apply BitVec.eq_of_toNat_eq
        rw [page_and_offset, offset, PageEntry.frame, of_nat_to_nat (by omega)]
      · rw [PageEntry.frame]
        omega

/-- Behind a large page the software result is compared with the page's own address. -/
theorem agree_large {found : Bool × U64} {target : Nat} {writable : Bool}
    (bound : target < 2 ^ 64) :
    ResultsAgree found (some (target, writable)) ↔
      ∀ read physical, some (found, target) = some (read, physical) →
        read = (true, BitVec.ofNat 64 physical) := by
  rw [agree_translated bound]
  constructor
  · intro same read physical equal
    rw [Option.some.injEq, Prod.mk.injEq] at equal
    rw [← equal.1, ← equal.2]
    exact same
  · intro every
    exact every found target rfl

/-- On sign-extended addresses the two walks agree exactly when large pages mimic tables. -/
theorem walks_agree_iff_mimicked (mem : Memory) (root : Nat) (address : U64)
    (extended : SignExtended address) :
    ResultsAgree (virtualToPhysical mem root address) (hardwareWalk mem root address) ↔
      LargePagesMimicked mem root address := by
  have addressBound := address.isLt
  unfold virtualToPhysical hardwareWalk LargePagesMimicked largePage
  rw [extended.canonical]
  generalize readEntry mem = slots
  have last := fun table rights => agree_last_level slots table address rights
  generalize splitVirtualAddressToStructure address = indexes at last ⊢
  have behind : readPd slots = fun table indexes =>
      if !(slots table indexes.pd).p then (false, 0)
      else readPt slots (slots table indexes.pd).frame indexes := by
    funext table indexes
    rw [readPd]
  have deepest : readPt slots = fun table indexes =>
      if !(slots table indexes.pt).p then (false, (0 : U64))
      else (true, ((slots table indexes.pt).ppn.setWidth 64 <<< 12) |||
        indexes.offset.setWidth 64) := by
    funext table indexes
    rw [readPt]
  simp only [Bool.not_true, Bool.false_eq_true, if_false]
  generalize slots root indexes.pml4 = pml4e
  cases pml4e.p with
  | false =>
      simp only [Bool.not_false, if_true, Bool.false_and, reduceCtorEq, false_implies,
        implies_true, iff_true]
      exact agree_missing
  | true =>
      generalize slots pml4e.frame indexes.pdp = pdpe
      have pdpeBound := frame_bound pdpe
      cases pdpe.p with
      | false =>
          simp only [Bool.not_true, Bool.not_false, Bool.false_eq_true, if_true, if_false,
            Bool.and_false, reduceCtorEq, false_implies, implies_true, iff_true]
          exact agree_missing
      | true =>
          cases pdpe.z with
          | true =>
              simp only [Bool.not_true, Bool.false_eq_true, if_true, if_false, Bool.and_self]
              rw [agree_large (by omega), behind, deepest]
          | false =>
              have pdeBound := frame_bound (slots pdpe.frame indexes.pd)
              generalize slots pdpe.frame indexes.pd = pde at pdeBound ⊢
              cases pde.p with
              | false =>
                  simp only [Bool.not_true, Bool.not_false, Bool.false_eq_true, if_true, if_false,
                    Bool.and_self, Bool.false_and, reduceCtorEq, false_implies, implies_true,
                    iff_true]
                  exact agree_missing
              | true =>
                  cases pde.z with
                  | true =>
                      simp only [Bool.not_true, Bool.false_eq_true, if_true, if_false,
                        Bool.and_self]
                      rw [agree_large (by omega), deepest]
                  | false =>
                      have deep := last pde.frame (pml4e.rw && pdpe.rw && pde.rw)
                      rw [deepest] at deep
                      simp only [Bool.not_true, Bool.false_eq_true, if_false, Bool.and_self,
                        Bool.and_false, reduceCtorEq, false_implies, implies_true, iff_true]
                      exact deep

/-- The top table at 0x1000 maps the direct map by one 1 GiB page. -/
def directMapMemory : Memory :=
  writeEntry (writeEntry (fun _ => 0) 0x1000 256 { blankEntry with p := true, rw := true, ppn := 2 })
    0x2000 0 { blankEntry with p := true, rw := true, pat := true }

theorem read_zero_memory (table : Nat) (index : Slot) :
    readEntry (fun _ => 0) table index = blankEntry := by
  rw [← read_fill_zero (fun _ => 0) table index]
  apply read_entry_congr
  intro address inside
  simp only [fill, ite_self]

theorem direct_map_top (index : Slot) :
    readEntry directMapMemory 0x1000 index =
      if index = 256 then { blankEntry with p := true, rw := true, ppn := 2 } else blankEntry := by
  rw [directMapMemory, read_write_other _ _ (by decide) (by decide) (by simp)]
  by_cases here : index = 256
  · rw [if_pos here, here, read_write_same]
  · rw [if_neg here, read_write_other _ _ (by decide) (by decide) (fun same => here same.2),
      read_zero_memory]

def presentEntry (ppn : BitVec 40) : PageEntry := { blankEntry with p := true, rw := true, ppn }

/-- Beside the direct map, the 4 KiB page at 0x400000 in the frame 0x9000. -/
def smallPageMemory : Memory :=
  writeEntry (writeEntry (writeEntry (writeEntry directMapMemory 0x1000 0 (presentEntry 3))
    0x3000 0 (presentEntry 4)) 0x4000 2 (presentEntry 5)) 0x5000 0 (presentEntry 9)

theorem small_page_entries :
    readEntry smallPageMemory 0x1000 0 = presentEntry 3 ∧
      readEntry smallPageMemory 0x3000 0 = presentEntry 4 ∧
      readEntry smallPageMemory 0x4000 2 = presentEntry 5 ∧
      readEntry smallPageMemory 0x5000 0 = presentEntry 9 := by
  refine ⟨?_, ?_, ?_, ?_⟩
  · rw [smallPageMemory, read_write_other _ _ (by decide) (by decide) (by simp),
      read_write_other _ _ (by decide) (by decide) (by simp),
      read_write_other _ _ (by decide) (by decide) (by simp), read_write_same]
  · rw [smallPageMemory, read_write_other _ _ (by decide) (by decide) (by simp),
      read_write_other _ _ (by decide) (by decide) (by simp), read_write_same]
  · rw [smallPageMemory, read_write_other _ _ (by decide) (by decide) (by simp), read_write_same]
  · rw [smallPageMemory, read_write_same]

theorem small_page_walks_agree :
    hardwareWalk smallPageMemory 0x1000 0x400123 = some (0x9123, true) ∧
      ResultsAgree (virtualToPhysical smallPageMemory 0x1000 0x400123)
        (hardwareWalk smallPageMemory 0x1000 0x400123) := by
  obtain ⟨pml4e, pdpe, pde, pte⟩ := small_page_entries
  have indexes : splitVirtualAddressToStructure 0x400123 = ⟨0, 0, 0, 2, 0, 0x123⟩ := by decide
  have frames : (presentEntry 3).frame = 0x3000 ∧ (presentEntry 4).frame = 0x4000 ∧
      (presentEntry 5).frame = 0x5000 ∧ (presentEntry 9).frame = 0x9000 := by decide
  obtain ⟨third, fourth, fifth, last⟩ := frames
  constructor
  · rw [hardwareWalk, indexes]
    simp only [pml4e, pdpe, pde, pte, third, fourth, fifth, last]
    rfl
  · rw [walks_agree_iff_mimicked _ _ _ (by decide)]
    intro found target mapped
    rw [largePage, indexes] at mapped
    simp only [pml4e, pdpe, pde, third, fourth] at mapped
    simp [presentEntry, blankEntry, PageEntry.z] at mapped

/-- The first address of the direct map is mapped, and `virtual_to_physical` denies it. -/
theorem direct_map_denied :
    hardwareWalk directMapMemory 0x1000 0xffff800000000000 = some (0, true) ∧
      virtualToPhysical directMapMemory 0x1000 0xffff800000000000 = (false, 0) := by
  obtain ⟨indexes, split⟩ : ∃ indexes, splitVirtualAddressToStructure 0xffff800000000000 = indexes :=
    ⟨_, rfl⟩
  have pml4 : indexes.pml4 = 256 := by
    rw [← split]
    decide
  have pdp : indexes.pdp = 0 := by
    rw [← split]
    decide
  have top := direct_map_top 256
  rw [if_pos rfl] at top
  have second : readEntry directMapMemory 0x2000 0 =
      { blankEntry with p := true, rw := true, pat := true } := by
    rw [directMapMemory, read_write_same]
  have bytes : ∀ index, readEntry directMapMemory 0 index = blankEntry := by
    intro index
    rw [directMapMemory, read_write_other _ _ (by decide) (by decide) (by simp),
      read_write_other _ _ (by decide) (by decide) (by simp), read_zero_memory]
  have topFrame : (readEntry directMapMemory 0x1000 256).frame = 0x2000 := by
    rw [top]
    decide
  have secondFrame : (readEntry directMapMemory 0x2000 0).frame = 0 := by
    rw [second]
    decide
  constructor
  · unfold hardwareWalk
    dsimp only
    rw [split, pml4, pdp]
    simp only [topFrame, secondFrame]
    rw [top, second]
    rfl
  · have canonical : isCanonical 0xffff800000000000 = true := by decide
    unfold virtualToPhysical
    dsimp only
    rw [split, pml4, pdp, canonical]
    simp only [topFrame, secondFrame, bytes]
    rw [top, second]
    rfl

end KittyOs.LargePages
