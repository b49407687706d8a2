import KittyOs.EcamPaths
import KittyOs.UacpiGlue

/-!
# Configuration space reads for uACPI

`uacpi_kernel_pci_read8`, `16` and `32` return `UACPI_STATUS_OK` whatever
`pcie_raw_read` did. Where an MCFG entry covers the device, the value is read as if the
base address of the entry were that of its first bus; the layout is that of
`traverse_pcie`, where it is the address of bus 0. Where no entry covers the device, the
caller is told so only by the value it had before.
-/

namespace KittyOs.PciReads

open KittyOs.Lib KittyOs.Lib.ByteMemory KittyOs.MachineWord KittyOs.AcpiModel KittyOs.PcieModel
open KittyOs.EcamPaths KittyOs.UacpiGlue

set_option autoImplicit false

/-! ### Where a function's bytes are -/

def CoversDevice (entry : McfgEntry) (device : UacpiPciAddress) : Prop :=
  entry.segmentGroup = device.segment ∧ entry.startBus ≤ device.bus ∧ device.bus ≤ entry.endBus

def FirstFor (mcfgEntries : List McfgEntry) (device : UacpiPciAddress) (entry : McfgEntry) : Prop :=
  ∃ before after, mcfgEntries = before ++ entry :: after ∧ CoversDevice entry device ∧
    ∀ earlier ∈ before, ¬CoversDevice earlier device

/-- Where a function has its configuration space, in the direct map: `base_address` is
that of bus 0, as in `traverse_pcie`. -/
def configAddress (hhdm : U64) (entry : McfgEntry) (device : UacpiPciAddress) (offset : U64) :
    U64 :=
  BitVec.ofNat 64
    ((device.bus.toNat * 256 + device.device.toNat * 8 + device.function.toNat) * 4096) +
    entry.baseAddress + hhdm + offset

theorem raw_address_shifted (hhdm : U64) {entry : McfgEntry} {device : UacpiPciAddress}
    (covers : CoversDevice entry device) (offset : U64) :
    configAddress hhdm entry device offset =
      rawAddress hhdm entry device.bus device.device device.function offset +
        BitVec.ofNat 64 (entry.startBus.toNat * 2 ^ 20) := by
  have order : entry.startBus.toNat ≤ device.bus.toNat := covers.2.1
  have split : (device.bus.toNat * 256 + device.device.toNat * 8 + device.function.toNat) * 4096 =
      ((device.bus.toNat - entry.startBus.toNat) * 2 ^ 20 + device.device.toNat * 2 ^ 15 +
        device.function.toNat * 2 ^ 12) + entry.startBus.toNat * 2 ^ 20 := by
    omega
  rw [raw_address_offset hhdm entry _ _ offset covers.2.1, configAddress, split,
    BitVec.ofNat_add _ (_ * _)]
  ac_rfl

theorem entry_matches_iff (entry : McfgEntry) (device : UacpiPciAddress) :
    (entry.segmentGroup == device.segment &&
        !(device.bus < entry.startBus || device.bus > entry.endBus)) = true ↔
      CoversDevice entry device := by
  simp only [Bool.and_eq_true, beq_iff_eq, Bool.not_eq_true', Bool.or_eq_false_iff,
    decide_eq_false_iff_not, gt_iff_lt, BitVec.not_lt, CoversDevice]

/-! ### The contract -/

def Covered (mcfgEntries : List McfgEntry) (device : UacpiPciAddress) : Prop :=
  ∃ entry ∈ mcfgEntries, CoversDevice entry device

/-- The status says whether an entry covers the device, and the value is that of the
function's bytes or as it was. -/
structure ReadContract (size : Nat) (mem : Memory) (hhdm : U64) (mcfgEntries : List McfgEntry)
    (device : UacpiPciAddress) (offset : U64) (current : BitVec (8 * size))
    (outcome : UacpiStatus × BitVec (8 * size)) : Prop where
  status : outcome.1 = .ok ↔ Covered mcfgEntries device
  value : ∀ entry, FirstFor mcfgEntries device entry →
    outcome.2.toNat = fieldAt mem (configAddress hhdm entry device offset) size
  kept : ¬Covered mcfgEntries device → outcome.2 = current

theorem raw_entry_first {mcfgEntries : List McfgEntry} {device : UacpiPciAddress}
    {entry : McfgEntry} (first : FirstFor mcfgEntries device entry) :
    rawEntry mcfgEntries device.segment device.bus = some entry := by
  obtain ⟨before, after, split, covers, earlier⟩ := first
  apply List.find?_eq_some_iff_append.mpr
  refine ⟨(entry_matches_iff entry device).mpr covers, before, after, split, ?_⟩
  intro other member
  rw [Bool.not_eq_true']
  exact Bool.eq_false_iff.mpr fun listed =>
    earlier other member ((entry_matches_iff other device).mp listed)

section Reads

variable {size : Nat} {mem : Memory} {hhdm : U64} {mcfgEntries : List McfgEntry}
  {device : UacpiPciAddress} {offset value : U64} {current : BitVec (8 * size)}

/-- Every call succeeds, by its status. -/
theorem read_status :
    (uacpiKernelPciRead size mem hhdm mcfgEntries device offset value current).1 = .ok := by
  unfold uacpiKernelPciRead
  split <;> rfl

/-- The value of a covered device is that of the bytes the raw read goes to. -/
theorem read_value {entry : McfgEntry} (first : FirstFor mcfgEntries device entry)
    (valid : value ≠ 0) (positive : 0 < size) (small : size < 2 ^ 64) :
    (uacpiKernelPciRead size mem hhdm mcfgEntries device offset value current).2.toNat =
      fieldAt mem (rawAddress hhdm entry device.bus device.device device.function offset) size := by
  have length : (BitVec.ofNat 64 size).toNat = size := of_nat_to_nat small
  have nonempty : BitVec.ofNat 64 size ≠ 0 := by
    intro zero
    rw [zero] at length
    have none : (0 : U64).toNat = 0 := rfl
    omega
  have bytes : pcieRawRead mem hhdm mcfgEntries device.segment device.bus device.device
      device.function offset value (BitVec.ofNat 64 size) =
        some (bytesAt mem (rawAddress hhdm entry device.bus device.device device.function offset)
          size) := by
    rw [pcieRawRead, if_neg (not_or.mpr ⟨valid, nonempty⟩), raw_entry_first first, Option.map_some,
      length]
  have bound := LittleEndian.decode_lt
    (bytesAt mem (rawAddress hhdm entry device.bus device.device device.function offset) size)
  have count : (bytesAt mem (rawAddress hhdm entry device.bus device.device device.function offset)
      size).length = size := by
    simp [bytesAt, RuntimeBlob.spanFrom]
  rw [count] at bound
  simp only [uacpiKernelPciRead, bytes, BitVec.toNat_ofNat]
  exact Nat.mod_eq_of_lt bound

theorem read_kept (uncovered : ¬Covered mcfgEntries device) :
    (uacpiKernelPciRead size mem hhdm mcfgEntries device offset value current).2 = current := by
  have missing : rawEntry mcfgEntries device.segment device.bus = none := by
    rw [← Option.not_isSome_iff_eq_none, raw_entry_some_iff]
    exact uncovered
  have nothing : pcieRawRead mem hhdm mcfgEntries device.segment device.bus device.device
      device.function offset value (BitVec.ofNat 64 size) = none := by
    rw [pcieRawRead, missing]
    split <;> rfl
  simp only [uacpiKernelPciRead, nothing]

theorem first_for_exists (covered : Covered mcfgEntries device) :
    ∃ entry, FirstFor mcfgEntries device entry := by
  have listed := (raw_entry_some_iff mcfgEntries device.segment device.bus).mpr covered
  obtain ⟨entry, found⟩ := Option.isSome_iff_exists.mp listed
  obtain ⟨covers, before, after, split, earlier⟩ := List.find?_eq_some_iff_append.mp found
  refine ⟨entry, before, after, split, (entry_matches_iff entry device).mp covers, ?_⟩
  intro other member listed
  have skipped := earlier other member
  rw [(entry_matches_iff other device).mpr listed] at skipped
  exact absurd skipped (by simp)

theorem FirstFor.covers {entry : McfgEntry} (first : FirstFor mcfgEntries device entry) :
    CoversDevice entry device := by
  obtain ⟨_, _, _, covers, _⟩ := first
  exact covers

theorem FirstFor.unique {entry other : McfgEntry} (first : FirstFor mcfgEntries device entry)
    (second : FirstFor mcfgEntries device other) : entry = other :=
  Option.some.inj ((raw_entry_first first).symm.trans (raw_entry_first second))

end Reads

/-- A memory with one byte set tells two places apart that are far from each other. -/
theorem places_differ {place other : U64} {size : Nat} (positive : 0 < size)
    (far : ∀ index < size, other + BitVec.ofNat 64 index ≠ place) :
    fieldAt (fun byte => if byte = place.toNat then 1 else 0) place size ≠
      fieldAt (fun byte => if byte = place.toNat then 1 else 0) other size := by
  obtain ⟨rest, isSize⟩ := Nat.exists_eq_succ_of_ne_zero (Nat.ne_of_gt positive)
  have zeros : ∀ bytes : List Byte, (∀ byte ∈ bytes, byte = 0) → LittleEndian.decode bytes = 0 := by
    intro bytes blank
    induction bytes with
    | nil => rfl
    | cons byte bytes ih =>
        rw [LittleEndian.decode, blank byte List.mem_cons_self,
          ih fun later member => blank later (List.mem_cons_of_mem _ member)]
        rfl
  have nothing : fieldAt (fun byte => if byte = place.toNat then 1 else 0) other size = 0 := by
    apply zeros
    intro byte member
    simp only [bytesAt, RuntimeBlob.spanFrom, List.map_map, List.mem_map, List.mem_range,
      Function.comp_apply] at member
    obtain ⟨index, inside, is⟩ := member
    rw [← is, if_neg fun same => far index inside (BitVec.eq_of_toNat_eq same)]
  rw [nothing, isSize]
  simp [fieldAt, bytesAt, RuntimeBlob.spanFrom, List.range_succ_eq_map, LittleEndian.decode]

theorem contract_iff_first_bus {size : Nat} {hhdm : U64} {mcfgEntries : List McfgEntry}
    {device : UacpiPciAddress} {offset value : U64} (valid : value ≠ 0) (positive : 0 < size)
    (small : size ≤ 4) :
    (∀ mem current, ReadContract size mem hhdm mcfgEntries device offset current
        (uacpiKernelPciRead size mem hhdm mcfgEntries device offset value current)) ↔
      ∃ entry, FirstFor mcfgEntries device entry ∧ entry.startBus = 0 := by
  constructor
  · intro contract
    obtain ⟨entry, first⟩ := first_for_exists ((contract (fun _ => 0) 0).status.mp read_status)
    refine ⟨entry, first, ?_⟩
    by_contra later
    have start := entry.startBus.isLt
    have nonzero : entry.startBus.toNat ≠ 0 := fun zero => later (BitVec.eq_of_toNat_eq zero)
    obtain ⟨place, isPlace⟩ : ∃ place, place = rawAddress hhdm entry device.bus device.device
      device.function offset := ⟨_, rfl⟩
    have shifted := raw_address_shifted hhdm first.covers offset
    rw [← isPlace] at shifted
    have agreed := (contract (fun byte => if byte = place.toNat then 1 else 0) 0).value entry first
    rw [read_value first valid positive (by omega), ← isPlace] at agreed
    refine places_differ positive ?_ agreed
    intro index inside same
    have far := congrArg BitVec.toNat same
    rw [shifted, BitVec.toNat_add, BitVec.toNat_add, BitVec.toNat_ofNat, BitVec.toNat_ofNat] at far
    omega
  · rintro ⟨entry, first, zero⟩ mem current
    constructor
    · obtain ⟨before, after, split, covers, _⟩ := first
      exact iff_of_true read_status ⟨entry, by rw [split]; simp, covers⟩
    · intro other firstOther
      have shifted := raw_address_shifted hhdm first.covers offset
      rw [zero, show ((0 : Byte).toNat * 2 ^ 20) = 0 from rfl, BitVec.add_zero] at shifted
      rw [← first.unique firstOther, read_value first valid positive (by omega), shifted]
    · exact read_kept

/-- The three reads keep their contract, whatever memory holds, for exactly the devices
whose first covering entry starts at bus 0. -/
theorem pci_reads_contract_iff (hhdm : U64) (mcfgEntries : List McfgEntry)
    (device : UacpiPciAddress) (offset : U64) {value : U64} (valid : value ≠ 0) :
    ((∀ mem current, ReadContract 1 mem hhdm mcfgEntries device offset current
        (uacpiKernelPciRead8 mem hhdm mcfgEntries device offset value current)) ↔
      ∃ entry, FirstFor mcfgEntries device entry ∧ entry.startBus = 0) ∧
    ((∀ mem current, ReadContract 2 mem hhdm mcfgEntries device offset current
        (uacpiKernelPciRead16 mem hhdm mcfgEntries device offset value current)) ↔
      ∃ entry, FirstFor mcfgEntries device entry ∧ entry.startBus = 0) ∧
    ((∀ mem current, ReadContract 4 mem hhdm mcfgEntries device offset current
        (uacpiKernelPciRead32 mem hhdm mcfgEntries device offset value current)) ↔
      ∃ entry, FirstFor mcfgEntries device entry ∧ entry.startBus = 0) := by
  refine ⟨?_, ?_, ?_⟩
  · exact contract_iff_first_bus valid (by omega) (by omega)
  · exact contract_iff_first_bus valid (by omega) (by omega)
  · exact contract_iff_first_bus valid (by omega) (by omega)

/-- Memory whose bytes are all different within 256 of each other. -/
def countingMemory : Memory := fun place => BitVec.ofNat 8 place

theorem covered_device_read :
    ReadContract 4 countingMemory 0 [⟨0xe0000000, 0, 0, 255⟩] ⟨0, 3, 31, 0⟩ 5 0
        (uacpiKernelPciRead32 countingMemory 0 [⟨0xe0000000, 0, 0, 255⟩] ⟨0, 3, 31, 0⟩ 5 0x1000 0) ∧
      (uacpiKernelPciRead32 countingMemory 0 [⟨0xe0000000, 0, 0, 255⟩] ⟨0, 3, 31, 0⟩ 5 0x1000
        0).2 = 0x08070605 := by
  refine ⟨?_, by decide⟩
  apply (pci_reads_contract_iff _ _ _ _ (by decide)).2.2.mpr
  exact ⟨⟨0xe0000000, 0, 0, 255⟩, ⟨[], [], rfl, ⟨by decide, by decide, by decide⟩, by simp⟩, rfl⟩

/-- A device on a segment that no entry is for is read with success. -/
theorem uncovered_device_read_ok :
    ¬ReadContract 1 (fun _ => 0x86) 0 [⟨0xe0000000, 0, 0, 255⟩] ⟨1, 3, 31, 0⟩ 0 0xff
      (uacpiKernelPciRead8 (fun _ => 0x86) 0 [⟨0xe0000000, 0, 0, 255⟩] ⟨1, 3, 31, 0⟩ 0 0x1000
        0xff) := by
  intro contract
  obtain ⟨entry, member, covers⟩ := contract.status.mp read_status
  rw [List.mem_singleton.mp member] at covers
  exact absurd covers.1 (by decide)

end KittyOs.PciReads
