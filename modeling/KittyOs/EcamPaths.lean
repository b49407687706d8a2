import KittyOs.PcieModel

/-!
# The two ECAM paths

`traverse_pcie` against `pcie_raw_read`: which functions of an MCFG table each of
them takes to exist and where it looks for them. The traversal stops before the last
bus of an entry, and counts buses from 0 where the raw read counts from the entry's
first bus.
-/

namespace KittyOs.EcamPaths

open KittyOs.Lib.ByteMemory KittyOs.MachineWord KittyOs.PcieModel

set_option autoImplicit false

/-- Both paths know the same functions and look for each at the same address. -/
structure PathsAgree (hhdm : U64) (mcfgEntries : List McfgEntry) : Prop where
  functions : ∀ (segment : BitVec 16) (bus : Byte) (device function : Nat),
    device < 32 → function < 8 →
    ((∃ probe ∈ traversePcie hhdm mcfgEntries, probe.entry.segmentGroup = segment ∧
        probe.bus = bus ∧ probe.device = device ∧ probe.function = function) ↔
      (rawEntry mcfgEntries segment bus).isSome = true)
  addresses : ∀ probe ∈ traversePcie hhdm mcfgEntries,
    probe.address = rawAddress hhdm probe.entry probe.bus (BitVec.ofNat 8 probe.device)
      (BitVec.ofNat 8 probe.function) 0

/-! ### What each path knows -/

theorem buses_from_mem (endBus start bus : Byte) :
    bus ∈ busesFrom endBus start ↔ start ≤ bus ∧ bus < endBus := by
  fun_induction busesFrom endBus start with
  | case1 start more ih =>
      rw [List.mem_cons, ih]
      constructor
      · rintro (rfl | ⟨lower, upper⟩)
        · exact ⟨BitVec.le_refl _, more⟩
        · exact ⟨by bv_omega, upper⟩
      · rintro ⟨lower, upper⟩
        by_cases first : bus = start
        · exact Or.inl first
        · exact Or.inr ⟨by bv_omega, upper⟩
  | case2 start ended =>
      simp only [List.not_mem_nil, false_iff, not_and]
      intro lower
      bv_omega

theorem traverse_mem (hhdm : U64) (mcfgEntries : List McfgEntry) (probe : Probe) :
    probe ∈ traversePcie hhdm mcfgEntries ↔
      probe.entry ∈ mcfgEntries ∧ probe.entry.startBus ≤ probe.bus ∧
        probe.bus < probe.entry.endBus ∧ probe.device < 32 ∧ probe.function < 8 ∧
        probe.address =
          probeAddress hhdm probe.entry probe.bus probe.device probe.function := by
  simp only [traversePcie, List.mem_flatMap, List.mem_map, List.mem_range, buses_from_mem]
  constructor
  · rintro ⟨entry, member, bus, ⟨lower, upper⟩, device, devices, function, functions, rfl⟩
    exact ⟨member, lower, upper, devices, functions, rfl⟩
  · rintro ⟨member, lower, upper, devices, functions, address⟩
    refine ⟨probe.entry, member, probe.bus, ⟨lower, upper⟩, probe.device, devices, probe.function,
      functions, ?_⟩
    rw [← address]

theorem raw_entry_some_iff (mcfgEntries : List McfgEntry) (segment : BitVec 16) (bus : Byte) :
    (rawEntry mcfgEntries segment bus).isSome = true ↔
      ∃ entry ∈ mcfgEntries, entry.segmentGroup = segment ∧ entry.startBus ≤ bus ∧
        bus ≤ entry.endBus := by
  simp only [rawEntry, List.find?_isSome, Bool.and_eq_true, beq_iff_eq, Bool.not_eq_true',
    Bool.or_eq_false_iff, decide_eq_false_iff_not, gt_iff_lt, BitVec.not_lt]

/-! ### Where each path looks -/

/-- The offset into the segment is a small number, so nothing of it wraps. -/
theorem raw_address_offset (hhdm : U64) (entry : McfgEntry) {bus : Byte} (slot function : Byte)
    (offset : U64) (lower : entry.startBus ≤ bus) :
    rawAddress hhdm entry bus slot function offset =
      entry.baseAddress + hhdm + BitVec.ofNat 64 ((bus.toNat - entry.startBus.toNat) * 2 ^ 20 +
        slot.toNat * 2 ^ 15 + function.toNat * 2 ^ 12) + offset := by
  have busBound := bus.isLt
  have slotBound := slot.isLt
  have functionBound := function.isLt
  have startBound := entry.startBus.isLt
  have order : entry.startBus.toNat ≤ bus.toNat := lower
  have buses : ((bus.setWidth 32 - entry.startBus.setWidth 32) <<< 20 : BitVec 32).toNat =
      (bus.toNat - entry.startBus.toNat) * 2 ^ 20 := by
    simp only [BitVec.toNat_shiftLeft, BitVec.toNat_sub, BitVec.toNat_setWidth, Nat.shiftLeft_eq]
    omega
  have slots : (slot.setWidth 32 <<< 15 : BitVec 32).toNat = slot.toNat * 2 ^ 15 := by
    simp only [BitVec.toNat_shiftLeft, BitVec.toNat_setWidth, Nat.shiftLeft_eq]
    omega
  have functions : (function.setWidth 32 <<< 12 : BitVec 32).toNat = function.toNat * 2 ^ 12 := by
    simp only [BitVec.toNat_shiftLeft, BitVec.toNat_setWidth, Nat.shiftLeft_eq]
    omega
  unfold rawAddress
  dsimp only
  rw [sign_extend_small (by rw [buses]; omega), sign_extend_small (by rw [slots]; omega),
    sign_extend_small (by rw [functions]; omega), buses, slots, functions, BitVec.ofNat_add,
    BitVec.ofNat_add]
  ac_rfl

theorem probe_address_shifted (hhdm : U64) (entry : McfgEntry) {bus : Byte} {device function : Nat}
    (lower : entry.startBus ≤ bus) (devices : device < 32) (functions : function < 8) :
    probeAddress hhdm entry bus device function =
      rawAddress hhdm entry bus (BitVec.ofNat 8 device) (BitVec.ofNat 8 function) 0 +
        BitVec.ofNat 64 (entry.startBus.toNat * 2 ^ 20) := by
  have busBound := bus.isLt
  have order : entry.startBus.toNat ≤ bus.toNat := lower
  have place : ((bus.setWidth 32 * 256 + BitVec.ofNat 32 device * 8 + BitVec.ofNat 32 function) *
      4096 : BitVec 32).toNat = (bus.toNat * 256 + device * 8 + function) * 4096 := by
    simp only [BitVec.toNat_mul, BitVec.toNat_add, BitVec.toNat_setWidth, BitVec.ofNat_eq_ofNat,
      BitVec.toNat_ofNat]
    omega
  have slotValue : (BitVec.ofNat 8 device).toNat = device := by
    rw [BitVec.toNat_ofNat]
    omega
  have functionValue : (BitVec.ofNat 8 function).toNat = function := by
    rw [BitVec.toNat_ofNat]
    omega
  have split : (bus.toNat * 256 + device * 8 + function) * 4096 =
      ((bus.toNat - entry.startBus.toNat) * 2 ^ 20 + device * 2 ^ 15 + function * 2 ^ 12) +
        entry.startBus.toNat * 2 ^ 20 := by
    omega
  rw [raw_address_offset hhdm entry _ _ 0 lower, slotValue, functionValue]
  unfold probeAddress
  dsimp only
  rw [sign_extend_small (by rw [place]; omega), place, split, BitVec.ofNat_add _ (_ * _),
    BitVec.ofNat_eq_ofNat, BitVec.add_zero]
  ac_rfl

theorem same_address_iff (hhdm : U64) (entry : McfgEntry) {bus : Byte} {device function : Nat}
    (lower : entry.startBus ≤ bus) (devices : device < 32) (functions : function < 8) :
    probeAddress hhdm entry bus device function =
        rawAddress hhdm entry bus (BitVec.ofNat 8 device) (BitVec.ofNat 8 function) 0 ↔
      entry.startBus = 0 := by
  rw [probe_address_shifted hhdm entry lower devices functions]
  generalize rawAddress hhdm entry bus (BitVec.ofNat 8 device) (BitVec.ofNat 8 function) 0 = place
  constructor
  · intro same
    bv_omega
  · intro zero
    rw [zero]
    exact BitVec.add_zero place

/-! ### Agreement -/

/-- Where the paths agree, the last bus of an entry belongs to a longer entry too. -/
theorem longer_entry {hhdm : U64} {mcfgEntries : List McfgEntry}
    (ordered : ∀ entry ∈ mcfgEntries, entry.startBus ≤ entry.endBus)
    (agree : PathsAgree hhdm mcfgEntries) {entry : McfgEntry} (member : entry ∈ mcfgEntries) :
    ∃ other ∈ mcfgEntries, entry.endBus < other.endBus := by
  have accepted := (raw_entry_some_iff mcfgEntries entry.segmentGroup entry.endBus).mpr
    ⟨entry, member, rfl, ordered entry member, BitVec.le_refl _⟩
  obtain ⟨probe, probed, _, same, _⟩ :=
    (agree.functions entry.segmentGroup entry.endBus 0 0 (by decide) (by decide)).mpr accepted
  obtain ⟨known, _, upper, _⟩ := (traverse_mem hhdm mcfgEntries probe).mp probed
  exact ⟨probe.entry, known, same ▸ upper⟩

theorem agree_only_empty {hhdm : U64} {mcfgEntries : List McfgEntry}
    (ordered : ∀ entry ∈ mcfgEntries, entry.startBus ≤ entry.endBus)
    (agree : PathsAgree hhdm mcfgEntries) : mcfgEntries = [] := by
  have climb : ∀ room : Nat, ∀ entry ∈ mcfgEntries, 255 - entry.endBus.toNat = room → False := by
    intro room
    induction room using Nat.strong_induction_on with
    | _ room ih =>
        intro entry member left
        obtain ⟨other, known, longer⟩ := longer_entry ordered agree member
        have bound := other.endBus.isLt
        have above : entry.endBus.toNat < other.endBus.toNat := longer
        exact ih (255 - other.endBus.toNat) (by omega) other known rfl
  rw [List.eq_nil_iff_forall_not_mem]
  intro entry member
  exact climb _ entry member rfl

theorem empty_agrees (hhdm : U64) : PathsAgree hhdm [] where
  functions := by simp [traversePcie, rawEntry]
  addresses := by simp [traversePcie]

/-- Over a whole table the paths agree only if it has no entries. Within an entry they agree
on a function exactly if it is not on the last bus and the entry begins at bus 0. -/
theorem paths_agree_iff_no_entries (hhdm : U64) {mcfgEntries : List McfgEntry}
    (ordered : ∀ entry ∈ mcfgEntries, entry.startBus ≤ entry.endBus) :
    (PathsAgree hhdm mcfgEntries ↔ mcfgEntries = []) ∧
    ∀ entry ∈ mcfgEntries, ∀ (bus : Byte) (device function : Nat), device < 32 → function < 8 →
      entry.startBus ≤ bus → bus ≤ entry.endBus →
      ((∃ address, ⟨entry, bus, device, function, address⟩ ∈ traversePcie hhdm mcfgEntries) ↔
        bus ≠ entry.endBus) ∧
      (probeAddress hhdm entry bus device function =
          rawAddress hhdm entry bus (BitVec.ofNat 8 device) (BitVec.ofNat 8 function) 0 ↔
        entry.startBus = 0) := by
  constructor
  · constructor
    · exact agree_only_empty ordered
    · rintro rfl
      exact empty_agrees hhdm
  · intro entry member bus device function devices functions lower upper
    refine ⟨?_, same_address_iff hhdm entry lower devices functions⟩
    simp only [traverse_mem]
    constructor
    · rintro ⟨address, _, _, below, _⟩ same
      bv_omega
    · intro differs
      exact ⟨_, member, lower, by bv_omega, devices, functions, rfl⟩

/-- The buses 16 to 31 of segment 0 at 0xb0000000. -/
def middleBuses : McfgEntry := ⟨0xb0000000, 0, 16, 31⟩

/-- Bus 31 is read and never probed, bus 16 is probed 16 MiB behind where it is read. -/
theorem middle_buses_disagree :
    (rawEntry [middleBuses] 0 31).isSome = true ∧
      (∀ probe ∈ traversePcie 0 [middleBuses], probe.bus ≠ 31) ∧
      probeAddress 0 middleBuses 16 0 0 = 0xb1000000 ∧
      rawAddress 0 middleBuses 16 0 0 0 = 0xb0000000 := by
  refine ⟨by decide, ?_, by decide, by decide⟩
  intro probe probed last
  obtain ⟨known, _, upper, _⟩ := (traverse_mem 0 [middleBuses] probe).mp probed
  rw [List.mem_singleton.mp known, last] at upper
  exact absurd upper (by decide)

/-- All buses of segment 0 at 0xb0000000. -/
def allBuses : McfgEntry := ⟨0xb0000000, 0, 0, 255⟩

theorem inner_bus_agrees :
    (∃ address, ⟨allBuses, 3, 31, 7, address⟩ ∈ traversePcie 0 [allBuses]) ∧
      probeAddress 0 allBuses 3 31 7 = rawAddress 0 allBuses 3 31 7 0 := by
  obtain ⟨probed, same⟩ := (paths_agree_iff_no_entries 0
      (by simp [allBuses] : ∀ entry ∈ [allBuses], entry.startBus ≤ entry.endBus)).2 allBuses
    (List.mem_singleton.mpr rfl) 3 31 7 (by decide) (by decide) (by decide) (by decide)
  exact ⟨probed.mpr (by decide), same.mpr rfl⟩

end KittyOs.EcamPaths
