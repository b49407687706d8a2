import KittyOs.VkfsModel

/-!
# Reading VKFS files

The amount a read delivers, branch by branch of its clamp, and the requests for
which it is the amount asked for, cut at the end of the file. A request of at most
the file's length that reaches its end loses the offset from its size; one whose
end wraps is taken as it is.
-/

namespace KittyOs.VkfsRead

open KittyOs.Lib.ByteMemory KittyOs.MachineWord KittyOs.RuntimeBlob KittyOs.VkfsModel

set_option autoImplicit false

/-! ### The clamp -/

section Clamp

variable {fileLength size offset : U64} (inside : offset.toNat < fileLength.toNat)

include inside

theorem bytes_to_read_short (short : size.toNat + offset.toNat < fileLength.toNat) :
    bytesToRead fileLength size offset = size := by
  have bound := fileLength.isLt
  have kept : clampedSize fileLength size offset = size := by
    rw [clampedSize, if_neg (by bv_omega)]
  rw [bytesToRead, if_neg (by bv_omega), kept, if_pos (by bv_omega)]

theorem bytes_to_read_wrapped (wraps : 2 ^ 64 ≤ size.toNat + offset.toNat) :
    bytesToRead fileLength size offset = size := by
  have bound := size.isLt
  have sum : (size + offset).toNat = size.toNat + offset.toNat - 2 ^ 64 := by
    rw [BitVec.toNat_add]
    omega
  have kept : clampedSize fileLength size offset = size := by
    rw [clampedSize, if_neg]
    rw [ge_iff_le, BitVec.le_def, sum]
    omega
  rw [bytesToRead, if_neg (by bv_omega), kept, if_pos]
  rw [BitVec.le_def, sum]
  omega

theorem bytes_to_read_long (noWrap : size.toNat + offset.toNat < 2 ^ 64)
    (long : fileLength.toNat < size.toNat) :
    (bytesToRead fileLength size offset).toNat = fileLength.toNat - offset.toNat := by
  have cut : clampedSize fileLength size offset = fileLength := by
    rw [clampedSize, if_pos (by bv_omega), if_pos (by bv_omega)]
  rw [bytesToRead, if_neg (by bv_omega), cut]
  dsimp only
  split_ifs <;> bv_omega

theorem bytes_to_read_shifted (reaches : fileLength.toNat ≤ size.toNat + offset.toNat)
    (noWrap : size.toNat + offset.toNat < 2 ^ 64) (small : size.toNat ≤ fileLength.toNat) :
    bytesToRead fileLength size offset = size - offset := by
  have shifted : clampedSize fileLength size offset = size - offset := by
    rw [clampedSize, if_pos (by bv_omega), if_neg (by bv_omega)]
  rw [bytesToRead, if_neg (by bv_omega), shifted, if_pos (by bv_omega)]

end Clamp

/-- The bytes from the offset to the end of the file, at most as many as asked for. -/
def remaining (fileLength size offset : U64) : Nat :=
  if offset.toNat < fileLength.toNat then min size.toNat (fileLength.toNat - offset.toNat) else 0

/-- The requests the clamp gets right. -/
def ClampExact (fileLength size offset : U64) : Prop :=
  fileLength.toNat ≤ offset.toNat ∨ size.toNat + offset.toNat < fileLength.toNat ∨
    (fileLength.toNat ≤ size.toNat ∧ size.toNat + offset.toNat < 2 ^ 64)

theorem bytes_to_read_iff (fileLength size offset : U64) :
    (bytesToRead fileLength size offset).toNat = remaining fileLength size offset ↔
      ClampExact fileLength size offset := by
  have lengthBound := fileLength.isLt
  have sizeBound := size.isLt
  have offsetBound := offset.isLt
  unfold remaining ClampExact
  by_cases past : fileLength.toNat ≤ offset.toNat
  · have nothing : bytesToRead fileLength size offset = 0 := by
      rw [bytesToRead, if_pos (by bv_omega)]
    rw [nothing, if_neg (by omega)]
    simp [past]
  · have inside : offset.toNat < fileLength.toNat := by omega
    rw [if_pos inside]
    by_cases short : size.toNat + offset.toNat < fileLength.toNat
    · rw [bytes_to_read_short inside short]
      omega
    · by_cases wraps : 2 ^ 64 ≤ size.toNat + offset.toNat
      · rw [bytes_to_read_wrapped inside wraps]
        omega
      · by_cases long : fileLength.toNat < size.toNat
        · rw [bytes_to_read_long inside (by omega) long]
          omega
        · rw [bytes_to_read_shifted inside (by omega) (by omega) (by omega), BitVec.toNat_sub]
          omega

/-! ### The file -/

/-- The module a path stands for: the last one of that name. -/
def Names (modules : List Module) (path : CString) (module : Module) : Prop :=
  ∃ before behind, modules = before ++ module :: behind ∧ module.path = path ∧
    ∀ other ∈ behind, other.path ≠ path

theorem find_module_named {modules : List Module} {path : CString} {module : Module}
    (named : Names modules path module) :
    findModule modules path = (module.address, module.size) := by
  obtain ⟨before, behind, split, same, later⟩ := named
  have skipped : ∀ (rest : List Module) (found : U64 × U64),
      (∀ other ∈ rest, other.path ≠ path) →
      rest.foldl
        (fun found module =>
          if strcmp path module.path = 0 then (module.address, module.size) else found)
        found = found := by
    intro rest found others
    induction rest with
    | nil => rfl
    | cons other rest ih =>
        have differs : ¬strcmp path other.path = 0 := by
          rw [strcmp_zero_iff]
          exact fun equal => others other (by simp) equal.symm
        rw [List.foldl_cons, if_neg differs]
        exact ih fun other member => others other (by simp [member])
  have hit : strcmp path module.path = 0 := (strcmp_zero_iff _ _).mpr same.symm
  rw [findModule, split, List.foldl_append, List.foldl_cons, if_pos hit, skipped behind _ later]

/-- A read of a file at `data`: it returns the remaining amount, copies exactly these bytes
and touches no others. -/
structure ReadsExactly (mem : Memory) (data fileLength buffer size offset : U64)
    (outcome : ReadOutcome) : Prop where
  returned : outcome.returned.toNat = remaining fileLength size offset
  copied : ∀ index, index < remaining fileLength size offset →
    outcome.mem (buffer.toNat + index) = mem (data.toNat + offset.toNat + index)
  kept : ∀ address, ¬Within buffer.toNat (remaining fileLength size offset) address →
    outcome.mem address = mem address
  sources : outcome.sources = spanFrom (data + offset) (remaining fileLength size offset)
  targets : outcome.targets = spanFrom buffer (remaining fileLength size offset)

section Reads

variable {modules : List Module} {file : OpenFile} {module : Module} {size offset buffer : U64}

theorem read_copies (mem : Memory)
    (named : Names modules file.path module)
    (exact : ClampExact module.size size offset)
    (dataFits : module.address.toNat + module.size.toNat ≤ 2 ^ 64)
    (bufferFits : buffer.toNat + remaining module.size size offset ≤ 2 ^ 64)
    (apart : buffer.toNat + remaining module.size size offset ≤ module.address.toNat ∨
      module.address.toNat + module.size.toNat ≤ buffer.toNat) :
    ReadsExactly mem module.address module.size buffer size offset
      (read mem modules file buffer size offset) := by
  have count := (bytes_to_read_iff module.size size offset).mpr exact
  simp only [VkfsModel.read, find_module_named named, count]
  generalize moved : memcpy mem buffer (module.address + offset)
    (remaining module.size size offset) = after
  by_cases inside : offset.toNat < module.size.toNat
  · have ends : offset.toNat + remaining module.size size offset ≤ module.size.toNat := by
      rw [remaining, if_pos inside]
      omega
    have source : (module.address + offset).toNat = module.address.toNat + offset.toNat := by
      bv_omega
    rw [memcpy_clear mem buffer _ _ bufferFits (by omega) (by omega), source] at moved
    rw [← moved]
    refine ⟨count, ?_, ?_, rfl, rfl⟩
    · intro index bound
      have within : Within buffer.toNat (remaining module.size size offset)
          (buffer.toNat + index) := ⟨by omega, by omega⟩
      simp only [copyBlock, if_pos within]
      congr 1
      omega
    · intro address outside
      exact copy_block_outside _ _ _ _ _ outside
  · have nothing : remaining module.size size offset = 0 := by
      rw [remaining, if_neg inside]
    rw [nothing, memcpy] at moved
    rw [← moved]
    refine ⟨count, ?_, fun _ _ => rfl, rfl, rfl⟩
    intro index bound
    omega

theorem read_exact_iff_clamp_exact (mem : Memory)
    (named : Names modules file.path module)
    (dataFits : module.address.toNat + module.size.toNat ≤ 2 ^ 64)
    (bufferFits : buffer.toNat + remaining module.size size offset ≤ 2 ^ 64)
    (apart : buffer.toNat + remaining module.size size offset ≤ module.address.toNat ∨
      module.address.toNat + module.size.toNat ≤ buffer.toNat) :
    ReadsExactly mem module.address module.size buffer size offset
        (read mem modules file buffer size offset) ↔
      ClampExact module.size size offset := by
  constructor
  · intro reads
    have returned := reads.returned
    simp only [VkfsModel.read, find_module_named named] at returned
    exact (bytes_to_read_iff module.size size offset).mp returned
  · intro exact
    exact read_copies mem named exact dataFits bufferFits apart

end Reads

/-- A file of 100 bytes at 0x10000. -/
def hundred : Module := ⟨⟨[0x68], by decide⟩, 0x10000, 100⟩

theorem hundred_named : Names [hundred] hundred.path hundred :=
  ⟨[], [], rfl, rfl, by simp⟩

/-- All 100 bytes, asked for from offset 10: the last 90 are delivered. -/
theorem hundred_tail_read :
    ReadsExactly (fun _ => 0) 0x10000 100 0x20000 100 10
      (read (fun _ => 0) [hundred] ⟨hundred.path⟩ 0x20000 100 10) :=
  (read_exact_iff_clamp_exact _ hundred_named (by decide) (by decide) (by decide)).mpr
    (by unfold ClampExact; decide)

/-- The last 50 bytes, asked for as such, are not delivered, and 20 bytes at offset 90 become
a copy of 2^64 - 70. -/
theorem tail_lost_or_overrun :
    (read (fun _ => 0) [hundred] ⟨hundred.path⟩ 0x20000 50 50).returned = 0 ∧
      remaining 100 50 50 = 50 ∧
      (read (fun _ => 0) [hundred] ⟨hundred.path⟩ 0x20000 20 90).returned = -70 ∧
      remaining 100 20 90 = 10 := by
  refine ⟨?_, by decide, ?_, by decide⟩ <;>
    simp only [VkfsModel.read, find_module_named hundred_named] <;> decide

end KittyOs.VkfsRead
