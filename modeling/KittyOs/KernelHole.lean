import KittyOs.Lib.SpanPartition
import KittyOs.VirtualModel

/-!
# The kernel's address hole

`allocate_virtual_memory_kernel` hands out addresses between the end of the
direct map and the kernel image. Its guard compares the rounded request with
`remaining_bytes` for equality only, and `remaining_bytes` never shrinks, so the
hole is respected exactly by the request sequences that fit it anyway.
-/

namespace KittyOs.KernelHole

open KittyOs.Lib.SpanPartition KittyOs.MachineWord KittyOs.VirtualModel

set_option autoImplicit false

/-- What a call reserves: one page is added and the low bits are dropped. -/
def roundedRequest (size : U64) : U64 := (size + 4096) &&& pageMask

theorem rounded_request_bounds {size : U64} (noWrap : size.toNat + 4096 < 2 ^ 64) :
    size.toNat < (roundedRequest size).toNat ∧
      (roundedRequest size).toNat ≤ size.toNat + 4096 := by
  have sum : (size + 4096).toNat = size.toNat + 4096 := by bv_omega
  rw [roundedRequest, page_mask_to_nat, sum]
  omega

/-- The unsigned guard fires on equality alone. -/
theorem allocate_kernel_cases (range : KernelRange) (size : U64) :
    (roundedRequest size = range.remainingBytes ∧
        allocateVirtualMemoryKernel range size = none) ∨
      (roundedRequest size ≠ range.remainingBytes ∧
        allocateVirtualMemoryKernel range size =
          some (range.baseAddress ||| 0xffff000000000000,
            ⟨range.baseAddress + roundedRequest size, range.remainingBytes⟩)) := by
  have guard : range.remainingBytes - roundedRequest size ≤ 0 ↔
      roundedRequest size = range.remainingBytes := by
    bv_omega
  unfold allocateVirtualMemoryKernel
  rw [← roundedRequest]
  by_cases equal : roundedRequest size = range.remainingBytes
  · exact Or.inl ⟨equal, by rw [if_pos (guard.mpr equal)]⟩
  · exact Or.inr ⟨equal, by rw [if_neg (fun small => equal (guard.mp small))]⟩

/-- In the top 2^48 addresses the sign bits are already set. -/
theorem or_sign_bits {address : U64} (higher : 0xffff000000000000 ≤ address.toNat) :
    address ||| 0xffff000000000000 = address := by
  have bound := address.isLt
  have split : address.toNat = (0xffff <<< 48) ||| (address.toNat % 2 ^ 48) := by
    rw [← Nat.shiftLeft_add_eq_or_of_lt (Nat.mod_lt _ (by omega)), Nat.shiftLeft_eq]
    omega
  have mask : (0xffff000000000000 : U64).toNat = 0xffff <<< 48 := by decide
  apply BitVec.eq_of_toNat_eq
  rw [BitVec.toNat_or, mask, split, Nat.or_comm, ← Nat.or_assoc, Nat.or_self]

/-! ### Runs of requests -/

/-- The ranges of the calls that return; a halt ends the run. -/
def kernelGrants : KernelRange → List U64 → List Span
  | _, [] => []
  | range, size :: rest =>
      match allocateVirtualMemoryKernel range size with
      | none => []
      | some (address, next) => ⟨address.toNat, size.toNat⟩ :: kernelGrants next rest

/-- The request fits what is left of the hole from `first` to `kernelBase`. -/
def Fits (first kernelBase : Nat) (range : KernelRange) (size : U64) : Prop :=
  first ≤ range.baseAddress.toNat ∧ range.baseAddress.toNat + size.toNat ≤ kernelBase

/-- Along the run, a request that does not fit halts. -/
def HaltsWhenFull (first kernelBase : Nat) : KernelRange → List U64 → Prop
  | _, [] => True
  | range, size :: rest =>
      match allocateVirtualMemoryKernel range size with
      | none => True
      | some (_, next) =>
          Fits first kernelBase range size ∧ HaltsWhenFull first kernelBase next rest

structure HoleRespected (range : KernelRange) (kernelBase : Nat) (sizes : List U64) : Prop where
  apart : (kernelGrants range sizes).Pairwise Apart
  inside : ∀ grant ∈ kernelGrants range sizes,
    range.baseAddress.toNat ≤ grant.base ∧ grant.base + grant.length ≤ kernelBase
  halts : HaltsWhenFull range.baseAddress.toNat kernelBase range sizes

/-- Every request up to the first halt fits between the sum of the earlier ones
and the kernel, or is the one size that halts. -/
def FitsOrHalts (kernelBase : Nat) (remaining : U64) : Nat → List U64 → Prop
  | _, [] => True
  | base, size :: rest =>
      roundedRequest size = remaining ∨
        (base + size.toNat ≤ kernelBase ∧
          FitsOrHalts kernelBase remaining (base + (roundedRequest size).toNat) rest)

variable {first kernelBase : Nat} {range : KernelRange} {sizes : List U64}

theorem halts_cons {size : U64} :
    HaltsWhenFull first kernelBase range (size :: sizes) ↔
      roundedRequest size = range.remainingBytes ∨
        (Fits first kernelBase range size ∧
          HaltsWhenFull first kernelBase
            ⟨range.baseAddress + roundedRequest size, range.remainingBytes⟩ sizes) := by
  rcases allocate_kernel_cases range size with ⟨equal, halted⟩ | ⟨different, returned⟩
  · simp [HaltsWhenFull, halted, equal]
  · simp [HaltsWhenFull, returned, different]

/-- A request that fits moves the base past it, and past the kernel if it wraps. -/
theorem base_after_fit {size : U64} (higher : 0xffff000000000000 ≤ first)
    (bound : kernelBase < 2 ^ 64) (fits : Fits first kernelBase range size) :
    size.toNat < (roundedRequest size).toNat ∧
      ((range.baseAddress + roundedRequest size).toNat =
          range.baseAddress.toNat + (roundedRequest size).toNat ∨
        (kernelBase < range.baseAddress.toNat + (roundedRequest size).toNat ∧
          (range.baseAddress + roundedRequest size).toNat < first)) := by
  obtain ⟨lower, upper⟩ := fits
  obtain ⟨more, less⟩ := rounded_request_bounds (show size.toNat + 4096 < 2 ^ 64 by omega)
  refine ⟨more, ?_⟩
  rw [BitVec.toNat_add]
  omega

/-- The word `base_address` against the exact sum of the requests. -/
def Tracks (first kernelBase : Nat) (range : KernelRange) (base : Nat) : Prop :=
  (range.baseAddress.toNat = base ∧ first ≤ base) ∨
    (kernelBase < base ∧ range.baseAddress.toNat < first)

theorem halts_iff_fits (higher : 0xffff000000000000 ≤ first) (bound : kernelBase < 2 ^ 64)
    {base : Nat} (tracks : Tracks first kernelBase range base) :
    HaltsWhenFull first kernelBase range sizes ↔
      FitsOrHalts kernelBase range.remainingBytes base sizes := by
  induction sizes generalizing range base with
  | nil => exact iff_of_true trivial trivial
  | cons size sizes ih =>
      have same : Fits first kernelBase range size ↔ base + size.toNat ≤ kernelBase := by
        unfold Fits
        rcases tracks with exact | past <;> omega
      rw [halts_cons, FitsOrHalts]
      refine or_congr_right ?_
      rw [← same]
      refine and_congr_right ?_
      intro fits
      apply ih
      obtain ⟨_, moved⟩ := base_after_fit higher bound fits
      rcases tracks with exact | past
      · unfold Tracks
        dsimp only
        omega
      · exact absurd fits.1 (by omega)

/-- Once the base has wrapped below the hole, nothing is granted any more. -/
theorem wrapped_grants_nothing (halts : HaltsWhenFull first kernelBase range sizes)
    (wrapped : range.baseAddress.toNat < first) : kernelGrants range sizes = [] := by
  cases sizes with
  | nil => rfl
  | cons size sizes =>
      rcases allocate_kernel_cases range size with ⟨_, halted⟩ | ⟨different, _⟩
      · simp only [kernelGrants, halted]
      · rcases halts_cons.mp halts with equal | ⟨fits, _⟩
        · exact absurd equal different
        · exact absurd fits.1 (by omega)

theorem halting_grants (higher : 0xffff000000000000 ≤ first) (bound : kernelBase < 2 ^ 64)
    (halts : HaltsWhenFull first kernelBase range sizes) :
    (kernelGrants range sizes).Pairwise Apart ∧
      ∀ grant ∈ kernelGrants range sizes,
        range.baseAddress.toNat ≤ grant.base ∧ grant.base + grant.length ≤ kernelBase := by
  induction sizes generalizing range with
  | nil => exact ⟨List.Pairwise.nil, fun _ member => absurd member (by simp [kernelGrants])⟩
  | cons size sizes ih =>
      rcases allocate_kernel_cases range size with ⟨_, halted⟩ | ⟨different, returned⟩
      · simp [kernelGrants, halted]
      · rcases halts_cons.mp halts with equal | ⟨fits, later⟩
        · exact absurd equal different
        have sign := or_sign_bits (Nat.le_trans higher fits.1)
        obtain ⟨more, moved⟩ := base_after_fit higher bound fits
        obtain ⟨apart, inside⟩ := ih later
        have above : ∀ grant ∈ kernelGrants
            ⟨range.baseAddress + roundedRequest size, range.remainingBytes⟩ sizes,
            range.baseAddress.toNat + size.toNat ≤ grant.base ∧
              grant.base + grant.length ≤ kernelBase := by
          intro grant member
          rcases moved with stays | past
          · have bounds := inside grant member
            dsimp only at bounds
            omega
          · rw [wrapped_grants_nothing later past.2] at member
            exact absurd member (by simp)
        simp only [kernelGrants, returned, sign]
        refine ⟨List.pairwise_cons.mpr ⟨?_, apart⟩, ?_⟩
        · intro grant member
          rw [apart_iff]
          have bounds := above grant member
          dsimp only
          omega
        · intro grant member
          rcases List.mem_cons.mp member with same | tail
          · rw [same]
            exact ⟨Nat.le_refl _, fits.2⟩
          · have bounds := above grant tail
            omega

/-- The hole is respected exactly when the requests fit it or hit the one halting
size; the boot loader puts the direct map in the higher half. -/
theorem hole_respected_iff_fits {hhdm highest kernelBase : U64}
    (higher : 0xffff000000000000 ≤ (hhdm + highest).toNat) (sizes : List U64) :
    HoleRespected (initializeVirtualMemory hhdm highest kernelBase) kernelBase.toNat sizes ↔
      FitsOrHalts kernelBase.toNat (kernelBase - (hhdm + highest)) (hhdm + highest).toNat sizes := by
  have tracks : Tracks (hhdm + highest).toNat kernelBase.toNat
      (initializeVirtualMemory hhdm highest kernelBase) (hhdm + highest).toNat :=
    Or.inl ⟨rfl, Nat.le_refl _⟩
  rw [← show (initializeVirtualMemory hhdm highest kernelBase).remainingBytes =
    kernelBase - (hhdm + highest) from rfl]
  rw [← halts_iff_fits higher kernelBase.isLt tracks]
  constructor
  · intro respected
    exact respected.halts
  · intro halts
    obtain ⟨apart, inside⟩ := halting_grants higher kernelBase.isLt halts
    exact ⟨apart, inside, halts⟩

/-- The heap reservation and one page, on a machine with 4 GiB of memory. -/
theorem heap_and_page_respect_hole :
    HoleRespected (initializeVirtualMemory 0xffff800000000000 0x100000000 0xffffffff80000000)
      0xffffffff80000000 [0x400000000, 0x1000] :=
  (hole_respected_iff_fits (by decide) _).mpr
    (Or.inr ⟨by decide, Or.inr ⟨by decide, trivial⟩⟩)

/-- Two requests of 96 TiB return although the hole has less than 128 TiB. -/
theorem second_request_leaves_hole :
    0xffff000000000000 ≤ ((0xffff800000000000 : U64) + 0x100000000).toNat ∧
      ¬HoleRespected (initializeVirtualMemory 0xffff800000000000 0x100000000 0xffffffff80000000)
        0xffffffff80000000 [0x600000000000, 0x600000000000] := by
  refine ⟨by decide, ?_⟩
  intro respected
  have grants : kernelGrants
      (initializeVirtualMemory 0xffff800000000000 0x100000000 0xffffffff80000000)
      [0x600000000000, 0x600000000000] =
        [⟨0xffff800100000000, 0x600000000000⟩, ⟨0xffffe00100001000, 0x600000000000⟩] := by
    decide
  have inside := respected.inside ⟨0xffffe00100001000, 0x600000000000⟩ (by rw [grants]; simp)
  dsimp only at inside
  omega

end KittyOs.KernelHole
