import KittyOs.Lib.CallRuns
import KittyOs.IrqModel
import KittyOs.RuntimeBlob

/-!
# Virtual disks

`vdi_read` and `vdi_write` of `vfs/interfaces/vdi/vdi.cpp` on a disk whose
`di_private` points to its identity structure. Both test the wrapped sum of offset
and length, copy from or to the start of the buffer and never report success, so a
disk serves a request as a byte array would only when it refuses one that does not
fit.
-/

namespace KittyOs.VirtualDisk

open KittyOs.Lib.ByteMemory KittyOs.Lib.CallRuns KittyOs.IrqModel KittyOs.MachineWord
open KittyOs.RuntimeBlob

set_option autoImplicit false

structure VdiIdentityStructure where
  buffer : U64
  bufLen : U64
deriving DecidableEq, Repr

def vdiRead (vdi : VdiIdentityStructure) (mem : Memory) (buf offset length : U64) :
    Status × Memory :=
  if offset + length ≥ vdi.bufLen then (.invalidArguments, mem)
  else (.failure, memcpy mem buf vdi.buffer length.toNat)

def vdiWrite (vdi : VdiIdentityStructure) (mem : Memory) (buf offset length : U64) :
    Status × Memory :=
  if offset + length ≥ vdi.bufLen then (.invalidArguments, mem)
  else (.failure, memcpy mem vdi.buffer buf length.toNat)

inductive Direction where
  | read
  | write
deriving DecidableEq, Repr

structure Request where
  direction : Direction
  buf : U64
  offset : U64
  length : U64
deriving DecidableEq, Repr

/-- A request's outcome; the two operations differ in the direction of the copy only. -/
def serve (vdi : VdiIdentityStructure) (mem : Memory) (request : Request) : Status × Memory :=
  match request.direction with
  | .read => vdiRead vdi mem request.buf request.offset request.length
  | .write => vdiWrite vdi mem request.buf request.offset request.length

def serveStep (vdi : VdiIdentityStructure) (mem : Memory) (request : Request) : Option Memory :=
  some (serve vdi mem request).2

/-! ### The byte array -/

def Request.Fits (vdi : VdiIdentityStructure) (request : Request) : Prop :=
  request.offset.toNat + request.length.toNat ≤ vdi.bufLen.toNat

/-- The memory after an accepted request: a write changes bytes `[offset, offset + length)`
of the disk, a read fills the caller's buffer from them. -/
def Request.transfer (vdi : VdiIdentityStructure) (mem : Memory) (request : Request) : Memory :=
  let place := vdi.buffer.toNat + request.offset.toNat
  match request.direction with
  | .read => copyBlock mem request.buf.toNat place request.length.toNat
  | .write => copyBlock mem place request.buf.toNat request.length.toNat

structure AsByteArray (vdi : VdiIdentityStructure) (mem : Memory) (request : Request) : Prop where
  accepts : (serve vdi mem request).1 = .success ↔ request.Fits vdi
  transfers : (serve vdi mem request).1 = .success →
    (serve vdi mem request).2 = request.transfer vdi mem
  refuses : (serve vdi mem request).1 ≠ .success → (serve vdi mem request).2 = mem

/-- The request does not fit, and the test notices it or the copy is of the disk's buffer
onto itself. -/
def Request.Refused (vdi : VdiIdentityStructure) (request : Request) : Prop :=
  ¬request.Fits vdi ∧
    (vdi.bufLen ≤ request.offset + request.length ∨ request.buf = vdi.buffer)

/-! ### What the operations do -/

theorem never_succeeds (vdi : VdiIdentityStructure) (mem : Memory) (request : Request) :
    (serve vdi mem request).1 ≠ .success := by
  simp only [serve, vdiRead, vdiWrite]
  cases request.direction <;> dsimp only <;> split_ifs <;> exact Status.noConfusion

theorem memcpy_onto_itself (mem : Memory) (place : U64) (count : Nat) :
    memcpy mem place place count = mem := by
  induction count generalizing mem place with
  | zero => rfl
  | succ count ih =>
      have same : storeByte mem place.toNat (mem place.toNat) = mem := by
        funext target
        by_cases here : target = place.toNat <;> simp [storeByte, here]
      rw [memcpy, same, ih]

theorem memcpy_zeros (dest src : U64) (count : Nat) :
    memcpy (fun _ => 0) dest src count = fun _ => 0 := by
  induction count generalizing dest src with
  | zero => rfl
  | succ count ih =>
      have same : storeByte (fun _ => 0) dest.toNat 0 = fun _ => 0 := by
        funext target
        simp [storeByte]
      rw [memcpy, same, ih]

/-- Between different places, a copy of at least one byte changes some memory. -/
theorem memcpy_changes {dest src : U64} (differ : dest ≠ src) {count : Nat} (positive : 0 < count) :
    ∃ mem, memcpy mem dest src count ≠ mem := by
  obtain ⟨count, rfl⟩ : ∃ rest, count = rest + 1 := ⟨count - 1, by omega⟩
  have apart : src.toNat ≠ dest.toNat := fun same => differ (BitVec.eq_of_toNat_eq same.symm)
  refine ⟨storeByte (fun _ => 0) dest.toNat 1, ?_⟩
  have cleared : storeByte (storeByte (fun _ => 0) dest.toNat 1) dest.toNat
      (storeByte (fun _ => 0) dest.toNat 1 src.toNat) = fun _ => 0 := by
    funext target
    by_cases here : target = dest.toNat <;> simp [storeByte, here, apart]
  rw [memcpy, cleared, memcpy_zeros]
  intro same
  have byte := congrFun same dest.toNat
  simp [storeByte] at byte

theorem refused_unchanged {vdi : VdiIdentityStructure} {request : Request}
    (refused : request.Refused vdi) (mem : Memory) : (serve vdi mem request).2 = mem := by
  obtain ⟨_, noticed | itself⟩ := refused
  · simp only [serve, vdiRead, vdiWrite, ge_iff_le, if_pos noticed]
    cases request.direction <;> rfl
  · simp only [serve, vdiRead, vdiWrite, itself, memcpy_onto_itself]
    cases request.direction <;> dsimp only <;> split_ifs <;> rfl

theorem refused_as_byte_array {vdi : VdiIdentityStructure} {request : Request}
    (refused : request.Refused vdi) (mem : Memory) : AsByteArray vdi mem request where
  accepts := iff_of_false (never_succeeds vdi mem request) refused.1
  transfers succeeded := absurd succeeded (never_succeeds vdi mem request)
  refuses _ := refused_unchanged refused mem

theorem refused_of_byte_array {vdi : VdiIdentityStructure} {request : Request}
    (served : ∀ mem, AsByteArray vdi mem request) : request.Refused vdi := by
  have misfit : ¬request.Fits vdi :=
    fun fits => never_succeeds vdi (fun _ => 0) request ((served _).accepts.mpr fits)
  refine ⟨misfit, ?_⟩
  by_contra neither
  rw [not_or] at neither
  obtain ⟨unnoticed, differ⟩ := neither
  have positive : 0 < request.length.toNat := by
    unfold Request.Fits at misfit
    bv_omega
  have unchanged : ∀ mem, (serve vdi mem request).2 = mem :=
    fun mem => (served mem).refuses (never_succeeds vdi mem request)
  cases direction : request.direction with
  | read =>
      obtain ⟨mem, changed⟩ := memcpy_changes differ positive
      have same := unchanged mem
      simp only [serve, direction, vdiRead, ge_iff_le, if_neg unnoticed] at same
      exact changed same
  | write =>
      obtain ⟨mem, changed⟩ := memcpy_changes (Ne.symm differ) positive
      have same := unchanged mem
      simp only [serve, direction, vdiWrite, ge_iff_le, if_neg unnoticed] at same
      exact changed same

theorem byte_array_iff_all_refused (vdi : VdiIdentityStructure) (requests : List Request) :
    (∀ mem, Throughout (serveStep vdi) (AsByteArray vdi) mem requests) ↔
      ∀ request ∈ requests, request.Refused vdi := by
  induction requests with
  | nil => simp [Throughout]
  | cons request requests ih =>
      rw [List.forall_mem_cons, ← ih]
      constructor
      · intro served
        have refused := refused_of_byte_array fun mem => (served mem).1
        refine ⟨refused, fun mem => (served mem).2 mem ?_⟩
        rw [serveStep, refused_unchanged refused]
      · rintro ⟨refused, rest⟩ mem
        refine ⟨refused_as_byte_array refused mem, ?_⟩
        intro next went
        exact rest next

/-- Four bytes written at offset 4 of a disk of 16 land at its start, and the status says
failure. -/
theorem offset_ignored :
    let vdi : VdiIdentityStructure := ⟨0x1000, 16⟩
    let mem : Memory := fun address => if 0x2000 ≤ address then 1 else 0
    let (status, after) := vdiWrite vdi mem 0x2000 4 4
    status = .failure ∧ after 0x1000 = 1 ∧ after 0x1004 = 0 := by
  decide

end KittyOs.VirtualDisk
