import KittyOs.Lib.CallRuns
import KittyOs.IrqModel
import KittyOs.RuntimeBlob

/-!
# The registry of filesystems

`register_filesystem` of `fs/filesystem.cpp`. Of a filesystem it reads the name
only; the vector keeps the pointer it was given. The scan leaves with a failure at
the first registered name that differs, so what a reachable registry holds is one
name, as often as it was registered.
-/

namespace KittyOs.FilesystemRegistry

open KittyOs.Lib.CallRuns KittyOs.IrqModel KittyOs.MachineWord KittyOs.RuntimeBlob

set_option autoImplicit false

/-- A `filesystem *` and the name found behind it. -/
structure Filesystem where
  pointer : U64
  fsName : CString
deriving DecidableEq

abbrev Registry := List Filesystem

def registerFilesystem (filesystems : Registry) (fs : Filesystem) : Status × Registry :=
  if filesystems.any fun thisFs => strcmp fs.fsName thisFs.fsName ≠ 0 then (.failure, filesystems)
  else (.success, filesystems ++ [fs])

/-- `register_filesystem` as a step of a run; it always returns. -/
def registerStep (filesystems : Registry) (fs : Filesystem) : Option Registry :=
  some (registerFilesystem filesystems fs).2

theorem register_refused {filesystems : Registry} {fs other : Filesystem}
    (member : other ∈ filesystems) (differs : other.fsName ≠ fs.fsName) :
    registerFilesystem filesystems fs = (.failure, filesystems) := by
  rw [registerFilesystem, if_pos]
  rw [List.any_eq_true]
  refine ⟨other, member, ?_⟩
  rw [decide_eq_true_eq, ne_eq, strcmp_zero_iff]
  exact fun same => differs same.symm

theorem register_accepted {filesystems : Registry} {fs : Filesystem}
    (same : ∀ other ∈ filesystems, other.fsName = fs.fsName) :
    registerFilesystem filesystems fs = (.success, filesystems ++ [fs]) := by
  rw [registerFilesystem, if_neg]
  rw [List.any_eq_true]
  rintro ⟨other, member, differs⟩
  rw [decide_eq_true_eq, ne_eq, strcmp_zero_iff] at differs
  exact differs (same other member).symm

/-- What registration promises: the call goes through exactly if the name is new, it
then appends its argument, otherwise it changes nothing, and the names stay distinct. -/
structure Registers (filesystems : Registry) (fs : Filesystem) : Prop where
  accepts : (registerFilesystem filesystems fs).1 = .success ↔
    ∀ other ∈ filesystems, other.fsName ≠ fs.fsName
  appends : (registerFilesystem filesystems fs).1 = .success →
    (registerFilesystem filesystems fs).2 = filesystems ++ [fs]
  keeps : (registerFilesystem filesystems fs).1 ≠ .success →
    (registerFilesystem filesystems fs).2 = filesystems
  distinct : ((registerFilesystem filesystems fs).2.map Filesystem.fsName).Nodup

theorem registers_first (fs : Filesystem) : Registers [] fs := by
  have accepted : registerFilesystem [] fs = (.success, [fs]) :=
    register_accepted (by simp)
  constructor <;> simp [accepted]

/-- A second name is refused and a second copy of the name goes through. -/
theorem registers_never_again (first fs : Filesystem) : ¬Registers [first] fs := by
  intro law
  by_cases same : first.fsName = fs.fsName
  · have accepted : registerFilesystem [first] fs = (.success, [first] ++ [fs]) :=
      register_accepted (by simp [same])
    have fresh := law.accepts.mp (by rw [accepted])
    exact fresh first (by simp) same
  · have refused : registerFilesystem [first] fs = (.failure, [first]) :=
      register_refused (by simp) same
    have succeeded := law.accepts.mpr (by simpa using same)
    rw [refused] at succeeded
    exact Status.noConfusion succeeded

theorem registry_lawful_iff_single (calls : List Filesystem) :
    Throughout registerStep Registers [] calls ↔ calls.length ≤ 1 := by
  cases calls with
  | nil => simp [Throughout]
  | cons first calls =>
      have accepted : registerFilesystem [] first = (.success, [first]) :=
        register_accepted (by simp)
      have went : registerStep [] first = some [first] := by rw [registerStep, accepted]
      cases calls with
      | nil => simp [Throughout, registers_first]
      | cons second calls =>
          simp only [Throughout, List.length_cons]
          constructor
          · rintro ⟨_, rest⟩
            exact absurd (rest [first] went).1 (registers_never_again first second)
          · intro short
            omega

def fat : Filesystem := ⟨0x1000, ⟨[0x46, 0x41, 0x54], by decide⟩⟩

def ntfs : Filesystem := ⟨0x2000, ⟨[0x4e, 0x54, 0x46, 0x53], by decide⟩⟩

/-- After FAT, a filesystem of another name is refused and FAT itself goes through again. -/
theorem fat_only_again :
    registerFilesystem [] fat = (.success, [fat]) ∧ fat.fsName ≠ ntfs.fsName ∧
      registerFilesystem [fat] ntfs = (.failure, [fat]) ∧
      registerFilesystem [fat] fat = (.success, [fat, fat]) := by
  decide

end KittyOs.FilesystemRegistry
