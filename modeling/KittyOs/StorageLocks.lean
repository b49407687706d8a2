import KittyOs.Lib.CallRuns
import KittyOs.IrqModel

/-!
# The locks of the kernel's storage

`create_storage_entry` and `get_storage_value` of `local_storage.cpp` over the
spinlocks of `lib/klibc/spinlock.cpp`. A lock is its flag. A caller that finds the
flag set masks interrupts and halts, so it does not come back: `none`. The calls of
a run do not overlap in time.
-/

namespace KittyOs.StorageLocks

open KittyOs.Lib.CallRuns KittyOs.IrqModel KittyOs.MachineWord

set_option autoImplicit false

/-- `test_and_set`, whose loop never ends once the flag was set. -/
def lockSpinlock (flag : Bool) : Option Bool := if flag then none else some true

def unlockSpinlock (_flag : Bool) : Bool := false

structure StorageEntry where
  uid : U64
  processorId : U64
  dataPtr : U64
deriving DecidableEq, Repr

structure Storage where
  globalStorage : List StorageEntry
  storage : List StorageEntry
  createStorageEntrySpinlock : Bool
  getStorageValueSpinlock : Bool
deriving DecidableEq, Repr

/-- `initialize_local_storage`: two fresh spinlocks over empty vectors. -/
def initializeLocalStorage : Storage := ⟨[], [], false, false⟩

def createStorageEntry (state : Storage) (lapicId : BitVec 32) (isGlobal : Bool)
    (storId data : U64) : Option Storage :=
  (lockSpinlock state.createStorageEntrySpinlock).map fun flag =>
    let entry : StorageEntry := ⟨storId, getCurrentProcessorId lapicId, data⟩
    let state :=
      if isGlobal then { state with globalStorage := state.globalStorage ++ [entry] }
      else { state with storage := state.storage ++ [entry] }
    { state with createStorageEntrySpinlock := unlockSpinlock flag }

/-- The value is 0 where the source returns a null pointer. The branch for global
entries unlocks on a hit; when its loop ends without one it falls to the last `return`. -/
def getStorageValue (state : Storage) (lapicId : BitVec 32) (isGlobal : Bool) (storId : U64) :
    Option (U64 × Storage) :=
  if isGlobal then
    (lockSpinlock state.getStorageValueSpinlock).map fun flag =>
      match state.globalStorage.find? fun e => e.uid == storId with
      | some e => (e.dataPtr, { state with getStorageValueSpinlock := unlockSpinlock flag })
      | none => (0, { state with getStorageValueSpinlock := flag })
  else
    match state.storage.find? fun e =>
        e.uid == storId && e.processorId == getCurrentProcessorId lapicId with
    | some e => some (e.dataPtr, state)
    | none => some (0, state)

/-- A call, with the local APIC id of the processor that makes it. -/
inductive StorageCall where
  | create (lapicId : BitVec 32) (isGlobal : Bool) (storId data : U64)
  | get (lapicId : BitVec 32) (isGlobal : Bool) (storId : U64)
deriving DecidableEq, Repr

def perform (state : Storage) : StorageCall → Option Storage
  | .create lapicId isGlobal storId data => createStorageEntry state lapicId isGlobal storId data
  | .get lapicId isGlobal storId => (getStorageValue state lapicId isGlobal storId).map Prod.snd

def LocksFree (state : Storage) : Prop :=
  state.createStorageEntrySpinlock = false ∧ state.getStorageValueSpinlock = false

/-- The locks are free when the call is made, it gets through, and they are free again
when it has returned. -/
def Balanced (state : Storage) (call : StorageCall) : Prop :=
  LocksFree state ∧ ∃ next, perform state call = some next ∧ LocksFree next

/-- A lookup of a global entry finds one. -/
def FindsGlobal (state : Storage) : StorageCall → Prop
  | .create _ _ _ _ => True
  | .get _ isGlobal storId => isGlobal = true → ∃ e ∈ state.globalStorage, e.uid = storId

theorem create_balanced {state : Storage} (free : LocksFree state) (lapicId : BitVec 32)
    (isGlobal : Bool) (storId data : U64) :
    Balanced state (.create lapicId isGlobal storId data) := by
  refine ⟨free, ?_⟩
  obtain ⟨createFree, getFree⟩ := free
  cases isGlobal <;>
    simp [perform, createStorageEntry, lockSpinlock, unlockSpinlock, LocksFree, createFree, getFree]

theorem get_local_balanced {state : Storage} (free : LocksFree state) (lapicId : BitVec 32)
    (storId : U64) : Balanced state (.get lapicId false storId) := by
  refine ⟨free, state, ?_, free⟩
  simp only [perform, getStorageValue, Bool.false_eq_true, if_false]
  cases state.storage.find? _ <;> rfl

theorem get_global_locks {state : Storage} (free : LocksFree state) (lapicId : BitVec 32)
    (storId : U64) :
    ∃ next, perform state (.get lapicId true storId) = some next ∧
      (LocksFree next ↔ ∃ e ∈ state.globalStorage, e.uid = storId) := by
  obtain ⟨createFree, getFree⟩ := free
  simp only [perform, getStorageValue, if_true, getFree, lockSpinlock, Bool.false_eq_true,
    if_false, Option.map_some]
  refine ⟨_, rfl, ?_⟩
  cases found : state.globalStorage.find? fun e => e.uid == storId with
  | some e =>
      have hit := List.find?_some found
      rw [beq_iff_eq] at hit
      exact iff_of_true ⟨createFree, rfl⟩ ⟨e, List.mem_of_find?_eq_some found, hit⟩
  | none =>
      have missed := List.find?_eq_none.mp found
      refine iff_of_false (fun free => Bool.noConfusion free.2) ?_
      rintro ⟨e, member, hit⟩
      exact missed e member (by simp [hit])

theorem balanced_iff_finds {state : Storage} (free : LocksFree state) (call : StorageCall) :
    Balanced state call ↔ FindsGlobal state call := by
  cases call with
  | create lapicId isGlobal storId data =>
      exact iff_of_true (create_balanced free lapicId isGlobal storId data) trivial
  | get lapicId isGlobal storId =>
      cases isGlobal with
      | false =>
          exact iff_of_true (get_local_balanced free lapicId storId)
            fun isGlobal => Bool.noConfusion isGlobal
      | true =>
          obtain ⟨next, went, released⟩ := get_global_locks free lapicId storId
          simp only [FindsGlobal, true_imp_iff]
          rw [← released]
          constructor
          · rintro ⟨_, after, same, freed⟩
            rw [went] at same
            rw [Option.some.inj same]
            exact freed
          · intro freed
            exact ⟨free, next, went, freed⟩

theorem locks_free_iff_lookups_hit (calls : List StorageCall) :
    Throughout perform Balanced initializeLocalStorage calls ↔
      Throughout perform FindsGlobal initializeLocalStorage calls := by
  apply throughout_iff _ (fun state call free => balanced_iff_finds free call) ⟨rfl, rfl⟩
  rintro state call next _ ⟨_, after, went, freed⟩ same
  rw [went] at same
  rw [← Option.some.inj same]
  exact freed

/-- A lookup that misses leaves the lock taken, and the next one halts. -/
theorem second_miss_halts :
    perform initializeLocalStorage (.get 0 true 7) = some ⟨[], [], false, true⟩ ∧
      perform ⟨[], [], false, true⟩ (.get 0 true 7) = none := by
  decide

end KittyOs.StorageLocks
