import KittyOs.Lib.CallRuns
import KittyOs.UacpiGlue

/-!
# Histories of a uACPI mutex

Acquires and releases of one mutex in any order, where the holder may also release
between two polls of a waiting acquire. The timeout is the number of polls: none at
all for 0, where the contract asks for one, and 65535 for 0xFFFF, where it asks for
as many as it takes. Between these the loop does what is asked of it.
-/

namespace KittyOs.MutexHistory

open KittyOs.Lib.CallRuns KittyOs.UacpiGlue

set_option autoImplicit false

/-! ### One acquire -/

/-- What the interface asks of an acquire. -/
structure AcquireContract (timeout : BitVec 16) (mutex : Mutex) (outcome : Acquisition) : Prop where
  once : timeout = 0 → ∃ found, outcome.polls = [found] ∧
    (found.locked = false → outcome.status = .ok)
  forever : timeout = 0xFFFF → outcome.status ≠ .timeout
  taken : outcome.status = .ok →
    (∃ found, outcome.polls.getLast? = some found ∧ found.locked = false) ∧
      outcome.mutex.locked = true
  untouched : outcome.status = .timeout → outcome.mutex = mutex

/-- The mutex is free, or released before one of the polls. -/
def FreeWithin (releases : Nat → Bool) (mutex : Mutex) (start count : Nat) : Prop :=
  mutex.locked = false ∨ ∃ poll, start ≤ poll ∧ poll < start + count ∧ releases poll = true

theorem released_unlocked (mutex : Mutex) : (uacpiKernelReleaseMutex mutex).locked = false := by
  unfold uacpiKernelReleaseMutex
  split_ifs with locked
  · rfl
  · exact Bool.eq_false_iff.mpr locked

section Loop

variable {releases : Nat → Bool} {mutex : Mutex}

theorem not_free_within_none {poll : Nat} (locked : mutex.locked = true) :
    ¬FreeWithin releases mutex poll 0 := by
  intro free
  rcases free with unlocked | ⟨moment, lower, upper, _⟩
  · exact Bool.false_ne_true (unlocked.symm.trans locked)
  · omega

theorem free_within_next {poll : Nat} (count : Nat) (kept : releases poll = false) :
    FreeWithin releases mutex poll (count + 1) ↔ FreeWithin releases mutex (poll + 1) count := by
  constructor
  · intro free
    rcases free with unlocked | ⟨moment, lower, upper, released⟩
    · exact Or.inl unlocked
    · have different : moment ≠ poll := by
        intro same
        rw [same, kept] at released
        exact Bool.false_ne_true released
      exact Or.inr ⟨moment, by omega, by omega, released⟩
  · intro free
    rcases free with unlocked | ⟨moment, lower, upper, released⟩
    · exact Or.inl unlocked
    · exact Or.inr ⟨moment, by omega, by omega, released⟩

/-- A poll that finds the mutex free ends the loop. -/
theorem loop_free (timeout poll : Nat) (free : mutex.locked = false ∨ releases poll = true) :
    ∃ found events, found.locked = false ∧
      acquireLoop releases (timeout + 1) poll mutex =
        ⟨.ok, [found], events ++ [.acquired], ⟨true⟩⟩ := by
  have unlocked : (if releases poll then uacpiKernelReleaseMutex mutex else mutex).locked =
      false := by
    split_ifs with released
    · exact released_unlocked mutex
    · exact free.resolve_right released
  refine ⟨_, if releases poll then [.released] else [], unlocked, ?_⟩
  rw [acquireLoop]
  simp only [unlocked, Bool.not_false, if_true]

theorem loop_locked (timeout poll : Nat) (locked : mutex.locked = true)
    (kept : releases poll = false) :
    acquireLoop releases (timeout + 1) poll mutex =
      { acquireLoop releases timeout (poll + 1) mutex with
        polls := mutex :: (acquireLoop releases timeout (poll + 1) mutex).polls } := by
  rw [acquireLoop]
  simp [kept, locked]

/-- The loop takes the mutex if it becomes free in time, from the poll that found it
so, and gives up with the mutex as it was otherwise. -/
theorem loop_outcome (releases : Nat → Bool) (mutex : Mutex) (timeout poll : Nat) :
    (timeout ≠ 0 ∧ FreeWithin releases mutex poll timeout ∧
        ∃ seen found events, found.locked = false ∧ acquireLoop releases timeout poll mutex =
          ⟨.ok, seen ++ [found], events ++ [.acquired], ⟨true⟩⟩) ∨
      ((timeout = 0 ∨ ¬FreeWithin releases mutex poll timeout) ∧
        ∃ seen, acquireLoop releases timeout poll mutex = ⟨.timeout, seen, [], mutex⟩) := by
  induction timeout generalizing poll with
  | zero => exact Or.inr ⟨Or.inl rfl, [], rfl⟩
  | succ timeout ih =>
      by_cases free : mutex.locked = false ∨ releases poll = true
      · obtain ⟨found, events, unlocked, outcome⟩ := loop_free timeout poll free
        refine Or.inl ⟨by omega, ?_, [], found, events, unlocked, outcome⟩
        rcases free with unlockedBefore | released
        · exact Or.inl unlockedBefore
        · exact Or.inr ⟨poll, by omega, by omega, released⟩
      · rw [not_or, Bool.not_eq_false, Bool.not_eq_true] at free
        rw [loop_locked timeout poll free.1 free.2, free_within_next timeout free.2]
        rcases ih (poll + 1) with ⟨_, freeLater, seen, found, events, unlocked, outcome⟩ |
          ⟨never, seen, outcome⟩
        · refine Or.inl ⟨by omega, freeLater, mutex :: seen, found, events, unlocked, ?_⟩
          rw [outcome]
          rfl
        · refine Or.inr ⟨Or.inr ?_, mutex :: seen, ?_⟩
          · rcases never with zero | never
            · rw [zero]
              exact not_free_within_none free.1
            · exact never
          · rw [outcome]

end Loop

/-- An acquire that polls, and with an infinite timeout finds the mutex free before its
polls run out. -/
def Timely (releases : Nat → Bool) (mutex : Mutex) (timeout : BitVec 16) : Prop :=
  timeout ≠ 0 ∧ (timeout = 0xFFFF → FreeWithin releases mutex 0 65535)

theorem acquire_contract_iff (releases : Nat → Bool) (mutex : Mutex) (timeout : BitVec 16) :
    AcquireContract timeout mutex (uacpiKernelAcquireMutex releases mutex timeout) ↔
      Timely releases mutex timeout := by
  have zero : (0 : BitVec 16).toNat = 0 := rfl
  have most : (0xFFFF : BitVec 16).toNat = 65535 := rfl
  unfold uacpiKernelAcquireMutex
  rcases loop_outcome releases mutex timeout.toNat 0 with
    ⟨some, free, seen, found, events, unlocked, outcome⟩ | ⟨never, seen, outcome⟩
  · have polled : timeout ≠ 0 := by
      intro none
      rw [none] at some
      exact some zero
    rw [outcome]
    refine iff_of_true ⟨?_, ?_, ?_, ?_⟩ ⟨polled, ?_⟩
    · intro none
      exact absurd none polled
    · simp
    · intro _
      exact ⟨⟨found, List.getLast?_concat, unlocked⟩, rfl⟩
    · simp
    · intro longest
      rw [longest, most] at free
      exact free
  · constructor
    · intro contract
      have polled : timeout ≠ 0 := by
        intro none
        obtain ⟨found, polls, _⟩ := contract.once none
        rw [none, zero] at polls
        exact absurd polls (by simp [acquireLoop])
      refine ⟨polled, ?_⟩
      intro longest
      have status := contract.forever longest
      rw [outcome] at status
      exact absurd rfl status
    · intro timely
      rw [outcome]
      refine ⟨?_, ?_, ?_, ?_⟩
      · intro none
        exact absurd none timely.1
      · intro longest
        have free := timely.2 longest
        rw [longest, most] at never
        exact absurd free (never.resolve_left (by omega))
      · simp
      · intro _
        rfl

/-! ### Histories -/

inductive MutexCall where
  | acquire (timeout : BitVec 16) (releases : Nat → Bool)
  | release

structure MutexRun where
  mutex : Mutex
  log : List MutexEvent

def created : MutexRun := ⟨uacpiKernelCreateMutex, []⟩

def MutexRun.perform (run : MutexRun) : MutexCall → MutexRun
  | .acquire timeout releases =>
      let outcome := uacpiKernelAcquireMutex releases run.mutex timeout
      ⟨outcome.mutex, run.log ++ outcome.events⟩
  | .release => ⟨uacpiKernelReleaseMutex run.mutex, run.log ++ [.released]⟩

/-- The mutex is locked if and only if the last acquire that succeeded is not followed
by a release. -/
def LockedExactly (run : MutexRun) : Prop :=
  run.mutex.locked = true ↔ run.log.getLast? = some .acquired

theorem created_locked_exactly : LockedExactly created := by
  simp [LockedExactly, created, uacpiKernelCreateMutex]

theorem LockedExactly.step {run : MutexRun} (exactly : LockedExactly run) (call : MutexCall) :
    LockedExactly (run.perform call) := by
  cases call with
  | acquire timeout releases =>
      rw [MutexRun.perform, uacpiKernelAcquireMutex]
      rcases loop_outcome releases run.mutex timeout.toNat 0 with
        ⟨_, _, seen, found, events, _, outcome⟩ | ⟨_, seen, outcome⟩
      · simp only [LockedExactly, outcome, ← List.append_assoc, List.getLast?_concat]
      · simp only [LockedExactly, outcome, List.append_nil]
        exact exactly
  | release =>
      simp only [LockedExactly, MutexRun.perform, released_unlocked, List.getLast?_concat]
      decide

/-- An acquire meets its contract, and after every call the mutex is locked exactly when
it should be. -/
structure KeepsContract (run : MutexRun) (call : MutexCall) : Prop where
  acquire : ∀ timeout releases, call = .acquire timeout releases →
    AcquireContract timeout run.mutex (uacpiKernelAcquireMutex releases run.mutex timeout)
  locked : LockedExactly (run.perform call)

def InTime (run : MutexRun) : MutexCall → Prop
  | .acquire timeout releases => Timely releases run.mutex timeout
  | .release => True

theorem keeps_contract_iff {run : MutexRun} (exactly : LockedExactly run) (call : MutexCall) :
    KeepsContract run call ↔ InTime run call := by
  cases call with
  | acquire timeout releases =>
      constructor
      · intro keeps
        exact (acquire_contract_iff releases run.mutex timeout).mp (keeps.acquire _ _ rfl)
      · intro timely
        refine ⟨?_, exactly.step _⟩
        rintro _ _ ⟨⟩
        exact (acquire_contract_iff releases run.mutex timeout).mpr timely
  | release =>
      refine iff_of_true ⟨?_, exactly.step .release⟩ trivial
      intro timeout releases other
      exact absurd other (by simp)

theorem history_iff_in_time {run : MutexRun} (exactly : LockedExactly run)
    (calls : List MutexCall) :
    Always MutexRun.perform KeepsContract run calls ↔ Always MutexRun.perform InTime run calls := by
  apply always_iff _ _ exactly
  · intro run call exactly
    exact exactly.step call
  · intro run call exactly
    exact keeps_contract_iff exactly call

/-- Every history keeps the contract if and only if its acquires poll and infinite waits
end within their polls. -/
theorem mutex_history_kept_iff (calls : List MutexCall) :
    Always MutexRun.perform KeepsContract created calls ↔
      Always MutexRun.perform InTime created calls :=
  history_iff_in_time created_locked_exactly calls

/-- A free mutex is refused to a caller that does not want to wait, and an infinite wait
ends if the holder does not release within 65535 polls. -/
theorem extreme_timeouts_misread :
    ¬Always MutexRun.perform KeepsContract created [.acquire 0 fun _ => false] ∧
      ¬Always MutexRun.perform KeepsContract created
        [.acquire 1 fun _ => false, .acquire 0xFFFF fun _ => false] := by
  rw [history_iff_in_time created_locked_exactly, history_iff_in_time created_locked_exactly]
  simp only [always_cons]
  constructor
  · intro inTime
    exact inTime.1.1 rfl
  · intro inTime
    rcases inTime.2.1.2 rfl with unlocked | ⟨poll, _, _, released⟩
    · exact absurd unlocked (by decide)
    · exact absurd released Bool.false_ne_true

end KittyOs.MutexHistory
