import KittyOs.IrqVectors

/-!
# Vectors that never come back

Runs of `allocate_vector_on_cpu` and `free_vector_on_cpu` with the vectors that
are allocated at the moment beside the state. Freeing sets the bit it should
clear, so the bitmap follows the ledger exactly up to the first free. A hook that
finds no I/O APIC for its interrupt has reserved its vector already and returns
without giving it back.
-/

namespace KittyOs.VectorLeaks

open KittyOs.Lib.ByteBitmap KittyOs.MachineWord KittyOs.IrqModel KittyOs.IrqVectors

set_option autoImplicit false

variable {Handler : Type}

/-! ### Allocating and freeing -/

inductive VectorCall where
  | allocate (cpuIndex : U64)
  | free (cpuIndex vector : U64)
deriving DecidableEq, Repr

def VectorCall.Allocates : VectorCall → Prop
  | .allocate _ => True
  | .free _ _ => False

structure VectorRun (Handler : Type) where
  vectors : Nat → IrqMapEntry Handler
  allocated : List (Nat × Nat)

def VectorRun.booted : VectorRun Handler := ⟨initializeIrqVectors, []⟩

/-- `none` is a free of a vector that is not allocated. -/
def VectorRun.perform (run : VectorRun Handler) : VectorCall → Option (VectorRun Handler)
  | .allocate cpuIndex =>
      let (vector, vectors) := allocateVectorOnCpu run.vectors cpuIndex
      some
        { vectors
          allocated :=
            if vector = invalidVector then run.allocated
            else (cpuIndex.toNat, vector.toNat) :: run.allocated }
  | .free cpuIndex vector =>
      if (cpuIndex.toNat, vector.toNat) ∈ run.allocated then
        some
          { vectors := freeVectorOnCpu run.vectors cpuIndex vector
            allocated := run.allocated.erase (cpuIndex.toNat, vector.toNat) }
      else none

def VectorRun.performAll (run : VectorRun Handler) : List VectorCall → Option (VectorRun Handler)
  | [] => some run
  | call :: rest => (run.perform call).bind fun next => next.performAll rest

/-- The bitmaps mark the exceptions and the allocated vectors, the next vector of a
processor is the least unmarked one, and there is none only if all are allocated. -/
structure BitmapExact (run : VectorRun Handler) : Prop where
  marks : MarksExactly run.vectors run.allocated
  least : ∀ cpuIndex : U64, cpuIndex.toNat < maxCpus →
    (allocateVectorOnCpu run.vectors cpuIndex).1 ≠ invalidVector →
    (allocateVectorOnCpu run.vectors cpuIndex).1.toNat < 256 ∧
      isSet (run.vectors cpuIndex.toNat).vec
        (allocateVectorOnCpu run.vectors cpuIndex).1.toNat = false ∧
      ∀ lower, lower < (allocateVectorOnCpu run.vectors cpuIndex).1.toNat →
        isSet (run.vectors cpuIndex.toNat).vec lower = true
  exhausted : ∀ cpuIndex : U64, cpuIndex.toNat < maxCpus →
    (allocateVectorOnCpu run.vectors cpuIndex).1 = invalidVector →
    ∀ vector, 32 ≤ vector → vector < 256 → (cpuIndex.toNat, vector) ∈ run.allocated

def ExactThroughout (run : VectorRun Handler) : List VectorCall → Prop
  | [] => BitmapExact run
  | call :: rest =>
      BitmapExact run ∧ ∀ next, run.perform call = some next → ExactThroughout next rest

theorem ExactThroughout.here {run : VectorRun Handler} {calls : List VectorCall}
    (exact : ExactThroughout run calls) : BitmapExact run := by
  cases calls with
  | nil => exact exact
  | cons call rest => exact exact.1

/-- What allocations alone maintain. -/
structure Tracked (run : VectorRun Handler) : Prop where
  marks : MarksExactly run.vectors run.allocated
  once : run.allocated.Nodup
  range : ∀ place ∈ run.allocated, place.1 < maxCpus ∧ 32 ≤ place.2 ∧ place.2 < 256

theorem booted_tracked : Tracked (VectorRun.booted : VectorRun Handler) where
  marks := (booted_consistent fun _ _ => 0).bits
  once := List.nodup_nil
  range := by simp [VectorRun.booted]

theorem Tracked.full {run : VectorRun Handler} (tracked : Tracked run) {cpu : Nat}
    (known : cpu < maxCpus) : isSet (run.vectors cpu).vec 0 = true :=
  (tracked.marks cpu 0 known (by omega)).mpr (Or.inl (by omega))

theorem Tracked.exact {run : VectorRun Handler} (tracked : Tracked run) : BitmapExact run where
  marks := tracked.marks
  least := by
    intro cpuIndex known valid
    rcases allocate_vector_cases run.vectors known with
      ⟨_, none⟩ | ⟨vector, bound, clear, below, found⟩
    · rw [none] at valid
      exact absurd rfl valid
    · rw [found, (given_vector_valid (tracked.full known) clear bound).2]
      exact ⟨bound, clear, below⟩
  exhausted := by
    intro cpuIndex known refused vector high bound
    rcases allocate_vector_cases run.vectors known with
      ⟨marked, _⟩ | ⟨given, givenBound, clear, _, found⟩
    · rcases (tracked.marks _ vector known bound).mp (marked vector bound) with low | member
      · omega
      · exact member
    · rw [found] at refused
      exact absurd refused (given_vector_valid (tracked.full known) clear givenBound).1

theorem Tracked.allocate {run : VectorRun Handler} (tracked : Tracked run) (cpuIndex : U64) :
    ∃ next, run.perform (.allocate cpuIndex) = some next ∧ Tracked next := by
  by_cases known : cpuIndex.toNat < maxCpus
  · rcases allocate_vector_cases run.vectors known with
      ⟨_, none⟩ | ⟨vector, bound, clear, _, found⟩
    · refine ⟨run, ?_, tracked⟩
      simp only [VectorRun.perform, none, if_true]
    · obtain ⟨valid, value⟩ := given_vector_valid (tracked.full known) clear bound
      have unset : ¬(vector < 32 ∨ (cpuIndex.toNat, vector) ∈ run.allocated) := by
        rw [← tracked.marks _ vector known bound, clear]
        simp
      rw [not_or] at unset
      have done : run.perform (.allocate cpuIndex) =
          some ⟨Function.update run.vectors cpuIndex.toNat
            ⟨setBit (run.vectors cpuIndex.toNat).vec vector,
              (run.vectors cpuIndex.toNat).mapping⟩,
            (cpuIndex.toNat, vector) :: run.allocated⟩ := by
        simp only [VectorRun.perform, found, if_neg valid, value]
      refine ⟨_, done, ?_, ?_, ?_⟩
      · exact marks_given tracked.marks (by simp [or_comm])
      · exact List.nodup_cons.mpr ⟨unset.2, tracked.once⟩
      · intro place member
        rcases List.mem_cons.mp member with new | old
        · rw [new]
          exact ⟨known, by omega, bound⟩
        · exact tracked.range place old
  · refine ⟨run, ?_, tracked⟩
    simp only [VectorRun.perform, allocateVectorOnCpu, if_pos (Nat.le_of_not_lt known), if_true]

/-- The vector that was freed is still marked. -/
theorem Tracked.free_inexact {run next : VectorRun Handler} (tracked : Tracked run)
    {cpuIndex vector : U64} (freed : run.perform (.free cpuIndex vector) = some next) :
    ¬BitmapExact next := by
  intro exact
  simp only [VectorRun.perform] at freed
  split_ifs at freed with member
  obtain ⟨known, high, bound⟩ := tracked.range _ member
  dsimp only at known high bound
  have state := Option.some.inj freed
  subst state
  have still : isSet (freeVectorOnCpu run.vectors cpuIndex vector cpuIndex.toNat).vec
      vector.toNat = true := by
    rw [freeVectorOnCpu, if_neg (by omega)]
    simp [is_set_after_set]
  rcases (exact.marks _ _ known bound).mp still with low | stays
  · omega
  · exact (tracked.once.not_mem_erase) stays

theorem exact_iff_allocates {run : VectorRun Handler} (tracked : Tracked run)
    {calls : List VectorCall} (allowed : (run.performAll calls).isSome = true) :
    ExactThroughout run calls ↔ ∀ call ∈ calls, call.Allocates := by
  induction calls generalizing run with
  | nil => simp [ExactThroughout, tracked.exact]
  | cons call rest ih =>
      cases call with
      | allocate cpuIndex =>
          obtain ⟨next, done, nextTracked⟩ := tracked.allocate cpuIndex
          rw [VectorRun.performAll, done, Option.bind_some] at allowed
          simp only [ExactThroughout, tracked.exact, done, true_and, Option.some.injEq,
            forall_eq', List.forall_mem_cons, VectorCall.Allocates]
          exact ih nextTracked allowed
      | free cpuIndex vector =>
          rw [VectorRun.performAll] at allowed
          cases freed : run.perform (.free cpuIndex vector) with
          | none =>
              rw [freed] at allowed
              exact absurd allowed (by simp)
          | some next =>
              refine iff_of_false ?_ ?_
              · intro throughout
                exact tracked.free_inexact freed (throughout.2 next freed).here
              · intro every
                exact every _ List.mem_cons_self

/-- The bitmaps are exact along a run if and only if the run frees nothing. -/
theorem bitmap_exact_iff_none_freed {calls : List VectorCall}
    (allowed : ((VectorRun.booted : VectorRun Handler).performAll calls).isSome = true) :
    ExactThroughout (VectorRun.booted : VectorRun Handler) calls ↔
      ∀ call ∈ calls, call.Allocates :=
  exact_iff_allocates booted_tracked allowed

theorem two_allocations_exact :
    ((VectorRun.booted : VectorRun Unit).performAll [.allocate 0, .allocate 255]).isSome = true ∧
      ExactThroughout (VectorRun.booted : VectorRun Unit) [.allocate 0, .allocate 255] :=
  ⟨by decide, (bitmap_exact_iff_none_freed (by decide)).mpr (by simp [VectorCall.Allocates])⟩

/-- The first vector of processor 0 is allocated and freed, and stays marked. -/
theorem freed_vector_stays_marked :
    ((VectorRun.booted : VectorRun Unit).performAll [.allocate 0, .free 0 32]).isSome = true ∧
      ¬ExactThroughout (VectorRun.booted : VectorRun Unit) [.allocate 0, .free 0 32] := by
  have allowed : ((VectorRun.booted : VectorRun Unit).performAll
      [.allocate 0, .free 0 32]).isSome = true := by decide
  refine ⟨allowed, ?_⟩
  rw [exact_iff_allocates booted_tracked allowed]
  intro every
  exact every (.free 0 32) (by simp)

/-! ### Hooks that fail -/

/-- The states of the tables and devices. Drivers may program the I/O APICs
themselves. -/
inductive IrqReachable : IrqState Handler → Prop
  | booted (devices : IoApics) : IrqReachable ⟨initializeIrqVectors, devices⟩
  | allocated {state : IrqState Handler} (cpuIndex : U64) (before : IrqReachable state) :
      IrqReachable { state with vectors := (allocateVectorOnCpu state.vectors cpuIndex).2 }
  | freed {state : IrqState Handler} (cpuIndex vector : U64) (before : IrqReachable state) :
      IrqReachable { state with vectors := freeVectorOnCpu state.vectors cpuIndex vector }
  | hooked {state : IrqState Handler} (platform : Platform) (isGsi : Bool) (cpuId irq : U64)
      (handler : Handler) (before : IrqReachable state) :
      IrqReachable (hookIrq platform state isGsi cpuId irq handler).2
  | programmed {state : IrqState Handler} (devices : IoApics) (before : IrqReachable state) :
      IrqReachable { state with devices }

/-- A call that does not succeed leaves everything as it was, `*irq_handle` included. -/
def FailsClean (platform : Platform) (state : IrqState Handler) (isGsi : Bool) (cpuId irq : U64)
    (handler : Handler) : Prop :=
  (hookIrq platform state isGsi cpuId irq handler).1.1 ≠ .success →
    (hookIrq platform state isGsi cpuId irq handler).2.vectors = state.vectors ∧
    (hookIrq platform state isGsi cpuId irq handler).1.2 = none ∧
    (hookIrq platform state isGsi cpuId irq handler).2.devices = state.devices

def Covered (platform : Platform) (state : IrqState Handler) (isGsi : Bool) (irq : U64) : Prop :=
  (pinOf platform state.devices (resolveIrq platform isGsi irq)).isSome = true

def NoVectorLeft (state : IrqState Handler) (cpuId : U64) : Prop :=
  ∀ vector, vector < 256 → isSet (state.vectors cpuId.toNat).vec vector = true

/-- Bits are only ever set. -/
theorem set_keeps_marks (vectors : Nat → IrqMapEntry Handler) (owner vector : Nat)
    {cpu position : Nat} (marked : isSet (vectors cpu).vec position = true) :
    isSet (Function.update vectors owner
      { vectors owner with vec := setBit (vectors owner).vec vector } cpu).vec position = true := by
  by_cases same : cpu = owner
  · subst same
    simp [is_set_after_set, marked]
  · rw [Function.update_of_ne same]
    exact marked

theorem allocate_keeps_marks (vectors : Nat → IrqMapEntry Handler) (cpuIndex : U64)
    {cpu position : Nat} (marked : isSet (vectors cpu).vec position = true) :
    isSet ((allocateVectorOnCpu vectors cpuIndex).2 cpu).vec position = true := by
  by_cases known : cpuIndex.toNat < maxCpus
  · rcases allocate_vector_cases vectors known with ⟨_, none⟩ | ⟨vector, _, _, _, found⟩
    · rw [none]
      exact marked
    · rw [found]
      exact set_keeps_marks vectors cpuIndex.toNat vector marked
  · rw [allocateVectorOnCpu, if_pos (Nat.le_of_not_lt known)]
    exact marked

theorem free_keeps_marks (vectors : Nat → IrqMapEntry Handler) (cpuIndex vector : U64)
    {cpu position : Nat} (marked : isSet (vectors cpu).vec position = true) :
    isSet (freeVectorOnCpu vectors cpuIndex vector cpu).vec position = true := by
  unfold freeVectorOnCpu
  split_ifs
  · exact marked
  · exact set_keeps_marks vectors cpuIndex.toNat vector.toNat marked

theorem store_handler_vec (vectors : Nat → IrqMapEntry Handler) (cpuId vector irq : U64)
    (handler : Handler) (cpu : Nat) :
    (storeHandler vectors cpuId vector irq handler cpu).vec = (vectors cpu).vec := by
  unfold storeHandler
  by_cases same : cpu = cpuId.toNat
  · subst same
    simp
  · rw [Function.update_of_ne same]

theorem hook_keeps_marks (platform : Platform) (state : IrqState Handler) (isGsi : Bool)
    (cpuId irq : U64) (handler : Handler) {cpu position : Nat}
    (marked : isSet (state.vectors cpu).vec position = true) :
    isSet ((hookIrq platform state isGsi cpuId irq handler).2.vectors cpu).vec position = true := by
  have allocated := allocate_keeps_marks state.vectors cpuId marked
  rcases hook_irq_tables platform state isGsi cpuId irq handler with
    same | ⟨vector, resolved, stored⟩
  · rw [same]
    exact allocated
  · rw [stored, store_handler_vec]
    exact allocated

theorem IrqReachable.marked {state : IrqState Handler} (reachable : IrqReachable state) {cpu : Nat}
    (known : cpu < maxCpus) : isSet (state.vectors cpu).vec 0 = true := by
  induction reachable with
  | booted devices => exact (booted_consistent devices).full cpu known
  | allocated cpuIndex before ih => exact allocate_keeps_marks _ cpuIndex ih
  | freed cpuIndex vector before ih => exact free_keeps_marks _ cpuIndex vector ih
  | hooked platform isGsi cpuId irq handler before ih =>
      exact hook_keeps_marks platform _ isGsi cpuId irq handler ih
  | programmed devices before ih => exact ih

/-- A failed hook leaves no trace unless it failed for want of an I/O APIC after it
had reserved its vector. -/
theorem fails_clean_iff {state : IrqState Handler} (reachable : IrqReachable state)
    (platform : Platform) (isGsi : Bool) (cpuId irq : U64) (handler : Handler) :
    FailsClean platform state isGsi cpuId irq handler ↔
      maxCpus ≤ cpuId.toNat ∨ NoVectorLeft state cpuId ∨ Covered platform state isGsi irq := by
  unfold FailsClean NoVectorLeft Covered
  by_cases known : cpuId.toNat < maxCpus
  · have inRange := Nat.not_le.mpr known
    rcases allocate_vector_cases state.vectors known with
      ⟨full, none⟩ | ⟨vector, bound, clear, _, found⟩
    · simp only [hookIrq, none, if_neg inRange, if_true]
      exact iff_of_true (fun _ => ⟨trivial, trivial, trivial⟩) (Or.inr (Or.inl full))
    · obtain ⟨valid, value⟩ := given_vector_valid (reachable.marked known) clear bound
      simp only [hookIrq, found, if_neg inRange, if_neg valid]
      cases routed : pinOf platform state.devices (resolveIrq platform isGsi irq) with
      | none =>
          refine iff_of_false ?_ ?_
          · intro clean
            have same := (clean (by simp)).1
            dsimp only at same
            have bit := congrArg (fun vectors => isSet (vectors cpuId.toNat).vec vector) same
            simp [is_set_after_set, clear] at bit
          · rintro (unknown | full | covered)
            · exact inRange unknown
            · rw [full vector bound] at clear
              exact absurd clear (by simp)
            · exact absurd covered (by simp)
      | some pin => simp
  · have unknown := Nat.le_of_not_lt known
    simp only [hookIrq, if_pos unknown]
    exact iff_of_true (fun _ => ⟨trivial, trivial, trivial⟩) (Or.inl unknown)

/-- One I/O APIC, with the inputs from GSI 0 on. -/
def oneIoApic : Platform := ⟨0xffff800000000000, [⟨0xfec00000, 0⟩], []⟩

/-- The tables after boot and registers that read zero: one input for each I/O APIC. -/
def bootedTables : IrqState Unit := ⟨initializeIrqVectors, fun _ _ => 0⟩

theorem unknown_processor_hook_clean :
    IrqReachable bootedTables ∧
      (hookIrq oneIoApic bootedTables true 256 0 ()).1.1 = .invalidArguments ∧
      FailsClean oneIoApic bootedTables true 256 0 () :=
  ⟨.booted _, rfl,
    (fails_clean_iff (.booted _) oneIoApic true 256 0 ()).mpr (Or.inl (by decide))⟩

/-- GSI 1 is an input of no I/O APIC; the hook fails and vector 32 is gone. -/
theorem uncovered_hook_leaks :
    IrqReachable bootedTables ∧
      (hookIrq oneIoApic bootedTables true 0 1 ()).1.1 = .failure ∧
      ¬FailsClean oneIoApic bootedTables true 0 1 () := by
  have status : (hookIrq oneIoApic bootedTables true 0 1 ()).1.1 = .failure := by decide
  refine ⟨.booted _, status, ?_⟩
  intro clean
  have same := (clean (by rw [status]; decide)).1
  have before : isSet (bootedTables.vectors 0).vec 32 = false := by decide
  have after : isSet ((hookIrq oneIoApic bootedTables true 0 1 ()).2.vectors 0).vec 32 = true := by
    decide
  rw [same, before] at after
  exact absurd after (by simp)

end KittyOs.VectorLeaks
