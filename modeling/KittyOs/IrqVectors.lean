import KittyOs.IrqModel

/-!
# Vectors are given out once

Runs of `hook_irq` with two ledgers beside the state: the vectors given out and
the hooks that succeeded. The invariant ties the bitmap of every processor to the
first ledger and its slots to the second; a call on one processor touches that
processor only, and a dispatch reads the second ledger back.
-/

namespace KittyOs.IrqVectors

open KittyOs.Lib.ByteBitmap KittyOs.MachineWord KittyOs.IrqModel

set_option autoImplicit false

variable {Handler : Type}

structure HookCall (Handler : Type) where
  isGsi : Bool
  cpuId : U64
  irq : U64
  handler : Handler

/-- A successful hook: where it is stored, and the GSI it is for. -/
structure Hook (Handler : Type) where
  cpu : Nat
  vector : Nat
  irq : U64
  handler : Handler

def Hook.place (hook : Hook Handler) : Nat × Nat := (hook.cpu, hook.vector)

def Hook.handle (hook : Hook Handler) : IrqHandle := ⟨hook.cpu, hook.vector⟩

structure HookRun (Handler : Type) where
  state : IrqState Handler
  given : List (Nat × Nat)
  hooked : List (Hook Handler)

def booted (devices : IoApics) : HookRun Handler where
  state := ⟨initializeIrqVectors, devices⟩
  given := []
  hooked := []

/-- The vector a call gets, whether or not the call goes on to succeed. -/
def givenOut (state : IrqState Handler) (call : HookCall Handler) : List (Nat × Nat) :=
  let vector := (allocateVectorOnCpu state.vectors call.cpuId).1
  if vector = invalidVector then [] else [(call.cpuId.toNat, vector.toNat)]

def HookRun.perform (platform : Platform) (run : HookRun Handler) (call : HookCall Handler) :
    HookRun Handler :=
  let outcome :=
    hookIrq platform run.state call.isGsi call.cpuId call.irq call.handler
  { state := outcome.2
    given := run.given ++ givenOut run.state call
    hooked := run.hooked ++
      match outcome.1.2 with
      | none => []
      | some handle =>
          [⟨handle.cpu, handle.slot, resolveIrq platform call.isGsi call.irq, call.handler⟩] }

def hookRun (platform : Platform) (devices : IoApics) (calls : List (HookCall Handler)) :
    HookRun Handler :=
  calls.foldl (HookRun.perform platform) (booted devices)

/-! ### What one call does -/

theorem allocate_vector_cases (vectors : Nat → IrqMapEntry Handler) {cpuIndex : U64}
    (known : cpuIndex.toNat < maxCpus) :
    ((∀ vector, vector < 256 → isSet (vectors cpuIndex.toNat).vec vector = true) ∧
        allocateVectorOnCpu vectors cpuIndex = (invalidVector, vectors)) ∨
      ∃ vector, vector < 256 ∧ isSet (vectors cpuIndex.toNat).vec vector = false ∧
        (∀ lower, lower < vector → isSet (vectors cpuIndex.toNat).vec lower = true) ∧
        allocateVectorOnCpu vectors cpuIndex =
          (BitVec.ofNat 64 vector, Function.update vectors cpuIndex.toNat
            ⟨setBit (vectors cpuIndex.toNat).vec vector, (vectors cpuIndex.toNat).mapping⟩) := by
  unfold allocateVectorOnCpu
  rw [if_neg (by omega)]
  dsimp only
  cases found : firstClear 32 (vectors cpuIndex.toNat).vec with
  | none =>
      refine Or.inl ⟨?_, rfl⟩
      intro vector bound
      exact first_clear_none found (by omega)
  | some vector =>
      obtain ⟨bound, clear, below⟩ := first_clear_some found
      exact Or.inr ⟨vector, by omega, clear, below, rfl⟩

/-- A hook call refuses, uses a vector up without storing the handler, or stores it. -/
inductive HookStep (platform : Platform) (run : HookRun Handler) (call : HookCall Handler) :
    HookRun Handler → Prop
  | refused : HookStep platform run call run
  | unrouted (vector : Nat) (known : call.cpuId.toNat < maxCpus) (bound : vector < 256)
      (clear : isSet (run.state.vectors call.cpuId.toNat).vec vector = false)
      (missing : pinOf platform run.state.devices
        (resolveIrq platform call.isGsi call.irq) = none) :
      HookStep platform run call
        { run with
          state := ⟨Function.update run.state.vectors call.cpuId.toNat
            ⟨setBit (run.state.vectors call.cpuId.toNat).vec vector,
              (run.state.vectors call.cpuId.toNat).mapping⟩, run.state.devices⟩
          given := run.given ++ [(call.cpuId.toNat, vector)] }
  | stored (vector : Nat) (pin : Pin) (known : call.cpuId.toNat < maxCpus) (bound : vector < 256)
      (clear : isSet (run.state.vectors call.cpuId.toNat).vec vector = false)
      (found : pinOf platform run.state.devices
        (resolveIrq platform call.isGsi call.irq) = some pin) :
      HookStep platform run call
        { state :=
            ⟨Function.update run.state.vectors call.cpuId.toNat
              ⟨setBit (run.state.vectors call.cpuId.toNat).vec vector,
                Function.update (run.state.vectors call.cpuId.toNat).mapping vector
                  ⟨resolveIrq platform call.isGsi call.irq, BitVec.ofNat 64 vector, call.cpuId,
                    ((run.state.vectors call.cpuId.toNat).mapping vector).callbacks ++
                      [call.handler]⟩⟩,
              ioapicSetRedirection run.state.devices pin.base pin.index call.cpuId
                ((BitVec.ofNat 64 vector).setWidth 8) 0b000 false true false false false⟩
          given := run.given ++ [(call.cpuId.toNat, vector)]
          hooked := run.hooked ++
            [⟨call.cpuId.toNat, vector, resolveIrq platform call.isGsi call.irq, call.handler⟩] }

/-- The first bytes of the bitmap are full, so a vector given out is never the
number that stands for none. -/
theorem given_vector_valid {bits : Nat → BitVec 8} {vector : Nat}
    (full : isSet bits 0 = true) (clear : isSet bits vector = false) (bound : vector < 256) :
    BitVec.ofNat 64 vector ≠ invalidVector ∧ (BitVec.ofNat 64 vector).toNat = vector := by
  have value : (BitVec.ofNat 64 vector).toNat = vector := of_nat_to_nat (by omega)
  refine ⟨?_, value⟩
  intro zero
  have none : vector = 0 := by
    rw [← value, zero]
    rfl
  rw [none, full] at clear
  exact absurd clear (by simp)

theorem perform_step (platform : Platform) (run : HookRun Handler) (call : HookCall Handler)
    (full : ∀ cpu, cpu < maxCpus → isSet (run.state.vectors cpu).vec 0 = true) :
    HookStep platform run call (run.perform platform call) := by
  by_cases known : call.cpuId.toNat < maxCpus
  · rcases allocate_vector_cases run.state.vectors known with
      ⟨_, none⟩ | ⟨vector, bound, clear, _, found⟩
    · have same : run.perform platform call = run := by
        simp only [HookRun.perform, hookIrq, givenOut, none, if_neg (Nat.not_le.mpr known),
          if_true, List.append_nil]
      rw [same]
      exact .refused
    · obtain ⟨valid, value⟩ := given_vector_valid (full _ known) clear bound
      cases routed : pinOf platform run.state.devices
          (resolveIrq platform call.isGsi call.irq) with
      | none =>
          have result := HookStep.unrouted vector known bound clear routed
          simp only [HookRun.perform, hookIrq, givenOut, found, if_neg (Nat.not_le.mpr known),
            if_neg valid, value, routed, List.append_nil]
          exact result
      | some pin =>
          have result := HookStep.stored vector pin known bound clear routed
          simp only [HookRun.perform, hookIrq, givenOut, found, if_neg (Nat.not_le.mpr known),
            if_neg valid, value, routed, storeHandler, Function.update_self,
            Function.update_idem]
          exact result
  · have unknown : call.cpuId.toNat ≥ maxCpus := Nat.le_of_not_lt known
    have same : run.perform platform call = run := by
      simp only [HookRun.perform, hookIrq, givenOut, allocateVectorOnCpu, if_pos unknown, if_true,
        List.append_nil]
    rw [same]
    exact .refused

/-- A call allocates, and then stores the handler or leaves the tables at that. -/
theorem hook_irq_tables (platform : Platform) (state : IrqState Handler) (isGsi : Bool)
    (cpuId irq : U64) (handler : Handler) :
    (hookIrq platform state isGsi cpuId irq handler).2.vectors =
        (allocateVectorOnCpu state.vectors cpuId).2 ∨
      ∃ vector resolved, (hookIrq platform state isGsi cpuId irq handler).2.vectors =
        storeHandler (allocateVectorOnCpu state.vectors cpuId).2 cpuId vector resolved handler := by
  unfold hookIrq
  split_ifs with unknown
  · rw [allocateVectorOnCpu, if_pos unknown]
    exact Or.inl rfl
  · dsimp only
    split_ifs
    · exact Or.inl rfl
    · cases pinOf platform state.devices (resolveIrq platform isGsi irq) with
      | none => exact Or.inl rfl
      | some pin => exact Or.inr ⟨_, _, rfl⟩

/-- A call touches the tables of its own processor only. -/
theorem hook_irq_other_cpu (platform : Platform) (state : IrqState Handler) (isGsi : Bool)
    (cpuId irq : U64) (handler : Handler) {cpu : Nat} (other : cpu ≠ cpuId.toNat) :
    (hookIrq platform state isGsi cpuId irq handler).2.vectors cpu = state.vectors cpu := by
  have allocated : (allocateVectorOnCpu state.vectors cpuId).2 cpu = state.vectors cpu := by
    unfold allocateVectorOnCpu
    split_ifs
    · rfl
    · dsimp only
      cases firstClear 32 (state.vectors cpuId.toNat).vec with
      | none => rfl
      | some vector => exact Function.update_of_ne other _ _
  rcases hook_irq_tables platform state isGsi cpuId irq handler with
    same | ⟨vector, resolved, stored⟩
  · rw [same]
    exact allocated
  · rw [stored, storeHandler, Function.update_of_ne other]
    exact allocated

/-! ### The invariant -/

/-- The slot of a vector as the hooks say it should be. -/
def slotEntry (hooked : List (Hook Handler)) (cpu vector : Nat) : MapEntry Handler :=
  match hooked.find? fun hook => hook.place == (cpu, vector) with
  | some hook => ⟨hook.irq, BitVec.ofNat 64 vector, BitVec.ofNat 64 cpu, [hook.handler]⟩
  | none => .blank

/-- The bitmaps mark the exceptions and the vectors of a ledger. -/
def MarksExactly (vectors : Nat → IrqMapEntry Handler) (given : List (Nat × Nat)) : Prop :=
  ∀ cpu vector, cpu < maxCpus → vector < 256 →
    (isSet (vectors cpu).vec vector = true ↔ vector < 32 ∨ (cpu, vector) ∈ given)

structure Consistent (run : HookRun Handler) : Prop where
  bits : MarksExactly run.state.vectors run.given
  once : run.given.Nodup
  range : ∀ place ∈ run.given, place.1 < maxCpus ∧ 32 ≤ place.2 ∧ place.2 < 256
  places : (run.hooked.map Hook.place).Sublist run.given
  slots : ∀ cpu vector, cpu < maxCpus → vector < 256 →
    (run.state.vectors cpu).mapping vector = slotEntry run.hooked cpu vector

theorem booted_consistent (devices : IoApics) : Consistent (booted devices : HookRun Handler) where
  bits := by
    intro cpu vector known bound
    have small : vector % 8 < 8 := Nat.mod_lt _ (by omega)
    simp only [isSet, booted, initializeIrqVectors, known, true_and, List.not_mem_nil, or_false]
    split_ifs with low
    · have ones : ∀ bit, bit < 8 → (0xff : BitVec 8).getLsbD bit = true := by decide
      simp only [ones _ small, true_iff]
      omega
    · simp only [BitVec.ofNat_eq_ofNat, BitVec.getLsbD_zero, Bool.false_eq_true, false_iff]
      omega
  once := List.nodup_nil
  range := by
    intro place member
    exact absurd member (by simp [booted])
  places := List.Sublist.refl []
  slots := fun _ _ _ _ => rfl

theorem Consistent.full {run : HookRun Handler} (consistent : Consistent run) (cpu : Nat)
    (known : cpu < maxCpus) : isSet (run.state.vectors cpu).vec 0 = true :=
  (consistent.bits cpu 0 known (by omega)).mpr (Or.inl (by omega))

theorem Consistent.fresh {run : HookRun Handler} (consistent : Consistent run) {cpu vector : Nat}
    (known : cpu < maxCpus) (bound : vector < 256)
    (clear : isSet (run.state.vectors cpu).vec vector = false) :
    32 ≤ vector ∧ (cpu, vector) ∉ run.given := by
  have unset : ¬(vector < 32 ∨ (cpu, vector) ∈ run.given) := by
    rw [← consistent.bits cpu vector known bound, clear]
    simp
  rw [not_or] at unset
  exact ⟨by omega, unset.2⟩

theorem slot_entry_none {hooked : List (Hook Handler)} {cpu vector : Nat}
    (absent : (cpu, vector) ∉ hooked.map Hook.place) : slotEntry hooked cpu vector = .blank := by
  have nothing : hooked.find? (fun hook => hook.place == (cpu, vector)) = none := by
    rw [List.find?_eq_none]
    intro hook member here
    exact absent (List.mem_map.mpr ⟨hook, member, by simpa using here⟩)
  simp only [slotEntry, nothing]

theorem slot_entry_append_new {hooked : List (Hook Handler)} {hook : Hook Handler}
    (absent : hook.place ∉ hooked.map Hook.place) :
    slotEntry (hooked ++ [hook]) hook.cpu hook.vector =
      ⟨hook.irq, BitVec.ofNat 64 hook.vector, BitVec.ofNat 64 hook.cpu, [hook.handler]⟩ := by
  have nothing : hooked.find? (fun other => other.place == (hook.cpu, hook.vector)) = none := by
    rw [List.find?_eq_none]
    intro other member here
    exact absent (List.mem_map.mpr ⟨other, member, beq_iff_eq.mp here⟩)
  have here : (hook.place == (hook.cpu, hook.vector)) = true := by simp [Hook.place]
  simp only [slotEntry, List.find?_append, nothing, Option.none_or, List.find?_cons, here]

theorem slot_entry_append_other {hooked : List (Hook Handler)} {hook : Hook Handler}
    {cpu vector : Nat} (other : (cpu, vector) ≠ hook.place) :
    slotEntry (hooked ++ [hook]) cpu vector = slotEntry hooked cpu vector := by
  have elsewhere : (hook.place == (cpu, vector)) = false := by
    rw [beq_eq_false_iff_ne]
    exact other.symm
  simp only [slotEntry, List.find?_append, List.find?_cons, elsewhere, List.find?_nil,
    Option.or_none]

/-- Using up a bit keeps the bitmap in step with the ledger. -/
theorem marks_given {vectors : Nat → IrqMapEntry Handler} {given after : List (Nat × Nat)}
    (marks : MarksExactly vectors given) {cpu vector : Nat} {mapping : Nat → MapEntry Handler}
    (added : ∀ place, place ∈ after ↔ place ∈ given ∨ place = (cpu, vector)) :
    MarksExactly (Function.update vectors cpu ⟨setBit (vectors cpu).vec vector, mapping⟩) after := by
  intro other position known bound
  have before := marks other position known bound
  rw [added, ← or_assoc, ← before]
  by_cases same : other = cpu
  · subst same
    simp [is_set_after_set]
  · rw [Function.update_of_ne same]
    simp [same]

theorem Consistent.range_given {run : HookRun Handler} (consistent : Consistent run)
    {cpu vector : Nat} (known : cpu < maxCpus) (high : 32 ≤ vector) (bound : vector < 256) :
    ∀ place ∈ run.given ++ [(cpu, vector)],
      place.1 < maxCpus ∧ 32 ≤ place.2 ∧ place.2 < 256 := by
  intro place member
  rcases List.mem_append.mp member with old | new
  · exact consistent.range place old
  · rw [List.mem_singleton.mp new]
    exact ⟨known, high, bound⟩

theorem Consistent.step {platform : Platform} {run next : HookRun Handler}
    {call : HookCall Handler} (consistent : Consistent run)
    (step : HookStep platform run call next) : Consistent next := by
  cases step with
  | refused => exact consistent
  | unrouted vector known bound clear missing =>
      obtain ⟨high, unused⟩ := consistent.fresh known bound clear
      refine ⟨?_, ?_, ?_, ?_, ?_⟩
      · exact marks_given consistent.bits (by simp)
      · exact consistent.once.append (List.nodup_singleton _) (by simpa using unused)
      · exact consistent.range_given known high bound
      · exact consistent.places.trans (List.sublist_append_left _ _)
      · intro cpu position cpuKnown positionBound
        rw [← consistent.slots cpu position cpuKnown positionBound]
        by_cases same : cpu = call.cpuId.toNat
        · simp only [same, Function.update_self]
        · simp only [Function.update_of_ne same]
  | stored vector pin known bound clear found =>
      obtain ⟨high, unused⟩ := consistent.fresh known bound clear
      have absent : (call.cpuId.toNat, vector) ∉ run.hooked.map Hook.place := by
        intro member
        exact unused (consistent.places.subset member)
      refine ⟨?_, ?_, ?_, ?_, ?_⟩
      · exact marks_given consistent.bits (by simp)
      · exact consistent.once.append (List.nodup_singleton _) (by simpa using unused)
      · exact consistent.range_given known high bound
      · rw [List.map_append]
        exact consistent.places.append (List.Sublist.refl _)
      · intro cpu position cpuKnown positionBound
        have before := consistent.slots cpu position cpuKnown positionBound
        by_cases same : cpu = call.cpuId.toNat
        · subst same
          simp only [Function.update_self]
          by_cases here : position = vector
          · subst here
            rw [slot_entry_none absent] at before
            have new := @slot_entry_append_new _ run.hooked
              ⟨call.cpuId.toNat, position, resolveIrq platform call.isGsi call.irq,
                call.handler⟩ absent
            rw [new, Function.update_self, before]
            simp [MapEntry.blank]
          · rw [Function.update_of_ne here, before, slot_entry_append_other]
            intro equal
            exact here (congrArg Prod.snd equal)
        · simp only [Function.update_of_ne same]
          rw [before, slot_entry_append_other]
          intro equal
          exact same (congrArg Prod.fst equal)

theorem hook_run_consistent (platform : Platform) (devices : IoApics)
    (calls : List (HookCall Handler)) : Consistent (hookRun platform devices calls) := by
  have every : ∀ run : HookRun Handler, Consistent run →
      Consistent (calls.foldl (HookRun.perform platform) run) := by
    induction calls with
    | nil =>
        intro run consistent
        exact consistent
    | cons call rest ih =>
        intro run consistent
        exact ih _ (consistent.step (perform_step platform run call consistent.full))
  exact every _ (booted_consistent devices)

/-! ### Dispatching -/

theorem flat_map_single {Element Result : Type} {positions : List Element}
    {f : Element → List Result} {only : Element} (once : positions.Nodup)
    (member : only ∈ positions) (others : ∀ position ∈ positions, position ≠ only → f position = []) :
    positions.flatMap f = f only := by
  induction positions with
  | nil => exact absurd member (by simp)
  | cons position rest ih =>
      obtain ⟨absent, restOnce⟩ := List.nodup_cons.mp once
      rw [List.flatMap_cons]
      rcases List.mem_cons.mp member with here | later
      · have tail : rest.flatMap f = [] := by
          rw [List.flatMap_eq_nil_iff]
          intro other inside
          apply others other (List.mem_cons_of_mem _ inside)
          intro same
          rw [same, here] at inside
          exact absent inside
        rw [tail, List.append_nil, here]
      · have first : f position = [] := by
          apply others position List.mem_cons_self
          intro same
          rw [same] at absent
          exact absent later
        have restOthers : ∀ other ∈ rest, other ≠ only → f other = [] :=
          fun other inside => others other (List.mem_cons_of_mem _ inside)
        rw [first, List.nil_append, ih restOnce later restOthers]

/-- A dispatch reads the hooks back: it invokes the handler stored for the vector. -/
theorem dispatch_reads_hooks {run : HookRun Handler} (consistent : Consistent run) {cpu : Nat}
    (known : cpu < maxCpus) (vector : U64) :
    dispatchIrq run.state (BitVec.ofNat 64 cpu) vector =
      some ((run.hooked.find? fun hook => hook.place == (cpu, vector.toNat)).toList.map
        fun hook => (hook.handler, ⟨cpu, vector.toNat⟩)) := by
  have cpuValue : (BitVec.ofNat 64 cpu).toNat = cpu := by
    apply of_nat_to_nat
    unfold maxCpus at known
    omega
  unfold dispatchIrq
  rw [cpuValue, if_neg (by omega)]
  dsimp only
  congr 1
  have slotOf : ∀ position, position < 256 →
      (run.state.vectors cpu).mapping position = slotEntry run.hooked cpu position :=
    fun position bound => consistent.slots cpu position known bound
  have others : ∀ position, position < 256 → position ≠ vector.toNat →
      ¬((slotEntry run.hooked cpu position).vector = vector ∧
        ¬(slotEntry run.hooked cpu position).callbacks.isEmpty = true) := by
    intro position bound different both
    obtain ⟨sameVector, occupied⟩ := both
    unfold slotEntry at sameVector occupied
    cases stored : run.hooked.find? fun hook => hook.place == (cpu, position) with
    | none =>
        rw [stored] at occupied
        simp [MapEntry.blank] at occupied
    | some hook =>
        rw [stored] at sameVector
        apply different
        rw [← sameVector, of_nat_to_nat (by omega)]
  have silent : ∀ position ∈ List.range 256, position ≠ vector.toNat →
      (if ((run.state.vectors cpu).mapping position).vector = vector ∧
          ¬((run.state.vectors cpu).mapping position).callbacks.isEmpty = true then
        ((run.state.vectors cpu).mapping position).callbacks.map fun callback =>
          (callback, (⟨cpu, vector.toNat⟩ : IrqHandle))
      else []) = [] := by
    intro position member different
    have bound := List.mem_range.mp member
    rw [slotOf position bound, if_neg (others position bound different)]
  by_cases bound : vector.toNat < 256
  · rw [flat_map_single List.nodup_range (List.mem_range.mpr bound) silent, slotOf _ bound]
    unfold slotEntry
    cases run.hooked.find? fun hook => hook.place == (cpu, vector.toNat) with
    | none => simp [MapEntry.blank]
    | some hook => simp
  · have nothing : run.hooked.find? (fun hook => hook.place == (cpu, vector.toNat)) = none := by
      rw [List.find?_eq_none]
      intro hook member here
      have place : hook.place = (cpu, vector.toNat) := beq_iff_eq.mp here
      have inside := consistent.range _ (consistent.places.subset
        (List.mem_map.mpr ⟨hook, member, place⟩))
      exact bound inside.2.2
    rw [nothing, Option.toList_none, List.map_nil, List.flatMap_eq_nil_iff]
    intro position member
    apply silent position member
    have small := List.mem_range.mp member
    omega

/-- Every hook that succeeded is the only one at its place. -/
theorem Consistent.find_hook {run : HookRun Handler} (consistent : Consistent run)
    {hook : Hook Handler} (member : hook ∈ run.hooked) :
    run.hooked.find? (fun other => other.place == hook.place) = some hook := by
  have once : (run.hooked.map Hook.place).Nodup := consistent.once.sublist consistent.places
  generalize run.hooked = hooked at member once
  induction hooked with
  | nil => exact absurd member (by simp)
  | cons first rest ih =>
      rw [List.map_cons, List.nodup_cons] at once
      rw [List.find?_cons]
      rcases List.mem_cons.mp member with here | later
      · rw [here, beq_self_eq_true]
      · have elsewhere : (first.place == hook.place) = false := by
          rw [beq_eq_false_iff_ne]
          intro same
          rw [same] at once
          exact once.1 (List.mem_map.mpr ⟨hook, later, rfl⟩)
        rw [elsewhere]
        exact ih later once.2

theorem Consistent.handle_entry {run : HookRun Handler} (consistent : Consistent run)
    {hook : Hook Handler} (member : hook ∈ run.hooked) :
    hook.handle.entry run.state =
      ⟨hook.irq, BitVec.ofNat 64 hook.vector, BitVec.ofNat 64 hook.cpu, [hook.handler]⟩ := by
  obtain ⟨known, _, bound⟩ := consistent.range _ (consistent.places.subset
    (List.mem_map.mpr ⟨hook, member, rfl⟩))
  have found : run.hooked.find? (fun other => other.place == (hook.cpu, hook.vector)) =
      some hook := consistent.find_hook member
  have slot := consistent.slots hook.cpu hook.vector known bound
  rw [slotEntry, found] at slot
  exact slot

/-- The vectors of a processor are given out once and lie above the exceptions, a
call leaves the other processors alone, and a dispatch invokes the handler of the
one hook at its place, with that hook's handle, or nothing. -/
theorem hooks_dispatch_exactly (platform : Platform) (devices : IoApics)
    (calls : List (HookCall Handler)) :
    ((hookRun platform devices calls).given.Nodup ∧
      ∀ place ∈ (hookRun platform devices calls).given, 32 ≤ place.2 ∧ place.2 ≤ 255) ∧
    (∀ (call : HookCall Handler) (cpu : Nat), cpu ≠ call.cpuId.toNat →
      (hookIrq platform (hookRun platform devices calls).state call.isGsi call.cpuId call.irq
        call.handler).2.vectors cpu = (hookRun platform devices calls).state.vectors cpu) ∧
    ((hookRun platform devices calls).hooked.map Hook.place).Sublist
      (hookRun platform devices calls).given ∧
    ∀ (cpu : Fin maxCpus) (vector : U64),
      (∀ hook ∈ (hookRun platform devices calls).hooked,
        hook.place = (cpu.val, vector.toNat) →
          dispatchIrq (hookRun platform devices calls).state (BitVec.ofNat 64 cpu.val) vector =
            some [(hook.handler, hook.handle)] ∧
          getIrqFromHandle (hookRun platform devices calls).state hook.handle = hook.irq ∧
          getIdtVectorFromHandle (hookRun platform devices calls).state hook.handle = vector ∧
          getCpuIdFromHandle (hookRun platform devices calls).state hook.handle =
            BitVec.ofNat 64 cpu.val) ∧
      ((∀ hook ∈ (hookRun platform devices calls).hooked,
        hook.place ≠ (cpu.val, vector.toNat)) →
          dispatchIrq (hookRun platform devices calls).state (BitVec.ofNat 64 cpu.val) vector =
            some []) := by
  have consistent := hook_run_consistent platform devices calls
  generalize hookRun platform devices calls = run at consistent
  refine ⟨⟨consistent.once, ?_⟩, ?_, consistent.places, ?_⟩
  · intro place member
    obtain ⟨_, low, high⟩ := consistent.range place member
    exact ⟨low, by omega⟩
  · intro call cpu other
    exact hook_irq_other_cpu platform run.state _ _ _ _ other
  · intro cpu vector
    have dispatched := dispatch_reads_hooks consistent cpu.isLt vector
    constructor
    · intro hook member here
      have found := consistent.find_hook member
      have entry := consistent.handle_entry member
      have cpuSame : hook.cpu = cpu.val := congrArg Prod.fst here
      have vectorSame : hook.vector = vector.toNat := congrArg Prod.snd here
      rw [here] at found
      rw [getIrqFromHandle, getIdtVectorFromHandle, getCpuIdFromHandle, entry, dispatched, found,
        Hook.handle, cpuSame, vectorSame]
      refine ⟨rfl, rfl, ?_, rfl⟩
      exact BitVec.eq_of_toNat_eq (of_nat_to_nat vector.isLt)
    · intro nowhere
      have nothing : run.hooked.find? (fun hook => hook.place == (cpu.val, vector.toNat)) =
          none := by
        rw [List.find?_eq_none]
        intro hook member here
        exact nowhere hook member (beq_iff_eq.mp here)
      rw [dispatched, nothing]
      rfl

end KittyOs.IrqVectors
