import KittyOs.IrqVectors
import KittyOs.RedirectionEntries

/-!
# From a raised line to its handler

Every successful hook programs the redirection entry of its pin, and the entry
keeps what the last hook of the pin wrote: the low four bits of the processor
number and the vector. Following the entry therefore reaches exactly one place
of the table, whatever was hooked before.
-/

namespace KittyOs.IrqRouting

open KittyOs.Lib.BitFields KittyOs.MachineWord KittyOs.IrqModel
open KittyOs.IrqVectors KittyOs.RedirectionEntries

set_option autoImplicit false

/-! ### The redirection registers -/

def pinWord (devices : IoApics) (pin : Pin) : U64 :=
  ioapicGetRedirection devices pin.base pin.index

/-- No redirection changes which pins exist. -/
theorem pin_of_programmed (platform : Platform) (devices : IoApics) (given : Redirection) (pin : Pin)
    (irq : U64) : pinOf platform (given.set devices pin) irq = pinOf platform devices irq := by
  unfold pinOf
  congr 1
  funext ioApic
  simp only [pinOn, set_eq_write, written_redirections]

/-- The processor the entry names and the vector it raises. -/
def destinationOf (word : U64) : U64 := word >>> 56

def vectorOf (word : U64) : U64 := word &&& 0xFF

theorem destination_of_to_nat (word : U64) :
    (destinationOf word).toNat = destinationField.read word.toNat := by
  have bound := word.isLt
  rw [destinationOf, Field.read, destinationField, BitVec.toNat_ushiftRight,
    Nat.shiftRight_eq_div_pow]
  exact (Nat.mod_eq_of_lt (show word.toNat / 2 ^ 56 < 2 ^ 8 by omega)).symm

theorem vector_of_to_nat (word : U64) : (vectorOf word).toNat = vectorField.read word.toNat := by
  have mask : (0xFF : U64).toNat = 2 ^ 8 - 1 := rfl
  rw [vectorOf, Field.read, vectorField, BitVec.toNat_and, mask, Nat.and_two_pow_sub_one_eq_mod,
    Nat.shiftRight_zero]

theorem hook_word_fields (cpuId : U64) {vector : Nat} (bound : vector < 256) :
    (destinationOf (hookRedirection cpuId vector).entry.redirection).toNat = cpuId.toNat % 16 ∧
      (vectorOf (hookRedirection cpuId vector).entry.redirection).toNat = vector := by
  rw [destination_of_to_nat, vector_of_to_nat]
  exact ⟨entry_word_destination (hookRedirection cpuId vector), hook_redirection_vector cpuId bound⟩

/-! ### The entries along a run -/

variable {Handler : Type}

def wordOf (hook : Hook Handler) : U64 :=
  (hookRedirection (BitVec.ofNat 64 hook.cpu) hook.vector).entry.redirection

/-- The last hook of a pin. -/
def lastOn (pins : U64 → Option Pin) (hooked : List (Hook Handler)) (pin : Pin) :
    Option (Hook Handler) :=
  (hooked.filter fun hook => pins hook.irq == some pin).getLast?

/-- The pins are those of the start, every hook has one, and its entry holds the
word of the pin's last hook. -/
structure Routed (pins : U64 → Option Pin) (platform : Platform) (run : HookRun Handler) :
    Prop where
  kept : ∀ irq, pinOf platform run.state.devices irq = pins irq
  wired : ∀ hook ∈ run.hooked, ∃ pin, pins hook.irq = some pin
  entries : ∀ pin hook, lastOn pins run.hooked pin = some hook →
    pinWord run.state.devices pin = wordOf hook

theorem last_on_append_same {pins : U64 → Option Pin} {hooked : List (Hook Handler)}
    {hook : Hook Handler} {pin : Pin} (here : pins hook.irq = some pin) :
    lastOn pins (hooked ++ [hook]) pin = some hook := by
  simp [lastOn, here]

theorem last_on_append_other {pins : U64 → Option Pin} {hooked : List (Hook Handler)}
    {hook : Hook Handler} {pin : Pin} (elsewhere : pins hook.irq ≠ some pin) :
    lastOn pins (hooked ++ [hook]) pin = lastOn pins hooked pin := by
  simp [lastOn, elsewhere]

theorem last_on_member {pins : U64 → Option Pin} {hooked : List (Hook Handler)}
    {last : Hook Handler} {pin : Pin} (found : lastOn pins hooked pin = some last) :
    last ∈ hooked ∧ pins last.irq = some pin := by
  have member := List.mem_of_getLast? found
  simpa using List.mem_filter.mp member

theorem last_on_exists {pins : U64 → Option Pin} {hooked : List (Hook Handler)}
    {hook : Hook Handler} {pin : Pin} (member : hook ∈ hooked) (here : pins hook.irq = some pin) :
    ∃ last, lastOn pins hooked pin = some last := by
  have inside : hook ∈ hooked.filter fun other => pins other.irq == some pin :=
    List.mem_filter.mpr ⟨member, by simp [here]⟩
  cases found : lastOn pins hooked pin with
  | none =>
      rw [lastOn, List.getLast?_eq_none_iff] at found
      rw [found] at inside
      exact absurd inside (by simp)
  | some last => exact ⟨last, rfl⟩

theorem booted_routed (platform : Platform) (devices : IoApics) :
    Routed (pinOf platform devices) platform (booted devices : HookRun Handler) where
  kept := fun _ => rfl
  wired := by
    intro hook member
    exact absurd member (by simp [booted])
  entries := by
    intro pin hook found
    exact absurd found (by simp [lastOn, booted])

theorem Routed.step {pins : U64 → Option Pin} {platform : Platform} {run next : HookRun Handler}
    {call : HookCall Handler} (routed : Routed pins platform run)
    (step : HookStep platform run call next) : Routed pins platform next := by
  cases step with
  | refused => exact routed
  | unrouted vector known bound clear missing =>
      exact ⟨routed.kept, routed.wired, routed.entries⟩
  | stored vector pin known bound clear found =>
      have here : pins (resolveIrq platform call.isGsi call.irq) = some pin := by
        rw [← routed.kept]
        exact found
      refine ⟨?_, ?_, ?_⟩
      · intro irq
        rw [← routed.kept irq]
        exact pin_of_programmed platform run.state.devices (hookRedirection call.cpuId vector) pin irq
      · intro hook member
        rcases List.mem_append.mp member with old | new
        · exact routed.wired hook old
        · rw [List.mem_singleton.mp new]
          exact ⟨pin, here⟩
      · intro other hook last
        by_cases same : other = pin
        · rw [same] at last ⊢
          rw [last_on_append_same here] at last
          rw [← Option.some.inj last]
          have word : wordOf (⟨call.cpuId.toNat, vector,
              resolveIrq platform call.isGsi call.irq, call.handler⟩ : Hook Handler) =
                (hookRedirection call.cpuId vector).entry.redirection := by
            rw [wordOf, BitVec.ofNat_toNat, BitVec.setWidth_eq]
          rw [word]
          exact get_written run.state.devices pin _
        · rw [last_on_append_other] at last
          · rw [← routed.entries other hook last]
            exact get_other run.state.devices (hookRedirection call.cpuId vector).entry.redirection same
          · intro equal
            rw [here] at equal
            exact same (Option.some.inj equal).symm

theorem hook_run_routed (platform : Platform) (devices : IoApics)
    (calls : List (HookCall Handler)) :
    Routed (pinOf platform devices) platform (hookRun platform devices calls) := by
  have every : ∀ run : HookRun Handler, Consistent run →
      Routed (pinOf platform devices) platform run →
      Routed (pinOf platform devices) platform
        (calls.foldl (HookRun.perform platform) run) := by
    induction calls with
    | nil =>
        intro run _ routed
        exact routed
    | cons call rest ih =>
        intro run consistent routed
        have step := perform_step platform run call consistent.full
        exact ih _ (consistent.step step) (routed.step step)
  exact every _ (booted_consistent devices) (booted_routed platform devices)

/-! ### Which handlers a raised line reaches -/

/-- Dispatching the vector on the processor with that id invokes the handler of the
hook, under the hook's handle, once. -/
def Runs (state : IrqState Handler) (processorId vector : U64) (hook : Hook Handler) : Prop :=
  ∃ invocations, dispatchIrq state processorId vector = some invocations ∧
    (invocations.filter fun invocation => invocation.2 = hook.handle).map Prod.fst =
      [hook.handler]

theorem runs_iff {run : HookRun Handler} (consistent : Consistent run) {hook : Hook Handler}
    (member : hook ∈ run.hooked) {processorId vector : U64}
    (known : processorId.toNat < maxCpus) :
    Runs run.state processorId vector hook ↔
      hook.place = (processorId.toNat, vector.toNat) := by
  have dispatched := dispatch_reads_hooks consistent known vector
  rw [BitVec.ofNat_toNat, BitVec.setWidth_eq] at dispatched
  unfold Runs
  rw [dispatched]
  constructor
  · rintro ⟨invocations, result, once⟩
    rw [← Option.some.inj result] at once
    cases found : run.hooked.find? fun other =>
        other.place == (processorId.toNat, vector.toNat) with
    | none =>
        rw [found] at once
        simp at once
    | some other =>
        rw [found] at once
        by_cases same : (⟨processorId.toNat, vector.toNat⟩ : IrqHandle) = hook.handle
        · rw [Hook.handle, IrqHandle.mk.injEq] at same
          rw [Hook.place, same.1, same.2]
        · simp [same] at once
  · intro here
    have found := consistent.find_hook member
    rw [here] at found
    have handle : (⟨processorId.toNat, vector.toNat⟩ : IrqHandle) = hook.handle := by
      rw [Hook.place, Prod.mk.injEq] at here
      rw [Hook.handle, here.1, here.2]
    refine ⟨_, rfl, ?_⟩
    rw [found]
    simp [handle]

/-- The entry of a hook's pin selects the place of the pin's last hook, as far as
four bits of the processor number say it. -/
theorem selected_place {pins : U64 → Option Pin} {platform : Platform} {run : HookRun Handler}
    (consistent : Consistent run) (routed : Routed pins platform run) {last : Hook Handler}
    {pin : Pin} (found : lastOn pins run.hooked pin = some last) :
    (destinationOf (pinWord run.state.devices pin)).toNat = last.cpu % 16 ∧
      (vectorOf (pinWord run.state.devices pin)).toNat = last.vector := by
  obtain ⟨known, _, bound⟩ := consistent.range _ (consistent.places.subset
    (List.mem_map.mpr ⟨last, (last_on_member found).1, rfl⟩))
  have fields := hook_word_fields (BitVec.ofNat 64 last.cpu) bound
  rw [routed.entries pin last found]
  have cpuValue : (BitVec.ofNat 64 last.cpu).toNat = last.cpu := by
    apply of_nat_to_nat
    have small : last.cpu < 256 := known
    omega
  rw [cpuValue] at fields
  exact fields

/-- Whenever a GSI is raised, the dispatch its entry selects runs every handler
hooked for it, once. -/
def NoHandlerLost (platform : Platform) (run : HookRun Handler) : Prop :=
  ∀ gsi pin, pinOf platform run.state.devices gsi = some pin →
    ∀ hook ∈ run.hooked, hook.irq = gsi →
      Runs run.state (destinationOf (pinWord run.state.devices pin))
        (vectorOf (pinWord run.state.devices pin)) hook

/-- No two hooks share a pin, and their processors have numbers of four bits. -/
def PinsUnshared (pins : U64 → Option Pin) (hooked : List (Hook Handler)) : Prop :=
  (∀ hook ∈ hooked, hook.cpu < 16) ∧
    ∀ hook ∈ hooked, ∀ other ∈ hooked, pins hook.irq = pins other.irq → hook.place = other.place

theorem no_handler_lost_iff {pins : U64 → Option Pin} {platform : Platform}
    {run : HookRun Handler} (consistent : Consistent run) (routed : Routed pins platform run) :
    NoHandlerLost platform run ↔ PinsUnshared pins run.hooked := by
  have selects : ∀ hook ∈ run.hooked, ∀ pin, pins hook.irq = some pin →
      ∃ last, lastOn pins run.hooked pin = some last ∧
        (Runs run.state (destinationOf (pinWord run.state.devices pin))
          (vectorOf (pinWord run.state.devices pin)) hook ↔
            hook.place = (last.cpu % 16, last.vector)) := by
    intro hook member pin here
    obtain ⟨last, found⟩ := last_on_exists member here
    obtain ⟨destination, vector⟩ := selected_place consistent routed found
    refine ⟨last, found, ?_⟩
    rw [runs_iff consistent member (by unfold maxCpus; omega), destination, vector]
  constructor
  · intro kept
    have own : ∀ hook ∈ run.hooked, ∀ pin, pins hook.irq = some pin →
        ∃ last, lastOn pins run.hooked pin = some last ∧
          hook.place = (last.cpu % 16, last.vector) := by
      intro hook member pin here
      obtain ⟨last, found, runs⟩ := selects hook member pin here
      refine ⟨last, found, runs.mp ?_⟩
      exact kept hook.irq pin ((routed.kept _).trans here) hook member rfl
    constructor
    · intro hook member
      obtain ⟨pin, here⟩ := routed.wired hook member
      obtain ⟨last, _, place⟩ := own hook member pin here
      have cpu : hook.cpu = last.cpu % 16 := congrArg Prod.fst place
      omega
    · intro hook member other otherMember same
      obtain ⟨pin, here⟩ := routed.wired hook member
      obtain ⟨last, found, place⟩ := own hook member pin here
      obtain ⟨otherLast, otherFound, otherPlace⟩ := own other otherMember pin (same ▸ here)
      rw [found] at otherFound
      rw [place, otherPlace, Option.some.inj otherFound]
  · intro unshared gsi pin here hook member same
    rw [routed.kept, ← same] at here
    obtain ⟨last, found, runs⟩ := selects hook member pin here
    obtain ⟨lastMember, lastHere⟩ := last_on_member found
    rw [runs, unshared.2 hook member last lastMember (here.trans lastHere.symm),
      Nat.mod_eq_of_lt (unshared.1 last lastMember)]
    rfl

theorem no_handler_lost_iff_unshared (platform : Platform) (devices : IoApics)
    (calls : List (HookCall Handler)) :
    NoHandlerLost platform (hookRun platform devices calls) ↔
      PinsUnshared (pinOf platform devices) (hookRun platform devices calls).hooked :=
  no_handler_lost_iff (hook_run_consistent platform devices calls)
    (hook_run_routed platform devices calls)

/-- One I/O APIC with 24 pins. -/
def singleIoApic : Platform where
  hhdm := 0xffff800000000000
  ioApics := [⟨0xfec00000, 0⟩]
  isos := []

def resetIoApics : IoApics := fun _ reg => if reg = 1 then 0x00170020 else 0

/-- Two handlers for one line: the second hook takes the entry away from the first. -/
theorem second_hook_silences_first :
    ¬NoHandlerLost singleIoApic
      (hookRun singleIoApic resetIoApics [⟨true, 0, 9, "first"⟩, ⟨true, 0, 9, "second"⟩]) := by
  rw [no_handler_lost_iff (hook_run_consistent _ _ _) (hook_run_routed _ _ _)]
  have hooks : (hookRun singleIoApic resetIoApics
      [⟨true, 0, 9, "first"⟩, ⟨true, 0, 9, "second"⟩]).hooked =
        [⟨0, 32, 9, "first"⟩, ⟨0, 33, 9, "second"⟩] := by rfl
  rw [hooks]
  intro unshared
  have places := unshared.2 ⟨0, 32, 9, "first"⟩ (by simp) ⟨0, 33, 9, "second"⟩ (by simp) rfl
  exact absurd places (by decide)

/-! ### The processor that takes the interrupt -/

/-- The APIC ID is in the top byte of the register, the rest is reserved as zero. -/
def lapicIdRegister (apicId : BitVec 8) : BitVec 32 := apicId.setWidth 32 <<< 24

/-- The number the processor named by an entry takes itself to have. -/
def processorOf (word : U64) : U64 :=
  getCurrentProcessorId (lapicIdRegister ((destinationOf word).setWidth 8))

theorem processor_of_to_nat (word : U64) :
    (processorOf word).toNat = (destinationOf word).toNat * 2 ^ 24 := by
  have bound : (destinationOf word).toNat < 256 := by
    have wordBound := word.isLt
    rw [destinationOf, BitVec.toNat_ushiftRight, Nat.shiftRight_eq_div_pow]
    omega
  simp only [processorOf, getCurrentProcessorId, lapicIdRegister, BitVec.toNat_setWidth,
    BitVec.toNat_shiftLeft, Nat.shiftLeft_eq]
  omega

/-- The interrupt of the hooked line arrives under the number the handler was
stored for, inside the table, and its dispatch runs the handler. -/
def Delivered (platform : Platform) (run : HookRun Handler) (hook : Hook Handler) : Prop :=
  ∃ pin, pinOf platform run.state.devices hook.irq = some pin ∧
    (processorOf (pinWord run.state.devices pin)).toNat = hook.cpu ∧
    (processorOf (pinWord run.state.devices pin)).toNat < maxCpus ∧
    Runs run.state (processorOf (pinWord run.state.devices pin))
      (vectorOf (pinWord run.state.devices pin)) hook

/-- The entry of the hook's pin still selects the hook's own place on processor 0. -/
def SelectedOnBootCpu (pins : U64 → Option Pin) (hooked : List (Hook Handler))
    (hook : Hook Handler) : Prop :=
  hook.cpu = 0 ∧ ∃ pin last, pins hook.irq = some pin ∧ lastOn pins hooked pin = some last ∧
    last.cpu % 16 = 0 ∧ last.vector = hook.vector

theorem delivered_iff {pins : U64 → Option Pin} {platform : Platform} {run : HookRun Handler}
    (consistent : Consistent run) (routed : Routed pins platform run) {hook : Hook Handler}
    (member : hook ∈ run.hooked) (small : hook.cpu < 16) :
    Delivered platform run hook ↔ SelectedOnBootCpu pins run.hooked hook := by
  unfold Delivered SelectedOnBootCpu
  simp only [routed.kept]
  constructor
  · rintro ⟨pin, here, same, known, runs⟩
    obtain ⟨last, found⟩ := last_on_exists member here
    obtain ⟨destination, vector⟩ := selected_place consistent routed found
    have number := processor_of_to_nat (pinWord run.state.devices pin)
    have place := (runs_iff consistent member known).mp runs
    have vectorSame : hook.vector = _ := congrArg Prod.snd place
    refine ⟨by omega, pin, last, here, found, by omega, ?_⟩
    rw [vectorSame, vector]
  · rintro ⟨boot, pin, last, here, found, lastBoot, vectorSame⟩
    obtain ⟨destination, vector⟩ := selected_place consistent routed found
    have number := processor_of_to_nat (pinWord run.state.devices pin)
    rw [destination, lastBoot, Nat.zero_mul] at number
    have known : (processorOf (pinWord run.state.devices pin)).toNat < maxCpus := by
      unfold maxCpus
      omega
    refine ⟨pin, here, by omega, known, ?_⟩
    rw [runs_iff consistent member known, Hook.place, number, boot, vector, vectorSame]

theorem delivered_iff_selected_on_boot_cpu (platform : Platform) (devices : IoApics)
    (calls : List (HookCall Handler)) (hook : Hook Handler)
    (member : hook ∈ (hookRun platform devices calls).hooked) (small : hook.cpu < 16) :
    Delivered platform (hookRun platform devices calls) hook ↔
      SelectedOnBootCpu (pinOf platform devices) (hookRun platform devices calls).hooked hook :=
  delivered_iff (hook_run_consistent platform devices calls)
    (hook_run_routed platform devices calls) member small

theorem boot_cpu_line_delivered :
    Delivered singleIoApic (hookRun singleIoApic resetIoApics [⟨true, 0, 9, "line"⟩])
      ⟨0, 32, 9, "line"⟩ := by
  have hooks : (hookRun singleIoApic resetIoApics [⟨true, 0, 9, "line"⟩]).hooked =
      [⟨0, 32, 9, "line"⟩] := by rfl
  have member : (⟨0, 32, 9, "line"⟩ : Hook String) ∈
      (hookRun singleIoApic resetIoApics [⟨true, 0, 9, "line"⟩]).hooked := by
    rw [hooks]
    simp
  rw [delivered_iff_selected_on_boot_cpu _ _ _ _ member (by decide), hooks]
  exact ⟨rfl, ⟨0xffff8000fec00000, 9⟩, ⟨0, 32, 9, "line"⟩, rfl, rfl, rfl, rfl⟩

/-- Processor 1 takes itself to have the number 2^24, far behind the table. -/
theorem second_cpu_line_not_delivered :
    ⟨1, 32, 9, "line"⟩ ∈ (hookRun singleIoApic resetIoApics [⟨true, 1, 9, "line"⟩]).hooked ∧
      ¬Delivered singleIoApic (hookRun singleIoApic resetIoApics [⟨true, 1, 9, "line"⟩])
        ⟨1, 32, 9, "line"⟩ := by
  have hooks : (hookRun singleIoApic resetIoApics [⟨true, 1, 9, "line"⟩]).hooked =
      [⟨1, 32, 9, "line"⟩] := by rfl
  have member : (⟨1, 32, 9, "line"⟩ : Hook String) ∈
      (hookRun singleIoApic resetIoApics [⟨true, 1, 9, "line"⟩]).hooked := by
    rw [hooks]
    simp
  refine ⟨member, ?_⟩
  rw [delivered_iff (hook_run_consistent _ _ _) (hook_run_routed _ _ _) member (by decide)]
  intro selected
  exact absurd selected.1 (by decide)

end KittyOs.IrqRouting
