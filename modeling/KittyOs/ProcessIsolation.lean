import KittyOs.ProcessViews
import KittyOs.UserPages
import KittyOs.VmemRecords

/-!
# Processes do not see each other

What `process_write` has done when it returns, and what later reads find. The runs
here may write process memory between the calls that create and grow processes.
Both functions come back with the CR3 they were called with, as long as the kernel
finds the frame in CR3 through the direct map.
-/

namespace KittyOs.ProcessIsolation

open KittyOs.Lib.ByteMemory KittyOs.Lib.SpanPartition
open KittyOs.MachineWord KittyOs.PageTable KittyOs.PhysicalModel KittyOs.PhysicalFreelist
open KittyOs.VirtualModel KittyOs.MapEffect
open KittyOs.Translation KittyOs.KernelModel KittyOs.HeapBounds
open KittyOs.ProcessModel KittyOs.AddressSpaces
open KittyOs.SharedHalf KittyOs.FramePlaces KittyOs.BootState
open KittyOs.MemoryRuns KittyOs.FrameRoles KittyOs.ProcessViews KittyOs.UserPages
open KittyOs.ProcessCalls (create_process_returns createdProcess linked_run)
open KittyOs.VmemRecords (mapped_run)

set_option autoImplicit false

section Returns

variable {hole : Hole} {usable : Nat → Prop} {config : Config} {cr3 : U64} {root : Nat}
variable {process : ProcessContext} {address size : U64} {buffer : Nat → Byte}

theorem set_page_map_memory (kernel : Kernel) (pointer : U64) :
    (setPageMap kernel pointer).2.phys = kernel.phys := by
  unfold setPageMap
  dsimp only
  split_ifs <;> rfl

/-- Wherever the guards stop, the process's page map is set and memory untouched. -/
theorem access_switches {filter : PageEntry → Bool} {outcome : AccessOutcome}
    (orderly : Orderly hole usable config) (linked : Linked config process.pageMap root)
    (ran : processAccess (under config cr3) process address size filter = some outcome) :
    outcome = .denied ∨ ∃ switched : U64, switched.toNat % 4096 = cr3.toNat % 4096 ∧
      (outcome = .notInvalidated (under config switched) ∨
        outcome = .flagsWrong (under config switched) ∨
        outcome = .copies (under config switched)) := by
  obtain ⟨switched, set, value, _⟩ := switch_to_process cr3 orderly.sound linked
  have aligned := orderly.sound.tables.aligned root (Or.inr linked.member)
  unfold processAccess at ran
  rw [set] at ran
  dsimp only at ran
  split_ifs at ran with outside invalid
  · exact Or.inl (Option.some.inj ran).symm
  · exact Or.inr ⟨switched, by omega, Or.inl (Option.some.inj ran).symm⟩
  · refine Or.inr ⟨switched, by omega, Or.inr ?_⟩
    cases found : rangeRoot (under config switched) process address size with
    | none =>
        rw [found] at ran
        exact absurd ran (by simp)
    | some top =>
        rw [found] at ran
        dsimp only at ran
        split_ifs at ran
        · exact Or.inr (Option.some.inj ran).symm
        · exact Or.inl (Option.some.inj ran).symm

theorem read_restores {outcome : Bool × Kernel × List Byte} (orderly : Orderly hole usable config)
    (linked : Linked config process.pageMap root)
    (direct : DirectMapped (under config cr3) config.mem)
    (ran : processRead (under config cr3) process address size = some outcome) :
    outcome.2.1 = under config cr3 := by
  unfold processRead at ran
  cases accessed : processAccess (under config cr3) process address size readFilter with
  | none =>
      rw [accessed] at ran
      exact absurd ran (by simp)
  | some reached =>
      rw [accessed] at ran
      rcases access_switches orderly linked accessed with denied | ⟨switched, offset, stopped⟩
      · rw [denied] at ran
        rw [← Option.some.inj ran]
      · have back : (setPageMap (under config switched)
            (under config cr3).currentPageMapAddress).2 = under config cr3 :=
          switch_back offset direct
        rcases stopped with invalid | wrong | copies
        · rw [invalid] at ran
          rw [← Option.some.inj ran]
          exact back
        · rw [wrong] at ran
          rw [← Option.some.inj ran]
          exact back
        · rw [copies] at ran
          dsimp only at ran
          cases bytes : copyIn (under config switched).phys.mem (under config switched).activeMap
              address size.toNat with
          | none =>
              rw [bytes] at ran
              exact absurd ran (by simp)
          | some content =>
              rw [bytes] at ran
              rw [← Option.some.inj ran]
              exact back

/-- A write that returns has changed memory alone, and only if it succeeded. -/
theorem write_restores {result : Bool} {after : Kernel} (orderly : Orderly hole usable config)
    (linked : Linked config process.pageMap root)
    (direct : DirectMapped (under config cr3) config.mem)
    (ran : processWrite (under config cr3) process address buffer size = some (result, after))
    (directAfter : DirectMapped (under config cr3) after.phys.mem) :
    after = under (withData config after.phys.mem) cr3 ∧
      (result = false → after.phys.mem = config.mem) := by
  unfold processWrite at ran
  cases accessed : processAccess (under config cr3) process address size writeFilter with
  | none =>
      rw [accessed] at ran
      exact absurd ran (by simp)
  | some reached =>
      rw [accessed] at ran
      rcases access_switches orderly linked accessed with denied | ⟨switched, offset, stopped⟩
      · rw [denied, Option.some.injEq, Prod.mk.injEq] at ran
        rw [← ran.2]
        exact ⟨rfl, fun _ => rfl⟩
      · have back : (setPageMap (under config switched)
            (under config cr3).currentPageMapAddress).2 = under config cr3 :=
          switch_back offset direct
        rcases stopped with invalid | wrong | copies
        · rw [invalid, Option.some.injEq, Prod.mk.injEq] at ran
          rw [← ran.2, back]
          exact ⟨rfl, fun _ => rfl⟩
        · rw [wrong, Option.some.injEq, Prod.mk.injEq] at ran
          rw [← ran.2, back]
          exact ⟨rfl, fun _ => rfl⟩
        · rw [copies] at ran
          dsimp only at ran
          cases copied : copyOut (under config switched).activeMap buffer address size.toNat
              (under config switched).phys.mem with
          | none =>
              rw [copied] at ran
              exact absurd ran (by simp)
          | some mem =>
              rw [copied] at ran
              obtain ⟨worked, same⟩ := Prod.mk.inj (Option.some.inj ran)
              have memory : after.phys.mem = mem := by
                rw [← same, set_page_map_memory]
              rw [memory] at directAfter ⊢
              refine ⟨?_, fun failed => ?_⟩
              · rw [← same]
                exact switch_back offset directAfter
              · rw [← worked] at failed
                exact absurd failed (by simp)

/-- What a successful write of a range that does not wrap has done. -/
theorem write_result {after : Kernel} (orderly : Orderly hole usable config)
    (linked : Linked config process.pageMap root)
    (noWrap : address.toNat + size.toNat < 2 ^ 64)
    (ran : processWrite (under config cr3) process address buffer size = some (true, after)) :
    InBounds address size ∧ Passes config.mem root address size writeFilter ∧
      Written config root address buffer size.toNat after.phys.mem := by
  unfold processWrite at ran
  rcases access_cases orderly linked noWrap writeFilter with
    ⟨_, denied⟩ | ⟨bounds, switched, _, active, ⟨passes, copies⟩ | ⟨_, wrong⟩⟩
  · rw [denied] at ran
    exact absurd (Prod.mk.inj (Option.some.inj ran)).1 (by simp)
  · rw [copies] at ran
    dsimp only at ran
    rw [active] at ran
    cases copied : copyOut root buffer address size.toNat config.mem with
    | none =>
        rw [copied] at ran
        exact absurd ran (by simp)
    | some mem =>
        rw [copied] at ran
        have memory : after.phys.mem = mem := by
          rw [← (Prod.mk.inj (Option.some.inj ran)).2, set_page_map_memory]
        rw [memory]
        refine ⟨bounds, passes, copy_out_written orderly linked.member ?_ copied⟩
        unfold InBounds at bounds
        omega
  · rw [wrong] at ran
    exact absurd (Prod.mk.inj (Option.some.inj ran)).1 (by simp)

end Returns

/-! ### Reads around a write -/

section Around

variable {hole : Hole} {usable : Nat → Prop} {config : Config} {cr3 : U64} {root : Nat}
variable {process : ProcessContext} {address size : U64} {buffer : Nat → Byte} {mem : Memory}

theorem data_orderly (data : DataMemory config mem) (orderly : Orderly hole usable config) :
    Orderly hole usable (withData config mem) where
  sound := data.sound orderly.sound
  settled := orderly.settled.agrees data.agrees fun _ member => member
  shares := fun root member => data.shares member (orderly.shares root member)

theorem passes_data (data : DataMemory config mem) (member : root ∈ config.spaces)
    (bounds : InBounds address size) (filter : PageEntry → Bool) :
    Passes mem root address size filter ↔ Passes config.mem root address size filter := by
  have same : ∀ page ∈ pagesBetween (alignDown address) (alignUp (address + size)),
      liveLeaf (readEntry mem) root page = liveLeaf config.slots root page :=
    fun page there => data.leaf member (page_lower bounds there)
  constructor
  · intro passes page there
    rw [← same page there]
    exact passes page there
  · intro passes page there
    rw [same page there]
    exact passes page there

theorem byte_at_data {target : U64} (data : DataMemory config mem) (member : root ∈ config.spaces)
    (lower : target.toNat < 2 ^ 47) : byteAt mem root target = byteAt config.mem root target := by
  rw [byteAt, byteAt, data.leaf member lower]

/-- The written range reads back. -/
theorem read_back (orderly : Orderly hole usable config)
    (linked : Linked config process.pageMap root) (bounds : InBounds address size)
    (passes : Passes config.mem root address size writeFilter)
    (written : Written config root address buffer size.toNat mem)
    (direct : DirectMapped (under (withData config mem) cr3) mem) :
    processRead (under (withData config mem) cr3) process address size =
      some (true, under (withData config mem) cr3, (List.range size.toNat).map buffer) := by
  have data := written.data
  have noWrap : address.toNat + size.toNat < 2 ^ 64 := by
    unfold InBounds at bounds
    omega
  have readable : Passes mem root address size readFilter := by
    intro page there
    obtain ⟨leaf, found, allowed⟩ := (passes_data data linked.member bounds writeFilter).mpr passes
      page there
    exact ⟨leaf, found, (Bool.and_eq_true_iff.mp allowed).2⟩
  rcases process_read_result (data_orderly data orderly) (data.linked linked) noWrap direct with
    ⟨fails, _⟩ | ⟨_, _, read⟩
  · exact absurd ⟨bounds, readable⟩ fails
  · rw [read]
    have bytes : ∀ index ∈ List.range size.toNat,
        mem (byteAt mem root (address + BitVec.ofNat 64 index)) = buffer index := by
      intro index there
      have small := List.mem_range.mp there
      have here := offset_to_nat bounds small
      unfold InBounds at bounds
      rw [byte_at_data data linked.member (by omega)]
      exact written.bytes index small
    rw [List.map_congr_left bytes]

/-- No address is in both ranges. -/
def Apart (address size start length : U64) : Prop :=
  ∀ byte, ¬(address.toNat ≤ byte ∧ byte < address.toNat + size.toNat ∧
    start.toNat ≤ byte ∧ byte < start.toNat + length.toNat)

/-- Every other range of every process reads as before. -/
theorem read_unchanged {other : ProcessContext} {otherRoot : Nat} {start length : U64}
    (orderly : Orderly hole usable config) (linked : Linked config process.pageMap root)
    (otherLinked : Linked config other.pageMap otherRoot) (bounds : InBounds address size)
    (written : Written config root address buffer size.toNat mem)
    (direct : DirectMapped (under config cr3) config.mem)
    (directAfter : DirectMapped (under (withData config mem) cr3) mem)
    (noWrap : start.toNat + length.toNat < 2 ^ 64)
    (elsewhere : otherRoot = root → Apart address size start length) :
    ∃ success bytes,
      processRead (under config cr3) other start length =
        some (success, under config cr3, bytes) ∧
      processRead (under (withData config mem) cr3) other start length =
        some (success, under (withData config mem) cr3, bytes) := by
  have data := written.data
  rcases process_read_result orderly otherLinked noWrap direct with
    ⟨fails, refused⟩ | ⟨inside, passes, read⟩
  · rcases process_read_result (data_orderly data orderly) (data.linked otherLinked) noWrap
      directAfter with
      ⟨_, refusedAfter⟩ | ⟨inside, passes, _⟩
    · exact ⟨false, [], refused, refusedAfter⟩
    · exact absurd ⟨inside, (passes_data data otherLinked.member inside readFilter).mp passes⟩ fails
  · have passesAfter := (passes_data data otherLinked.member inside readFilter).mpr passes
    rcases process_read_result (data_orderly data orderly) (data.linked otherLinked) noWrap
      directAfter with
      ⟨fails, _⟩ | ⟨_, _, readAfter⟩
    · exact absurd ⟨inside, passesAfter⟩ fails
    · refine ⟨true, _, read, readAfter.trans ?_⟩
      have bytes : ∀ index ∈ List.range length.toNat,
          mem (byteAt mem otherRoot (start + BitVec.ofNat 64 index)) =
            config.mem (byteAt config.mem otherRoot (start + BitVec.ofNat 64 index)) := by
        intro index there
        have small := List.mem_range.mp there
        have here := offset_to_nat inside small
        obtain ⟨leaf, found, _⟩ := passes_leaf inside passes small
        have lower : (start + BitVec.ofNat 64 index).toNat < 2 ^ 47 := by
          unfold InBounds at inside
          omega
        rw [byte_at_data data otherLinked.member lower]
        apply written.rest
        intro position before same
        obtain ⟨entry, entryFound⟩ := written.leaves position before
        have there := offset_to_nat bounds before
        obtain ⟨sameRoot, sameByte⟩ := byte_at_injective orderly linked.member otherLinked.member
          (by unfold InBounds at bounds; omega) lower entryFound found same
        exact elsewhere sameRoot (start + BitVec.ofNat 64 index).toNat
          ⟨by omega, by omega, by omega, by omega⟩
      rw [List.map_congr_left bytes]

end Around

/-! ### Writes that succeed -/

section Succeeding

variable {hole : Hole} {usable : Nat → Prop} {config : Config} {cr3 : U64} {root : Nat}
variable {process : ProcessContext} {address size : U64} {buffer : Nat → Byte}
variable {level : ProcessLevel}

theorem marked_leaf_writable {target : U64} {leaf : PageEntry} (marked : Marked config root level)
    (member : root ∈ config.spaces) (lower : target.toNat < 2 ^ 47)
    (found : liveLeaf config.slots root target = some leaf) : writeFilter leaf = true := by
  have along : Along (pathOf target) (tablePathOf target) (lastSlotOf target) :=
    ⟨[], path_of_split target⟩
  obtain ⟨last, walked, read, present⟩ := live_leaf_some.mp found
  obtain ⟨table, there, _, writable, _⟩ := marked_levels marked member lower found along
  rw [walked, Option.some.injEq] at there
  rw [← there, read] at writable
  rw [writeFilter, writable, present]
  rfl

theorem live_leaf_readable {mem : Memory} {target : U64} {leaf : PageEntry}
    (found : liveLeaf (readEntry mem) root target = some leaf) : readFilter leaf = true := by
  obtain ⟨_, _, _, present⟩ := live_leaf_some.mp found
  exact present

theorem copy_out_returns {count : Nat} (orderly : Orderly hole usable config)
    (marked : Marked config root level) (member : root ∈ config.spaces)
    (bound : address.toNat + count ≤ 2 ^ 47)
    (mapped : ∀ index, index < count → ∃ leaf,
      liveLeaf config.slots root (address + BitVec.ofNat 64 index) = some leaf) :
    ∃ mem, copyOut root buffer address count config.mem = some mem := by
  induction count with
  | zero => exact ⟨config.mem, rfl⟩
  | succ count ih =>
      obtain ⟨mem, before⟩ := ih (by omega) fun index small => mapped index (by omega)
      have data := (copy_out_written orderly member (by omega) before).data
      obtain ⟨leaf, found⟩ := mapped count (by omega)
      have lower : (address + BitVec.ofNat 64 count).toNat < 2 ^ 47 := by
        rw [BitVec.toNat_add, of_nat_to_nat (by omega)]
        omega
      have writable := writable_agrees data.agrees (space_live member) (lower_owned _ _ lower)
        (marked_writable marked member lower found)
      have walked : hardwareWalk mem root (address + BitVec.ofNat 64 count) = some (_, true) :=
        writable.walkers.1
      rw [copyOut, before, Option.bind_some, walked, Option.bind_some, if_pos rfl]
      exact ⟨_, rfl⟩

/-- Process memory that is mapped can be written. -/
theorem process_write_returns (orderly : Orderly hole usable config)
    (linked : Linked config process.pageMap root) (marked : Marked config root level)
    (bounds : InBounds address size)
    (mapped : ∀ page ∈ pagesBetween (alignDown address) (alignUp (address + size)),
      ∃ leaf, liveLeaf config.slots root page = some leaf) :
    ∃ after, processWrite (under config cr3) process address buffer size = some (true, after) := by
  have noWrap : address.toNat + size.toNat < 2 ^ 64 := by
    unfold InBounds at bounds
    omega
  have passes : Passes config.mem root address size writeFilter := by
    intro page there
    obtain ⟨leaf, found⟩ := mapped page there
    exact ⟨leaf, found,
      marked_leaf_writable marked linked.member (page_lower bounds there) found⟩
  rcases access_cases orderly linked noWrap writeFilter with
    ⟨outside, _⟩ | ⟨_, switched, _, active, ⟨_, copies⟩ | ⟨fails, _⟩⟩
  · exact absurd bounds outside
  · obtain ⟨mem, copied⟩ := @copy_out_returns hole usable config root address buffer level
      size.toNat orderly marked linked.member
      (show address.toNat + size.toNat ≤ 2 ^ 47 by unfold InBounds at bounds; omega)
      fun index small => (passes_leaf bounds passes small).imp fun _ both => both.1
    unfold processWrite
    rw [copies]
    dsimp only
    rw [active, copied]
    exact ⟨_, rfl⟩
  · exact absurd passes fails

end Succeeding

/-! ### Runs with writes -/

/-- A `process_write` that returns, to a range that does not wrap. -/
def Writes (before after : Machine) : Prop :=
  ∃ process ∈ before.processes, ∃ address buffer size result kernel,
    address.toNat + size.toNat < 2 ^ 64 ∧
    DirectMapped before.kernel before.kernel.phys.mem ∧
    processWrite before.kernel process address buffer size = some (result, kernel) ∧
    DirectMapped before.kernel kernel.phys.mem ∧ after = { before with kernel }

/-- Calls that create and grow processes, and writes, in any order. -/
abbrev Uses (hole : Hole) : Machine → Machine → Prop :=
  Relation.ReflTransGen fun before after => Performs hole before after ∨ Writes before after

section Runs

variable {hole : Hole} {usable : Nat → Prop} {machine after : Machine} {config : Config}

theorem holds_with_data {mem : Memory} (holds : Holds hole usable machine config)
    (data : DataMemory config mem) :
    Holds hole usable { machine with kernel := (withData config mem).kernel }
      (withData config mem) := by
  refine ⟨rfl, data_orderly data holds.orderly, ?_, holds.ordered, ?_, holds.granted⟩
  · intro process member
    obtain ⟨root, linked⟩ := holds.linked process member
    exact ⟨root, data.linked linked⟩
  · intro root member
    obtain ⟨pointer, ⟨writable, aligned, above, below⟩, clear⟩ := holds.pointers root member
    have still := writable_agrees data.agrees (kernel_live config) (kernel_owns _ _) writable
    exact ⟨pointer, ⟨still, aligned, above, below⟩, clear⟩

theorem holds_writes (holds : Holds hole usable machine config) (wrote : Writes machine after) :
    ∃ next, Holds hole usable after next := by
  obtain ⟨process, member, address, buffer, size, result, kernel, noWrap, direct, ran, directAfter,
    same⟩ := wrote
  obtain ⟨root, linked⟩ := holds.linked process member
  rw [← holds.kernel] at direct ran directAfter
  obtain ⟨shape, unchanged⟩ := write_restores holds.orderly linked direct ran directAfter
  have data : DataMemory config kernel.phys.mem := by
    cases result with
    | false =>
        rw [unchanged rfl]
        exact ⟨fun _ _ _ _ _ _ => rfl, fun _ _ => rfl⟩
    | true => exact (write_result holds.orderly linked noWrap ran).2.2.data
  refine ⟨withData config kernel.phys.mem, ?_⟩
  rw [same, shape]
  exact holds_with_data holds data

theorem holds_uses (holds : Holds hole usable machine config) (run : Uses hole machine after) :
    ∃ next, Holds hole usable after next := by
  induction run with
  | refl => exact ⟨config, holds⟩
  | tail _ last ih =>
      obtain ⟨middle, here⟩ := ih
      rcases last with ⟨call, fits, ran⟩ | wrote
      · obtain ⟨next, performed⟩ := here.perform fits ran
        exact ⟨next, performed.holds⟩
      · exact holds_writes here wrote

/-- A write reads back, nothing else changes for any process, and CR3 is restored. -/
theorem process_memory_isolated {kernel booted : Kernel} {blocks : List Span}
    (boot : Boot hole kernel blocks) (heap : initializeHeap kernel = some booted)
    (run : Uses hole ⟨booted, [], []⟩ machine) {cr3 : U64}
    (direct : DirectMapped { machine.kernel with cr3 } machine.kernel.phys.mem) {handle : Nat}
    {process : ProcessContext} (here : machine.processes[handle]? = some process)
    (address size : U64) (buffer : Nat → Byte) :
    (∀ outcome, processRead { machine.kernel with cr3 } process address size = some outcome →
        outcome.2.1.cr3 = cr3) ∧
      ∀ result after, processWrite { machine.kernel with cr3 } process address buffer size =
          some (result, after) →
        DirectMapped { machine.kernel with cr3 } after.phys.mem →
        after.cr3 = cr3 ∧
        (result = true → address.toNat + size.toNat < 2 ^ 64 →
          processRead after process address size =
              some (true, after, (List.range size.toNat).map buffer) ∧
            ∀ target other start length, machine.processes[target]? = some other →
              start.toNat + length.toNat < 2 ^ 64 →
              (target ≠ handle ∨ Apart address size start length) →
              ∃ success bytes,
                processRead { machine.kernel with cr3 } other start length =
                  some (success, { machine.kernel with cr3 }, bytes) ∧
                processRead after other start length = some (success, after, bytes)) := by
  obtain ⟨config, holds⟩ := holds_uses (boot_holds boot heap) run
  obtain ⟨root, linked⟩ := holds.linked process (List.mem_of_getElem? here)
  rw [← holds.kernel] at direct ⊢
  refine ⟨?_, ?_⟩
  · intro outcome ran
    rw [read_restores holds.orderly linked direct ran]
  · intro result after ran directAfter
    have shape := (write_restores holds.orderly linked direct ran directAfter).1
    refine ⟨by rw [shape], ?_⟩
    intro worked noWrap
    rw [worked] at ran
    obtain ⟨bounds, passes, written⟩ := write_result holds.orderly linked noWrap ran
    rw [shape]
    refine ⟨read_back holds.orderly linked bounds passes written directAfter, ?_⟩
    intro target other start length there otherNoWrap elsewhere
    obtain ⟨otherRoot, otherLinked⟩ := holds.linked other (List.mem_of_getElem? there)
    apply read_unchanged holds.orderly linked otherLinked bounds written direct directAfter otherNoWrap
    intro same
    rw [same] at otherLinked
    have pointer := linked_pointer_unique holds.orderly otherLinked linked
    exact elsewhere.resolve_left fun different => different (holds.same_handle there here pointer)

end Runs

/-! ### A machine with a direct map -/

/-- The direct map does not depend on process memory. -/
theorem direct_mapped {hole : Hole} {config : Config} {mem : Memory} (sound : Sound hole config)
    (data : DataMemory config mem)
    (writable : WritableTo config.slots config.root config.kernel.currentPageMapAddress config.root)
    (canonical : isCanonical config.kernel.currentPageMapAddress = true)
    (aligned : config.kernel.currentPageMapAddress.toNat % 4096 = 0) :
    DirectMapped config.kernel mem := by
  have kept := writable_agrees data.agrees (kernel_live config) (kernel_owns _ _) writable
  obtain ⟨leaf, here, translated⟩ := kept.walkers.2
  have result : virtualToPhysical mem config.root config.kernel.currentPageMapAddress = _ :=
    translated canonical
  rw [DirectMapped, result]
  apply Prod.ext
  · rfl
  · apply BitVec.eq_of_toNat_eq
    rw [translate_to_nat, aligned, here]
    exact sound.active.symm

def otherProcess : ProcessContext :=
  createdProcess "/other" "other" 0x10000 .user false 0xffff900400003000

/-- The direct map of the boot state stays in place. -/
theorem direct_mapped_after {phys : PhysicalState} {blocks : List Span} {config next : Config}
    (booted : Sound largeHole (bootConfig { largeHeap with phys } blocks))
    (hhdm : phys.hhdm = 0xffff800000000000)
    (direct : WritableTo (readEntry phys.mem) 0x1000 0xffff800000001000 0x1000)
    (steps : Steps largeHole AnyAction (bootConfig { largeHeap with phys } blocks) next)
    (sound : Sound largeHole config) (same : config.kernel = next.kernel) {mem : Memory}
    (data : DataMemory config mem) : DirectMapped config.kernel mem := by
  have top : config.root = 0x1000 := by
    rw [Config.root, same]
    exact root_run steps
  have map : config.kernel.cr3 &&& 0xfffffffffffff000 = 0x1000 :=
    BitVec.eq_of_toNat_eq (sound.active.trans top)
  have base : config.kernel.phys.hhdm = 0xffff800000000000 := by
    rw [same]
    exact (hhdm_run steps).trans hhdm
  have pointer : config.kernel.currentPageMapAddress = 0xffff800000001000 := by
    rw [Kernel.currentPageMapAddress, map, base]
    decide
  have kept := writable_run_outside booted steps
    (fun address inside => (direct_page_outside address inside).symm) direct
  rw [Config.slots, Config.mem, Config.root, ← same, ← pointer, ← top] at kept
  exact direct_mapped sound data kept (by rw [pointer]; decide) (by rw [pointer]; decide)

/-- Two processes on the machine with a direct map, and their stacks. -/
theorem direct_creates :
    ∃ phys blocks machine config first second, Boot largeHole { largeKernel with phys } blocks ∧
      Reachable largeHole ⟨{ largeHeap with phys }, [], []⟩ machine ∧
      machine.processes = [largeProcess .user, otherProcess] ∧
      Holds largeHole (FreeAt blocks) machine config ∧
      Linked config (largeProcess .user).pageMap first ∧ Marked config first .user ∧
      Linked config otherProcess.pageMap second ∧
      (∀ mem, DataMemory config mem → DirectMapped config.kernel mem) ∧
      ∀ root ∈ [first, second], ∀ target : U64, 0x7ff00000 ≤ target.toNat →
        target.toNat < 0x80000000 → ∃ leaf, liveLeaf config.slots root target = some leaf := by
  obtain ⟨phys, blocks, boot, enough, hhdm, direct, _⟩ := direct_boot
  have booted := boot_sound boot (large_heap_with phys)
  obtain ⟨first, middle, created, making, linked, spent, range, mapped⟩ :=
    booted_process_created .user booted (Nat.le_trans (by decide) enough)
  have sound := booted.run making
  obtain ⟨second, next, again, adding, otherLinked, _, _, otherMapped⟩ :=
    create_process_returns "/other" "other" 0x10000 .user false sound
      (show middle.kernel.range.baseAddress.toNat + 8192 ≤ largeHole.last by rw [range]; decide)
      (by rw [range]; decide) (by rw [range]; decide) (show 258 * 20480 ≤ _ by omega)
  rw [range] at again otherLinked
  have steps : Steps largeHole AnyAction (bootConfig { largeHeap with phys } blocks) next :=
    (making.widen fun _ _ => trivial).trans (adding.widen fun _ _ => trivial)
  have run : Reachable largeHole ⟨{ largeHeap with phys }, [], []⟩
      ⟨next.kernel, [largeProcess .user] ++ [otherProcess], []⟩ :=
    (Relation.ReflTransGen.single (created_performs created)).tail
      (create_performs (create_fits_room (by rw [range]; decide)) again)
  obtain ⟨config, holds, levelled⟩ := boot_levelled boot (large_heap_with phys) run
  have same : config.kernel = next.kernel := holds.kernel
  have here : ∀ {process : ProcessContext} {root : Nat},
      process ∈ [largeProcess .user, otherProcess] → Linked next process.pageMap root →
      Linked config process.pageMap root := by
    intro process root member there
    obtain ⟨found, now⟩ := holds.linked process member
    rw [← page_map_root (booted.run steps) there, ← same, page_map_root holds.orderly.sound now]
    exact now
  have firstLinked := here List.mem_cons_self (linked_run sound adding linked)
  refine ⟨phys, blocks, _, config, first, second, boot, run, rfl, holds, firstLinked,
    levelled (largeProcess .user) List.mem_cons_self first firstLinked,
    here (List.mem_cons_of_mem _ List.mem_cons_self) otherLinked, ?_, ?_⟩
  · intro mem data
    exact direct_mapped_after booted hhdm direct steps holds.orderly.sound same data
  · intro root member target above below
    rw [Config.slots, Config.mem, same]
    apply Option.isSome_iff_exists.mp
    rcases List.mem_cons.mp member with isFirst | isSecond
    · rw [isFirst]
      exact mapped_run sound adding linked.member (by omega) (mapped target (Or.inl ⟨above, below⟩))
    · rw [List.mem_singleton.mp isSecond]
      exact otherMapped target (Or.inl ⟨above, below⟩)

/-- Four bytes over a page border of one process; the other has its own there. -/
theorem two_processes_read_back :
    ∃ (machine : Machine) (after : Kernel) (bytes : List Byte),
      machine.processes = [largeProcess .user, otherProcess] ∧
      processWrite machine.kernel (largeProcess .user) 0x7ff00ffe (BitVec.ofNat 8 ·) 4 =
        some (true, after) ∧
      processRead after (largeProcess .user) 0x7ff00ffe 4 = some (true, after, [0, 1, 2, 3]) ∧
      processRead machine.kernel otherProcess 0x7ff00ffe 4 = some (true, machine.kernel, bytes) ∧
      processRead after otherProcess 0x7ff00ffe 4 = some (true, after, bytes) := by
  obtain ⟨phys, blocks, machine, config, first, second, boot, run, processes, holds, linked, marked,
    otherLinked, direct, mapped⟩ := direct_creates
  have bounds : InBounds 0x7ff00ffe 4 := ⟨by decide, by decide⟩
  have pages : ∀ root ∈ [first, second],
      ∀ page ∈ pagesBetween (alignDown 0x7ff00ffe) (alignUp (0x7ff00ffe + 4)),
        ∃ leaf, liveLeaf config.slots root page = some leaf := by
    intro root member page there
    have range := pages_between_bounds (by decide) (by decide) there
    have start : (alignDown 0x7ff00ffe).toNat = 0x7ff00000 := by decide
    have last : (alignUp (0x7ff00ffe + 4)).toNat = 0x7ff02000 := by decide
    exact mapped root member page (by omega) (by omega)
  obtain ⟨after, wrote⟩ : ∃ after, processWrite config.kernel (largeProcess .user) 0x7ff00ffe
      (BitVec.ofNat 8 ·) 4 = some (true, after) :=
    process_write_returns holds.orderly linked marked bounds (pages first List.mem_cons_self)
  have written := (write_result holds.orderly linked (by decide) wrote).2.2
  have before := direct config.mem ⟨fun _ _ _ _ _ _ => rfl, fun _ _ => rfl⟩
  have later := direct after.phys.mem written.data
  have passes : Passes config.mem second 0x7ff00ffe 4 readFilter := by
    intro page there
    obtain ⟨leaf, found⟩ := pages second (List.mem_cons_of_mem _ List.mem_cons_self) page there
    exact ⟨leaf, found, live_leaf_readable found⟩
  have noWrap : (0x7ff00ffe : U64).toNat + (4 : U64).toNat < 2 ^ 64 := by decide
  have reads := process_read_result holds.orderly otherLinked noWrap
    (show DirectMapped (under config config.kernel.cr3) config.mem from before)
  rw [holds.kernel] at wrote later
  rw [Config.mem, holds.kernel] at before
  have isolated := process_memory_isolated boot (large_heap_with phys)
    (Relation.ReflTransGen.mono (fun _ _ step => Or.inl step) _ _ run)
    (show DirectMapped { machine.kernel with cr3 := machine.kernel.cr3 } machine.kernel.phys.mem from
      before)
    (show machine.processes[0]? = some _ by rw [processes]; rfl) 0x7ff00ffe 4 (BitVec.ofNat 8 ·)
  obtain ⟨back, others⟩ := (isolated.2 true after wrote later).2 rfl noWrap
  obtain ⟨success, bytes, untouched, still⟩ := others 1 otherProcess 0x7ff00ffe 4
    (by rw [processes]; rfl) noWrap (Or.inl (by decide))
  have served : success = true := by
    rcases reads with ⟨fails, _⟩ | ⟨_, _, read⟩
    · exact absurd ⟨bounds, passes⟩ fails
    · rw [show under config config.kernel.cr3 = machine.kernel from holds.kernel] at read
      exact (Prod.mk.inj (Option.some.inj (untouched.symm.trans read))).1
  rw [served] at untouched still
  exact ⟨machine, after, bytes, processes, wrote, back, untouched, still⟩

end KittyOs.ProcessIsolation
