import KittyOs.DataBytes
import KittyOs.Lib.EventRuns
import KittyOs.ProcessIsolation
import KittyOs.VmemRecords

/-!
# Process memory as byte stores

What the memory calls are for: a process has a partial byte array, of which
`allocate_memory_in_process` defines pages, and which `process_write` and
`process_read` access. The array of a process is read off the machine with the
processor's walk of its page map. Every call on the machine is a step of the arrays
alone: no page table, frame or free list appears in what the calls return.
-/

namespace KittyOs.ProcessStores

open KittyOs.Lib.ByteMemory
open KittyOs.MachineWord KittyOs.PageTable
open KittyOs.MapEffect
open KittyOs.Translation KittyOs.KernelModel
open KittyOs.ProcessModel KittyOs.AccessGuards KittyOs.AddressSpaces KittyOs.KernelCalls
open KittyOs.SharedHalf KittyOs.ProcessCalls KittyOs.FramePlaces
open KittyOs.MemoryRuns KittyOs.FrameRoles KittyOs.ProcessViews KittyOs.UserPages
open KittyOs.ProcessIsolation KittyOs.DataBytes
open KittyOs.VmemRecords (MapsOutside mapped_run space_leaf_run new_space_leaf)

set_option autoImplicit false

/-! ### The abstract model -/

/-- The byte at each address of a process, if it has one there. -/
abbrev Store := Nat → Option Byte

def Store.write (store : Store) (address : Nat) (buffer : Nat → Byte) (size : Nat) : Store :=
  fun byte =>
    if address ≤ byte ∧ byte < address + size then some (buffer (byte - address)) else store byte

/-- The request lies below 0x80000000 and all pages it touches are there. -/
structure Covers (store : Store) (address size : U64) : Prop where
  bounds : InBounds address size
  there : ∀ byte, address.toNat / 4096 * 4096 ≤ byte →
    byte < (address.toNat + size.toNat + 4095) / 4096 * 4096 → (store byte).isSome

/-- What is called on the machine, with what it returns. -/
inductive Event where
  | write (handle : Nat) (address : U64) (buffer : Nat → Byte) (size : U64) (result : Bool)
  | read (handle : Nat) (address size : U64) (result : Bool) (bytes : List Byte)
  | call (call : Call)

/-- The call gives the process a page at this address, new or in place of another. -/
def Remaps (handle byte : Nat) : Call → Prop
  | .allocateMemoryInProcess target address pageCount =>
      target = handle ∧ address.toNat ≤ byte / 4096 * 4096 ∧
        byte / 4096 * 4096 < address.toNat + pageCount.toNat * 4096
  | _ => False

def Creates : Call → Prop
  | .createProcess _ _ _ _ _ _ _ => True
  | _ => False

/-- The addresses `create_process` maps. -/
def Initial (byte : Nat) : Prop :=
  (0x7ff00000 ≤ byte ∧ byte < 0x80000000) ∨ (0x10000 ≤ byte ∧ byte < 0x11000)

/-- What a memory call does to the stores: pages are given and never taken away, and the
other bytes of all processes keep their values. -/
structure Grown (call : Call) (stores next : List Store) : Prop where
  kept : ∀ (handle : Nat) (store : Store), stores[handle]? = some store →
    ∃ later, next[handle]? = some later ∧
      (∀ byte, ¬Remaps handle byte call → later byte = store byte) ∧
      ∀ byte, (store byte).isSome → (later byte).isSome
  added : ∀ (handle : Nat) (later : Store), stores.length ≤ handle →
    next[handle]? = some later →
      Creates call ∧ handle = stores.length ∧ ∀ byte, (later byte).isSome → Initial byte

inductive StoreStep : List Store → Event → List Store → Prop
  | write {stores : List Store} {handle : Nat} {store : Store} {address size : U64}
      {buffer : Nat → Byte} {result : Bool} (here : stores[handle]? = some store)
      (served : result = true ↔ Covers store address size) :
      StoreStep stores (.write handle address buffer size result)
        (if result then stores.set handle (store.write address.toNat buffer size.toNat)
          else stores)
  | read {stores : List Store} {handle : Nat} {store : Store} {address size : U64}
      {result : Bool} {bytes : List Byte} (here : stores[handle]? = some store)
      (served : result = true ↔ Covers store address size)
      (content : bytes.map some = if result then
        (List.range size.toNat).map fun index => store (address.toNat + index) else []) :
      StoreStep stores (.read handle address size result bytes) stores
  | call {call : Call} {stores next : List Store} (grown : Grown call stores next) :
      StoreStep stores (.call call) next

/-! ### The stores of a machine -/

/-- What the processor reads at an address under the page map of the process. -/
def storeOf (kernel : Kernel) (process : ProcessContext) : Store := fun byte =>
  if byte < 2 ^ 47 then
    (hardwareWalk kernel.phys.mem (pageMapRoot kernel process) (BitVec.ofNat 64 byte)).map
      fun found => kernel.phys.mem found.1
  else none

def stores (machine : Machine) : List Store := machine.processes.map (storeOf machine.kernel)

/-- A call on the machine that returns, with the event it is. -/
inductive Emits (hole : Hole) (machine : Machine) : Event → Machine → Prop
  | write {handle : Nat} {process : ProcessContext} {address size : U64} {buffer : Nat → Byte}
      {result : Bool} {kernel : Kernel} (here : machine.processes[handle]? = some process)
      (noWrap : address.toNat + size.toNat < 2 ^ 64)
      (ran : processWrite machine.kernel process address buffer size = some (result, kernel)) :
      Emits hole machine (.write handle address buffer size result) { machine with kernel }
  | read {handle : Nat} {process : ProcessContext} {address size : U64} {result : Bool}
      {kernel : Kernel} {bytes : List Byte} (here : machine.processes[handle]? = some process)
      (noWrap : address.toNat + size.toNat < 2 ^ 64)
      (ran : processRead machine.kernel process address size = some (result, kernel, bytes)) :
      Emits hole machine (.read handle address size result bytes) { machine with kernel }
  | call {call : Call} {after : Machine} (fits : CallFits hole machine call)
      (ran : perform machine call = some after) : Emits hole machine (.call call) after

section Reading

variable {hole : Hole} {usable : Nat → Prop} {config : Config} {root byte : Nat}
variable {process : ProcessContext} {address size : U64}

theorem store_of_pointer {kernel : Kernel} {left right : ProcessContext}
    (same : left.pageMap = right.pageMap) : storeOf kernel left = storeOf kernel right := by
  have root : pageMapRoot kernel left = pageMapRoot kernel right := by
    rw [pageMapRoot, pageMapRoot, same]
  funext byte
  rw [storeOf, storeOf, root]

theorem place_to_nat (lower : byte < 2 ^ 47) : (BitVec.ofNat 64 byte).toNat = byte :=
  of_nat_to_nat (by omega)

/-- The store holds the bytes behind the leaves. -/
theorem store_of_leaf (sound : Sound hole config) (linked : Linked config process.pageMap root)
    (lower : byte < 2 ^ 47) :
    storeOf config.kernel process byte =
      (liveLeaf config.slots root (BitVec.ofNat 64 byte)).map fun _ =>
        config.mem (byteAt config.mem root (BitVec.ofNat 64 byte)) := by
  have bound : (BitVec.ofNat 64 byte).toNat < 2 ^ 47 := by
    rw [place_to_nat lower]
    exact lower
  rw [storeOf, if_pos lower, page_map_root sound linked]
  rcases walkers_of_leaf (space_live linked.member) (lower_owned _ _ bound) sound.tidy
    (sound.lower root linked.member _ bound) with
    ⟨missing, walked, _⟩ | ⟨leaf, writable, found, walked, _⟩
  · rw [walked, missing]
    rfl
  · rw [walked, found, Option.map_some, Option.map_some, leaf_byte found]

theorem store_mapped_iff (sound : Sound hole config) (linked : Linked config process.pageMap root)
    (lower : byte < 2 ^ 47) :
    (storeOf config.kernel process byte).isSome ↔
      (liveLeaf config.slots root (BitVec.ofNat 64 byte)).isSome := by
  rw [store_of_leaf sound linked lower, Option.isSome_map]

theorem place_of_nat (target : U64) : BitVec.ofNat 64 target.toNat = target :=
  BitVec.eq_of_toNat_eq (of_nat_to_nat target.isLt)

/-- The range check of either call looks at the same bytes, if no leaf fails its filter. -/
theorem passes_iff_there {filter : PageEntry → Bool} (sound : Sound hole config)
    (linked : Linked config process.pageMap root) (bounds : InBounds address size)
    (filters : ∀ target leaf, target.toNat < 2 ^ 47 →
      liveLeaf config.slots root target = some leaf → filter leaf = true) :
    Passes config.mem root address size filter ↔
      Covers (storeOf config.kernel process) address size := by
  obtain ⟨first, last⟩ := range_pages bounds
  have limits := bounds
  unfold InBounds at limits
  constructor
  · intro passes
    refine ⟨bounds, ?_⟩
    intro byte above below
    have value := place_to_nat (show byte < 2 ^ 47 by omega)
    obtain ⟨page, member, path⟩ := pages_between_member
      (show (alignDown address).toNat % 4096 = 0 by omega)
      (show (alignUp (address + size)).toNat % 4096 = 0 by omega)
      (show (alignDown address).toNat ≤ (BitVec.ofNat 64 byte).toNat by omega)
      (show (BitVec.ofNat 64 byte).toNat < (alignUp (address + size)).toNat by omega)
    obtain ⟨leaf, found, _⟩ := passes page member
    rw [store_mapped_iff sound linked (by omega), ← live_leaf_path path]
    exact Option.isSome_iff_exists.mpr ⟨leaf, found⟩
  · intro covers page member
    have lower := page_lower bounds member
    have inside := pages_between_bounds (show (alignDown address).toNat % 4096 = 0 by omega)
      (show (alignUp (address + size)).toNat % 4096 = 0 by omega) member
    have mapped := covers.there page.toNat (by omega) (by omega)
    rw [store_mapped_iff sound linked lower, place_of_nat] at mapped
    obtain ⟨leaf, found⟩ := Option.isSome_iff_exists.mp mapped
    exact ⟨leaf, found, filters page leaf lower found⟩

end Reading

/-! ### Writing -/

section Writing

variable {hole : Hole} {usable : Nat → Prop} {config : Config} {root otherRoot byte : Nat}
variable {process other : ProcessContext} {address size : U64} {buffer : Nat → Byte} {mem : Memory}

/-- The bytes of the range have the new values, in the store of the process only. -/
theorem store_written (orderly : Orderly hole usable config)
    (linked : Linked config process.pageMap root) (otherLinked : Linked config other.pageMap otherRoot)
    (bounds : InBounds address size)
    (written : Written config root address buffer size.toNat mem) :
    storeOf (withData config mem).kernel other =
      if otherRoot = root then
        (storeOf config.kernel other).write address.toNat buffer size.toNat
      else storeOf config.kernel other := by
  have limits := bounds
  unfold InBounds at limits
  have data := written.data
  funext byte
  by_cases lower : byte < 2 ^ 47
  · have value := place_to_nat lower
    have bound : (BitVec.ofNat 64 byte).toNat < 2 ^ 47 := by omega
    have before := store_of_leaf orderly.sound otherLinked lower
    have behind : storeOf (withData config mem).kernel other byte =
        (liveLeaf config.slots otherRoot (BitVec.ofNat 64 byte)).map fun _ =>
          mem (byteAt config.mem otherRoot (BitVec.ofNat 64 byte)) := by
      rw [← data.leaf otherLinked.member bound, ← byte_at_data data otherLinked.member bound]
      exact store_of_leaf (data.sound orderly.sound) (data.linked otherLinked) lower
    by_cases here : otherRoot = root ∧ address.toNat ≤ byte ∧ byte < address.toNat + size.toNat
    · obtain ⟨same, above, below⟩ := here
      have index : address + BitVec.ofNat 64 (byte - address.toNat) = BitVec.ofNat 64 byte := by
        apply BitVec.eq_of_toNat_eq
        rw [offset_to_nat bounds (by omega), value]
        omega
      obtain ⟨entry, found⟩ := written.leaves (byte - address.toNat) (by omega)
      have content := written.bytes (byte - address.toNat) (by omega)
      rw [index] at found content
      rw [same, found, Option.map_some, content] at behind
      rw [behind, if_pos same, Store.write, if_pos ⟨above, below⟩]
    · have unchanged : storeOf (withData config mem).kernel other byte =
          storeOf config.kernel other byte := by
        rw [behind, before]
        cases found : liveLeaf config.slots otherRoot (BitVec.ofNat 64 byte) with
        | none => rfl
        | some entry =>
            rw [Option.map_some, Option.map_some, written.rest]
            intro position inside same
            obtain ⟨leaf, there⟩ := written.leaves position inside
            have where_ := offset_to_nat bounds inside
            obtain ⟨sameRoot, sameByte⟩ := byte_at_injective orderly linked.member
              otherLinked.member (by omega) bound there found same
            exact here ⟨sameRoot, by omega, by omega⟩
      rw [unchanged]
      split_ifs with same
      · rw [Store.write, if_neg fun inside => here ⟨same, inside⟩]
      · rfl
  · have nothing : storeOf (withData config mem).kernel other byte =
        storeOf config.kernel other byte := by rw [storeOf, storeOf, if_neg lower, if_neg lower]
    rw [nothing]
    split_ifs with same
    · rw [Store.write, if_neg (by omega)]
    · rfl

/-- A write that is refused changes no memory. -/
theorem refused_write_memory {after : Kernel} (orderly : Orderly hole usable config)
    (linked : Linked config process.pageMap root)
    (ran : processWrite config.kernel process address buffer size = some (false, after)) :
    after.phys.mem = config.mem := by
  unfold processWrite at ran
  cases accessed : processAccess config.kernel process address size writeFilter with
  | none =>
      rw [accessed] at ran
      exact absurd ran (by simp)
  | some reached =>
      rw [accessed] at ran
      rcases access_switches orderly linked accessed with
        denied | ⟨switched, _, invalid | wrong | copies⟩
      · rw [denied, Option.some.injEq, Prod.mk.injEq] at ran
        rw [← ran.2]
      · rw [invalid, Option.some.injEq, Prod.mk.injEq] at ran
        rw [← ran.2, set_page_map_memory]
      · rw [wrong, Option.some.injEq, Prod.mk.injEq] at ran
        rw [← ran.2, set_page_map_memory]
      · rw [copies] at ran
        dsimp only at ran
        split at ran
        · exact absurd ran (by simp)
        · exact absurd (Prod.mk.inj (Option.some.inj ran)).1 (by simp)

/-- A request that does not wrap is never a fault. -/
theorem process_write_served {level : ProcessLevel} (orderly : Orderly hole usable config)
    (linked : Linked config process.pageMap root) (marked : Marked config root level)
    (noWrap : address.toNat + size.toNat < 2 ^ 64) :
    ∃ result after, processWrite config.kernel process address buffer size =
        some (result, after) ∧
      (result = true ↔ Covers (storeOf config.kernel process) address size) := by
  have writable : ∀ target leaf, target.toNat < 2 ^ 47 →
      liveLeaf config.slots root target = some leaf → writeFilter leaf = true :=
    fun target leaf lower found => marked_leaf_writable marked linked.member lower found
  rcases @access_cases hole usable config config.kernel.cr3 root process address size orderly linked
    noWrap writeFilter with
    ⟨outside, denied⟩ | ⟨bounds, switched, _, _, ⟨passes, _⟩ | ⟨fails, wrong⟩⟩
  · refine ⟨false, config.kernel, ?_, ?_⟩
    · unfold processWrite
      rw [show processAccess config.kernel process address size writeFilter = _ from denied]
    · simp only [Bool.false_eq_true, false_iff]
      exact fun covers => outside covers.bounds
  · obtain ⟨after, ran⟩ : ∃ after, processWrite config.kernel process address buffer size =
        some (true, after) :=
      process_write_returns orderly linked marked bounds fun page member =>
        (passes page member).imp fun _ both => both.1
    refine ⟨true, after, ran, ?_⟩
    simp only [true_iff]
    exact (passes_iff_there orderly.sound linked bounds writable).mp passes
  · refine ⟨false, (setPageMap (under config switched) config.kernel.currentPageMapAddress).2, ?_, ?_⟩
    · unfold processWrite
      rw [show processAccess config.kernel process address size writeFilter = _ from wrong]
    · simp only [Bool.false_eq_true, false_iff]
      exact fun covers => fails ((passes_iff_there orderly.sound linked bounds writable).mpr covers)

theorem process_read_served (orderly : Orderly hole usable config)
    (linked : Linked config process.pageMap root)
    (noWrap : address.toNat + size.toNat < 2 ^ 64)
    (direct : DirectMapped config.kernel config.mem) :
    ∃ result bytes, processRead config.kernel process address size =
        some (result, config.kernel, bytes) ∧
      (result = true ↔ Covers (storeOf config.kernel process) address size) ∧
      bytes.map some = if result then
        (List.range size.toNat).map fun index =>
          storeOf config.kernel process (address.toNat + index) else [] := by
  have readable : ∀ target leaf, target.toNat < 2 ^ 47 →
      liveLeaf config.slots root target = some leaf → readFilter leaf = true :=
    fun _ _ _ found => live_leaf_readable found
  have mapped : DirectMapped (under config config.kernel.cr3) config.mem := direct
  rcases process_read_result orderly linked noWrap mapped with
    ⟨fails, refused⟩ | ⟨bounds, passes, read⟩
  · refine ⟨false, [], refused, ?_, rfl⟩
    simp only [Bool.false_eq_true, false_iff]
    intro covers
    exact fails ⟨covers.bounds,
      (passes_iff_there orderly.sound linked covers.bounds readable).mpr covers⟩
  · refine ⟨true, _, read, ?_, ?_⟩
    · simp only [true_iff]
      exact (passes_iff_there orderly.sound linked bounds readable).mp passes
    · rw [if_pos rfl, List.map_map]
      apply List.map_congr_left
      intro index member
      have small := List.mem_range.mp member
      have limits := bounds
      unfold InBounds at limits
      have here : address + BitVec.ofNat 64 index = BitVec.ofNat 64 (address.toNat + index) := by
        apply BitVec.eq_of_toNat_eq
        rw [offset_to_nat bounds small, place_to_nat (by omega)]
      obtain ⟨leaf, found, _⟩ := passes_leaf bounds passes small
      rw [here] at found
      rw [Function.comp_apply, store_of_leaf orderly.sound linked (by omega), here,
        show liveLeaf config.slots root _ = _ from found, Option.map_some]

end Writing

/-! ### Memory calls -/

/-- Pages of the space `root` are mapped where the call gives pages to the process. -/
def RemapAction (handle root : Nat) (call : Call) : Action → Prop
  | .spacePage at_ _ address _ =>
      at_ = root → address.toNat % 4096 = 0 → Remaps handle address.toNat call
  | _ => True

section Calls

variable {hole : Hole} {usable : Nat → Prop} {machine after : Machine} {config next : Config}
variable {handle root byte : Nat} {process : ProcessContext} {call : Call}

theorem remaps_page (call : Call) (handle byte : Nat) :
    Remaps handle (byte / 4096 * 4096) call ↔ Remaps handle byte call := by
  have page : byte / 4096 * 4096 / 4096 * 4096 = byte / 4096 * 4096 := by omega
  cases call with
  | allocateMemoryInProcess _ _ _ => rw [Remaps, Remaps, page]
  | _ => exact Iff.rfl

theorem remap_action_outside {target : U64} (spared : ¬Remaps handle target.toNat call)
    (action : Action) (allowed : RemapAction handle root call action) :
    MapsOutside root target action := by
  cases action with
  | spacePage at_ _ address _ =>
      intro same place
      have given := allowed same (by omega)
      rw [place, remaps_page] at given
      exact spared given
  | _ => trivial

theorem kernel_action_remap (action : Action) (allowed : KernelAction action) :
    RemapAction handle root call action := by
  cases action with
  | reserve | heapPage _ | windowPage _ => trivial
  | _ => exact False.elim allowed

theorem call_steps (holds : Holds hole usable machine config) (fits : CallFits hole machine call)
    (ran : perform machine call = some after) (here : machine.processes[handle]? = some process)
    (linked : Linked config process.pageMap root) :
    ∃ next, next.kernel = after.kernel ∧
      Steps hole (RemapAction handle root call) config next := by
  have sound := holds.orderly.sound
  cases call with
  | sbrk size =>
      obtain ⟨⟨result, kernel⟩, called, shape⟩ := Option.map_eq_some_iff.mp ran
      rw [CallFits, ← holds.kernel] at fits
      rw [← holds.kernel] at called
      obtain ⟨next, same, steps, _⟩ := sbrk_steps sound fits called
      rw [← shape]
      exact ⟨next, same, steps.widen kernel_action_remap⟩
  | mmap size =>
      obtain ⟨⟨result, kernel⟩, called, shape⟩ := Option.map_eq_some_iff.mp ran
      rw [CallFits, ← holds.kernel] at fits
      rw [← holds.kernel] at called
      obtain ⟨next, same, steps, _⟩ := mmap_steps sound fits called
      rw [← shape]
      exact ⟨next, same, steps.widen kernel_action_remap⟩
  | createProcess _ _ _ _ _ _ _ =>
      obtain ⟨⟨result, kernel⟩, called, shape⟩ := Option.map_eq_some_iff.mp ran
      rw [CallFits, ← holds.kernel] at fits
      rw [← holds.kernel] at called
      obtain ⟨pointer, fresh, next, same, creation, new, _⟩ := create_process_steps sound fits called
      rw [← shape]
      refine ⟨next, same, creation.steps.widen ?_⟩
      intro action allowed
      cases action with
      | spacePage at_ _ _ _ =>
          intro sameRoot
          rw [← allowed.1, sameRoot] at new
          exact absurd linked.member new
      | _ => trivial
  | allocateMemoryInProcess target address pageCount =>
      obtain ⟨grown, there, ran⟩ := Option.bind_eq_some_iff.mp ran
      obtain ⟨⟨result, kernel⟩, called, shape⟩ := Option.map_eq_some_iff.mp ran
      obtain ⟨grownRoot, grownLinked⟩ := holds.linked grown (List.mem_of_getElem? there)
      rw [← holds.kernel] at called
      obtain ⟨next, same, steps, _⟩ :=
        allocate_memory_steps sound grownLinked.points grownLinked.member fits called
      rw [← shape]
      refine ⟨next, same, steps.widen ?_⟩
      intro action allowed
      cases action with
      | spacePage at_ _ placed _ =>
          obtain ⟨grownAt, _, above, below⟩ := allowed
          intro sameRoot aligned
          rw [← grownAt, sameRoot] at grownLinked
          have pointer := linked_pointer_unique holds.orderly grownLinked linked
          have page : placed.toNat / 4096 * 4096 = placed.toNat := by omega
          rw [Remaps, page]
          exact ⟨holds.same_handle there here pointer, above, below⟩
      | _ => trivial
  | allocateVirtualMemoryAt target requestedBase size =>
      obtain ⟨_, _, shape⟩ := Option.map_eq_some_iff.mp ran
      rw [← shape]
      exact ⟨config, holds.kernel, Relation.ReflTransGen.refl⟩
  | allocateVirtualMemory target size =>
      obtain ⟨_, _, shape⟩ := Option.map_eq_some_iff.mp ran
      rw [← shape]
      exact ⟨config, holds.kernel, Relation.ReflTransGen.refl⟩

theorem leaf_byte_in_use {target : U64} {leaf : PageEntry} (orderly : Orderly hole usable config)
    (member : root ∈ config.spaces) (lower : target.toNat < 2 ^ 47)
    (found : liveLeaf config.slots root target = some leaf) :
    InUse config (byteAt config.mem root target) := by
  obtain ⟨apart, used⟩ := leaf_byte_data orderly member lower found
  have nonzero := orderly.settled.nonzero root member target lower leaf found
  have aligned := frame_aligned leaf
  refine ⟨?_, used, apart⟩
  rw [leaf_byte found]
  omega

/-- The store of a process through a memory call. -/
theorem store_called (holds : Holds hole usable machine config) (fits : CallFits hole machine call)
    (ran : perform machine call = some after) (here : machine.processes[handle]? = some process) :
    (∀ byte, ¬Remaps handle byte call →
        storeOf after.kernel process byte = storeOf machine.kernel process byte) ∧
      ∀ byte, (storeOf machine.kernel process byte).isSome →
        (storeOf after.kernel process byte).isSome := by
  have sound := holds.orderly.sound
  obtain ⟨root, linked⟩ := holds.linked process (List.mem_of_getElem? here)
  obtain ⟨next, same, steps⟩ := call_steps holds fits ran here linked
  have nextSound := sound.run steps
  have later := linked_run sound steps linked
  rw [← same, ← holds.kernel]
  constructor
  · intro byte spared
    by_cases lower : byte < 2 ^ 47
    · have value := place_to_nat lower
      have bound : (BitVec.ofNat 64 byte).toNat < 2 ^ 47 := by omega
      have leaf := space_leaf_run sound steps linked.member bound
        (remap_action_outside (by rw [value]; exact spared))
      have place : byteAt next.mem root (BitVec.ofNat 64 byte) =
          byteAt config.mem root (BitVec.ofNat 64 byte) := by rw [byteAt, byteAt, leaf]
      rw [store_of_leaf nextSound later lower, store_of_leaf sound linked lower, leaf, place]
      cases found : liveLeaf config.slots root (BitVec.ofNat 64 byte) with
      | none => rfl
      | some entry =>
          have inUse := leaf_byte_in_use holds.orderly linked.member bound found
          rw [Option.map_some, Option.map_some, (in_use_run sound steps inUse).2]
    · rw [storeOf, storeOf, if_neg lower, if_neg lower]
  · intro byte mapped
    by_cases lower : byte < 2 ^ 47
    · rw [store_mapped_iff sound linked lower] at mapped
      rw [store_mapped_iff nextSound later lower]
      exact mapped_run sound steps linked.member (by rw [place_to_nat lower]; exact lower) mapped
    · rw [storeOf, if_neg lower] at mapped
      exact absurd mapped (by simp)

end Calls

end KittyOs.ProcessStores
