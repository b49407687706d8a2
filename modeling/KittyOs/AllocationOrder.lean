import KittyOs.PhysicalOwnership

/-!
# The order in which pages are handed out

Without frees the allocator is a queue laid out by the memory map: the usable
regions in reverse map order, each from its first page to its last. Clients may
store anything into the pages they hold; the nodes lie in the pages that are
still free.
-/

namespace KittyOs.AllocationOrder

open KittyOs.Lib.ByteMemory KittyOs.Lib.SpanPartition KittyOs.MachineWord
open KittyOs.PhysicalModel KittyOs.PhysicalFreelist KittyOs.PhysicalOwnership

set_option autoImplicit false

/-- The pages of a region in ascending order. -/
def pagesOf (span : Span) : List Nat :=
  (List.range (span.length / 4096)).map fun index => span.base + index * 4096

def handoutOrder (entries : List MemmapEntry) : List Nat :=
  (usableSpans entries).reverse.flatMap pagesOf

def usableBytes (entries : List MemmapEntry) : Nat := freeBytes (usableSpans entries)

def NoFrees (actions : List ClientAction) : Prop := ∀ page, ClientAction.deallocate page ∉ actions

/-- What the calls of `allocate_physical_page` return, one after another. -/
def pagesReturned (run : ClientRun) : List ClientAction → List U64
  | [] => []
  | .allocate :: rest =>
      (allocatePhysicalPage run.phys).1 ::
        ((perform run .allocate).map fun next => pagesReturned next rest).getD []
  | action :: rest => ((perform run action).map fun next => pagesReturned next rest).getD []

def allocateCalls (actions : List ClientAction) : Nat :=
  actions.countP fun action => match action with
    | .allocate => true
    | _ => false

/-- Taking a page off the first block takes the first page off the queue. -/
theorem pages_of_take {hhdm : U64} {block : Span} (fit : FitBlock hhdm block) (rest : List Span) :
    (block :: rest).flatMap pagesOf =
      block.base :: (leftover block ++ rest).flatMap pagesOf := by
  have aligned := fit.lengthAligned
  have long := fit.page_length
  obtain ⟨count, pages⟩ : ∃ count, block.length / 4096 = count + 1 := ⟨block.length / 4096 - 1, by omega⟩
  rw [List.flatMap_cons, List.flatMap_append, ← List.cons_append]
  congr 1
  rw [pagesOf, pages, List.range_succ_eq_map, List.map_cons, List.map_map]
  unfold leftover
  split_ifs with large
  · have fewer : (block.length - 4096) / 4096 = count := by omega
    simp only [List.flatMap_cons, List.flatMap_nil, List.append_nil, pagesOf, fewer]
    congr 1
    apply List.map_congr_left
    intro index _
    simp only [Function.comp_apply, Nat.succ_mul]
    omega
  · have none : count = 0 := by omega
    simp [none]

theorem free_bytes_pages {hhdm : U64} {blocks : List Span}
    (fit : ∀ block ∈ blocks, FitBlock hhdm block) :
    freeBytes blocks = 4096 * (blocks.flatMap pagesOf).length := by
  induction blocks with
  | nil => rfl
  | cons block rest ih =>
      have aligned := (fit block List.mem_cons_self).lengthAligned
      rw [free_bytes_cons, ih fun other member => fit other (List.mem_cons_of_mem _ member),
        List.flatMap_cons, List.length_append, pagesOf, List.length_map, List.length_range]
      omega

/-! ### One action -/

/-- The blocks of the free list in order, with no held page among them. -/
structure Serving (run : ClientRun) (blocks : List Span) : Prop where
  list : FreeList run.phys blocks
  apart : ∀ page ∈ run.held, ∀ address, (pageSpan page).Covers address → ¬FreeAt blocks address

variable {run next final : ClientRun} {blocks rest : List Span} {block : Span}

theorem Serving.exhausted (serving : Serving run []) :
    perform run .allocate = some run ∧ (allocatePhysicalPage run.phys).1 = 0 := by
  have empty := allocate_empty serving.list
  refine ⟨?_, by rw [empty]⟩
  rw [perform_allocate empty, if_pos rfl]

theorem Serving.allocate (serving : Serving run (block :: rest)) :
    ∃ next, perform run .allocate = some next ∧ Serving next (leftover block ++ rest) ∧
      (allocatePhysicalPage run.phys).1 = BitVec.ofNat 64 block.base := by
  have takes := allocate_takes serving.list
  have bound := takes.bound
  refine ⟨_, perform_allocate takes.result, ⟨takes.list, ?_⟩, by rw [takes.result]⟩
  rw [if_neg takes.nonzero]
  intro page member address inside free
  obtain ⟨before, outside⟩ := (takes.left address).mp free
  rcases List.mem_cons.mp member with new | earlier
  · rw [new, pageSpan, of_nat_to_nat (by omega)] at inside
    exact outside inside
  · exact serving.apart page earlier address inside before

theorem Serving.write (serving : Serving run blocks) {address : Nat} {value : Byte}
    (wrote : perform run (.write address value) = some next) : Serving next blocks := by
  simp only [perform] at wrote
  split_ifs at wrote with inHeld
  obtain ⟨page, held, covers⟩ := inHeld
  have state := Option.some.inj wrote
  subst state
  refine ⟨serving.list.frame rfl rfl ?_, serving.apart⟩
  intro block member target inside
  have different : target ≠ address := by
    intro same
    rw [same] at inside
    exact serving.apart page held address covers ⟨block, member, inside⟩
  simp only [storeByte, if_neg different]

/-! ### Whole runs -/

theorem leftover_count (block : Span) : (leftover block).length ≤ 1 := by
  unfold leftover
  split_ifs <;> simp

theorem Serving.run_actions (serving : Serving run blocks) {actions : List ClientAction}
    (noFrees : NoFrees actions) (performed : performAll run actions = some final) :
    pagesReturned run actions =
        ((blocks.flatMap pagesOf).map (BitVec.ofNat 64)).take (allocateCalls actions) ++
          List.replicate (allocateCalls actions - (blocks.flatMap pagesOf).length) 0 ∧
      ∃ remaining, Serving final remaining ∧ remaining.length ≤ blocks.length ∧
        remaining.flatMap pagesOf = (blocks.flatMap pagesOf).drop (allocateCalls actions) := by
  induction actions generalizing run blocks with
  | nil =>
      have same := Option.some.inj performed
      subst same
      refine ⟨by simp [pagesReturned, allocateCalls], blocks, serving, Nat.le_refl _, ?_⟩
      simp [allocateCalls]
  | cons action actions ih =>
      have laterFrees : NoFrees actions :=
        fun page member => noFrees page (List.mem_cons_of_mem _ member)
      cases action with
      | allocate =>
          have count : allocateCalls (.allocate :: actions) = allocateCalls actions + 1 := by
            simp [allocateCalls]
          rw [count]
          cases blocks with
          | nil =>
              obtain ⟨stays, returned⟩ := serving.exhausted
              rw [perform_all_cons stays] at performed
              obtain ⟨pages, remaining, later, fewer, left⟩ := ih serving laterFrees performed
              refine ⟨?_, remaining, later, fewer, by simpa using left⟩
              rw [pagesReturned, stays, returned, Option.map_some, Option.getD_some, pages]
              simp [List.replicate_succ]
          | cons block rest =>
              obtain ⟨next, went, after, returned⟩ := serving.allocate
              rw [perform_all_cons went] at performed
              obtain ⟨pages, remaining, later, fewer, left⟩ := ih after laterFrees performed
              have one := leftover_count block
              rw [List.length_append] at fewer
              rw [pages_of_take (serving.list.fit block List.mem_cons_self)]
              refine ⟨?_, remaining, later, by rw [List.length_cons]; omega, by simpa using left⟩
              rw [pagesReturned, went, returned, Option.map_some, Option.getD_some, pages]
              simp
      | deallocate page => exact absurd List.mem_cons_self (noFrees page)
      | write address value =>
          have count : allocateCalls (.write address value :: actions) = allocateCalls actions := by
            simp [allocateCalls]
          rw [count]
          cases wrote : perform run (.write address value) with
          | none =>
              rw [performAll, wrote] at performed
              exact absurd performed (by simp)
          | some next =>
              rw [perform_all_cons wrote] at performed
              have result := ih (serving.write wrote) laterFrees performed
              rw [pagesReturned, wrote, Option.map_some, Option.getD_some]
              · exact result
              · intro same
                exact absurd same (by simp)

/-! ### What is left -/

theorem sum_freelist_chain {state : PhysicalState} {pointer available : U64} {blocks : List Span}
    {rounds : Nat} (chain : FreeChain state.hhdm state.mem pointer blocks)
    (enough : blocks.length < rounds) :
    sumFreelist state rounds pointer available =
      some (available + BitVec.ofNat 64 (freeBytes blocks)) := by
  induction blocks generalizing rounds pointer available with
  | nil =>
      obtain ⟨fewer, more⟩ : ∃ fewer, rounds = fewer + 1 := ⟨rounds - 1, by simp at enough; omega⟩
      have null : pointer = 0 := chain
      rw [more, sumFreelist, if_pos null]
      simp [freeBytes]
  | cons block rest ih =>
      obtain ⟨live, base, length, tail⟩ := chain
      obtain ⟨fewer, more⟩ : ∃ fewer, rounds = fewer + 1 := ⟨rounds - 1, by omega⟩
      rw [List.length_cons] at enough
      have here : state.physOf pointer = block.base := base.symm
      have size : state.size pointer = BitVec.ofNat 64 block.length := by
        rw [PhysicalState.size, here, length, BitVec.ofNat_toNat, BitVec.setWidth_eq]
      have link : state.next pointer = loadWord state.mem block.base := by
        rw [PhysicalState.next, here]
      rw [more, sumFreelist, if_neg live, link, ih tail (by omega), size, free_bytes_cons,
        BitVec.ofNat_add, BitVec.add_assoc]

theorem usable_bytes_bound (map : UsableMap) : usableBytes map.entries < 2 ^ 64 := by
  have bounds : ∀ span ∈ usableSpans map.entries, 4096 ≤ span.base ∧
      span.base + span.length ≤ 2 ^ 64 := by
    intro span member
    have fit := map.fit span member
    have direct := fit.direct
    exact ⟨fit.above, by omega⟩
  have total := total_length_le map.apart bounds
  unfold usableBytes freeBytes
  omega

/-- The pages come in the order of the map, then the null pointer; what is left is
what was not handed out. -/
theorem pages_in_map_order (map : UsableMap) (mem : Memory) {start : PhysicalState}
    (booted : initializePhysicalMemory map.hhdm (some map.entries) mem = some start)
    {actions : List ClientAction} (noFrees : NoFrees actions) {final : ClientRun}
    (performed : performAll ⟨start, []⟩ actions = some final) :
    pagesReturned ⟨start, []⟩ actions =
        ((handoutOrder map.entries).map (BitVec.ofNat 64)).take (allocateCalls actions) ++
          List.replicate (allocateCalls actions - (handoutOrder map.entries).length) 0 ∧
      usableBytes map.entries = 4096 * (handoutOrder map.entries).length ∧
      ∀ rounds, (usableSpans map.entries).length < rounds →
        ∃ available, getAvailableUsableMemory final.phys rounds = some available ∧
          available.toNat = usableBytes map.entries -
            4096 * min (allocateCalls actions) (handoutOrder map.entries).length := by
  have list := boot_list map mem booted
  have serving : Serving ⟨start, []⟩ (usableSpans map.entries).reverse := ⟨list, by simp⟩
  obtain ⟨pages, remaining, later, fewer, left⟩ := serving.run_actions noFrees performed
  have total : usableBytes map.entries = 4096 * (handoutOrder map.entries).length := by
    rw [handoutOrder, ← free_bytes_pages list.fit, usableBytes, freeBytes, freeBytes,
      List.map_reverse, List.sum_reverse]
  refine ⟨pages, total, ?_⟩
  intro rounds enough
  rw [List.length_reverse] at fewer
  refine ⟨_, sum_freelist_chain later.list.chain (by omega), ?_⟩
  have rest : freeBytes remaining = usableBytes map.entries -
      4096 * min (allocateCalls actions) (handoutOrder map.entries).length := by
    rw [free_bytes_pages later.list.fit, left, List.length_drop, total, handoutOrder]
    omega
  have bound := usable_bytes_bound map
  have sum : (0 : U64) + BitVec.ofNat 64 (freeBytes remaining) =
      BitVec.ofNat 64 (freeBytes remaining) := BitVec.zero_add _
  rw [sum, of_nat_to_nat (by omega), rest]

/-- Three calls on two pages. -/
theorem two_pages_in_order :
    ∃ start final,
      initializePhysicalMemory twoPageMap.hhdm (some twoPageMap.entries) (fun _ => 0) =
        some start ∧
      NoFrees [.allocate, .allocate, .allocate] ∧
      performAll ⟨start, []⟩ [.allocate, .allocate, .allocate] = some final ∧
      pagesReturned ⟨start, []⟩ [.allocate, .allocate, .allocate] = [0x1000, 0x2000, 0] := by
  have booted : initializePhysicalMemory twoPageMap.hhdm (some twoPageMap.entries) (fun _ => 0) =
      some (twoPageMap.entries.foldl registerEntry ⟨twoPageMap.hhdm, fun _ => 0, 0⟩) := rfl
  have noFrees : NoFrees [.allocate, .allocate, .allocate] := by
    intro page member
    simp at member
  refine ⟨_, _, booted, noFrees, rfl, ?_⟩
  rw [(pages_in_map_order twoPageMap _ booted noFrees rfl).1]
  decide

end KittyOs.AllocationOrder
