import Mathlib.Algebra.GroupWithZero.Nat
import Mathlib.Order.Fin.Basic
import Mathlib.Data.Finset.Max
import Mathlib.Data.Finset.Card

/-!
# Interrupts in service

`interrupt_handler` of `hal/idt/idt.cpp` and the end-of-interrupt writes of
`hal/apic/apic.cpp` and `hook_irq`, with the local APIC of the processor. The gates
disable interrupts, but what a handler calls may enable them again: `operator new` and
`operator delete`, which copy the callbacks in `dispatch_irq`, end with `sti`. So
handlers nest, and each of them writes one end of interrupt, which ends the highest
vector in service, whichever it is. A spurious interrupt is delivered without being in
service.
-/

namespace KittyOs.InterruptService

set_option autoImplicit false

abbrev Vector := Fin 256

inductive Action where
  | printRegisters
  | printPageFaultInfo
  | halt
  | dispatchIrq
  | apicSendEoi
deriving DecidableEq, Repr

/-- What `interrupt_handler` does one after the other. -/
def interruptHandler (interruptNumber : Nat) : List Action :=
  (if interruptNumber < 32 then
    [.printRegisters] ++ (if interruptNumber = 0xE then [.printPageFaultInfo] else []) ++
      [.halt, .halt]
  else []) ++ [.dispatchIrq, .apicSendEoi]

/-- A handler that has not returned: whether its vector was put in service, what is left to
do, and the interrupt flag that `iretq` restores. -/
structure Activation where
  vector : Vector
  inService : Bool
  todo : List Action
  resume : Bool
deriving DecidableEq

/-- An end of interrupt: the vector of the handler that owed it, and the vector it ended. -/
structure Ended where
  owed : Option Vector
  ended : Option Vector
deriving DecidableEq, Repr

/-- `active` has the innermost handler first. -/
structure State where
  pending : Finset Vector
  inService : Finset Vector
  enabled : Bool
  halted : Bool
  active : List Activation
  dispatched : List Vector
  ends : List Ended
deriving DecidableEq

def booted : State where
  pending := ∅
  inService := ∅
  enabled := false
  halted := false
  active := []
  dispatched := []
  ends := []

def highest (vectors : Finset Vector) : Option Vector :=
  if present : vectors.Nonempty then some (vectors.max' present) else none

/-- Vectors are prioritised by their upper four bits. -/
def priority (vector : Vector) : Nat := vector.val / 16

def State.enter (state : State) (vector : Vector) (inService : Bool) : State :=
  { state with
    enabled := false
    active := ⟨vector, inService, interruptHandler vector, state.enabled⟩ :: state.active }

/-- A write to the register at 0xB0. -/
def State.apicSendEoi (state : State) (owed : Option Vector) : State :=
  { state with
    inService := match highest state.inService with
      | none => state.inService
      | some vector => state.inService.erase vector
    ends := state.ends ++ [⟨owed, highest state.inService⟩] }

/-- The next action of the innermost handler, or its return. -/
def State.advance (state : State) : Option State :=
  match state.active with
  | [] => none
  | activation :: outer =>
      match activation.todo with
      | [] => some { state with active := outer, enabled := activation.resume }
      | action :: todo =>
          let next := { state with active := { activation with todo := todo } :: outer }
          match action with
          | .printRegisters => some next
          | .printPageFaultInfo => some next
          | .halt => some { next with enabled := false, halted := true }
          | .dispatchIrq => some { next with dispatched := state.dispatched ++ [activation.vector] }
          | .apicSendEoi =>
              some (next.apicSendEoi (if activation.inService then some activation.vector else none))

/-- `raise` is a message of an I/O APIC, with a vector that `hook_irq` gave it; `setFlag` is
`sti` or `cli` of any code that runs; `hookIrq` is the write at the end of `hook_irq`. -/
inductive Event where
  | raise (vector : Vector)
  | accept
  | spurious (vector : Vector)
  | exception (vector : Vector)
  | setFlag (enabled : Bool)
  | hookIrq
  | advance
deriving DecidableEq, Repr

def step (state : State) : Event → Option State
  | .raise vector =>
      if 32 ≤ vector.val then some { state with pending := insert vector state.pending } else none
  | .accept =>
      match highest state.pending with
      | none => none
      | some vector =>
          if state.halted = false ∧ state.enabled ∧
              ∀ other ∈ state.inService, priority other < priority vector then
            some { state.enter vector true with
              pending := state.pending.erase vector
              inService := insert vector state.inService }
          else none
  | .spurious vector =>
      if state.halted = false ∧ state.enabled ∧ 32 ≤ vector.val then
        some (state.enter vector false)
      else none
  | .exception vector =>
      if state.halted = false ∧ vector.val < 32 then some (state.enter vector false) else none
  | .setFlag enabled => if state.halted then none else some { state with enabled := enabled }
  | .hookIrq => if state.halted then none else some (state.apicSendEoi none)
  | .advance => if state.halted then none else state.advance

def run (state : State) : List Event → Option State
  | [] => some state
  | event :: events => (step state event).bind fun next => run next events

theorem run_append (state : State) (first second : List Event) :
    run state (first ++ second) = (run state first).bind fun next => run next second := by
  induction first generalizing state with
  | nil => rfl
  | cons event first ih =>
      rw [List.cons_append, run, run]
      cases step state event with
      | none => rfl
      | some next => exact ih next

theorem run_invariant (Inv : State → Prop)
    (keeps : ∀ state event next, Inv state → step state event = some next → Inv next)
    {state final : State} {events : List Event} (ran : run state events = some final)
    (start : Inv state) : Inv final := by
  induction events generalizing state with
  | nil =>
      cases ran
      exact start
  | cons event events ih =>
      obtain ⟨next, stepped, rest⟩ := Option.bind_eq_some_iff.mp ran
      exact ih rest (keeps state event next start stepped)

/-! ### What a step can do -/

/-- A step raises a vector, enters a handler, changes the flag, writes an end of interrupt
that nobody owed, or advances the innermost handler. -/
theorem step_cases {state next : State} {event : Event} (stepped : step state event = some next) :
    (∃ vector, 32 ≤ vector.val ∧ next = { state with pending := insert vector state.pending }) ∨
    (∃ vector, highest state.pending = some vector ∧ state.enabled = true ∧
      (∀ other ∈ state.inService, priority other < priority vector) ∧
      next = { state.enter vector true with
        pending := state.pending.erase vector
        inService := insert vector state.inService }) ∨
    (∃ vector, next = state.enter vector false) ∨
    (∃ enabled, next = { state with enabled := enabled }) ∨
    next = state.apicSendEoi none ∨
    state.advance = some next := by
  cases event with
  | raise vector =>
      rw [step] at stepped
      split_ifs at stepped with device
      exact Or.inl ⟨vector, device, (Option.some.inj stepped).symm⟩
  | accept =>
      rw [step] at stepped
      cases found : highest state.pending with
      | none =>
          rw [found] at stepped
          cases stepped
      | some vector =>
          simp only [found] at stepped
          split_ifs at stepped with allowed
          exact Or.inr (Or.inl ⟨vector, rfl, allowed.2.1, allowed.2.2,
            (Option.some.inj stepped).symm⟩)
  | spurious vector =>
      rw [step] at stepped
      split_ifs at stepped with allowed
      exact Or.inr (Or.inr (Or.inl ⟨vector, (Option.some.inj stepped).symm⟩))
  | exception vector =>
      rw [step] at stepped
      split_ifs at stepped with allowed
      exact Or.inr (Or.inr (Or.inl ⟨vector, (Option.some.inj stepped).symm⟩))
  | setFlag enabled =>
      rw [step] at stepped
      split_ifs at stepped with halted
      exact Or.inr (Or.inr (Or.inr (Or.inl ⟨enabled, (Option.some.inj stepped).symm⟩)))
  | hookIrq =>
      rw [step] at stepped
      split_ifs at stepped with halted
      exact Or.inr (Or.inr (Or.inr (Or.inr (Or.inl (Option.some.inj stepped).symm))))
  | advance =>
      rw [step] at stepped
      split_ifs at stepped with halted
      exact Or.inr (Or.inr (Or.inr (Or.inr (Or.inr stepped))))

/-- Advancing returns from the handler, ends an interrupt, or does something else that is
left to do. -/
theorem advance_cases {state next : State} (advanced : state.advance = some next) :
    ∃ activation outer, state.active = activation :: outer ∧
      ((activation.todo = [] ∧
        next = { state with active := outer, enabled := activation.resume }) ∨
      (∃ todo, activation.todo = .apicSendEoi :: todo ∧
        next = State.apicSendEoi { state with active := { activation with todo := todo } :: outer }
          (if activation.inService then some activation.vector else none)) ∨
      (∃ action todo, activation.todo = action :: todo ∧ action ≠ .apicSendEoi ∧
        next.pending = state.pending ∧ next.inService = state.inService ∧
        next.active = { activation with todo := todo } :: outer ∧ next.ends = state.ends)) := by
  rw [State.advance] at advanced
  cases active : state.active with
  | nil =>
      rw [active] at advanced
      cases advanced
  | cons activation outer =>
      refine ⟨activation, outer, rfl, ?_⟩
      simp only [active] at advanced
      cases left : activation.todo with
      | nil =>
          simp only [left] at advanced
          exact Or.inl ⟨rfl, (Option.some.inj advanced).symm⟩
      | cons action todo =>
          simp only [left] at advanced
          cases action with
          | apicSendEoi => exact Or.inr (Or.inl ⟨todo, rfl, (Option.some.inj advanced).symm⟩)
          | printRegisters =>
              cases advanced
              exact Or.inr (Or.inr ⟨_, todo, rfl, by decide, rfl, rfl, rfl, rfl⟩)
          | printPageFaultInfo =>
              cases advanced
              exact Or.inr (Or.inr ⟨_, todo, rfl, by decide, rfl, rfl, rfl, rfl⟩)
          | halt =>
              cases advanced
              exact Or.inr (Or.inr ⟨_, todo, rfl, by decide, rfl, rfl, rfl, rfl⟩)
          | dispatchIrq =>
              cases advanced
              exact Or.inr (Or.inr ⟨_, todo, rfl, by decide, rfl, rfl, rfl, rfl⟩)

/-! ### Who owes an end of interrupt -/

def Activation.owes (activation : Activation) : Bool :=
  activation.inService && decide (Action.apicSendEoi ∈ activation.todo)

/-- The vectors of the handlers that owe an end of interrupt, the innermost first. -/
def owed (active : List Activation) : List Vector :=
  (active.filter Activation.owes).map Activation.vector

/-- Every handler runs what `interrupt_handler` does. -/
def Follows (active : List Activation) : Prop :=
  ∀ activation ∈ active, activation.todo <:+ interruptHandler activation.vector

theorem owed_cons (activation : Activation) (outer : List Activation) :
    owed (activation :: outer) =
      if activation.owes then activation.vector :: owed outer else owed outer := by
  rw [owed, List.filter_cons]
  split_ifs
  · rw [List.map_cons, owed]
  · rfl

theorem owes_done {activation : Activation} (done : activation.todo = []) :
    activation.owes = false := by
  rw [Activation.owes, done, decide_eq_false List.not_mem_nil, Bool.and_false]

theorem owes_other {activation : Activation} {action : Action} {todo : List Action}
    (left : activation.todo = action :: todo) (other : action ≠ .apicSendEoi) :
    Activation.owes { activation with todo := todo } = activation.owes := by
  simp [Activation.owes, left, Ne.symm other]

theorem owes_sent {activation : Activation} {todo : List Action}
    (left : activation.todo = .apicSendEoi :: todo) :
    activation.owes = activation.inService := by
  simp [Activation.owes, left]

/-- The end of interrupt is the last action of a handler. -/
theorem sent_last {number : Nat} {todo : List Action}
    (follows : .apicSendEoi :: todo <:+ interruptHandler number) : todo = [] := by
  rw [interruptHandler] at follows
  split_ifs at follows with exception fault
  all_goals
    simpa [List.suffix_cons_iff] using follows

theorem owes_entered (vector : Vector) (inService resume : Bool) :
    Activation.owes ⟨vector, inService, interruptHandler vector, resume⟩ = inService := by
  simp [Activation.owes, interruptHandler]

theorem follows_step {state next : State} {event : Event} (stepped : step state event = some next)
    (follows : Follows state.active) : Follows next.active := by
  have entered : ∀ vector inService, Follows (state.enter vector inService).active := by
    intro vector inService
    exact List.forall_mem_cons.mpr ⟨List.suffix_refl _, follows⟩
  rcases step_cases stepped with ⟨vector, _, rfl⟩ | ⟨vector, _, _, _, rfl⟩ | ⟨vector, rfl⟩ |
    ⟨enabled, rfl⟩ | rfl | advanced
  · exact follows
  · exact entered vector true
  · exact entered vector false
  · exact follows
  · exact follows
  · obtain ⟨activation, outer, active, cases⟩ := advance_cases advanced
    rw [active, Follows, List.forall_mem_cons] at follows
    have later : ∀ action todo, activation.todo = action :: todo →
        todo <:+ interruptHandler activation.vector := by
      intro action todo left
      exact (List.suffix_cons action todo).trans (left ▸ follows.1)
    rcases cases with ⟨_, rfl⟩ | ⟨todo, left, rfl⟩ | ⟨action, todo, left, _, _, _, same, _⟩
    · exact follows.2
    · exact List.forall_mem_cons.mpr ⟨later _ _ left, follows.2⟩
    · rw [same]
      exact List.forall_mem_cons.mpr ⟨later _ _ left, follows.2⟩

/-! ### The highest vector in service -/

theorem highest_none {vectors : Finset Vector} (none_left : highest vectors = none) :
    vectors = ∅ := by
  rw [highest] at none_left
  split_ifs at none_left with present
  exact Finset.not_nonempty_iff_eq_empty.mp present

theorem highest_some {vectors : Finset Vector} {vector : Vector}
    (found : highest vectors = some vector) : vector ∈ vectors ∧ ∀ other ∈ vectors, other ≤ vector := by
  rw [highest] at found
  split_ifs at found with present
  rw [← Option.some.inj found]
  exact ⟨vectors.max'_mem present, fun other member => vectors.le_max' other member⟩

theorem highest_eq {vectors : Finset Vector} {vector : Vector} (member : vector ∈ vectors)
    (top : ∀ other ∈ vectors, other ≤ vector) : highest vectors = some vector := by
  rw [highest, dif_pos ⟨vector, member⟩]
  congr 1
  exact le_antisymm (Finset.max'_le vectors _ vector top) (vectors.le_max' vector member)

theorem le_of_priority_lt {low high : Vector} (below : priority low < priority high) :
    low ≤ high := by
  rw [priority, priority] at below
  rw [Fin.le_def]
  omega

/-! ### Ends of interrupts -/

/-- The vectors in service are those of the handlers that owe their end, an inner one
always of higher priority. -/
structure Exact (state : State) : Prop where
  inService : state.inService = (owed state.active).toFinset
  nested : (owed state.active).Pairwise fun inner outer => priority outer < priority inner

/-- Ends that nobody owed ended nothing. -/
def StraysHarmless (ends : List Ended) : Prop := ∀ entry ∈ ends, entry.owed = none → entry.ended = none

def Matched (ends : List Ended) : Prop := ∀ entry ∈ ends, entry.owed = entry.ended

theorem exact_accept {state : State} {vector : Vector} (exact : Exact state)
    (above : ∀ other ∈ state.inService, priority other < priority vector) :
    Exact { state.enter vector true with
      pending := state.pending.erase vector
      inService := insert vector state.inService } := by
  have entered : owed (state.enter vector true).active = vector :: owed state.active := by
    rw [State.enter, owed_cons, owes_entered, if_pos rfl]
  refine ⟨?_, ?_⟩
  · simp only [entered, List.toFinset_cons, exact.inService]
  · simp only [entered, List.pairwise_cons]
    refine ⟨?_, exact.nested⟩
    intro other member
    apply above
    rw [exact.inService, List.mem_toFinset]
    exact member

theorem exact_sent {state : State} {activation : Activation} {outer : List Activation}
    {todo : List Action} (exact : Exact state) (follows : Follows state.active)
    (active : state.active = activation :: outer)
    (left : activation.todo = .apicSendEoi :: todo) (inService : activation.inService = true) :
    highest state.inService = some activation.vector ∧
      Exact (State.apicSendEoi { state with active := { activation with todo := todo } :: outer }
        (some activation.vector)) := by
  have last : todo = [] := by
    rw [active, Follows, List.forall_mem_cons, left] at follows
    exact sent_last follows.1
  have before : owed state.active = activation.vector :: owed outer := by
    rw [active, owed_cons, owes_sent left, if_pos inService]
  have after : owed ({ activation with todo := todo } :: outer) = owed outer := by
    rw [owed_cons, owes_done last, if_neg Bool.false_ne_true]
  obtain ⟨marked, nested⟩ := exact
  rw [before, List.pairwise_cons] at nested
  rw [before, List.toFinset_cons] at marked
  have fresh : activation.vector ∉ (owed outer).toFinset := by
    intro member
    exact Nat.lt_irrefl _ (nested.1 _ (List.mem_toFinset.mp member))
  have top : highest state.inService = some activation.vector := by
    rw [marked]
    apply highest_eq (Finset.mem_insert_self _ _)
    intro other member
    rcases Finset.mem_insert.mp member with rfl | inner
    · exact le_refl _
    · exact le_of_priority_lt (nested.1 other (List.mem_toFinset.mp inner))
  refine ⟨top, ?_, ?_⟩
  · simp only [State.apicSendEoi, top, after]
    rw [marked, Finset.erase_insert fresh]
  · simp only [State.apicSendEoi, after]
    exact nested.2

/-- The bookkeeping is exact and every end ended what its sender owed. -/
def Settled (state : State) : Prop := Exact state ∧ Matched state.ends

theorem matched_append {ends : List Ended} {entry : Ended} (matched : Matched ends)
    (last : entry.owed = entry.ended) : Matched (ends ++ [entry]) := by
  intro other member
  rcases List.mem_append.mp member with earlier | here
  · exact matched other earlier
  · rw [List.mem_singleton.mp here]
    exact last

theorem harmless_prior {ends : List Ended} {entry : Ended}
    (harmless : StraysHarmless (ends ++ [entry])) :
    StraysHarmless ends ∧ (entry.owed = none → entry.ended = none) :=
  ⟨fun other member => harmless other (List.mem_append_left _ member),
    harmless entry (List.mem_append_right _ List.mem_cons_self)⟩

/-- An end that nobody owes and that ends nothing. -/
theorem settled_stray {state : State} {active : List Activation}
    (same : owed active = owed state.active) (settled : Settled state)
    (idle : highest state.inService = none) :
    Settled (State.apicSendEoi { state with active := active } none) := by
  obtain ⟨⟨marked, nested⟩, matched⟩ := settled
  refine ⟨⟨?_, ?_⟩, ?_⟩
  · simp only [State.apicSendEoi, idle, same]
    exact marked
  · exact same.symm ▸ nested
  · exact matched_append matched idle.symm

theorem settled_advance {state next : State} (follows : Follows state.active)
    (advanced : state.advance = some next)
    (harmless : StraysHarmless next.ends)
    (settled : StraysHarmless state.ends → Settled state) : Settled next := by
  obtain ⟨activation, outer, active, cases⟩ := advance_cases advanced
  rcases cases with ⟨done, rfl⟩ | ⟨todo, left, rfl⟩ |
    ⟨action, todo, left, other, _, inService, same, ends⟩
  · obtain ⟨⟨marked, nested⟩, matched⟩ := settled harmless
    rw [active, owed_cons, owes_done done, if_neg Bool.false_ne_true] at marked nested
    exact ⟨⟨marked, nested⟩, matched⟩
  · obtain ⟨prior, stray⟩ := harmless_prior harmless
    have now := settled prior
    by_cases marked : activation.inService = true
    · rw [if_pos marked]
      obtain ⟨top, exact⟩ := exact_sent now.1 follows active left marked
      exact ⟨exact, matched_append now.2 top.symm⟩
    · have unmarked : activation.inService = false := Bool.eq_false_iff.mpr marked
      rw [if_neg marked] at stray ⊢
      apply settled_stray _ now (stray rfl)
      rw [active, owed_cons, owed_cons, owes_sent left, unmarked]
      simp [Activation.owes]
  · obtain ⟨⟨marked, nested⟩, matched⟩ := settled (ends ▸ harmless)
    have kept : owed next.active = owed state.active := by
      rw [same, active, owed_cons, owed_cons, owes_other left other]
    refine ⟨⟨?_, ?_⟩, ?_⟩
    · rw [inService, kept]
      exact marked
    · rw [kept]
      exact nested
    · rw [ends]
      exact matched

theorem settled_step {state next : State} {event : Event} (stepped : step state event = some next)
    (follows : Follows state.active) (harmless : StraysHarmless next.ends)
    (settled : StraysHarmless state.ends → Settled state) : Settled next := by
  rcases step_cases stepped with ⟨vector, _, rfl⟩ | ⟨vector, _, _, above, rfl⟩ | ⟨vector, rfl⟩ |
    ⟨enabled, rfl⟩ | rfl | advanced
  · have now := settled harmless
    exact ⟨⟨now.1.inService, now.1.nested⟩, now.2⟩
  · have now := settled harmless
    exact ⟨exact_accept now.1 above, now.2⟩
  · have now := settled harmless
    have same : owed (state.enter vector false).active = owed state.active := by
      rw [State.enter, owed_cons, owes_entered, if_neg Bool.false_ne_true]
    exact ⟨⟨same.symm ▸ now.1.inService, same.symm ▸ now.1.nested⟩, now.2⟩
  · have now := settled harmless
    exact ⟨⟨now.1.inService, now.1.nested⟩, now.2⟩
  · obtain ⟨prior, stray⟩ := harmless_prior harmless
    exact settled_stray rfl (settled prior) (stray rfl)
  · exact settled_advance follows advanced harmless settled

/-- Every end of interrupt ends exactly what is owed if those that nobody owes, of
`hook_irq` and of spurious interrupts, end nothing; they are among the ends on the left. -/
theorem ends_matched_iff (events : List Event) (state : State)
    (ran : run booted events = some state) :
    (∀ entry ∈ state.ends, entry.owed = entry.ended) ↔
      ∀ entry ∈ state.ends, entry.owed = none → entry.ended = none := by
  constructor
  · intro matched entry member stray
    rw [← matched entry member, stray]
  · intro harmless
    have settled : Follows state.active ∧ (StraysHarmless state.ends → Settled state) := by
      apply run_invariant (fun state =>
        Follows state.active ∧ (StraysHarmless state.ends → Settled state)) _ ran
      · refine ⟨by simp [Follows, booted], fun _ => ⟨⟨rfl, List.Pairwise.nil⟩, ?_⟩⟩
        intro entry member
        exact absurd member List.not_mem_nil
      · intro state event next inv stepped
        exact ⟨follows_step stepped inv.1,
          fun harmless => settled_step stepped inv.1 harmless inv.2⟩
    exact (settled.2 harmless).2

/-- A handler interrupted by one of higher priority, both finished. -/
def nestedHandlers : State where
  pending := ∅
  inService := ∅
  enabled := true
  halted := false
  active := []
  dispatched := [33, 64]
  ends := [⟨some 64, some 64⟩, ⟨some 33, some 33⟩]

theorem nested_ends_matched :
    ∃ events, run booted events = some nestedHandlers ∧
      ∀ entry ∈ nestedHandlers.ends, entry.owed = entry.ended := by
  have ran : run booted [.setFlag true, .raise 33, .accept, .advance, .setFlag true, .raise 64,
      .accept, .advance, .advance, .advance, .advance, .advance] = some nestedHandlers := by
    decide +kernel
  exact ⟨_, ran, (ends_matched_iff _ nestedHandlers ran).mpr (by decide)⟩

/-! ### Nothing stays in service -/

/-- No more vectors are in service than handlers owe an end. -/
def Covered (state : State) : Prop := state.inService.card ≤ (owed state.active).length

theorem send_card (state : State) (owner : Option Vector) :
    (state.apicSendEoi owner).inService.card = state.inService.card - 1 := by
  rw [State.apicSendEoi]
  cases found : highest state.inService with
  | none => simp only [highest_none found, Finset.card_empty]
  | some vector => exact Finset.card_erase_of_mem (highest_some found).1

theorem covered_step {state next : State} {event : Event} (stepped : step state event = some next)
    (follows : Follows state.active) (covered : Covered state) : Covered next := by
  rw [Covered] at covered ⊢
  rcases step_cases stepped with ⟨vector, _, rfl⟩ | ⟨vector, _, _, _, rfl⟩ | ⟨vector, rfl⟩ |
    ⟨enabled, rfl⟩ | rfl | advanced
  · exact covered
  · have inserted := Finset.card_insert_le vector state.inService
    have longer : owed (state.enter vector true).active = vector :: owed state.active := by
      rw [State.enter, owed_cons, owes_entered, if_pos rfl]
    simp only [longer, List.length_cons]
    omega
  · have same : owed (state.enter vector false).active = owed state.active := by
      rw [State.enter, owed_cons, owes_entered, if_neg Bool.false_ne_true]
    rw [same]
    exact covered
  · exact covered
  · rw [send_card]
    exact Nat.le_trans (Nat.sub_le _ _) covered
  · obtain ⟨activation, outer, active, cases⟩ := advance_cases advanced
    rw [active, owed_cons] at covered
    rcases cases with ⟨done, rfl⟩ | ⟨todo, left, rfl⟩ | ⟨action, todo, left, other, _, same, after, _⟩
    · rw [owes_done done, if_neg Bool.false_ne_true] at covered
      exact covered
    · rw [active, Follows, List.forall_mem_cons, left] at follows
      have last : Activation.owes { activation with todo := todo } = false :=
        owes_done (sent_last follows.1)
      rw [send_card]
      simp only [State.apicSendEoi, owed_cons, last, Bool.false_eq_true, ↓reduceIte]
      split_ifs at covered
      · rw [List.length_cons] at covered
        omega
      · omega
    · rw [same, after, owed_cons, owes_other left other]
      exact covered

/-! ### Progress -/

/-- A step of the processor itself. -/
def Own (event : Event) : Prop := event = .advance ∨ event = .accept

instance (event : Event) : Decidable (Own event) := inferInstanceAs (Decidable (_ ∨ _))

/-- No device, no exception, no end of interrupt but the handlers' own, and no `cli`. -/
def Undisturbed (event : Event) : Prop := Own event ∨ event = .setFlag true

def ownSteps (events : List Event) : Nat := events.countP fun event => Own event

/-- The interrupt flag once all handlers have returned. -/
def State.interruptible (state : State) : Bool :=
  state.active.foldl (fun _ activation => activation.resume) state.enabled

/-- The steps that are left: what each handler has still to do and its return, and for a
pending vector its acceptance, its dispatch, its end and its return. -/
def State.work (state : State) : Nat :=
  (state.active.map fun activation => activation.todo.length + 1).sum + 4 * state.pending.card

/-- Devices only, and interrupts are on below the handlers. -/
structure Calm (state : State) : Prop where
  follows : Follows state.active
  covered : Covered state
  running : state.halted = false
  active : ∀ activation ∈ state.active, 32 ≤ activation.vector.val
  pending : ∀ vector ∈ state.pending, 32 ≤ vector.val
  interruptible : state.interruptible = true

/-- Since `before` the vector has been dispatched, or it is going to be. -/
def Promised (before : List Vector) (vector : Vector) (state : State) : Prop :=
  ∃ served, state.dispatched = before ++ served ∧
    (vector ∈ state.pending ∨
      (∃ activation ∈ state.active, activation.vector = vector ∧ .dispatchIrq ∈ activation.todo) ∨
      vector ∈ served)

theorem device_todo {vector : Vector} {todo : List Action} (device : 32 ≤ vector.val)
    (follows : todo <:+ interruptHandler vector) :
    todo = [.dispatchIrq, .apicSendEoi] ∨ todo = [.apicSendEoi] ∨ todo = [] := by
  rw [interruptHandler, if_neg (by omega), List.nil_append] at follows
  simpa [List.suffix_cons_iff] using follows

theorem nothing_in_service {state : State} (covered : Covered state) (idle : state.active = []) :
    state.inService = ∅ := by
  rw [Covered, idle] at covered
  exact Finset.card_eq_zero.mp (Nat.le_zero.mp covered)

/-- The innermost handler of a device dispatches, ends its interrupt or returns. -/
inductive HandlerStep (state : State) : State → Prop
  | dispatches (activation : Activation) (outer : List Activation)
      (active : state.active = activation :: outer)
      (left : activation.todo = [.dispatchIrq, .apicSendEoi]) :
      HandlerStep state { state with
        active := { activation with todo := [.apicSendEoi] } :: outer
        dispatched := state.dispatched ++ [activation.vector] }
  | ends (activation : Activation) (outer : List Activation)
      (active : state.active = activation :: outer) (left : activation.todo = [.apicSendEoi]) :
      HandlerStep state (State.apicSendEoi
        { state with active := { activation with todo := [] } :: outer }
        (if activation.inService then some activation.vector else none))
  | returns (activation : Activation) (outer : List Activation)
      (active : state.active = activation :: outer) (left : activation.todo = []) :
      HandlerStep state { state with active := outer, enabled := activation.resume }

theorem calm_advance {state : State} (calm : Calm state) (busy : state.active ≠ []) :
    ∃ next, step state .advance = some next ∧ HandlerStep state next := by
  obtain ⟨activation, outer, active⟩ := List.exists_cons_of_ne_nil busy
  have device := calm.active activation (by rw [active]; exact List.mem_cons_self)
  have follows := calm.follows
  rw [active, Follows, List.forall_mem_cons] at follows
  rcases device_todo device follows.1 with left | left | left
  · refine ⟨_, ?_, .dispatches activation outer active left⟩
    simp only [step, calm.running, Bool.false_eq_true, ↓reduceIte, State.advance, active, left]
  · refine ⟨_, ?_, .ends activation outer active left⟩
    simp only [step, calm.running, Bool.false_eq_true, ↓reduceIte, State.advance, active, left]
  · refine ⟨_, ?_, .returns activation outer active left⟩
    simp only [step, calm.running, Bool.false_eq_true, ↓reduceIte, State.advance, active, left]

theorem accept_cases {state next : State} (stepped : step state .accept = some next) :
    ∃ vector, highest state.pending = some vector ∧ state.enabled = true ∧
      next = { state.enter vector true with
        pending := state.pending.erase vector
        inService := insert vector state.inService } := by
  rw [step] at stepped
  cases found : highest state.pending with
  | none =>
      rw [found] at stepped
      cases stepped
  | some vector =>
      simp only [found] at stepped
      split_ifs at stepped with allowed
      exact ⟨vector, rfl, allowed.2.1, (Option.some.inj stepped).symm⟩

theorem devices_step {state next : State} {event : Event} (stepped : step state event = some next)
    (devices : ∀ vector ∈ state.pending, 32 ≤ vector.val) :
    ∀ vector ∈ next.pending, 32 ≤ vector.val := by
  rcases step_cases stepped with ⟨vector, device, rfl⟩ | ⟨vector, _, _, _, rfl⟩ | ⟨vector, rfl⟩ |
    ⟨enabled, rfl⟩ | rfl | advanced
  · exact Finset.forall_mem_insert .. |>.mpr ⟨device, devices⟩
  · exact fun other member => devices other (Finset.mem_of_mem_erase member)
  · exact devices
  · exact devices
  · exact devices
  · obtain ⟨activation, outer, _, cases⟩ := advance_cases advanced
    rcases cases with ⟨_, rfl⟩ | ⟨todo, _, rfl⟩ | ⟨action, todo, _, _, same, _⟩
    · exact devices
    · exact devices
    · rw [same]
      exact devices

theorem handler_step_work {state next : State} (handler : HandlerStep state next) :
    next.halted = state.halted ∧ next.interruptible = state.interruptible ∧
      next.work + 1 = state.work := by
  cases handler with
  | dispatches activation outer active left =>
      refine ⟨rfl, ?_, ?_⟩
      · simp only [State.interruptible, active, List.foldl_cons]
      · simp only [State.work, active, left, List.map_cons, List.sum_cons, List.length_cons,
          List.length_nil]
        omega
  | ends activation outer active left =>
      refine ⟨rfl, ?_, ?_⟩
      · simp only [State.interruptible, State.apicSendEoi, active, List.foldl_cons]
      · simp only [State.work, State.apicSendEoi, active, left, List.map_cons, List.sum_cons,
          List.length_cons, List.length_nil]
        omega
  | returns activation outer active left =>
      refine ⟨rfl, ?_, ?_⟩
      · simp only [State.interruptible, active, List.foldl_cons]
      · simp only [State.work, active, left, List.map_cons, List.sum_cons, List.length_nil]
        omega

theorem handler_step_active {state next : State} (handler : HandlerStep state next)
    (active : ∀ activation ∈ state.active, 32 ≤ activation.vector.val) :
    ∀ activation ∈ next.active, 32 ≤ activation.vector.val := by
  cases handler with
  | dispatches activation outer whole _ =>
      rw [whole, List.forall_mem_cons] at active
      exact List.forall_mem_cons.mpr active
  | ends activation outer whole _ =>
      rw [whole, List.forall_mem_cons] at active
      exact List.forall_mem_cons.mpr active
  | returns activation outer whole _ =>
      rw [whole, List.forall_mem_cons] at active
      exact active.2

theorem handler_step_promised {state next : State} {before : List Vector} {vector : Vector}
    (handler : HandlerStep state next) (promised : Promised before vector state) :
    Promised before vector next := by
  obtain ⟨served, dispatched, pending | ⟨holder, member, same, left⟩ | done⟩ := promised
  · cases handler with
    | dispatches activation outer _ _ =>
        exact ⟨served ++ [activation.vector], by rw [dispatched, List.append_assoc], Or.inl pending⟩
    | ends _ _ _ _ => exact ⟨served, dispatched, Or.inl pending⟩
    | returns _ _ _ _ => exact ⟨served, dispatched, Or.inl pending⟩
  · cases handler with
    | dispatches activation outer active todo =>
        refine ⟨served ++ [activation.vector], by rw [dispatched, List.append_assoc], ?_⟩
        rw [active] at member
        rcases List.mem_cons.mp member with first | deeper
        · rw [← same, first]
          exact Or.inr (Or.inr (List.mem_append_right _ (List.mem_singleton_self _)))
        · exact Or.inr (Or.inl ⟨holder, List.mem_cons_of_mem _ deeper, same, left⟩)
    | ends activation outer active todo =>
        rw [active] at member
        rcases List.mem_cons.mp member with first | deeper
        · rw [first, todo] at left
          exact absurd left (by decide)
        · exact ⟨served, dispatched,
            Or.inr (Or.inl ⟨holder, List.mem_cons_of_mem _ deeper, same, left⟩)⟩
    | returns activation outer active todo =>
        rw [active] at member
        rcases List.mem_cons.mp member with first | deeper
        · rw [first, todo] at left
          exact absurd left (by decide)
        · exact ⟨served, dispatched, Or.inr (Or.inl ⟨holder, deeper, same, left⟩)⟩
  · cases handler with
    | dispatches activation outer _ _ =>
        exact ⟨served ++ [activation.vector], by rw [dispatched, List.append_assoc],
          Or.inr (Or.inr (List.mem_append_left _ done))⟩
    | ends _ _ _ _ => exact ⟨served, dispatched, Or.inr (Or.inr done)⟩
    | returns _ _ _ _ => exact ⟨served, dispatched, Or.inr (Or.inr done)⟩

/-- What an undisturbed step keeps, and what it takes off the work. -/
theorem undisturbed_step {state next : State} {event : Event} {before : List Vector}
    {vector : Vector} (calm : Calm state) (undisturbed : Undisturbed event)
    (stepped : step state event = some next) (promised : Promised before vector state) :
    Calm next ∧ next.work + ownSteps [event] = state.work ∧ Promised before vector next := by
  have follows := follows_step stepped calm.follows
  have covered := covered_step stepped calm.follows calm.covered
  have pending := devices_step stepped calm.pending
  rcases undisturbed with (rfl | rfl) | rfl
  · have busy : state.active ≠ [] := by
      intro idle
      simp only [step, calm.running, Bool.false_eq_true, ↓reduceIte, State.advance, idle] at stepped
      cases stepped
    obtain ⟨made, went, handler⟩ := calm_advance calm busy
    cases stepped.symm.trans went
    obtain ⟨halted, interruptible, work⟩ := handler_step_work handler
    exact ⟨⟨follows, covered, halted.trans calm.running, handler_step_active handler calm.active,
      pending, interruptible.trans calm.interruptible⟩, work, handler_step_promised handler promised⟩
  · obtain ⟨top, found, enabled, rfl⟩ := accept_cases stepped
    have member := (highest_some found).1
    have fewer := Finset.card_erase_of_mem member
    have some := Finset.card_pos.mpr ⟨top, member⟩
    have todo : (interruptHandler top.val).length = 2 := by
      rw [interruptHandler, if_neg (Nat.not_lt.mpr (calm.pending top member))]
      rfl
    refine ⟨⟨follows, covered, calm.running,
      List.forall_mem_cons.mpr ⟨calm.pending top member, calm.active⟩, pending, calm.interruptible⟩,
      ?_, ?_⟩
    · simp only [State.work, State.enter, List.map_cons, List.sum_cons, todo, fewer]
      have one : ownSteps [Event.accept] = 1 := rfl
      omega
    · obtain ⟨served, dispatched, waiting | ⟨holder, there, same, left⟩ | done⟩ := promised
      · refine ⟨served, dispatched, ?_⟩
        by_cases here : vector = top
        · exact Or.inr (Or.inl ⟨_, List.mem_cons_self, here.symm, by simp [interruptHandler]⟩)
        · exact Or.inl (Finset.mem_erase.mpr ⟨here, waiting⟩)
      · exact ⟨served, dispatched,
          Or.inr (Or.inl ⟨holder, List.mem_cons_of_mem _ there, same, left⟩)⟩
      · exact ⟨served, dispatched, Or.inr (Or.inr done)⟩
  · have awake : ¬state.halted = true := by rw [calm.running]; exact Bool.false_ne_true
    rw [step, if_neg awake, Option.some.injEq] at stepped
    subst stepped
    refine ⟨⟨follows, covered, calm.running, calm.active, pending, ?_⟩, rfl, promised⟩
    have flag := calm.interruptible
    rw [State.interruptible] at flag ⊢
    cases active : state.active with
    | nil => rfl
    | cons activation outer =>
        rw [active, List.foldl_cons] at flag
        simpa only [active, List.foldl_cons] using flag

theorem undisturbed_run {state final : State} {events : List Event} {before : List Vector}
    {vector : Vector} (calm : Calm state) (undisturbed : ∀ event ∈ events, Undisturbed event)
    (ran : run state events = some final) (promised : Promised before vector state) :
    Calm final ∧ final.work + ownSteps events = state.work ∧ Promised before vector final := by
  induction events generalizing state with
  | nil =>
      cases ran
      exact ⟨calm, rfl, promised⟩
  | cons event events ih =>
      obtain ⟨next, stepped, rest⟩ := Option.bind_eq_some_iff.mp ran
      rw [List.forall_mem_cons] at undisturbed
      obtain ⟨calmNext, spent, promisedNext⟩ :=
        undisturbed_step calm undisturbed.1 stepped promised
      obtain ⟨calmFinal, later, promisedFinal⟩ := ih calmNext undisturbed.2 rest promisedNext
      refine ⟨calmFinal, ?_, promisedFinal⟩
      have split : ownSteps (event :: events) = ownSteps [event] + ownSteps events := by
        rw [ownSteps, ownSteps, ownSteps, ← List.countP_append, List.singleton_append]
      omega

/-- As long as there is work, the processor can go on with it. -/
theorem work_goes_on {state : State} (calm : Calm state) (left : 0 < state.work) :
    ∃ event, Own event ∧ (step state event).isSome := by
  by_cases idle : state.active = []
  · cases found : highest state.pending with
    | none =>
        rw [State.work, idle, highest_none found] at left
        exact absurd left (by simp)
    | some vector =>
        have enabled := calm.interruptible
        rw [State.interruptible, idle, List.foldl_nil] at enabled
        refine ⟨.accept, Or.inr rfl, ?_⟩
        simp only [step, found, calm.running, enabled, nothing_in_service calm.covered idle]
        simp
  · obtain ⟨next, stepped, _⟩ := calm_advance calm idle
    exact ⟨.advance, Or.inl rfl, by rw [stepped]; rfl⟩

theorem work_done {state : State} {before : List Vector} {vector : Vector} (none : state.work = 0)
    (promised : Promised before vector state) :
    ∃ served, state.dispatched = before ++ served ∧ vector ∈ served := by
  rw [State.work, Nat.add_eq_zero_iff] at none
  obtain ⟨served, dispatched, waiting | ⟨holder, member, _, _⟩ | done⟩ := promised
  · have some := Finset.card_pos.mpr ⟨vector, waiting⟩
    omega
  · cases active : state.active with
    | nil =>
        rw [active] at member
        exact absurd member List.not_mem_nil
    | cons first outer =>
        rw [active, List.map_cons, List.sum_cons] at none
        omega
  · exact ⟨served, dispatched, done⟩

/-- However handlers were nested and whatever ends of interrupt were written: with
interrupts on below the handlers, and nothing from outside, the processor goes on until
its work is done, and then every interrupt that was pending has been dispatched. -/
theorem pending_interrupt_dispatched (events : List Event) (state : State) (vector : Vector)
    (ran : run booted events = some state) (running : state.halted = false)
    (noException : ∀ activation ∈ state.active, 32 ≤ activation.vector.val)
    (interruptible : state.interruptible = true) (pending : vector ∈ state.pending)
    (more : List Event) (undisturbed : ∀ event ∈ more, Undisturbed event) (final : State)
    (went : run state more = some final) :
    ownSteps more ≤ state.work ∧
      (ownSteps more < state.work → ∃ event, Own event ∧ (step final event).isSome) ∧
      (ownSteps more = state.work →
        ∃ served, final.dispatched = state.dispatched ++ served ∧ vector ∈ served) := by
  have kept : Follows state.active ∧ Covered state ∧
      ∀ vector ∈ state.pending, 32 ≤ vector.val := by
    apply run_invariant (fun state => Follows state.active ∧ Covered state ∧
      ∀ vector ∈ state.pending, 32 ≤ vector.val) _ ran
    · exact ⟨by simp [Follows, booted], by simp [Covered, booted], by simp [booted]⟩
    · intro state event next inv stepped
      exact ⟨follows_step stepped inv.1, covered_step stepped inv.1 inv.2.1,
        devices_step stepped inv.2.2⟩
  have promised : Promised state.dispatched vector state :=
    ⟨[], (List.append_nil _).symm, Or.inl pending⟩
  obtain ⟨calm, spent, kept⟩ := undisturbed_run
    ⟨kept.1, kept.2.1, running, noException, kept.2.2, interruptible⟩ undisturbed went promised
  refine ⟨by omega, fun less => work_goes_on calm (by omega), fun all => ?_⟩
  exact work_done (by omega) kept

/-- `hook_irq` in a handler ends the handler's interrupt early. -/
def hookedInHandler : State where
  pending := {40}
  inService := ∅
  enabled := false
  halted := false
  active := [⟨33, true, [.dispatchIrq, .apicSendEoi], true⟩]
  dispatched := []
  ends := [⟨none, some 33⟩]

/-- The handler is interrupted once more before it ends. -/
def untilIdle : List Event :=
  [.setFlag true, .accept, .advance, .advance, .advance, .advance, .advance, .advance]

theorem interrupt_after_stray_end_dispatched :
    ∃ final, run hookedInHandler untilIdle = some final ∧
      ∃ served, final.dispatched = hookedInHandler.dispatched ++ served ∧ 40 ∈ served := by
  obtain ⟨final, went⟩ := Option.isSome_iff_exists.mp
    (show (run hookedInHandler untilIdle).isSome by decide +kernel)
  have undisturbed : ∀ event ∈ untilIdle, Undisturbed event := by
    unfold Undisturbed
    decide
  exact ⟨final, went, (pending_interrupt_dispatched
    [.setFlag true, .raise 33, .accept, .hookIrq, .raise 40] hookedInHandler 40 (by decide +kernel)
    rfl (by decide) rfl (by decide) untilIdle undisturbed final went).2.2 (by decide)⟩

end KittyOs.InterruptService
