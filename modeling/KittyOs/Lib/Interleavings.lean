import Mathlib.Logic.Function.Basic
import Mathlib.Data.List.Basic

/-!
# Threads over shared state

Each thread has a local state of its own and makes atomic moves on it and on the
state all of them share. A schedule lists which thread is to move next; a thread
that has no move stays where it is. What every move of every thread keeps holds
after every schedule.

A test-and-set lock is a flag of the shared state. It guards a part of the code when
a thread in that part has found the flag clear and set it, and clears it on its way out.
-/

namespace KittyOs.Lib.Interleavings

set_option autoImplicit false

variable {Thread Shared Place : Type*} [DecidableEq Thread]

structure World (Thread Shared Place : Type*) where
  shared : Shared
  place : Thread → Place

def World.put (world : World Thread Shared Place) (thread : Thread) (shared : Shared)
    (next : Place) : World Thread Shared Place :=
  ⟨shared, Function.update world.place thread next⟩

@[simp] theorem put_shared (world : World Thread Shared Place) (thread : Thread) (shared : Shared)
    (next : Place) : (world.put thread shared next).shared = shared :=
  rfl

@[simp] theorem put_self (world : World Thread Shared Place) (thread : Thread) (shared : Shared)
    (next : Place) : (world.put thread shared next).place thread = next := by
  simp only [World.put, Function.update_self]

theorem put_other (world : World Thread Shared Place) {thread other : Thread} (shared : Shared)
    (next : Place) (different : other ≠ thread) :
    (world.put thread shared next).place other = world.place other := by
  simp only [World.put, Function.update_of_ne different]

def step (move : Shared → Place → Option (Shared × Place)) (world : World Thread Shared Place)
    (thread : Thread) : World Thread Shared Place :=
  match move world.shared (world.place thread) with
  | none => world
  | some (shared, next) => world.put thread shared next

def run (move : Shared → Place → Option (Shared × Place)) (world : World Thread Shared Place)
    (schedule : List Thread) : World Thread Shared Place :=
  schedule.foldl (step move) world

variable {move : Shared → Place → Option (Shared × Place)}

theorem step_of_move {world : World Thread Shared Place} {thread : Thread} {shared : Shared}
    {next : Place} (moved : move world.shared (world.place thread) = some (shared, next)) :
    step move world thread = world.put thread shared next := by
  simp only [step, moved]

theorem run_append (world : World Thread Shared Place) (schedule more : List Thread) :
    run move world (schedule ++ more) = run move (run move world schedule) more :=
  List.foldl_append

theorem step_invariant (move : Shared → Place → Option (Shared × Place))
    (Inv : World Thread Shared Place → Prop)
    (keeps : ∀ world thread shared next, Inv world →
      move world.shared (world.place thread) = some (shared, next) →
      Inv (world.put thread shared next))
    {world : World Thread Shared Place} (inv : Inv world) (thread : Thread) :
    Inv (step move world thread) := by
  unfold step
  split
  · exact inv
  · next shared next moved => exact keeps world thread shared next inv moved

theorem run_invariant (move : Shared → Place → Option (Shared × Place))
    (Inv : World Thread Shared Place → Prop)
    (keeps : ∀ world thread shared next, Inv world →
      move world.shared (world.place thread) = some (shared, next) →
      Inv (world.put thread shared next))
    {world : World Thread Shared Place} (inv : Inv world) (schedule : List Thread) :
    Inv (run move world schedule) := by
  induction schedule generalizing world with
  | nil => exact inv
  | cons thread schedule ih => exact ih (step_invariant move Inv keeps inv thread)

theorem forall_update (Fact : Thread → Place → Prop) {place : Thread → Place} {thread : Thread}
    {next : Place} (moved : Fact thread next)
    (others : ∀ other, other ≠ thread → Fact other (place other)) (any : Thread) :
    Fact any (Function.update place thread next any) := by
  by_cases same : any = thread
  · rw [same, Function.update_self]
    exact moved
  · rw [Function.update_of_ne same]
    exact others any same

/-! ### Test-and-set locks -/

/-- The threads that are inside have set the flag, and there is at most one. -/
structure Guarded (Inside : Place → Prop) (flag : Bool) (place : Thread → Place) : Prop where
  taken : ∀ thread, Inside (place thread) → flag = true
  alone : ∀ first second, Inside (place first) → Inside (place second) → first = second

namespace Guarded

variable {Inside : Place → Prop} {flag : Bool} {place : Thread → Place} {thread : Thread}
  {next : Place}

omit [DecidableEq Thread] in
theorem outside (guarded : Guarded Inside flag place) (inside : Inside (place thread))
    {other : Thread} (different : other ≠ thread) : ¬Inside (place other) :=
  fun both => different (guarded.alone other thread both inside)

/-- A move that neither enters nor touches the flag. -/
theorem stay (guarded : Guarded Inside flag place) (kept : Inside next → Inside (place thread)) :
    Guarded Inside flag (Function.update place thread next) := by
  have before : ∀ any, Inside (Function.update place thread next any) → Inside (place any) :=
    forall_update (fun any next => Inside next → Inside (place any)) kept fun _ _ => id
  exact ⟨fun any inside => guarded.taken any (before any inside),
    fun first second one two => guarded.alone first second (before first one) (before second two)⟩

/-- The flag was clear: nobody was inside. -/
theorem enter (guarded : Guarded Inside false place) :
    Guarded Inside true (Function.update place thread next) := by
  have only : ∀ any, Inside (Function.update place thread next any) → any = thread :=
    forall_update (fun any next => Inside next → any = thread) (fun _ => rfl) fun other _ inside =>
      absurd (guarded.taken other inside) Bool.false_ne_true
  exact ⟨fun _ _ => rfl, fun first second one two => (only first one).trans (only second two).symm⟩

/-- The thread that is inside goes out; whatever becomes of the flag, nobody is left. -/
theorem leave (guarded : Guarded Inside flag place) (inside : Inside (place thread))
    (out : ¬Inside next) (after : Bool) :
    Guarded Inside after (Function.update place thread next) := by
  have nobody : ∀ any, ¬Inside (Function.update place thread next any) :=
    forall_update (fun _ next => ¬Inside next) out fun _ different => guarded.outside inside different
  exact ⟨fun any left => absurd left (nobody any), fun first _ left => absurd left (nobody first)⟩

end Guarded

end KittyOs.Lib.Interleavings
