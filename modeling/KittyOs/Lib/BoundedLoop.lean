import Mathlib.Data.List.Basic

/-!
# Counted loops with early exits

A loop body that may halt (`none`), leave the loop (`some (false, _)`) or go on
(`some (true, _)`), run a given number of times. The rules say how a loop begins
and, from an invariant with the number of rounds done, that it runs to its end. The
states in which the body is run are kept beside the result.
-/

namespace KittyOs.Lib.BoundedLoop

set_option autoImplicit false

variable {State : Type*} (body : State → Option (Bool × State))

def loop : Nat → State → Option (Bool × State)
  | 0, state => some (true, state)
  | rounds + 1, state =>
      match body state with
      | none => none
      | some (false, next) => some (false, next)
      | some (true, next) => loop rounds next

/-- The states in which the body is run. -/
def visited : Nat → State → List State
  | 0, _ => []
  | rounds + 1, state =>
      state :: match body state with
        | some (true, next) => visited rounds next
        | _ => []

variable {body} {state next : State} {rounds : Nat}

theorem loop_done : loop body 0 state = some (true, state) := by
  simp only [loop]

theorem loop_halted (halted : body state = none) : loop body (rounds + 1) state = none := by
  simp only [loop, halted]

theorem loop_left (left : body state = some (false, next)) :
    loop body (rounds + 1) state = some (false, next) := by
  simp only [loop, left]

theorem loop_next (went : body state = some (true, next)) :
    loop body (rounds + 1) state = loop body rounds next := by
  simp only [loop, went]

theorem visited_done : visited body 0 state = [] := by
  simp only [visited]

theorem visited_left (left : body state = some (false, next)) :
    visited body (rounds + 1) state = [state] := by
  simp only [visited, left]

theorem visited_next (went : body state = some (true, next)) :
    visited body (rounds + 1) state = state :: visited body rounds next := by
  simp only [visited, went]

/-- How a loop of at least one round that does not halt begins. -/
theorem loop_first {result : Bool × State} (ran : loop body (rounds + 1) state = some result) :
    (∃ next, body state = some (false, next) ∧ result = (false, next)) ∨
      ∃ next, body state = some (true, next) ∧ loop body rounds next = some result := by
  cases first : body state with
  | none =>
      rw [loop_halted first] at ran
      exact absurd ran (by simp)
  | some outcome =>
      obtain ⟨again, after⟩ := outcome
      cases again with
      | false =>
          rw [loop_left first] at ran
          exact Or.inl ⟨after, rfl, (Option.some.inj ran).symm⟩
      | true =>
          rw [loop_next first] at ran
          exact Or.inr ⟨after, rfl, ran⟩

/-- A loop whose every round can go on runs to its end. -/
theorem loop_runs {Holds : Nat → State → Prop} {start : Nat}
    (goes : ∀ count state, start ≤ count → count < start + rounds → Holds count state →
      ∃ next, body state = some (true, next) ∧ Holds (count + 1) next)
    (holds : Holds start state) :
    ∃ next, loop body rounds state = some (true, next) ∧ Holds (start + rounds) next := by
  induction rounds generalizing state start with
  | zero => exact ⟨state, loop_done, holds⟩
  | succ rounds ih =>
      obtain ⟨after, first, step⟩ := goes start state (Nat.le_refl _) (by omega) holds
      have rest : ∀ count before, start + 1 ≤ count → count < start + 1 + rounds →
          Holds count before → ∃ behind, body before = some (true, behind) ∧
            Holds (count + 1) behind := by
        intro count before lower upper
        exact goes count before (by omega) (by omega)
      obtain ⟨next, later, final⟩ := ih rest step
      refine ⟨next, ?_, ?_⟩
      · rw [loop_next first, later]
      · rw [show start + (rounds + 1) = start + 1 + rounds by omega]
        exact final

end KittyOs.Lib.BoundedLoop
