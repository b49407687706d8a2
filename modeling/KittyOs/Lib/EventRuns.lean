import Mathlib.Logic.Basic

/-!
# Runs of events

A step relation with events on its steps, and the event lists of its runs. When a
relation between the states of two such systems is kept by every step, each run of
the one is a run of the other with the same events.
-/

namespace KittyOs.Lib.EventRuns

set_option autoImplicit false

variable {State Abstract Event : Type*}

/-- The events lead from one state to the other, in their order. -/
inductive Run (step : State → Event → State → Prop) : State → List Event → State → Prop
  | nil {state : State} : Run step state [] state
  | cons {state next last : State} {event : Event} {events : List Event}
      (first : step state event next) (rest : Run step next events last) :
      Run step state (event :: events) last

variable {step : State → Event → State → Prop} {spec : Abstract → Event → Abstract → Prop}
variable {state last : State} {event : Event} {events more : List Event}

theorem run_cons_iff :
    Run step state (event :: events) last ↔
      ∃ next, step state event next ∧ Run step next events last := by
  constructor
  · intro run
    cases run with
    | cons first rest => exact ⟨_, first, rest⟩
  · rintro ⟨next, first, rest⟩
    exact .cons first rest

theorem run_append_iff :
    Run step state (events ++ more) last ↔
      ∃ middle, Run step state events middle ∧ Run step middle more last := by
  induction events generalizing state with
  | nil =>
      constructor
      · intro run
        exact ⟨state, .nil, run⟩
      · rintro ⟨middle, nothing, run⟩
        cases nothing
        exact run
  | cons event events ih =>
      rw [List.cons_append, run_cons_iff]
      constructor
      · rintro ⟨next, first, rest⟩
        obtain ⟨middle, before, behind⟩ := ih.mp rest
        exact ⟨middle, .cons first before, behind⟩
      · rintro ⟨middle, before, behind⟩
        obtain ⟨next, first, rest⟩ := run_cons_iff.mp before
        exact ⟨next, first, ih.mpr ⟨middle, rest, behind⟩⟩

/-- What every step with an admissible event keeps, a run of such events keeps. -/
theorem run_keeps {Keeps : State → Prop} {Admissible : Event → Prop}
    (keeps : ∀ state event next, Keeps state → Admissible event → step state event next →
      Keeps next)
    (run : Run step state events last) (admissible : ∀ event ∈ events, Admissible event)
    (start : Keeps state) : Keeps last := by
  induction run with
  | nil => exact start
  | cons first _ ih =>
      apply ih fun event member => admissible event (List.mem_cons_of_mem _ member)
      exact keeps _ _ _ start (admissible _ List.mem_cons_self) first

/-- Forward simulation. -/
theorem run_simulated {Related : State → Abstract → Prop}
    (follows : ∀ state abstract event next, Related state abstract → step state event next →
      ∃ after, spec abstract event after ∧ Related next after)
    (run : Run step state events last) {abstract : Abstract} (start : Related state abstract) :
    ∃ after, Run spec abstract events after ∧ Related last after := by
  induction run generalizing abstract with
  | nil => exact ⟨abstract, .nil, start⟩
  | cons first _ ih =>
      obtain ⟨middle, here, related⟩ := follows _ abstract _ _ start first
      obtain ⟨after, rest, final⟩ := ih related
      exact ⟨after, .cons here rest, final⟩

end KittyOs.Lib.EventRuns
