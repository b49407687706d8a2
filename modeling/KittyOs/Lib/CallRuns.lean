import Mathlib.Data.List.Basic

/-!
# Properties of every call of a run

A run is a list of calls made one after another on a state; a call that does not
return ends it. A law may speak about the state a call is made in and about the
call. Two laws that agree in the states of an invariant agree along every run on
which the first of them keeps the invariant.
-/

namespace KittyOs.Lib.CallRuns

set_option autoImplicit false

variable {State Call : Type*} (step : State → Call → Option State)

/-- The law holds at every call of the run. -/
def Throughout (Law : State → Call → Prop) : State → List Call → Prop
  | _, [] => True
  | state, call :: calls =>
      Law state call ∧ ∀ next, step state call = some next → Throughout Law next calls

variable {step} {Law Other : State → Call → Prop} {Inv : State → Prop}

/-- A law that keeps an invariant and implies another law in its states implies it along
every run. -/
theorem throughout_imp
    (keeps : ∀ state call next, Inv state → Law state call → step state call = some next →
      Inv next)
    (gives : ∀ state call, Inv state → Law state call → Other state call)
    {state : State} (inv : Inv state) {calls : List Call}
    (lawful : Throughout step Law state calls) : Throughout step Other state calls := by
  induction calls generalizing state with
  | nil => exact trivial
  | cons call calls ih =>
      refine ⟨gives state call inv lawful.1, ?_⟩
      intro next went
      exact ih (keeps state call next inv lawful.1 went) (lawful.2 next went)

theorem throughout_iff
    (keeps : ∀ state call next, Inv state → Law state call → step state call = some next →
      Inv next)
    (same : ∀ state call, Inv state → (Law state call ↔ Other state call))
    {state : State} (inv : Inv state) (calls : List Call) :
    Throughout step Law state calls ↔ Throughout step Other state calls := by
  constructor
  · exact throughout_imp keeps (fun state call inv => (same state call inv).mp) inv
  · apply throughout_imp _ (fun state call inv => (same state call inv).mpr) inv
    intro state call next inv other
    exact keeps state call next inv ((same state call inv).mpr other)

/-! ### Calls that always return -/

section Total

variable {perform : State → Call → State}

variable (perform) in
def Always (Law : State → Call → Prop) (state : State) (calls : List Call) : Prop :=
  Throughout (fun state call => some (perform state call)) Law state calls

theorem always_cons {state : State} {call : Call} {calls : List Call} :
    Always perform Law state (call :: calls) ↔
      Law state call ∧ Always perform Law (perform state call) calls := by
  simp only [Always, Throughout, Option.some.injEq, forall_eq']

/-- The second part of a run starts where the first ends. -/
theorem always_append {state : State} {first second : List Call} :
    Always perform Law state (first ++ second) ↔
      Always perform Law state first ∧
        Always perform Law (first.foldl perform state) second := by
  induction first generalizing state with
  | nil => simp [Always, Throughout]
  | cons call first ih =>
      rw [List.cons_append, always_cons, always_cons, ih, and_assoc, List.foldl_cons]

theorem always_imp
    (keeps : ∀ state call, Inv state → Law state call → Inv (perform state call))
    (gives : ∀ state call, Inv state → Law state call → Other state call)
    {state : State} (inv : Inv state) {calls : List Call}
    (lawful : Always perform Law state calls) : Always perform Other state calls := by
  apply throughout_imp _ gives inv lawful
  intro state call next inv law went
  rw [← Option.some.inj went]
  exact keeps state call inv law

/-- Laws that agree in the states of an invariant that every call keeps. -/
theorem always_iff (keeps : ∀ state call, Inv state → Inv (perform state call))
    (same : ∀ state call, Inv state → (Law state call ↔ Other state call))
    {state : State} (inv : Inv state) (calls : List Call) :
    Always perform Law state calls ↔ Always perform Other state calls := by
  apply throughout_iff _ same inv
  intro state call next inv _ went
  rw [← Option.some.inj went]
  exact keeps state call inv

end Total

end KittyOs.Lib.CallRuns
