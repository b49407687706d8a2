import Mathlib.Data.List.Basic

/-!
# Radix forests

Tables hold entries in indexed slots; `next` reads the child table an entry
refers to at a given depth. A walk follows a path of indexes from a root, and
its trail lists the entries it reads, the last of them included when it refers
to no table. A root may own only some of its first slots: what lies behind the
others belongs to somebody else. In a forest no table is reached twice. The two
updates are rewriting an entry that keeps its child, and linking a blank table
into an empty slot; each changes the trails through its own slot and no others.
-/

namespace KittyOs.Lib.RadixForest

set_option autoImplicit false

variable {Frame Index Entry : Type*} (next : Nat → Entry → Option Frame)

def walk (slots : Frame → Index → Entry) : Nat → Frame → List Index → Option Frame
  | _, table, [] => some table
  | depth, table, index :: rest =>
      (next depth (slots table index)).bind fun child => walk slots (depth + 1) child rest

def trail (slots : Frame → Index → Entry) : Nat → Frame → List Index → List Entry
  | _, _, [] => []
  | depth, table, index :: rest =>
      slots table index ::
        (match next depth (slots table index) with
        | some child => trail slots (depth + 1) child rest
        | none => [])

section Paths

variable {next} {slots other : Frame → Index → Entry}

theorem walk_linked {depth : Nat} {table child : Frame} {index : Index}
    (linked : next depth (slots table index) = some child) (rest : List Index) :
    walk next slots depth table (index :: rest) = walk next slots (depth + 1) child rest := by
  simp only [walk, linked, Option.bind_some]

theorem trail_linked {depth : Nat} {table child : Frame} {index : Index}
    (linked : next depth (slots table index) = some child) (rest : List Index) :
    trail next slots depth table (index :: rest) =
      slots table index :: trail next slots (depth + 1) child rest := by
  simp only [trail, linked]

theorem trail_stopped {depth : Nat} {table : Frame} {index : Index}
    (stopped : next depth (slots table index) = none) (rest : List Index) :
    trail next slots depth table (index :: rest) = [slots table index] := by
  simp only [trail, stopped]

theorem walk_append (depth : Nat) (table : Frame) (path rest : List Index) :
    walk next slots depth table (path ++ rest) =
      (walk next slots depth table path).bind fun reached =>
        walk next slots (depth + path.length) reached rest := by
  induction path generalizing depth table with
  | nil => simp [walk]
  | cons index path ih =>
      simp only [List.cons_append, walk, List.length_cons]
      cases next depth (slots table index) with
      | none => rfl
      | some child =>
          simp only [Option.bind_some, ih]
          rw [show depth + 1 + path.length = depth + (path.length + 1) by omega]

theorem trail_append {depth : Nat} {table reached : Frame} {path : List Index}
    (walked : walk next slots depth table path = some reached) (rest : List Index) :
    trail next slots depth table (path ++ rest) =
      trail next slots depth table path ++
        trail next slots (depth + path.length) reached rest := by
  induction path generalizing depth table with
  | nil =>
      have same : table = reached := Option.some.inj walked
      simp [trail, same]
  | cons index path ih =>
      obtain ⟨child, linked, later⟩ := Option.bind_eq_some_iff.mp walked
      have tail := ih later
      simp only [List.cons_append, trail, linked, tail, List.length_cons]
      rw [show depth + 1 + path.length = depth + (path.length + 1) by omega]

theorem trail_length {depth : Nat} {table reached : Frame} {path : List Index}
    (walked : walk next slots depth table path = some reached) :
    (trail next slots depth table path).length = path.length := by
  induction path generalizing depth table with
  | nil => rfl
  | cons index path ih =>
      obtain ⟨child, linked, later⟩ := Option.bind_eq_some_iff.mp walked
      simp [trail, linked, ih later]

/-- A walk reads children only, at the slots of its own path. -/
theorem walk_congr {depth : Nat} {table : Frame} {path : List Index}
    (same : ∀ before index after reached, path = before ++ index :: after →
      walk next slots depth table before = some reached →
        next (depth + before.length) (other reached index) =
          next (depth + before.length) (slots reached index)) :
    walk next other depth table path = walk next slots depth table path := by
  induction path generalizing depth table with
  | nil => rfl
  | cons index path ih =>
      have first := same [] index path table rfl rfl
      simp only [List.length_nil, Nat.add_zero] at first
      simp only [walk, first]
      cases linked : next depth (slots table index) with
      | none => rfl
      | some child =>
          simp only [Option.bind_some]
          apply ih
          intro before later after reached split walked
          have whole := same (index :: before) later after reached (by rw [split]; rfl)
            (by simp only [walk, linked, Option.bind_some, walked])
          rw [List.length_cons, show depth + (before.length + 1) = depth + 1 + before.length by
            omega] at whole
          exact whole

theorem trail_congr {depth : Nat} {table : Frame} {path : List Index}
    (same : ∀ before index after reached, path = before ++ index :: after →
      walk next slots depth table before = some reached →
        other reached index = slots reached index) :
    trail next other depth table path = trail next slots depth table path := by
  induction path generalizing depth table with
  | nil => rfl
  | cons index path ih =>
      have first := same [] index path table rfl rfl
      simp only [trail, first]
      cases linked : next depth (slots table index) with
      | none => rfl
      | some child =>
          congr 1
          apply ih
          intro before later after reached split walked
          exact same (index :: before) later after reached (by rw [split]; rfl)
            (by simp only [walk, linked, Option.bind_some, walked])

end Paths

variable (roots : Frame → Prop) (owns : Frame → Index → Prop)

/-- The first index of an owned path is a slot the root owns. -/
def Owned (root : Frame) : List Index → Prop
  | [] => True
  | index :: _ => owns root index

structure Reaches (slots : Frame → Index → Entry) (root : Frame) (path : List Index)
    (table : Frame) : Prop where
  live : roots root
  owned : Owned owns root path
  walked : walk next slots 0 root path = some table

def Forest (slots : Frame → Index → Entry) : Prop :=
  ∀ ⦃root path root' path' table⦄, Reaches next roots owns slots root path table →
    Reaches next roots owns slots root' path' table → root = root' ∧ path = path'

/-- The path goes through slot `index` of the table that `before` reaches. -/
def Through (root : Frame) (before : List Index) (index : Index) (other : Frame)
    (path : List Index) : Prop :=
  other = root ∧ ∃ after, path = before ++ index :: after

/-- Outside one slot the two maps agree on every owned slot of every table reached. -/
def DiffersOnlyAt (slots other : Frame → Index → Entry) (table : Frame) (index : Index) : Prop :=
  ∀ root path reached slot, Reaches next roots owns slots root path reached →
    Owned owns root (path ++ [slot]) → ¬(reached = table ∧ slot = index) →
      other reached slot = slots reached slot

/-- `child` was reached by nobody, is blank now, and hangs in the slot alone. -/
structure LinksBlank (slots other : Frame → Index → Entry) (root : Frame) (path : List Index)
    (table : Frame) (index : Index) (child : Frame) : Prop where
  reached : Reaches next roots owns slots root path table
  slotOwned : Owned owns root (path ++ [index])
  empty : next path.length (slots table index) = none
  linked : next path.length (other table index) = some child
  fresh : ∀ start route, ¬Reaches next roots owns slots start route child
  blank : ∀ slot, next (path.length + 1) (other child slot) = none
  differs : DiffersOnlyAt next roots owns slots other table index

section Updates

variable {next roots owns} {slots other : Frame → Index → Entry}
variable {root table : Frame} {path : List Index} {index : Index}

theorem Owned.initial {before after : List Index} (owned : Owned owns root (before ++ after)) :
    Owned owns root before := by
  cases before with
  | nil => trivial
  | cons first rest => exact owned

theorem Owned.along {route path : List Index} (owned : Owned owns root path)
    (early : route <+: path) : Owned owns root route := by
  obtain ⟨after, whole⟩ := early
  rw [← whole] at owned
  exact owned.initial

theorem Owned.through {before after : List Index}
    (owned : Owned owns root (before ++ index :: after)) :
    Owned owns root (before ++ [index]) := by
  cases before with
  | nil => exact owned
  | cons first rest => exact owned

theorem Owned.extend {before : List Index} (owned : Owned owns root (before ++ [index]))
    (after : List Index) : Owned owns root (before ++ index :: after) := by
  cases before with
  | nil => exact owned
  | cons first rest => exact owned

/-- Walks and trails that avoid the changed slot are unchanged. -/
theorem untouched (forest : Forest next roots owns slots)
    (reached : Reaches next roots owns slots root path table)
    (differs : DiffersOnlyAt next roots owns slots other table index)
    {start : Frame} {route : List Index} (live : roots start) (owned : Owned owns start route)
    (avoids : ¬Through root path index start route) :
    walk next other 0 start route = walk next slots 0 start route ∧
      trail next other 0 start route = trail next slots 0 start route := by
  have same : ∀ before slot after through, route = before ++ slot :: after →
      walk next slots 0 start before = some through →
        other through slot = slots through slot := by
    intro before slot after through split walked
    rw [split] at owned
    have here : Reaches next roots owns slots start before through :=
      ⟨live, owned.initial, walked⟩
    apply differs start before through slot here owned.through
    intro atSlot
    rw [atSlot.1] at here
    obtain ⟨sameRoot, samePath⟩ := forest here reached
    exact avoids ⟨sameRoot, after, by rw [split, samePath, atSlot.2]⟩
  constructor
  · exact walk_congr fun before slot after through split walked => by
      rw [same before slot after through split walked]
  · exact trail_congr same

/-- Maps that agree on every owned slot of every table reached reach the same tables. -/
theorem agree_walk
    (agree : ∀ start route target slot, Reaches next roots owns slots start route target →
      Owned owns start (route ++ [slot]) → other target slot = slots target slot)
    {start : Frame} {route : List Index} (live : roots start) (owned : Owned owns start route) :
    walk next other 0 start route = walk next slots 0 start route := by
  apply walk_congr
  intro before slot after through split walked
  rw [split] at owned
  rw [agree start before through slot ⟨live, owned.initial, walked⟩ owned.through]

theorem agree_reaches
    (agree : ∀ start route target slot, Reaches next roots owns slots start route target →
      Owned owns start (route ++ [slot]) → other target slot = slots target slot)
    {start : Frame} {route : List Index} {target : Frame} :
    Reaches next roots owns other start route target ↔
      Reaches next roots owns slots start route target := by
  constructor
  · intro here
    exact ⟨here.live, here.owned, (agree_walk agree here.live here.owned).symm.trans here.walked⟩
  · intro here
    exact ⟨here.live, here.owned, (agree_walk agree here.live here.owned).trans here.walked⟩

theorem walk_through (reached : Reaches next roots owns slots root path table)
    (after : List Index) :
    walk next slots 0 root (path ++ index :: after) =
      (next path.length (slots table index)).bind fun child =>
        walk next slots (path.length + 1) child after := by
  rw [walk_append, reached.walked]
  simp only [Option.bind_some, walk, Nat.zero_add]

theorem trail_through (reached : Reaches next roots owns slots root path table)
    (after : List Index) :
    trail next slots 0 root (path ++ index :: after) =
      trail next slots 0 root path ++ slots table index ::
        (match next path.length (slots table index) with
        | some child => trail next slots (path.length + 1) child after
        | none => []) := by
  rw [trail_append reached.walked]
  simp only [trail, Nat.zero_add]

theorem trail_last (reached : Reaches next roots owns slots root path table) (index : Index) :
    trail next slots 0 root (path ++ [index]) =
      trail next slots 0 root path ++ [slots table index] := by
  rw [trail_through reached []]
  cases next path.length (slots table index) with
  | none => rfl
  | some child => rfl

theorem initial_avoids : ¬Through root path index root path := by
  intro through
  obtain ⟨_, after, same⟩ := through
  have lengths := congrArg List.length same
  simp at lengths

theorem reaches_initial_kept (forest : Forest next roots owns slots)
    (reached : Reaches next roots owns slots root path table)
    (differs : DiffersOnlyAt next roots owns slots other table index) :
    Reaches next roots owns other root path table ∧
      trail next other 0 root path = trail next slots 0 root path := by
  obtain ⟨walkSame, trailSame⟩ :=
    untouched forest reached differs reached.live reached.owned initial_avoids
  exact ⟨⟨reached.live, reached.owned, walkSame.trans reached.walked⟩, trailSame⟩

/-! ### Rewriting an entry that keeps its child -/

theorem rewrite_walk
    (reached : Reaches next roots owns slots root path table)
    (forest : Forest next roots owns slots)
    (differs : DiffersOnlyAt next roots owns slots other table index)
    (child : next path.length (other table index) = next path.length (slots table index))
    {start : Frame} {route : List Index} (live : roots start) (owned : Owned owns start route) :
    walk next other 0 start route = walk next slots 0 start route := by
  apply walk_congr
  intro before slot after through split walked
  rw [Nat.zero_add]
  rw [split] at owned
  have here : Reaches next roots owns slots start before through := ⟨live, owned.initial, walked⟩
  by_cases atSlot : through = table ∧ slot = index
  · rw [atSlot.1] at here
    obtain ⟨_, samePath⟩ := forest here reached
    rw [atSlot.1, atSlot.2, samePath]
    exact child
  · rw [differs start before through slot here owned.through atSlot]

theorem rewrite_reaches
    (reached : Reaches next roots owns slots root path table)
    (forest : Forest next roots owns slots)
    (differs : DiffersOnlyAt next roots owns slots other table index)
    (child : next path.length (other table index) = next path.length (slots table index))
    {start : Frame} {route : List Index} {target : Frame} :
    Reaches next roots owns other start route target ↔
      Reaches next roots owns slots start route target := by
  constructor
  · intro here
    refine ⟨here.live, here.owned, ?_⟩
    rw [← rewrite_walk reached forest differs child here.live here.owned]
    exact here.walked
  · intro here
    refine ⟨here.live, here.owned, ?_⟩
    rw [rewrite_walk reached forest differs child here.live here.owned]
    exact here.walked

theorem rewrite_forest
    (reached : Reaches next roots owns slots root path table)
    (forest : Forest next roots owns slots)
    (differs : DiffersOnlyAt next roots owns slots other table index)
    (child : next path.length (other table index) = next path.length (slots table index)) :
    Forest next roots owns other := by
  intro start route start' route' target first second
  rw [rewrite_reaches reached forest differs child] at first second
  exact forest first second

/-- A trail through the rewritten slot shows the new entry there and nothing else. -/
theorem rewrite_trail
    (reached : Reaches next roots owns slots root path table)
    (forest : Forest next roots owns slots)
    (differs : DiffersOnlyAt next roots owns slots other table index)
    (slotOwned : Owned owns root (path ++ [index]))
    (child : next path.length (other table index) = next path.length (slots table index))
    (after : List Index) :
    ∃ rest,
      trail next slots 0 root (path ++ index :: after) =
        trail next slots 0 root path ++ slots table index :: rest ∧
      trail next other 0 root (path ++ index :: after) =
        trail next slots 0 root path ++ other table index :: rest := by
  obtain ⟨kept, keptTrail⟩ := reaches_initial_kept forest reached differs
  refine ⟨_, trail_through reached after, ?_⟩
  rw [trail_through kept after, keptTrail, child]
  cases linked : next path.length (slots table index) with
  | none => rfl
  | some below =>
      dsimp only
      congr 2
      apply trail_congr
      intro before slot later through split walked
      have route : Reaches next roots owns slots root (path ++ index :: before) through := by
        refine ⟨reached.live, slotOwned.extend before, ?_⟩
        rw [walk_through reached before, linked]
        exact walked
      apply differs root _ through slot route
      · rw [List.append_assoc, List.cons_append]
        exact slotOwned.extend _
      · intro atSlot
        rw [atSlot.1] at route
        have lengths := congrArg List.length (forest route reached).2
        simp at lengths

/-! ### Linking a blank table into an empty slot -/

variable {child : Frame}

theorem LinksBlank.stopped
    (links : LinksBlank next roots owns slots other root path table index child) (after : List Index) :
    walk next slots 0 root (path ++ index :: after) = none ∧
      trail next slots 0 root (path ++ index :: after) =
        trail next slots 0 root path ++ [slots table index] := by
  constructor
  · rw [walk_through links.reached, links.empty]
    rfl
  · rw [trail_through links.reached, links.empty]

theorem LinksBlank.extended
    (links : LinksBlank next roots owns slots other root path table index child)
    (forest : Forest next roots owns slots) (after : List Index) :
    walk next other 0 root (path ++ index :: after) =
        (if after.isEmpty then some child else none) ∧
      trail next other 0 root (path ++ index :: after) =
        trail next slots 0 root path ++ other table index ::
          (after.head?.map (other child)).toList := by
  obtain ⟨kept, keptTrail⟩ := reaches_initial_kept forest links.reached links.differs
  constructor
  · rw [walk_through kept, links.linked]
    cases after with
    | nil => rfl
    | cons slot later => simp [walk, links.blank slot]
  · rw [trail_through kept, keptTrail, links.linked]
    cases after with
    | nil => rfl
    | cons slot later => simp [trail, links.blank slot]

theorem LinksBlank.reaches_iff
    (links : LinksBlank next roots owns slots other root path table index child)
    (forest : Forest next roots owns slots)
    {start : Frame} {route : List Index} {target : Frame} :
    Reaches next roots owns other start route target ↔
      Reaches next roots owns slots start route target ∨
        (start = root ∧ route = path ++ [index] ∧ target = child) := by
  by_cases through : Through root path index start route
  · obtain ⟨sameRoot, after, sameRoute⟩ := through
    subst start
    subst route
    have before : ¬Reaches next roots owns slots root (path ++ index :: after) target := by
      intro here
      have walked := here.walked
      rw [(links.stopped after).1] at walked
      exact absurd walked (by simp)
    constructor
    · intro here
      have walked := here.walked
      rw [(links.extended forest after).1] at walked
      cases after with
      | nil => exact Or.inr ⟨rfl, rfl, (Option.some.inj walked).symm⟩
      | cons slot later => simp at walked
    · intro cases
      rcases cases with here | here
      · exact absurd here before
      · have last : after = [] := by simpa using here.2.1
        subst last
        refine ⟨links.reached.live, links.slotOwned, ?_⟩
        rw [(links.extended forest []).1, here.2.2]
        rfl
  · have notNew : ¬(start = root ∧ route = path ++ [index] ∧ target = child) := by
      intro here
      exact through ⟨here.1, [], here.2.1⟩
    rw [or_iff_left notNew]
    constructor
    · intro here
      refine ⟨here.live, here.owned, ?_⟩
      rw [← (untouched forest links.reached links.differs here.live here.owned through).1]
      exact here.walked
    · intro here
      refine ⟨here.live, here.owned, ?_⟩
      rw [(untouched forest links.reached links.differs here.live here.owned through).1]
      exact here.walked

theorem LinksBlank.forest
    (links : LinksBlank next roots owns slots other root path table index child)
    (forest : Forest next roots owns slots) :
    Forest next roots owns other := by
  intro start route start' route' target first second
  rw [links.reaches_iff forest] at first second
  rcases first with first | first <;> rcases second with second | second
  · exact forest first second
  · rw [second.2.2] at first
    exact absurd first (links.fresh start route)
  · rw [first.2.2] at second
    exact absurd second (links.fresh start' route')
  · exact ⟨first.1.trans second.1.symm, first.2.1.trans second.2.1.symm⟩

/-! ### A further root -/

variable {grown : Frame → Prop} {added : Frame}

/-- A root whose owned slots refer to no table reaches nothing but itself. -/
theorem add_root_reaches (grows : ∀ frame, grown frame ↔ frame = added ∨ roots frame)
    (blank : ∀ slot, owns added slot → next 0 (slots added slot) = none) {start : Frame}
    {route : List Index} {target : Frame} :
    Reaches next grown owns slots start route target ↔
      (start = added ∧ route = [] ∧ target = added) ∨
        Reaches next roots owns slots start route target := by
  constructor
  · intro here
    rcases (grows start).mp here.live with new | old
    · subst new
      left
      cases route with
      | nil => exact ⟨rfl, rfl, (Option.some.inj here.walked).symm⟩
      | cons slot rest =>
          have walked := here.walked
          rw [walk, blank slot here.owned] at walked
          exact absurd walked (by simp)
    · exact Or.inr ⟨old, here.owned, here.walked⟩
  · rintro (⟨rfl, rfl, rfl⟩ | here)
    · exact ⟨(grows _).mpr (Or.inl rfl), trivial, rfl⟩
    · exact ⟨(grows _).mpr (Or.inr here.live), here.owned, here.walked⟩

theorem add_root_forest (grows : ∀ frame, grown frame ↔ frame = added ∨ roots frame)
    (blank : ∀ slot, owns added slot → next 0 (slots added slot) = none)
    (fresh : ∀ start route, ¬Reaches next roots owns slots start route added)
    (forest : Forest next roots owns slots) : Forest next grown owns slots := by
  intro start route start' route' target first second
  rw [add_root_reaches grows blank] at first second
  rcases first with ⟨rfl, rfl, rfl⟩ | first
  · rcases second with ⟨rfl, rfl, _⟩ | second
    · exact ⟨rfl, rfl⟩
    · exact absurd second (fresh start' route')
  · rcases second with ⟨rfl, rfl, rfl⟩ | second
    · exact absurd first (fresh start route)
    · exact forest first second

end Updates

end KittyOs.Lib.RadixForest
