import TriggerLang.Row.Basic
/-!
# Triggers

A `Trigger` is a core group of rows and any number of alternate groups.  It is satisfied when the
core is, and, if there are alternates, at least one of them is too.
-/

namespace TriggerLang

/-- Rows that hold together, in the order in which the runtime reads them. -/
abbrev Group := List Row

/-- A core group and alternate groups. -/
structure Trigger where
  core : Group := []
  alternates : List Group := []
  deriving DecidableEq, Inhabited

namespace Trigger

/-- The trigger without rows. -/
def empty : Trigger := {}

/-- Every row, the core first and then each alternate in order. -/
def rows (t : Trigger) : List Row :=
  t.core ++ t.alternates.flatten

/-- The number of rows in all groups. -/
def size (t : Trigger) : Nat :=
  t.rows.length

/-- Whether no group has a row. -/
def isEmpty (t : Trigger) : Bool :=
  t.size == 0

/-- A trigger is empty exactly when it has no row. -/
theorem isEmpty_iff (t : Trigger) : t.isEmpty = true ↔ t.rows = [] := by
  simp [isEmpty, size, List.length_eq_zero_iff]

end Trigger

end TriggerLang
