/-!
# Settings

The settings of a compilation bound what it may produce.  They are fixed at the root scope and hold
in every scope below it.
-/

namespace TriggerLang

/-- What a compilation may produce. -/
structure Settings where
  /-- The greatest number of alternate groups of a trigger. -/
  alternateLimit : Nat := 32
  /-- Whether several disjunctions under one conjunction are multiplied out. -/
  expandNestedOr : Bool := true
  /-- The greatest nesting of calls of script functions. -/
  callDepthLimit : Nat := 64
  deriving DecidableEq, Inhabited

end TriggerLang
