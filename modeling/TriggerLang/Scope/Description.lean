import TriggerLang.Scope.Basic
import TriggerLang.Text.Quoted
/-!
# Descriptions of scopes

A scope is described by its innermost frame: the names of the variables in order, the number of
functions, and how the frame stands among the others.  Names are quoted.
-/

namespace TriggerLang.Scope

/-- The names of the variables of the innermost frame, sorted. -/
def variableNames (s : Scope) : List String :=
  (s.frame.bindings.map Prod.fst).mergeSort fun a b => decide (a ≤ b)

/-- A description of the innermost frame. -/
def describe (s : Scope) : String :=
  "InterpreterScope \x7b variables: [" ++ ", ".intercalate (s.variableNames.map Text.quoted) ++
    "], functions: " ++ toString s.frame.functions.length ++
    ", in_trigger_clause: " ++ toString s.frame.opensClause ++
    ", depth: " ++ toString s.depth ++
    ", has_parent: " ++ toString (!s.outer.isEmpty) ++ " \x7d"

end TriggerLang.Scope
