import TriggerLang.Lowering.Condition
/-!
# Compilation

A condition compiles to a trigger: it is evaluated inside a trigger clause, and the result is
divided into the core and the alternates.  Each operand of an outer disjunction becomes an
alternate.  Where disjunctions stand in an outer conjunction, the other operands make the core, and
there is one alternate for every way of taking one operand from each disjunction.
-/

namespace TriggerLang

namespace Expr

/-- The conjunction of conditions; a single condition stands for itself. -/
def conjunction : List Expr → Expr
  | [e] => e
  | es => .join .unknown .all es

/-- The operands of a connective. -/
def operands : Expr → List Expr
  | .join _ _ es => es
  | _ => []

/-- Every way of extending one of the choices by an operand of each disjunction, the last one
varying fastest.  The number of choices is checked against a limit, of which a part is already used.
-/
def choices (limit used : Nat) : List (List Expr) → List Expr → Outcome (List (List Expr))
  | chosen, [] => .ok chosen
  | chosen, disjunction :: rest =>
      let count := chosen.length * disjunction.operands.length
      if limit < used + count then .fail (.tooManyAlternates (used + count) limit)
      else
        choices limit used (chosen.flatMap fun c => disjunction.operands.map fun e => c ++ [e]) rest

/-- One conjunction for every way of taking an operand from each disjunction. -/
def distribute (settings : Settings) (used : Nat) (disjunctions : List Expr) :
    Outcome (List Expr) :=
  if 1 < disjunctions.length ∧ settings.expandNestedOr = false then .fail .severalOrs
  else (choices settings.alternateLimit used [[]] disjunctions).map (·.map conjunction)

end Expr

namespace Trigger

/-- Adds rows to the core. -/
def extendCore (group : Group) : Building Trigger Unit :=
  modify fun t => { t with core := t.core ++ group }

/-- Adds one alternate per condition. -/
def addAlternates (scope : Scope) (conditions : List Expr) : Building Trigger Unit := fun t =>
  match (Expr.lowerEach scope conditions).run t.alternates with
  | .ok _ alternates => .ok () { t with alternates }
  | .error d alternates => .error d { t with alternates }

/-- Adds the rows of an evaluated condition, without a check of the number of alternates. -/
def addGroups (scope : Scope) : Expr → Building Trigger Unit
  | .join _ .any operands => addAlternates scope operands
  | .join s .all operands =>
      if operands.any Expr.isOr then do
        let rest := operands.filter (!·.isOr)
        if !rest.isEmpty then
          extendCore (← Building.ofOutcome (Expr.group scope (Expr.conjunction rest)))
        let used := (← get).alternates.length
        let conditions ←
          Building.ofOutcome (Expr.distribute scope.settings used (operands.filter Expr.isOr))
        addAlternates scope conditions
      else do
        extendCore (← Building.ofOutcome (Expr.group scope (.join s .all operands)))
  | e => do
      extendCore (← Building.ofOutcome (Expr.group scope e))

/-- Adds the rows of an evaluated condition to a trigger under construction. -/
def addCondition (scope : Scope) (e : Expr) : Building Trigger Unit := do
  addGroups scope e
  scope.requireAlternates e.span (← get).alternates.length

end Trigger

/-- The trigger that a condition compiles to. -/
def compile (scope : Scope) (e : Expr) : Outcome Trigger := do
  let value ← Expr.evaluate scope.clause e
  (Trigger.addCondition scope.clause value).build .empty

end TriggerLang
