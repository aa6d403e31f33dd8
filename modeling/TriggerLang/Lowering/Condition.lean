import TriggerLang.Evaluation
import TriggerLang.Lowering.Comparison
import TriggerLang.Lowering.Counting
/-!
# Lowering of conditions

An evaluated condition emits the rows of its group.  The operands of a conjunction come one after
another, and each but the last is joined to the next.  A call emits the rows of its condition and
then changes the last of them: a repeated condition sets its hit count, and a guarded one its role.

A disjunction has no rows of its own.  It becomes one group per operand, either as the alternates of
a trigger or as the branches of a repeated condition.
-/

namespace TriggerLang

/-- The failure of a condition at a span with more groups than a trigger may have alternates. -/
def Scope.requireAlternates {σ : Type} (scope : Scope) (span : Span) (count : Nat) :
    Building σ Unit :=
  if scope.settings.alternateLimit < count then
    .within span (.fail (.tooManyAlternates count scope.settings.alternateLimit))
  else pure ()

namespace Emission

/-- Emits the rows that count the hits of all groups together. -/
def emitCounted (span : Span) (groups : List Group) : Emission Unit :=
  match Group.countedRows? groups with
  | some rows => emit rows
  | none => .within span (.fail .modifierInRepeated)

/-- Gives the row that was emitted last a guarding role; it must not have a role yet. -/
def guardLast (g : Guard) (span : Span) : Emission Unit := do
  match (← get).getLast? with
  | some row =>
      if row.role = .plain then updateLast (·.withRole g.role)
      else .within span (.fail (.alreadyModified g.name))
  | none => .within span (.fail (.alreadyModified g.name))

end Emission

namespace Expr

/-- The row of a constant condition. -/
def constantRow (value : Bool) : Row :=
  if value then .alwaysTrue else .alwaysFalse

mutual

/-- Emits the rows of an evaluated condition. -/
def lower (scope : Scope) : Expr → Emission Unit
  | .compare s relation left right => .within s (lowerComparison left relation right)
  | .literal _ (.bool b) => Emission.push (constantRow b)
  | .always _ b => Emission.push (constantRow b)
  | .join s .all operands => .within s (lowerAll scope operands)
  | .join s .any _ => .within s (.fail .nestedOr)
  | .call s name arguments => .within s <|
      match scope.function? name with
      | none => .fail (.unknownFunction name)
      | some (.script _ _ _) => .fail (.notACondition name)
      | some (.builtin b) => lowerBuiltin scope name b arguments
  | e => .within e.span (.fail (.incompleteCondition e.text))
termination_by structural e => e

/-- Emits the rows of conjoined conditions. -/
def lowerAll (scope : Scope) : List Expr → Emission Unit
  | [] => pure ()
  | [e] => lower scope e
  | e :: e' :: es => do
      lower scope e
      Emission.joinNext
      lowerAll scope (e' :: es)
termination_by structural es => es

/-- Adds one group per condition. -/
def lowerEach (scope : Scope) : List Expr → Building (List Group) Unit
  | [] => pure ()
  | e :: es => do
      let group ← Building.ofOutcome ((lower scope e).build [])
      modify (· ++ [group])
      lowerEach scope es
termination_by structural es => es

/-- Emits the rows of a call of a built-in function under a name. -/
def lowerBuiltin (scope : Scope) (name : String) : Builtin → List Expr → Emission Unit
  | .repeated, count :: .join s .any branches :: _ => do
      let hits ← Building.ofOutcome (evaluate scope count >>= repeatCount)
      let groups ← Building.ofOutcome ((lowerEach scope branches).build [])
      scope.requireAlternates s groups.length
      Emission.emitCounted s groups
      Emission.stampLast hits
  | .repeated, count :: condition :: _ => do
      let hits ← Building.ofOutcome (evaluate scope count >>= repeatCount)
      lower scope condition
      Emission.stampLast hits
  | .repeated, [count] => do
      let _ ← Building.ofOutcome (evaluate scope count >>= repeatCount)
      .fail (.missingParameter name 2)
  | .repeated, [] => .fail (.missingParameter name 1)
  | .once, .join s .any branches :: _ => do
      let groups ← Building.ofOutcome ((lowerEach scope branches).build [])
      scope.requireAlternates s groups.length
      Emission.emitCounted s groups
      Emission.stampLast 1
  | .once, condition :: _ => do
      lower scope condition
      Emission.stampLast 1
  | .once, [] => .fail (.missingParameter name 1)
  | .guard g, .join s .any _ :: _ => .within s (.fail (.orUnderModifier g.name))
  | .guard g, condition :: _ => do
      lower scope condition
      Emission.guardLast g condition.span
  | .guard _, [] => .fail (.missingParameter name 1)
  | .read _, _ => .fail (.notACondition name)
  | .always _, _ => .fail (.notACondition name)
termination_by structural _ es => es

end

/-- Emits the rows of a call of a function under a name. -/
def lowerCall (scope : Scope) (name : String) (f : Function) (arguments : List Expr) :
    Emission Unit :=
  match f with
  | .builtin b => lowerBuiltin scope name b arguments
  | .script _ _ _ => .fail (.notACondition name)

/-- The rows of an evaluated condition by itself. -/
def group (scope : Scope) (e : Expr) : Outcome Group :=
  (lower scope e).build []

end Expr

end TriggerLang
