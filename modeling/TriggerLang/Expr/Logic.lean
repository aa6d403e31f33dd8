import TriggerLang.Expr.Text
/-!
# Logic of evaluated expressions

Conjunctions and disjunctions are flat and hold no truth values: a truth value decides its
connective or drops out, operands under the same connective are spliced in, and a connective with
one operand is that operand.

Negation moves to the leaves.  Comparisons and constant conditions have a negation of their own, and
the two connectives are dual.
-/

namespace TriggerLang.Expr

/-- What an operand contributes to a connective that it does not decide. -/
def operandsUnder (c : Connective) : Expr → List Expr
  | .literal _ (.bool _) => []
  | .join s c' es => if c' = c then es else [.join s c' es]
  | e => [e]

/-- Evaluated operands under a connective, in flat form. -/
def joinAll (c : Connective) (operands : List Expr) : Expr :=
  if operands.any (·.isBool c.absorbing) then .bool c.absorbing
  else
    match operands.flatMap (operandsUnder c) with
    | [] => .bool !c.absorbing
    | [e] => e
    | es => .join .unknown c es

mutual

/-- The negation of an evaluated expression, at the same span. -/
def negated : Expr → Outcome Expr
  | .literal s (.bool b) => .ok (.literal s (.bool !b))
  | .always s b => .ok (.always s !b)
  | .compare s r left right => .ok (.compare s r.negation left right)
  | .negate s [e] => .ok (e.moveTo s)
  | .join s c es => do
      let es ← negatedAll es
      pure ((joinAll c.dual es).moveTo s)
  | e => (Outcome.fail (.cannotNegate e.text)).within e.span

/-- The negations of a list of expressions, or the first failure. -/
def negatedAll : List Expr → Outcome (List Expr)
  | [] => .ok []
  | e :: es => do
      let e ← negated e
      let es ← negatedAll es
      pure (e :: es)

end

end TriggerLang.Expr
