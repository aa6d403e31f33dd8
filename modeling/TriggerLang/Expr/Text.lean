import TriggerLang.Expr.Basic
/-!
# Written expressions

The text of an expression names it in diagnostics.  Operands of operators are put in parentheses
when they are joined by an operator themselves.
-/

namespace TriggerLang.Expr

/-- Whether an operand of this form is put in parentheses. -/
def needsParentheses : Expr → Bool
  | arith .. | compare .. | join .. | sum .. => true
  | _ => false

/-- The text of an operand, given its own text. -/
def enclose (e : Expr) (text : String) : String :=
  if e.needsParentheses then "(" ++ text ++ ")" else text

/-- The text of a call, given the texts of its arguments. -/
def callText (function : String) (arguments : List String) : String :=
  function ++ "(" ++ ", ".intercalate arguments ++ ")"

mutual

/-- The written form of an expression. -/
def text : Expr → String
  | literal _ v => v.written
  | var _ name => name
  | arith _ op l r => l.enclose l.text ++ " " ++ op.symbol ++ " " ++ r.enclose r.text
  | compare _ rel l r => l.enclose l.text ++ " " ++ rel.symbol ++ " " ++ r.enclose r.text
  | join _ c es => (" " ++ c.symbol ++ " ").intercalate (operandTexts es)
  | negate _ es => negationSymbol ++ (operandTexts es).headD ""
  | call _ f es => callText f (texts es)
  | read _ m => m.text
  | modified _ m => m.text
  | sum _ s => s.text
  | always _ b => if b then "always_true()" else "always_false()"
  | returned _ e => "return " ++ e.text
  | error _ t => "error(\"" ++ t ++ "\")"

/-- The texts of a list of expressions. -/
def texts : List Expr → List String
  | [] => []
  | e :: es => e.text :: texts es

/-- The texts of a list of expressions as operands. -/
def operandTexts : List Expr → List String
  | [] => []
  | e :: es => e.enclose e.text :: operandTexts es

end

end TriggerLang.Expr
