import TriggerLang.Diagnostic
import TriggerLang.Literal.Folding
import TriggerLang.Memory.Sum
import TriggerLang.Operator
/-!
# Expressions

An `Expr` is a parsed script expression or the result of evaluating one.  Names, operators and calls
come from scripts; reads of memory, their sums and the constant conditions `always_true()` and
`always_false()` come out of evaluation.

Every node carries the span that it was read from, and nodes that evaluation makes carry the unknown
one.
-/

namespace TriggerLang

/-- A script expression. -/
inductive Expr where
  | literal (span : Span) (value : Literal)
  | var (span : Span) (name : String)
  | arith (span : Span) (op : Arith) (left right : Expr)
  | compare (span : Span) (relation : Relation) (left right : Expr)
  | join (span : Span) (connective : Connective) (operands : List Expr)
  | negate (span : Span) (operands : List Expr)
  | call (span : Span) (function : String) (arguments : List Expr)
  | read (span : Span) (read : MemoryRead)
  | modified (span : Span) (read : ModifiedRead)
  | sum (span : Span) (sum : ReadSum)
  | always (span : Span) (value : Bool)
  | returned (span : Span) (value : Expr)
  | error (span : Span) (text : String)
  deriving Inhabited

namespace Expr

/-! ### Spans -/

/-- The span that an expression was read from. -/
def span : Expr → Span
  | literal s _ | var s _ | arith s _ _ _ | compare s _ _ _ | join s _ _ | negate s _ | call s _ _
  | read s _ | modified s _ | sum s _ | always s _ | returned s _ | error s _ => s

/-- The same expression with another span. -/
def moveTo (s : Span) : Expr → Expr
  | literal _ v => literal s v
  | var _ n => var s n
  | arith _ o l r => arith s o l r
  | compare _ o l r => compare s o l r
  | join _ c es => join s c es
  | negate _ es => negate s es
  | call _ f es => call s f es
  | read _ m => read s m
  | modified _ m => modified s m
  | sum _ t => sum s t
  | always _ b => always s b
  | returned _ e => returned s e
  | error _ t => error s t

/-- The same expression with another span, if its own is unknown. -/
def moveIfUnknown (s : Span) (e : Expr) : Expr :=
  if e.span.isUnknown then e.moveTo s else e

@[simp] theorem span_moveTo (s : Span) (e : Expr) : (e.moveTo s).span = s := by
  cases e <;> rfl

@[simp] theorem moveTo_moveTo (s t : Span) (e : Expr) : (e.moveTo s).moveTo t = e.moveTo t := by
  cases e <;> rfl

@[simp] theorem moveTo_span (e : Expr) : e.moveTo e.span = e := by
  cases e <;> rfl

/-! ### Nodes without a span -/

/-- A literal. -/
def ofLiteral (v : Literal) : Expr :=
  literal .unknown v

/-- A signed integer. -/
def int (value : Int32) : Expr :=
  ofLiteral (.int (.signed value))

/-- A truth value. -/
def bool (b : Bool) : Expr :=
  ofLiteral (.bool b)

/-- A value returned from a function body, with the span of the value. -/
def returning (value : Expr) : Expr :=
  returned value.span value

/-! ### Kinds of nodes -/

/-- The literal that an expression is. -/
def literal? : Expr → Option Literal
  | literal _ v => some v
  | _ => none

/-- The integer that an expression is. -/
def int? : Expr → Option IntLiteral
  | literal _ (.int n) => some n
  | _ => none

/-- Whether an expression is a literal. -/
def isLiteral (e : Expr) : Bool :=
  e.literal?.isSome

/-- Whether no frame of the game can change the value of an expression. -/
def isConstant : Expr → Bool
  | literal _ _ | always _ _ => true
  | _ => false

/-- Whether an expression is a given truth value. -/
def isBool (b : Bool) : Expr → Bool
  | literal _ (.bool b') => b' == b
  | _ => false

/-- Whether an expression is an error node. -/
def isError : Expr → Bool
  | error _ _ => true
  | _ => false

/-- Whether an expression is a disjunction. -/
def isOr : Expr → Bool
  | join _ .any _ => true
  | _ => false

/-- Whether an expression reads memory by itself. -/
def isMemory : Expr → Bool
  | read _ _ | modified _ _ | sum _ _ => true
  | _ => false

/-- Whether an expression can be the left operand of folded arithmetic. -/
def isFoldable : Expr → Bool
  | literal _ v => Literal.isFoldable v
  | _ => false

/-- Whether a comparison with this left side may have a simpler form. -/
def isNormalizable : Expr → Bool
  | literal _ _ | sum _ _ => true
  | _ => false

/-- An error node is a failure, and any other expression a result. -/
def toOutcome : Expr → Outcome Expr
  | error s text => (Outcome.fail (.reported .fold text)).within s
  | e => .ok e

end Expr

end TriggerLang
