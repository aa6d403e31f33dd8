import TriggerLang.Expr.Text
/-!
# Arithmetic of evaluated expressions

Arithmetic on literals folds.  Sums and differences of reads and integers are collected into one sum
of reads, and every other operation on a read becomes a modified read, if its right side is an
integer or a read that the same row can reach.

What has no such form stays an arithmetic node.
-/

namespace TriggerLang

/-! ### Sums of reads as expressions -/

/-- The expression of a modified read; without a modifier it is the read itself. -/
def ModifiedRead.toExpr (m : ModifiedRead) : Expr :=
  if m.isPlain then .read .unknown m.read else .modified .unknown m

namespace ReadSum

/-- The smallest expression with the value of a sum. -/
def toExpr (s : ReadSum) : Expr :=
  if s.terms.isEmpty then .int s.offset
  else
    match s.onlyTerm? with
    | some m => if s.offset = 0 then m.toExpr else .sum .unknown s
    | none => .sum .unknown s

/-- An evaluated expression as a sum of reads. -/
def ofExpr? : Expr → Option ReadSum
  | .read _ m => some (single (.plain m))
  | .modified _ m => some (single m)
  | .sum _ s => some s
  | .literal _ (.int n) => some (constant n.value)
  | _ => none

end ReadSum

namespace Expr

/-! ### Modified reads -/

/-- Whether an operation with this integer on the right changes nothing. -/
def isNeutral (op : Arith) (n : IntLiteral) : Bool :=
  match op with
  | .multiply | .divide => n.value == 1
  | _ => false

/-- A read under an operation, as an expression. -/
def ofModified (m : MemoryRead) (op : Arith) (right : Operand) : Expr :=
  .modified .unknown ⟨m, some (.arith op, right)⟩

/-- A read, given with its expression, under an operation with an integer or a further read.  A
further read has to be direct or to share the pointer path. -/
def modifyBy (left : Expr) (m : MemoryRead) (op : Arith) (right : Expr) : Outcome (Option Expr) :=
  match right with
  | .literal s (.int n) =>
      if op.isDivision && n.isZero then (Outcome.fail .divisionByZero).within s
      else if isNeutral op n then .ok (some left)
      else .ok (some (ofModified m op (.word n.word)))
  | .read _ other =>
      if !other.isIndirect || other.path == m.path then .ok (some (ofModified m op other.operand))
      else .ok none
  | _ => .ok none

/-- The form of an operation that is neither a sum nor a difference; a commutative one may have the
read on its right side. -/
def modified? (op : Arith) (left right : Expr) : Outcome (Option Expr) :=
  match left, right with
  | .read _ m, _ => modifyBy left m op right
  | .literal _ (.int _), .read _ m =>
      if op.isCommutative then modifyBy right m op left else .ok none
  | _, _ => .ok none

/-! ### Operations on memory and on literals -/

/-- The form of an operation on evaluated operands of which one reads memory, if there is one. -/
def onMemory? (op : Arith) (left right : Expr) : Outcome (Option Expr) :=
  if !left.isMemory && !right.isMemory then .ok none
  else
    match op with
    | .add =>
        match ReadSum.ofExpr? left, ReadSum.ofExpr? right with
        | some l, some r => .ok (some (l.add r).toExpr)
        | _, _ => .ok none
    | .subtract =>
        match ReadSum.ofExpr? left, ReadSum.ofExpr? right with
        | some l, some r => .ok (some (l.subtract r).toExpr)
        | _, _ => .ok none
    | _ => modified? op left right

/-- The value of an operation on literals, if both operands are and a rule applies. -/
def onLiterals? (op : Arith) (left right : Expr) : Option (Except Cause Literal) :=
  match left, right with
  | .literal _ l, .literal _ r => l.fold? op r
  | _, _ => none

/-- An operation on evaluated operands, in its simplest form. -/
def combine (s : Span) (op : Arith) (left right : Expr) : Outcome Expr :=
  match onLiterals? op left right with
  | some (.ok v) => .ok (.literal s v)
  | some (.error cause) => (Outcome.fail cause).within s
  | none =>
      match onMemory? op left right with
      | .ok (some e) => .ok (e.moveTo s)
      | .ok none => .ok (.arith s op left right)
      | .error d => .error d

/-- A folded operation as an expression: a failed rule gives an error node. -/
def ofFold : Except Cause Literal → Expr
  | .ok v => ofLiteral v
  | .error cause => .error .unknown cause.message

end Expr

end TriggerLang
