import TriggerLang.Operator
import TriggerLang.Row.Operand
/-!
# Rows

A `Row` is the primitive condition that a runtime checks once per frame: two operands, an operator
and a `Role`, which says how the row joins the rows around it.  A role is *combining* when the row
only changes the row after it.

A hit count of zero asks that the row be true now; a positive one asks for that many true frames.
-/

namespace TriggerLang

/-- The operator between the operands of a row. -/
inductive RowOp where
  /-- Only the left operand is used. -/
  | none
  /-- The row compares its operands. -/
  | relation (r : Relation)
  /-- The row computes with its operands. -/
  | arith (a : Arith)
  deriving DecidableEq, Inhabited

namespace RowOp

/-- Whether the operator yields a truth value. -/
def isRelation : RowOp → Bool
  | relation _ => true
  | none | arith _ => false

/-- The written form of an operator. -/
def symbol : RowOp → String
  | none => ""
  | relation r => r.symbol
  | arith a => a.symbol

end RowOp

/-- How a row joins the rows around it. -/
inductive Role where
  /-- A condition of its group. -/
  | plain
  /-- Progress is lost while the row is true. -/
  | resetIf
  /-- The group waits while the row is true. -/
  | pauseIf
  /-- The value is added to the left side of the next comparison. -/
  | addSource
  /-- The value is subtracted from the left side of the next comparison. -/
  | subSource
  /-- Hits are added to those of the next row. -/
  | addHits
  /-- Hits are subtracted from those of the next row. -/
  | subHits
  /-- The row is conjoined with the next one. -/
  | andNext
  /-- The row is disjoined with the next one. -/
  | orNext
  /-- The value is added to the addresses of the next row. -/
  | addAddress
  /-- The hits of the next row are lost while the row is true. -/
  | resetNextIf
  /-- The hits of the row are shown as progress. -/
  | measured
  /-- Progress is shown only while the row is true. -/
  | measuredIf
  /-- The row is the last one to come true. -/
  | trigger
  deriving DecidableEq, Inhabited

namespace Role

/-- Whether a row of this role only changes the row after it. -/
def isCombining : Role → Bool
  | addSource | subSource | addHits | subHits | andNext | orNext | addAddress | resetNextIf => true
  | plain | resetIf | pauseIf | measured | measuredIf | trigger => false

end Role

/-- One primitive condition. -/
structure Row where
  left : Operand
  op : RowOp
  right : Operand
  role : Role
  hits : UInt16
  deriving DecidableEq, Inhabited

namespace Row

/-- A plain row with an operator between two operands and no hit count. -/
def between (left : Operand) (op : RowOp) (right : Operand) : Row :=
  ⟨left, op, right, .plain, 0⟩

/-- A plain row that compares two operands. -/
def compare (left : Operand) (r : Relation) (right : Operand) : Row :=
  between left (.relation r) right

/-- A row that contributes only its left operand, in the given role. -/
def single (role : Role) (left : Operand) : Row :=
  ⟨left, .none, .word 0, role, 0⟩

/-- The row `1 == 1`. -/
def alwaysTrue : Row :=
  compare (.word 1) .equal (.word 1)

/-- The row `0 == 1`. -/
def alwaysFalse : Row :=
  compare (.word 0) .equal (.word 1)

/-- The same row in another role. -/
def withRole (row : Row) (role : Role) : Row :=
  { row with role }

/-- The same row with another hit count. -/
def withHits (row : Row) (hits : UInt16) : Row :=
  { row with hits }

@[simp] theorem role_withRole (row : Row) (role : Role) : (row.withRole role).role = role := rfl

@[simp] theorem hits_withRole (row : Row) (role : Role) : (row.withRole role).hits = row.hits := rfl

@[simp] theorem role_withHits (row : Row) (hits : UInt16) :
    (row.withHits hits).role = row.role := rfl

@[simp] theorem hits_withHits (row : Row) (hits : UInt16) : (row.withHits hits).hits = hits := rfl

end Row

end TriggerLang
