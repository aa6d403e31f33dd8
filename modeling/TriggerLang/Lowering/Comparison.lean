import TriggerLang.Expr.Text
import TriggerLang.Lowering.Emission
/-!
# Lowering of comparisons

A comparison becomes one row, after rows that bring its left side into reach.  The path of a direct
read comes right before the row, and every other read is accumulated by rows that add to the left
side or subtract from it.

The left operand of the row is the last added read of a sum that no operator applies to, or zero if
there is none.  The right operand is read through the same path as the left one.
-/

namespace TriggerLang

/-- The left side of a comparison: rows before it, the operand, and the path to the operand. -/
structure LeftSide where
  rows : List Row
  operand : Operand
  path : List Row

/-- The rows of a modified read that contribute its value in the given role. -/
def ModifiedRead.rowsAs (m : ModifiedRead) (role : Role) : List Row :=
  m.read.path ++ [m.valueRow.withRole role]

namespace ReadSum

/-- The rows that contribute terms. -/
def termRows (terms : List Term) : List Row :=
  terms.flatMap fun t => t.read.rowsAs t.role

/-- The row that contributes an offset; zero needs none. -/
def offsetRows (s : ReadSum) : List Row :=
  if s.offset = 0 then []
  else
    let role : Role := if s.offset < 0 then .subSource else .addSource
    [.single role (.word (UInt32.ofNat s.offsetSize))]

/-- A sum on the left side of a comparison. -/
def leftSide (s : ReadSum) : LeftSide :=
  match LastElement.take? Term.isBare s.terms with
  | some (t, others) =>
      let m := t.read.read
      ⟨termRows others ++ s.offsetRows ++ m.path, m.operand, m.path⟩
  | none => ⟨termRows s.terms ++ s.offsetRows, .word 0, []⟩

end ReadSum

namespace Expr

/-- The left side of a comparison; it has to read memory. -/
def leftSide? : Expr → Option LeftSide
  | .read _ m => some ⟨m.path, m.operand, m.path⟩
  | .modified _ m => some ⟨m.rowsAs .addSource, .word 0, []⟩
  | .sum _ s => some s.leftSide
  | _ => none

/-- The right operand of a comparison whose left operand is read through a path. -/
def rightOperand (path : List Row) (e : Expr) : Outcome Operand :=
  Outcome.within e.span <|
    match e with
    | .literal _ (.int n) => .ok (.word n.word)
    | .literal _ (.real x) => .ok (.real x)
    | .literal _ (.bool b) => .ok (.word (if b then 1 else 0))
    | .read _ m => if m.path = path then .ok m.operand else .fail .unrelatedPaths
    | e => .fail (.notComparable e.text)

/-- Emits the rows of a comparison. -/
def lowerComparison (left : Expr) (relation : Relation) (right : Expr) : Emission Unit :=
  match left.leftSide? with
  | none =>
      Building.within left.span
        (.fail (.incompleteCondition (Expr.compare .unknown relation left right).text))
  | some side => do
      Emission.emit side.rows
      let operand ← Building.ofOutcome (rightOperand side.path right)
      Emission.push (.compare side.operand relation operand)

end Expr

end TriggerLang
