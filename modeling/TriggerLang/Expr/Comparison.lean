import TriggerLang.Expr.Arithmetic
/-!
# Comparisons in normal form

A comparison of literals is decided.  A literal stands on the right side of any other comparison,
and an integer on the right side takes up the offset of a sum on the left.

A sum of added reads is never below zero nor above the greatest word, so a comparison with an
integer that leaves this range is decided too.  With a subtracted read the offset stays where it is.
-/

namespace TriggerLang

/-- A simpler form of a comparison. -/
inductive Verdict where
  | decided (truth : Bool)
  | comparison (left : Expr) (relation : Relation) (right : Expr)
  deriving Inhabited

/-- The expression of a simpler form. -/
def Verdict.toExpr : Verdict → Expr
  | decided b => .bool b
  | comparison l r e => .compare .unknown r l e

namespace IntLiteral

/-- The integer of a number between zero and the greatest word; it is signed if the given one is and
if it fits. -/
def relabel (n : IntLiteral) (k : Int) : IntLiteral :=
  if !n.unsigned && k < 2147483648 then .signed (Int32.ofInt k) else .ofWord (UInt32.ofNat k.toNat)

end IntLiteral

namespace ReadSum

/-- The comparison of a sum with an integer, with the offset taken to the right side. -/
def takeOffset (s : ReadSum) (relation : Relation) (place : Span) (n : IntLiteral) :
    Option Verdict :=
  let rest := n.toInt - s.offset.toInt
  if s.offset = 0 then none
  else if 0 ≤ rest ∧ rest < 4294967296 then
    some (.comparison (ReadSum.mk s.terms 0).toExpr relation
      (.literal place (.int (n.relabel rest))))
  else if s.terms.any (·.subtracted) then none
  else some (.decided (relation.holds 0 rest))

end ReadSum

namespace Expr

/-- One step toward the normal form of a comparison; offsets move only on request. -/
def simplerComparison? (moveOffsets : Bool) (left : Expr) (relation : Relation) (right : Expr) :
    Option Verdict :=
  match left, right with
  | .literal _ l, .literal _ r => (l.decide? relation r).map .decided
  | .literal _ l, _ => some (.comparison right relation.converse (.ofLiteral l))
  | .sum _ s, .literal place (.int n) => if moveOffsets then s.takeOffset relation place n else none
  | _, _ => none

/-- The comparison after at most the given number of steps. -/
def settle (s : Span) : Nat → Expr → Relation → Expr → Expr
  | 0, left, relation, right => .compare s relation left right
  | n + 1, left, relation, right =>
      match simplerComparison? true left relation right with
      | none => .compare s relation left right
      | some (.decided b) => .literal s (.bool b)
      | some (.comparison l r e) => settle s n l r e

/-- The number of steps after which every comparison is settled. -/
def settlingSteps : Nat := 4

/-- A comparison of evaluated operands in normal form. -/
def normalize (s : Span) (relation : Relation) (left right : Expr) : Expr :=
  settle s settlingSteps left relation right

end Expr

end TriggerLang
