import TriggerLang.Operator
import TriggerLang.Diagnostic
import TriggerLang.Literal.Basic
/-!
# Folding of literals

Two literals under an operator fold to a third one, if their types have a rule for it.  Integers
wrap at 32 bits, an integer beside a floating point number is moved to it, and `+` joins anything to
a text.

A rule may also fail: a division by zero has no value, and neither has a bitwise operation on
floating point numbers.  Comparisons fold to truth values and never fail.
-/

namespace TriggerLang

namespace IntLiteral

/-- Arithmetic on signed words, modulo `2 ^ 32`; division truncates. -/
def wrapping (op : Arith) (a b : Int32) : Int32 :=
  match op with
  | .add => a + b
  | .subtract => a - b
  | .multiply => a * b
  | .divide => a / b
  | .modulus => a % b
  | .bitAnd => a &&& b
  | .bitXor => a ^^^ b

/-- Integer arithmetic; one unsigned operand makes the result unsigned. -/
def fold (a : IntLiteral) (op : Arith) (b : IntLiteral) : Except Cause IntLiteral :=
  if op.isDivision && b.isZero then .error .divisionByZero
  else .ok ⟨wrapping op a.value b.value, a.unsigned || b.unsigned⟩

end IntLiteral

namespace Literal

/-- Floating point arithmetic, rounded to nearest. -/
def foldReal (x : Float32) (op : Arith) (y : Float32) : Except Cause Float32 :=
  match op with
  | .add => .ok (x + y)
  | .subtract => .ok (x - y)
  | .multiply => .ok (x * y)
  | .divide => if y == 0 then .error .divisionByZero else .ok (x / y)
  | .modulus => if y == 0 then .error .divisionByZero else .ok (Binary32.remainder x y)
  | .bitAnd | .bitXor => .error (.bitwiseOnReal op.symbol)

/-- The text of two joined parts; no other operator applies to texts. -/
def join (s : String) (op : Arith) (t : String) : Option (Except Cause Literal) :=
  if op = .add then some (.ok (.text (s ++ t))) else none

/-- Whether a literal can be the left operand of a folded operation. -/
def isFoldable : Literal → Bool
  | int _ | real _ | text _ => true
  | bool _ => false

/-- The value of an operation on literals, or `none` where no rule applies. -/
def fold? : Literal → Arith → Literal → Option (Except Cause Literal)
  | int a, op, int b => some ((a.fold op b).map .int)
  | int a, op, real y => some ((foldReal a.toReal op y).map .real)
  | real x, op, int b => some ((foldReal x op b.toReal).map .real)
  | real x, op, real y => some ((foldReal x op y).map .real)
  | int a, op, text t => join a.digits op t
  | real x, op, text t => join (realText x) op t
  | text s, op, r => join s op r.spliced
  | int _, _, bool _ => none
  | real _, _, bool _ => none
  | bool _, _, _ => none

/-- The truth of a comparison of literals, or `none` where no rule applies; truth values have no
order. -/
def decide? : Literal → Relation → Literal → Option Bool
  | int a, r, int b => some (r.holds a.value b.value)
  | int a, r, real y => some (r.holds a.toReal y)
  | real x, r, int b => some (r.holds x b.toReal)
  | real x, r, real y => some (r.holds x y)
  | text s, r, text t => some (r.holds s t)
  | bool a, .equal, bool b => some (a == b)
  | bool a, .notEqual, bool b => some (a != b)
  | _, _, _ => none

end Literal

end TriggerLang
