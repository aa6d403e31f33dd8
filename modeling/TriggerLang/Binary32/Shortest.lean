import TriggerLang.Binary32.Exact
import TriggerLang.Decimal
/-!
# The shortest decimal of a binary32 number

Every positive finite number is the centre of an interval of reals that round to it.  The shortest
decimal is the point of the coarsest decimal grid inside that interval; of two such points it is the
nearer one, and of two equally near ones the larger.

Only the two neighbours of a number on a grid can be candidates, so that each grid costs one
division of integers.
-/

namespace TriggerLang.Binary32

/-- A positive number with the interval that rounds to it, in quarters of the unit `2 ^ exponent`.
-/
structure Interval where
  exponent : Int
  below : Nat
  centre : Nat
  above : Nat
  /-- Whether the ends of the interval belong to it. -/
  closed : Bool

/-- The interval around `mantissa * 2 ^ exponent`; below a power of two it is half as wide. -/
def Interval.around (mantissa : Nat) (exponent : Int) : Interval :=
  let narrow := mantissa = hiddenUnit ∧ exponent ≠ leastExponent
  { exponent
    below := 4 * mantissa - if narrow then 1 else 2
    centre := 4 * mantissa
    above := 4 * mantissa + 2
    closed := mantissa % 2 = 0 }

/-- The factors that bring quarters of a unit and points of the grid of `10 ^ place` to one scale.
-/
def Interval.scales (i : Interval) (place : Int) : Nat × Nat :=
  let power := i.exponent - 2
  (tenTo (-place).toNat <<< power.toNat, tenTo place.toNat <<< (-power).toNat)

/-- The point of the grid of `10 ^ place` that stands for the interval, if one lies in it. -/
def Interval.nearestOn (i : Interval) (place : Int) : Option Nat :=
  let (quarter, step) := i.scales place
  let inside (n : Nat) : Bool :=
    if i.closed then i.below * quarter ≤ n * step ∧ n * step ≤ i.above * quarter
    else i.below * quarter < n * step ∧ n * step < i.above * quarter
  let low := i.centre * quarter / step
  match inside low, inside (low + 1) with
  | false, false => none
  | true, false => some low
  | false, true => some (low + 1)
  | true, true =>
      let centre := i.centre * quarter
      if (low + 1) * step - centre ≤ centre - low * step then some (low + 1) else some low

/-- The decimal places at which a positive number can end, the coarsest first. -/
def places : List Int :=
  (List.range 85).map fun n : Nat => (39 : Int) - n

/-- The shortest decimal `digits * 10 ^ place` that rounds to `mantissa * 2 ^ exponent`. -/
def shortest (mantissa : Nat) (exponent : Int) : Nat × Int :=
  let i := Interval.around mantissa exponent
  (places.findSome? fun place => (i.nearestOn place).map (·, place)).getD (0, 0)

end TriggerLang.Binary32
