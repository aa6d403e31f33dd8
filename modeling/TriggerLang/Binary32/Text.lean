import TriggerLang.Binary32.Shortest
/-!
# Written floating point numbers

The digits of a number are its shortest decimal (`Binary32.shortest`).  A `Layout` says where the
point is written: a number whose point is within its bounds is written out in full, with at least
one digit on each side of the point, and any other number with one digit before the point and an
exponent.
-/

namespace TriggerLang.Binary32

/-- The bounds of positional notation, counted from the first digit: a point at one stands after the
first digit. -/
structure Layout where
  leastPoint : Int
  greatestPoint : Int
  exponentMark : String

/-- A run of zeros. -/
def zeros (n : Nat) : String :=
  String.ofList (List.replicate n '0')

/-- Digits in full, with the point at the given place. -/
def positional (digits : List Char) (point : Int) : String :=
  if point ≤ 0 then "0." ++ zeros (-point).toNat ++ String.ofList digits
  else
    let whole := digits.take point.toNat
    let fraction := digits.drop point.toNat
    String.ofList whole ++ zeros (point.toNat - digits.length) ++ "." ++
      (if fraction.isEmpty then "0" else String.ofList fraction)

/-- Digits with the point after the first one, and an exponent. -/
def scientific (mark : String) (digits : List Char) (point : Int) : String :=
  let fraction := digits.drop 1
  String.ofList (digits.take 1) ++
    (if fraction.isEmpty then "" else "." ++ String.ofList fraction) ++ mark ++ toString (point - 1)

/-- The written form of a positive decimal. -/
def Layout.write (l : Layout) (digits : Nat) (place : Int) : String :=
  let written := Nat.toDigits 10 digits
  let point := place + written.length
  if l.leastPoint ≤ point ∧ point ≤ l.greatestPoint then positional written point
  else scientific l.exponentMark written point

/-- The written form of a number. -/
def Layout.text (l : Layout) (x : Float32) : String :=
  let signed (negative : Bool) (magnitude : String) :=
    if negative then "-" ++ magnitude else magnitude
  match decode x with
  | .nan => "NaN"
  | .infinite negative => signed negative "inf"
  | .finite negative 0 _ => signed negative "0.0"
  | .finite negative mantissa exponent =>
      let (digits, place) := shortest mantissa exponent
      signed negative (l.write digits place)

end TriggerLang.Binary32
