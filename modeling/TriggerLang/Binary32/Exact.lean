/-!
# Exact arithmetic on binary32 numbers

A finite binary32 number is an integer times a power of two.  `Binary32.decode` reads both from the
bits, and `Binary32.encode` writes a number back whose integer fits.

The remainder of a division is always representable, so `Binary32.remainder` computes it on the
integers and rounds nothing.
-/

namespace TriggerLang.Binary32

/-- What the bits of a binary32 number stand for. -/
inductive Decoded where
  | nan
  | infinite (negative : Bool)
  /-- The number `± mantissa * 2 ^ exponent`. -/
  | finite (negative : Bool) (mantissa : Nat) (exponent : Int)
  deriving DecidableEq, Inhabited

/-- The least exponent of a finite number. -/
def leastExponent : Int := -149

/-- The place of the leading digit that normal numbers do not store, two to the power of 23. -/
def hiddenUnit : Nat := 8388608

/-- The place of the sign, two to the power of 31. -/
def signUnit : Nat := 2147483648

/-- The number that 32 bits stand for. -/
def decodeBits (bits : UInt32) : Decoded :=
  let negative := bits.toNat / signUnit == 1
  let biased := bits.toNat / hiddenUnit % 256
  let fraction := bits.toNat % hiddenUnit
  if biased = 255 then (if fraction = 0 then .infinite negative else .nan)
  else if biased = 0 then .finite negative fraction leastExponent
  else .finite negative (hiddenUnit + fraction) (leastExponent + (biased - 1 : Nat))

/-- The number that the bits of a float stand for. -/
def decode (x : Float32) : Decoded :=
  decodeBits x.toBits

/-- The bits of `mantissa * 2 ^ exponent`, which must have at most 24 significant bits above the
least exponent. -/
def magnitudeBits (mantissa : Nat) (exponent : Int) : Nat :=
  let excess : Int := mantissa.log2 - 23
  let aligned := max (exponent + excess) leastExponent
  let steps := exponent - aligned
  let fraction := if 0 ≤ steps then mantissa <<< steps.toNat else mantissa >>> (-steps).toNat
  if mantissa = 0 then 0 else (aligned - leastExponent).toNat * hiddenUnit + fraction

/-- The float `± mantissa * 2 ^ exponent`, under the condition of `magnitudeBits`. -/
def encode (negative : Bool) (mantissa : Nat) (exponent : Int) : Float32 :=
  let sign := if negative then signUnit else 0
  Float32.ofBits (UInt32.ofNat (sign + magnitudeBits mantissa exponent))

/-- The remainder of `a * 2 ^ p` divided by `b * 2 ^ q`, in units of the smaller of the two powers.
-/
def exactRemainder (a : Nat) (p : Int) (b : Nat) (q : Int) : Nat × Int :=
  let unit := min p q
  ((a <<< (p - unit).toNat) % (b <<< (q - unit).toNat), unit)

/-- The remainder of a division that rounds toward zero; it has the sign of the dividend. -/
def remainder (x y : Float32) : Float32 :=
  match decode x, decode y with
  | .finite negative a p, .finite _ b q =>
      if b = 0 then Float32.ofBits 0x7FC00000
      else
        let (r, unit) := exactRemainder a p b q
        encode negative r unit
  | .finite .., .infinite _ => x
  | _, _ => Float32.ofBits 0x7FC00000

/-- The float nearest to a signed word, ties to even. -/
def ofInt32 (n : Int32) : Float32 :=
  if n < 0 then -(0 - n.toUInt32).toFloat32 else n.toUInt32.toFloat32

end TriggerLang.Binary32
