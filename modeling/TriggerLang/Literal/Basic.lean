import TriggerLang.Binary32.Text
/-!
# Literals

A `Literal` is a value that a script can write down: an integer, a floating point number, a text or
a truth value.

Integers are 32-bit words with a tag.  The tag says how the word is written and moved between types;
arithmetic and comparison of integers read every word as signed.
-/

namespace TriggerLang

/-- A 32-bit word and whether it is written as an unsigned number. -/
structure IntLiteral where
  value : Int32
  unsigned : Bool
  deriving DecidableEq, Inhabited

namespace IntLiteral

/-- A signed integer. -/
def signed (value : Int32) : IntLiteral :=
  ⟨value, false⟩

/-- An integer with the unsigned tag. -/
def ofWord (word : UInt32) : IntLiteral :=
  ⟨word.toInt32, true⟩

/-- The word of an integer, as an address or an operand takes it. -/
def word (n : IntLiteral) : UInt32 :=
  n.value.toUInt32

/-- The number that the tag says the word stands for. -/
def toInt (n : IntLiteral) : Int :=
  if n.unsigned then n.word.toNat else n.value.toInt

/-- Whether the word is zero. -/
def isZero (n : IntLiteral) : Bool :=
  n.value == 0

/-- Whether the integer is signed and below zero. -/
def isNegative (n : IntLiteral) : Bool :=
  !n.unsigned && n.value < 0

/-- The nearest floating point number. -/
def toReal (n : IntLiteral) : Float32 :=
  if n.unsigned then n.word.toFloat32 else Binary32.ofInt32 n.value

/-- The decimal digits of an integer. -/
def digits (n : IntLiteral) : String :=
  toString n.toInt

/-- The written form of an integer, which shows the unsigned tag. -/
def text (n : IntLiteral) : String :=
  if n.unsigned then n.digits ++ "U" else n.digits

@[simp] theorem word_ofWord (w : UInt32) : (ofWord w).word = w := by
  simp [word, ofWord]

@[simp] theorem toInt_signed (v : Int32) : (signed v).toInt = v.toInt := rfl

@[simp] theorem toInt_ofWord (w : UInt32) : (ofWord w).toInt = w.toNat := by
  simp [toInt, ofWord, word]

end IntLiteral

/-- A value that a script can write down. -/
inductive Literal where
  | int (n : IntLiteral)
  | real (x : Float32)
  | text (s : String)
  | bool (b : Bool)
  deriving Inhabited

namespace Literal

/-- Numbers are written out in full from one ten-thousandth to below ten quadrillion. -/
def realLayout : Binary32.Layout :=
  ⟨-3, 16, "e"⟩

/-- The written form of a floating point number. -/
def realText (x : Float32) : String :=
  realLayout.text x

/-- The form in which a literal is joined to a text: no quotes and no tags. -/
def spliced : Literal → String
  | int n => n.digits
  | real x => realText x
  | text s => s
  | bool b => toString b

/-- The written form of a literal. -/
def written : Literal → String
  | int n => n.text
  | real x => realText x
  | text s => "\"" ++ s ++ "\""
  | bool b => toString b

/-- Equality of literals; floating point numbers are equal as numbers, so that a NaN differs from
itself. -/
def same : Literal → Literal → Bool
  | int m, int n => m == n
  | real x, real y => x == y
  | text s, text t => s == t
  | bool a, bool b => a == b
  | _, _ => false

end Literal

end TriggerLang
