import TriggerLang.Literal.Basic
import TriggerLang.Row.Basic
/-!
# Written operands

Addresses are written in hexadecimal, with capital digits and at least a given number of them.  An
operand that reads memory is written as the call of its read function.
-/

namespace TriggerLang

/-- A word in hexadecimal, with at least the given number of digits. -/
def hexadecimal (width : Nat) (word : UInt32) : String :=
  let digits := (Nat.toDigits 16 word.toNat).map Char.toUpper
  "0x" ++ Binary32.zeros (width - digits.length) ++ String.ofList digits

namespace Operand

/-- The written form of an operand. -/
def text (o : Operand) : String :=
  if o.isMemory then o.size.functionName ++ "(" ++ hexadecimal 6 o.value ++ ")"
  else if o.kind = .real then Literal.realText (Float32.ofBits o.value)
  else toString o.value.toNat

end Operand

end TriggerLang
