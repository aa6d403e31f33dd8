/-!
# Powers of ten

The place of a decimal digit counts as a power of ten.
-/

namespace TriggerLang

/-- A power of ten. -/
def tenTo (n : Nat) : Nat :=
  Nat.pow 10 n

@[simp] theorem tenTo_zero : tenTo 0 = 1 := rfl

/-- A larger power of ten is not smaller. -/
theorem tenTo_le {m n : Nat} (h : m ≤ n) : tenTo m ≤ tenTo n :=
  Nat.pow_le_pow_right (by decide) h

end TriggerLang
