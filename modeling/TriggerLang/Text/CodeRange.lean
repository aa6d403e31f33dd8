/-!
# Ranges of character codes

A property of characters is given by the closed ranges of the codes that have it.
-/

namespace TriggerLang

/-- The first and the last code of a closed range. -/
abbrev CodeRange := Nat × Nat

namespace CodeRange

/-- Whether a range holds a code. -/
def contains (code : Nat) (r : CodeRange) : Bool :=
  r.1 ≤ code && code ≤ r.2

/-- Whether one of several ranges holds a character. -/
def covers (rs : List CodeRange) (c : Char) : Bool :=
  rs.any (contains c.toNat)

/-- Ranges that follow one another with gaps between them. -/
def Ascending : List CodeRange → Prop
  | [] => True
  | [r] => r.1 ≤ r.2
  | r :: s :: rs => r.1 ≤ r.2 ∧ r.2 + 1 < s.1 ∧ Ascending (s :: rs)

instance decidableAscending : (rs : List CodeRange) → Decidable (Ascending rs)
  | [] => inferInstanceAs (Decidable True)
  | [r] => inferInstanceAs (Decidable (r.1 ≤ r.2))
  | r :: s :: rs =>
    have := decidableAscending (s :: rs)
    inferInstanceAs (Decidable (r.1 ≤ r.2 ∧ r.2 + 1 < s.1 ∧ Ascending (s :: rs)))

/-- Ascending ranges hold no code before the first of them. -/
theorem any_contains_of_lt {r : CodeRange} {rs : List CodeRange} (h : Ascending (r :: rs))
    {code : Nat} (before : code < r.1) : (r :: rs).any (contains code) = false := by
  induction rs generalizing r with
  | nil => simp [contains]; omega
  | cons s rs ih =>
    obtain ⟨_, gap, rest⟩ := h
    rw [List.any_cons, ih rest (by omega), Bool.or_false, contains]
    simp; omega

end CodeRange

end TriggerLang
