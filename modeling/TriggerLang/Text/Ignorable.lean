import TriggerLang.Text.CodeRange
/-!
# Ignorable characters

An ignorable character shows nothing where it is not supported, and many of them never do: fillers,
joiners, marks of direction and selectors of variants.  The ranges are those of the property
Default_Ignorable_Code_Point of Unicode 17.0.
-/

namespace TriggerLang.Text

/-- The ranges of codes of ignorable characters. -/
def ignorableRanges : List CodeRange :=
  [(0xad, 0xad), (0x34f, 0x34f), (0x61c, 0x61c), (0x115f, 0x1160), (0x17b4, 0x17b5),
   (0x180b, 0x180f), (0x200b, 0x200f), (0x202a, 0x202e), (0x2060, 0x206f), (0x3164, 0x3164),
   (0xfe00, 0xfe0f), (0xfeff, 0xfeff), (0xffa0, 0xffa0), (0xfff0, 0xfff8), (0x1bca0, 0x1bca3),
   (0x1d173, 0x1d17a), (0xe0000, 0xe0fff)]

theorem ascending_ignorableRanges : CodeRange.Ascending ignorableRanges := by
  decide +kernel

/-- Whether a character shows nothing where it is not supported. -/
def isIgnorable (c : Char) : Bool :=
  CodeRange.covers ignorableRanges c

/-- No character of ASCII is ignorable. -/
theorem isIgnorable_of_ascii {c : Char} (h : c.toNat < 128) : isIgnorable c = false :=
  CodeRange.any_contains_of_lt ascending_ignorableRanges (show c.toNat < 0xad by omega)

end TriggerLang.Text
