/-!
# Spans of script source

A `Span` is the range of source text that an expression was read from.  Spans serve diagnostics
only: no compiled row depends on one.

A span whose first line is zero is *unknown*.  Unknown spans are neutral for `Span.cover`, the
smallest span around two spans.
-/

namespace TriggerLang

/-- A line and a column, both counted from one. -/
structure Position where
  line : Nat
  column : Nat
  deriving DecidableEq, Inhabited

namespace Position

/-- Positions are read line by line. -/
def precedes (p q : Position) : Bool :=
  p.line < q.line || (p.line == q.line && p.column ≤ q.column)

/-- The earlier of two positions. -/
def earlier (p q : Position) : Position :=
  if p.precedes q then p else q

/-- The later of two positions. -/
def later (p q : Position) : Position :=
  if q.precedes p then p else q

end Position

/-- The range of source text between two positions. -/
structure Span where
  start : Position
  stop : Position
  deriving DecidableEq, Inhabited

namespace Span

/-- The span of an expression that no source text stands for. -/
def unknown : Span :=
  ⟨⟨0, 0⟩, ⟨0, 0⟩⟩

/-- A span is unknown when it starts before the first line. -/
def isUnknown (s : Span) : Bool :=
  s.start.line == 0

@[simp] theorem isUnknown_unknown : unknown.isUnknown = true := rfl

/-- The smallest span around two spans; an unknown span adds nothing. -/
def cover (s t : Span) : Span :=
  if s.isUnknown then t
  else if t.isUnknown then s
  else ⟨s.start.earlier t.start, s.stop.later t.stop⟩

@[simp] theorem cover_unknown_left (s : Span) : unknown.cover s = s := rfl

/-- An unknown span on the right adds nothing to a known one. -/
theorem cover_of_isUnknown_right {s t : Span} (hs : s.isUnknown = false) (ht : t.isUnknown = true) :
    s.cover t = s := by
  simp [cover, hs, ht]

end Span

end TriggerLang
