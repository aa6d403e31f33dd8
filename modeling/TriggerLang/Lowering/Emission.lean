import TriggerLang.Diagnostic
import TriggerLang.LastElement
import TriggerLang.Row.Trigger
/-!
# Emission of rows

Lowering emits rows one after another and may change the row that it emitted last.  When it fails,
the rows that it has emitted stay, so that an `Emission` is a state over the emitted rows that
outlives a failure.

The same holds for a whole trigger under construction: `Building` keeps the groups that came before
a failure.
-/

namespace TriggerLang

/-- A computation over a state that a failure leaves as it is. -/
abbrev Building (σ : Type) := EStateM Diagnostic σ

/-- A computation that emits rows. -/
abbrev Emission := Building (List Row)

namespace Building

variable {σ α : Type}

/-- The failure with a cause and no span. -/
def fail (cause : Cause) : Building σ α :=
  throw { cause }

/-- The computation that offers a span to its diagnostic. -/
def within (s : Span) (b : Building σ α) : Building σ α := fun state =>
  match b.run state with
  | .ok a state => .ok a state
  | .error d state => .error (d.within s) state

/-- A result that does not depend on the state. -/
def ofOutcome : Outcome α → Building σ α
  | .ok a => pure a
  | .error d => throw d

/-- The outcome of a computation, and the state that it leaves. -/
def outcome (b : Building σ α) (state : σ) : Outcome α × σ :=
  match b.run state with
  | .ok a state => (.ok a, state)
  | .error d state => (.error d, state)

/-- The state that a computation leaves, unless it fails. -/
def build (b : Building σ Unit) (state : σ) : Outcome σ :=
  match b.run state with
  | .ok _ state => .ok state
  | .error d _ => .error d

end Building

namespace Emission

/-- Emits rows. -/
def emit (rows : List Row) : Emission Unit :=
  modify (· ++ rows)

/-- Emits a row. -/
def push (row : Row) : Emission Unit :=
  emit [row]

/-- Changes the row that was emitted last, if there is one. -/
def updateLast (f : Row → Row) : Emission Unit :=
  modify (LastElement.update f)

/-- Lets the row that was emitted last be conjoined with the next one, if it has no other role. -/
def joinNext : Emission Unit :=
  updateLast fun row => if row.role = .plain then row.withRole .andNext else row

/-- Sets the hit count of the row that was emitted last. -/
def stampLast (hits : UInt16) : Emission Unit :=
  updateLast (·.withHits hits)

/-- Emitted rows stand after those that are there. -/
@[simp] theorem run_emit (rows before : List Row) :
    (emit rows).run before = .ok () (before ++ rows) := rfl

/-- An update of the last row changes no row before it. -/
@[simp] theorem run_updateLast (f : Row → Row) (before : List Row) :
    (updateLast f).run before = .ok () (LastElement.update f before) := rfl

end Emission

end TriggerLang
