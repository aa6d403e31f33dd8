import TriggerLang.Source.Span
/-!
# Diagnostics

A `Diagnostic` is the failure of an evaluation or of a compilation: its `Cause`, and the span at
which it arose, when one is known.  The cause fixes both the kind of the failure and its text.

Every enclosing expression offers its own span to a diagnostic on the way out (`Diagnostic.within`).
A known span is never replaced, so that the innermost one is reported.
-/

namespace TriggerLang

/-- The kinds of failure. -/
inductive ErrorKind where
  /-- Folding constants met an undefined operation. -/
  | fold
  /-- An expression has no address, operand or condition. -/
  | conversion
  /-- A function, an operator or a modifier is used against its rules. -/
  | usage
  /-- A name has no meaning in scope. -/
  | reference
  deriving DecidableEq, Inhabited

/-- The written form of a kind. -/
def ErrorKind.name : ErrorKind → String
  | fold => "Fold"
  | conversion => "Conversion"
  | usage => "Usage"
  | reference => "Reference"

/-- Why an evaluation or a compilation fails.  Expressions are named by their written form. -/
inductive Cause where
  /-- A failure that carries its own text. -/
  | reported (kind : ErrorKind) (text : String)
  | divisionByZero
  | bitwiseOnReal (symbol : String)
  | addressOfSeveralReads
  | notAnAddress (expression : String)
  | incompleteCondition (expression : String)
  | unrelatedPaths
  | notComparable (expression : String)
  | negationArity
  | cannotNegate (expression : String)
  | arity (function : String) (expected given : Nat)
  | missingParameter (function : String) (position : Nat)
  | outsideTriggerClause (function : String)
  | countOutOfRange (expression : String)
  | countNotInteger (expression : String)
  | callDepthExceeded (limit : Nat)
  | nestedOr
  | notACondition (function : String)
  | orUnderModifier (function : String)
  | alreadyModified (function : String)
  | modifierInRepeated
  | severalOrs
  | tooManyAlternates (needed limit : Nat)
  | invalidSettings
  | unknownVariable (name : String)
  | unknownFunction (name : String)
  deriving DecidableEq, Inhabited

namespace Cause

/-- The kind of a cause. -/
def kind : Cause → ErrorKind
  | reported kind _ => kind
  | divisionByZero | bitwiseOnReal _ => .fold
  | addressOfSeveralReads | notAnAddress _ | incompleteCondition _ | unrelatedPaths
  | notComparable _ => .conversion
  | negationArity | cannotNegate _ | arity _ _ _ | missingParameter _ _ | outsideTriggerClause _
  | countOutOfRange _ | countNotInteger _ | callDepthExceeded _ | nestedOr | notACondition _
  | orUnderModifier _ | alreadyModified _ | modifierInRepeated | severalOrs
  | tooManyAlternates _ _ | invalidSettings => .usage
  | unknownVariable _ | unknownFunction _ => .reference

/-- The text of a cause. -/
def message : Cause → String
  | reported _ text => text
  | divisionByZero => "Division by zero"
  | bitwiseOnReal symbol =>
      "Cannot perform bitwise operation " ++ symbol ++ " on floating point values"
  | addressOfSeveralReads =>
      "Cannot construct single address lookup from multiple memory references"
  | notAnAddress expression => "Cannot convert to an address: " ++ expression
  | incompleteCondition expression => "Incomplete trigger condition: " ++ expression
  | unrelatedPaths => "Cannot compare values from different pointer chains"
  | notComparable expression => "Cannot compare to " ++ expression
  | negationArity => "! expects exactly one operand"
  | cannotNegate expression => "Cannot negate " ++ expression
  | arity function expected given =>
      function ++ " expects " ++ toString expected ++ " parameters, got " ++ toString given
  | missingParameter function position =>
      function ++ " is missing parameter " ++ toString position
  | outsideTriggerClause function => function ++ " has no meaning outside of a trigger clause"
  | countOutOfRange expression => "count must be between 0 and 65535, got " ++ expression
  | countNotInteger expression => "count must be an integer constant, got " ++ expression
  | callDepthExceeded limit => "Maximum call depth exceeded (" ++ toString limit ++ ")"
  | nestedOr => "Nested OR conditions are not supported in this context"
  | notACondition function => function ++ " cannot be used in a trigger"
  | orUnderModifier function => function ++ " does not support || conditions"
  | alreadyModified function =>
      function ++ " cannot be applied to a condition that already has a modifier"
  | modifierInRepeated => "modifier not allowed in multi-condition repeated clause"
  | severalOrs => "Combining multiple OR clauses requires expand_nested_or"
  | tooManyAlternates needed limit =>
      "Trigger needs " ++ toString needed ++ " alternate groups, the limit is " ++ toString limit
  | invalidSettings => "Invalid compiler configuration"
  | unknownVariable name => "Unknown variable: " ++ name
  | unknownFunction name => "Unknown function: " ++ name

end Cause

/-- A failure and the span at which it arose. -/
structure Diagnostic where
  cause : Cause
  span : Option Span := none
  deriving DecidableEq, Inhabited

namespace Diagnostic

/-- The kind of a diagnostic. -/
def kind (d : Diagnostic) : ErrorKind :=
  d.cause.kind

/-- The text of a diagnostic, without kind and place. -/
def message (d : Diagnostic) : String :=
  d.cause.message

/-- Whether a span is attached and known. -/
def isPlaced (d : Diagnostic) : Bool :=
  match d.span with
  | none => false
  | some s => !s.isUnknown

/-- The same diagnostic with a span attached, unless a known one is attached already. -/
def within (d : Diagnostic) (s : Span) : Diagnostic :=
  if d.isPlaced then d else { d with span := some s }

/-- The place of a diagnostic as its text shows it. -/
def place (d : Diagnostic) : String :=
  match d.span with
  | none => ""
  | some s =>
      if s.isUnknown then ""
      else " at line " ++ toString s.start.line ++ ", column " ++ toString s.start.column

/-- The diagnostic in full: kind, place and text. -/
def render (d : Diagnostic) : String :=
  d.kind.name ++ " error" ++ d.place ++ ": " ++ d.message

@[simp] theorem cause_within (d : Diagnostic) (s : Span) : (d.within s).cause = d.cause := by
  unfold within; split <;> rfl

@[simp] theorem kind_within (d : Diagnostic) (s : Span) : (d.within s).kind = d.kind := by
  simp [kind]

@[simp] theorem message_within (d : Diagnostic) (s : Span) : (d.within s).message = d.message := by
  simp [message]

end Diagnostic

/-- A result, or the diagnostic that stands for its absence. -/
abbrev Outcome (α : Type) := Except Diagnostic α

namespace Outcome

/-- The failure with a cause and no span. -/
def fail {α : Type} (cause : Cause) : Outcome α :=
  .error { cause }

/-- Offers a span to the diagnostic of a failed outcome. -/
def within {α : Type} (s : Span) : Outcome α → Outcome α
  | .ok a => .ok a
  | .error d => .error (d.within s)

@[simp] theorem within_ok {α : Type} (s : Span) (a : α) : within s (.ok a) = .ok a := rfl

/-- A span is offered to the diagnostic of a failure. -/
@[simp] theorem within_error {α : Type} (s : Span) (d : Diagnostic) :
    within s (Except.error d : Outcome α) = .error (d.within s) := rfl

/-- Offering a span neither makes nor changes a result. -/
theorem within_eq_ok_iff {α : Type} {s : Span} {x : Outcome α} {a : α} :
    within s x = .ok a ↔ x = .ok a := by
  cases x <;> simp

end Outcome

end TriggerLang
