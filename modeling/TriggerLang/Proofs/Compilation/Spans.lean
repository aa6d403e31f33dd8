import TriggerLang.Proofs.Compilation.Related
import TriggerLang.Proofs.Lowering.Spans
/-!
# Compilation and spans

Spans serve diagnostics only.  Conditions that differ in spans evaluate to values that differ in
spans, and they compile to one trigger; where they fail, the failures differ in their spans only
(`evaluate_and_compile_ignore_spans`).  The variables and the bodies of functions of the scope may
differ in spans as well.

The rows of a condition and of its erasure are alike, and so are the groups of a trigger, since the
erasure keeps connectives.
-/

namespace TriggerLang

/-- Two outcomes are results that a function takes to the same, or failures of one kind with one
message. -/
def Outcome.MatchUpTo {α β : Type} (f : α → β) (x y : Outcome α) : Prop :=
  (∃ a b, x = .ok a ∧ y = .ok b ∧ f a = f b) ∨
    ∃ d d', x = .error d ∧ y = .error d' ∧ d.kind = d'.kind ∧ d.message = d'.message

/-- Outcomes that agree up to a function match, since a cause determines kind and message. -/
theorem Outcome.matchUpTo_of_upTo_eq {α β : Type} {f : α → β} {x y : Outcome α}
    (h : x.upTo f = y.upTo f) : x.MatchUpTo f y := by
  cases x with
  | ok a =>
    cases y with
    | ok b => exact .inl ⟨a, b, rfl, rfl, Except.ok.inj h⟩
    | error d' => cases h
  | error d =>
    cases y with
    | ok b => cases h
    | error d' =>
      have hcause : d.cause = d'.cause := Except.error.inj h
      refine .inr ⟨d, d', rfl, rfl, ?_, ?_⟩
      · rw [Diagnostic.kind, Diagnostic.kind, hcause]
      · rw [Diagnostic.message, Diagnostic.message, hcause]

open Building TriggerLang.Expr

variable {scope scope' : Scope}

/-- An evaluated condition adds its groups to a trigger without regard to spans. -/
theorem Trigger.alike_addCondition (hscope : scope.SameUpToSpans scope') (e : Expr) :
    Alike (addCondition scope e) (addCondition scope' e.erase) :=
  have hlower := alike_lower hscope
  related_addCondition isRelation_alike keepsConnectives_erase hscope.settings.symm (hlower e)
    (fun c _ => hlower c) fun _ _ c _ => hlower c

/-- Conditions with values that differ in spans compile to the same trigger, or fail for the same
cause. -/
theorem Scope.SameUpToSpans.upTo_compile (hscope : scope.SameUpToSpans scope') {e e' : Expr}
    (h : (evaluate scope.clause e).upTo Expr.erase =
      (evaluate scope'.clause e').upTo Expr.erase) :
    (compile scope e).upTo id = (compile scope' e').upTo id := by
  refine Outcome.upTo_bind_congr h fun v v' hv => ?_
  have hleft := Trigger.alike_addCondition hscope.clause v
  have hright := Trigger.alike_addCondition (.refl scope'.clause) v'
  exact (hleft.trans (hv ▸ hright.symm)).upTo_build .empty

/-- Spans serve diagnostics only.  In scopes that are the same up to spans, expressions that differ
in spans have values that differ in spans, or both fail for one reason; and they compile to the same
trigger, or both fail for one reason. -/
theorem evaluate_and_compile_ignore_spans (hscope : scope.SameUpToSpans scope') {e e' : Expr}
    (he : e.erase = e'.erase) :
    (evaluate scope e).MatchUpTo erase (evaluate scope' e') ∧
      (compile scope e).MatchUpTo id (compile scope' e') := by
  have hvalue := hscope.upTo_evaluate he
  have hcompile := hscope.upTo_compile (hscope.clause.upTo_evaluate he)
  exact ⟨Outcome.matchUpTo_of_upTo_eq hvalue, Outcome.matchUpTo_of_upTo_eq hcompile⟩

/-- `f(x) == 3 || once(f(2) == y)` where `x` is 1, `f(a)` returns `byte(a) + 1`, and `y` is unknown
or 4, read without spans and from a script that stands on two lines: with `y` both compile to the
same trigger, and without it both fail, one of them at a place. -/
theorem evaluate_and_compile_ignore_spans_two_lines :
    let on (line first last : Nat) : Span := ⟨⟨line, first⟩, ⟨line, last⟩⟩
    let f (s t : Span) : Function := .script "f" ["a"]
      (.returned s (.arith s .add (.call t "byte" [.var t "a"]) (.int 1)))
    let scope : Scope :=
      ((Scope.root {}).setFunction (f .unknown .unknown)).setVariable "x" (.int 1)
    let scope' : Scope := ((Scope.root {}).setFunction (f (on 1 9 20) (on 1 9 16))).setVariable "x"
      (.literal (on 1 1 6) (.int (.signed 1)))
    let source (s t u : Span) : Expr := .join s .any
      [.compare t .equal (.call t "f" [.var t "x"]) (.int 3),
        .call u "once" [.compare u .equal (.call u "f" [.int 2]) (.var u "y")]]
    let e := source .unknown .unknown .unknown
    let e' := source (on 2 1 33) (on 2 1 10) (on 2 14 33)
    let row (a n : UInt32) : Row := .compare (.read .byte a) .equal (.word n)
    let t : Trigger := ⟨[], [[row 1 2], [(row 2 3).withHits 1]]⟩
    let y (scope : Scope) : Scope := scope.setVariable "y" (.int 4)
    (e.erase = e'.erase ∧ scope.SameUpToSpans scope' ∧ (y scope).SameUpToSpans (y scope')) ∧
      compile (y scope) e = .ok t ∧ compile (y scope') e' = .ok t ∧
      compile scope e = .error { cause := .unknownVariable "y", span := some .unknown } ∧
      compile scope' e' = .error { cause := .unknownVariable "y", span := some (on 2 14 33) } ∧
      (compile scope e).MatchUpTo id (compile scope' e') := by
  intro on f scope scope' source e e' row t y
  have he : e.erase = e'.erase := rfl
  have hscope : scope.SameUpToSpans scope' := Scope.sameUpToSpans_of_erase_eq rfl
  have hy : (y scope).SameUpToSpans (y scope') := Scope.sameUpToSpans_of_erase_eq rfl
  have hcompile : compile (y scope) e = .ok t := rfl
  obtain ⟨_, _, hleft, hright, rfl⟩ | ⟨_, _, hfail, -⟩ :=
    (evaluate_and_compile_ignore_spans hy he).2
  · cases hcompile.symm.trans hleft
    exact ⟨⟨he, hscope, hy⟩, hcompile, hright, rfl, rfl,
      (evaluate_and_compile_ignore_spans hscope he).2⟩
  · cases hcompile.symm.trans hfail

end TriggerLang
