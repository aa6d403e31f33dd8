import TriggerLang.Proofs.Compilation.Spans
import TriggerLang.Proofs.Lowering.Once
/-!
# One hit and a number of hits in conditions

In any condition, `once(c)` may be replaced by `repeated(1, c)`: the condition compiles to the same
trigger, and it fails with the one call exactly if it fails with the other one
(`compile_with_once_iff_with_repeated`).

Both conditions are compared with what they become when every `once(c)` is written as
`repeated(1, c)`, in the scope with variables and bodies to match.  There the two differ in spans at
most, so that the statement follows from the ones about evaluation, lowering and spans.
-/

namespace TriggerLang

open Building TriggerLang.Expr

variable {scope scope' : Scope}

/-- A condition and its image compile to the same trigger, or both fail. -/
theorem mapsTo_compile_countOnce (hscope : scope.MapsTo countOnce scope')
    (hcounting : scope.HasCounting) (e : Expr) :
    (compile scope e).MapsTo id (compile scope' e.countOnce) := by
  have hlower := sameResults_lower_countOnce hscope.clause hcounting.clause
  refine (mapsTo_evaluate_countOnce hscope.clause hcounting.clause e).bind fun v _ => ?_
  exact (Trigger.related_addCondition isRelation_sameResults keepsConnectives_countOnce
    hscope.clause.settings (hlower v) (fun c _ => hlower c) fun _ _ c _ => hlower c).mapsTo_build
      .empty

namespace Expr

/-- A call `once(c)` is replaced by `repeated(1, c)`. -/
inductive OnceToRepeated : Expr → Expr → Prop
  | intro (s s' t : Span) (c : Expr) :
      OnceToRepeated (.call s "once" [c])
        (.call s' "repeated" [.literal t (.int (.signed 1)), c])

/-- Two expressions differ in spans at most where `repeated(1, c)` is written for `once(c)`. -/
def SameCounted (e e' : Expr) : Prop :=
  e.countOnce.erase = e'.countOnce.erase

/-- The two calls are the same when every `once(c)` is written as `repeated(1, c)`. -/
theorem OnceToRepeated.sameCounted {e e' : Expr} (h : OnceToRepeated e e') : e.SameCounted e' := by
  obtain ⟨s, s', t, c⟩ := h
  rfl

/-- Lists whose members agree in this way agree as a whole. -/
theorem SameCounted.map_eq {es es' : List Expr} (h : List.Forall₂ SameCounted es es') :
    eraseAll (countOnceAll es) = eraseAll (countOnceAll es') := by
  induction h with
  | nil => rfl
  | cons he _ ih => exact congrArg₂ List.cons he ih

/-- Expressions that agree in this way may replace each other anywhere in an expression. -/
theorem isCongruence_sameCounted : IsCongruence SameCounted := by
  intro e cs h
  cases e with
  | literal | var | read | modified | sum | always | error => rfl
  | arith s op left right =>
    obtain _ | ⟨hleft, _ | ⟨hright, ⟨⟩⟩⟩ := h
    exact congrArg₂ (Expr.arith .unknown op) hleft hright
  | compare s relation left right =>
    obtain _ | ⟨hleft, _ | ⟨hright, ⟨⟩⟩⟩ := h
    exact congrArg₂ (Expr.compare .unknown relation) hleft hright
  | returned s e =>
    obtain _ | ⟨he, ⟨⟩⟩ := h
    exact congrArg (Expr.returned .unknown) he
  | join s c es => exact congrArg (Expr.join .unknown c) (SameCounted.map_eq h)
  | negate s es => exact congrArg (Expr.negate .unknown) (SameCounted.map_eq h)
  | call s name es =>
    have hlength : es.length = cs.length := List.Forall₂.length_eq h
    have hcounted := SameCounted.map_eq h
    rw [SameCounted, withChildren, countOnce, countOnce]
    by_cases honce : IsOnceCall name es
    · have honce' : IsOnceCall name cs := ⟨honce.1, hlength ▸ honce.2⟩
      rw [if_pos honce, if_pos honce, if_pos honce', if_pos honce']
      exact congrArg (fun es => Expr.call .unknown _ ((ofCount 1).erase :: es)) hcounted
    · have honce' : ¬ IsOnceCall name cs := fun h => honce ⟨h.1, hlength ▸ h.2⟩
      rw [if_neg honce, if_neg honce, if_neg honce', if_neg honce']
      exact congrArg (Expr.call .unknown name) hcounted

end Expr

/-- `once(c)` and `repeated(1, c)` are interchangeable.  Where both names mean the built-in
functions, a condition with one call in the place of the other compiles to the same trigger, and it
fails exactly if the other one fails. -/
theorem compile_with_once_iff_with_repeated
    (honce : scope.function? "once" = some (.builtin .once))
    (hrepeated : scope.function? "repeated" = some (.builtin .repeated)) {e e' : Expr}
    (h : Rewrites OnceToRepeated e e') :
    (∀ t, compile scope e = .ok t ↔ compile scope e' = .ok t) ∧
      ((∃ d, compile scope e = .error d) ↔ ∃ d, compile scope e' = .error d) := by
  have hcounting : scope.HasCounting := ⟨honce, hrepeated⟩
  have hscope := Scope.mapsTo_mapExprs countOnce scope
  have hcounted : e.SameCounted e' :=
    isCongruence_sameCounted.of_rewrites (fun _ _ h => h.sameCounted) h
  have hspans := (Scope.SameUpToSpans.refl (scope.mapExprs countOnce)).upTo_compile
    ((Scope.SameUpToSpans.refl _).upTo_evaluate hcounted)
  have hcompile (t : Trigger) : compile scope e = .ok t ↔ compile scope e' = .ok t :=
    calc compile scope e = .ok t
      _ ↔ compile (scope.mapExprs countOnce) e.countOnce = .ok t :=
        Outcome.MapsTo.id_iff.1 (mapsTo_compile_countOnce hscope hcounting e) t
      _ ↔ compile (scope.mapExprs countOnce) e'.countOnce = .ok t := by
        have hsame := congrArg (· = .ok t) hspans
        simpa [Outcome.upTo_eq_ok_iff] using hsame
      _ ↔ compile scope e' = .ok t :=
        (Outcome.MapsTo.id_iff.1 (mapsTo_compile_countOnce hscope hcounting e') t).symm
  have hfails (x : Outcome Trigger) : (∃ d, x = .error d) ↔ ∀ t, x ≠ .ok t := by
    cases x <;> simp
  refine ⟨hcompile, ?_⟩
  rw [hfails, hfails]
  exact forall_congr' fun t => not_congr (hcompile t)

/-- `(once(is(1)) || is(2)) && stop(once(is(3)))`, where `is(n)` is `byte(n) == n` and `stop(c)`
returns `never(c)`, compiles to the same trigger when its second `once` is replaced. -/
theorem compile_with_repeated_in_argument :
    let is (n : Int32) : Expr :=
      .compare .unknown .equal (.call .unknown "byte" [.int n]) (.int n)
    let stop : Function :=
      .script "stop" ["c"] (.returned .unknown (.call .unknown "never" [.var .unknown "c"]))
    let scope := (Scope.root {}).setFunction stop
    let once (c : Expr) : Expr := .call .unknown "once" [c]
    let either : Expr := .join .unknown .any [once (is 1), is 2]
    let source (c : Expr) : Expr := .join .unknown .all [either, .call .unknown "stop" [c]]
    let e := source (once (is 3))
    let e' := source (.call .unknown "repeated" [.int 1, is 3])
    let row (n : UInt32) : Row := .compare (.read .byte n) .equal (.word n)
    let t : Trigger := ⟨[((row 3).withHits 1).withRole .resetIf], [[(row 1).withHits 1], [row 2]]⟩
    (scope.function? "once" = some (.builtin .once) ∧
      scope.function? "repeated" = some (.builtin .repeated) ∧ Rewrites OnceToRepeated e e') ∧
    compile scope e = .ok t ∧ compile scope e' = .ok t := by
  intro is stop scope once either source e e' row t
  have honce : scope.function? "once" = some (.builtin .once) := rfl
  have hrepeated : scope.function? "repeated" = some (.builtin .repeated) := rfl
  have hc : e.children = [either] ++ Expr.call .unknown "stop" [once (is 3)] :: [] := rfl
  have hargument : (Expr.call .unknown "stop" [once (is 3)]).children = [] ++ once (is 3) :: [] :=
    rfl
  have h : Rewrites OnceToRepeated e e' :=
    .part hc (.part hargument (.whole (.intro .unknown .unknown .unknown (is 3))))
  have hcompile : compile scope e = .ok t := rfl
  exact ⟨⟨honce, hrepeated, h⟩, hcompile,
    ((compile_with_once_iff_with_repeated honce hrepeated h).1 t).1 hcompile⟩

end TriggerLang
