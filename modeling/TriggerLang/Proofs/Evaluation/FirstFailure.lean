import TriggerLang.Proofs.Success
import TriggerLang.Proofs.Tree
/-!
# The first failure

Evaluation goes through an expression in post-order: it evaluates the operands of a node from left
to right, and then applies the rule of the node to their values (`evaluate_eq_ruleOn`).  Nothing
stops it but a failure, so that in an expression without calls the failure that it reports is the
first one on that way (`failure?_evaluate`), even where an earlier operand decides a connective.

On the way out, the node and every expression around it offer their spans.  The innermost known one
stays attached (`Diagnostic.firstKnown_withinAll`).
-/

namespace TriggerLang

/-! ### Spans of a diagnostic -/

/-- The first span in a list that is known. -/
def Span.firstKnown (spans : List Span) : Option Span :=
  spans.find? (!·.isUnknown)

/-- The first known span of two lists is that of the first list, if there is one. -/
theorem Span.firstKnown_append (spans spans' : List Span) :
    firstKnown (spans ++ spans') = (firstKnown spans).or (firstKnown spans') :=
  List.find?_append

namespace Diagnostic

open TriggerLang.Span

/-- The same diagnostic after a list of spans was offered to it, one after another. -/
def withinAll (d : Diagnostic) (spans : List Span) : Diagnostic :=
  spans.foldl within d

/-- The last span of a list is the last one that is offered. -/
theorem withinAll_concat (d : Diagnostic) (spans : List Span) (s : Span) :
    d.withinAll (spans ++ [s]) = (d.withinAll spans).within s :=
  List.foldl_concat within d s spans

/-- Spans that are offered change no cause. -/
@[simp] theorem cause_withinAll (d : Diagnostic) (spans : List Span) :
    (d.withinAll spans).cause = d.cause := by
  induction spans generalizing d with
  | nil => rfl
  | cons s spans ih => exact (ih (d.within s)).trans (cause_within d s)

/-- The span that is offered takes the place of an unknown one. -/
theorem span_within (d : Diagnostic) (s : Span) :
    (d.within s).span = some ((firstKnown d.span.toList).getD s) := by
  obtain ⟨cause, _ | t⟩ := d
  · rfl
  · unfold within isPlaced firstKnown
    cases ht : t.isUnknown <;> simp [ht]

/-- What is known after a span was offered is what was known before, or else the span. -/
theorem firstKnown_within (d : Diagnostic) (s : Span) :
    firstKnown (d.within s).span.toList = firstKnown (d.span.toList ++ [s]) := by
  rw [span_within]
  obtain ⟨cause, _ | t⟩ := d
  · rfl
  · unfold firstKnown
    cases ht : t.isUnknown <;> simp [ht]

/-- The known span of a diagnostic is the first known one of its own and those that were offered. -/
theorem firstKnown_withinAll (d : Diagnostic) (spans : List Span) :
    firstKnown (d.withinAll spans).span.toList = firstKnown (d.span.toList ++ spans) := by
  induction spans generalizing d with
  | nil => rw [List.append_nil]; rfl
  | cons s spans ih =>
    calc firstKnown ((d.within s).withinAll spans).span.toList
      _ = firstKnown ((d.within s).span.toList ++ spans) := ih (d.within s)
      _ = (firstKnown (d.span.toList ++ [s])).or (firstKnown spans) := by
        rw [firstKnown_append, firstKnown_within]
      _ = firstKnown (d.span.toList ++ s :: spans) := by
        rw [← firstKnown_append, List.append_assoc, List.singleton_append]

/-- The first known span is attached, whether it was attached before or offered. -/
theorem span_withinAll_of_known {d : Diagnostic} {spans : List Span} {s : Span}
    (h : firstKnown (d.span.toList ++ spans) = some s) : (d.withinAll spans).span = some s := by
  rw [← firstKnown_withinAll] at h
  exact Option.mem_toList.1 (List.mem_of_find?_eq_some h)

/-- Where no span is known, an unknown one is attached. -/
theorem span_withinAll_of_unknown {d : Diagnostic} {spans : List Span} (hne : spans ≠ [])
    (h : firstKnown (d.span.toList ++ spans) = none) :
    ∃ s, (d.withinAll spans).span = some s ∧ s.isUnknown = true := by
  obtain ⟨before, s, rfl⟩ := (List.eq_nil_or_concat' spans).resolve_left hne
  rw [← List.append_assoc, firstKnown_append, Option.or_eq_none_iff] at h
  refine ⟨s, ?_, ?_⟩
  · rw [withinAll_concat, span_within, firstKnown_withinAll, h.1]
    rfl
  · simpa [firstKnown] using h.2

end Diagnostic

/-! ### Outcomes -/

/-- The diagnostic of an outcome, if it is a failure. -/
def Outcome.failure? {α : Type} : Outcome α → Option Diagnostic
  | .ok _ => none
  | .error d => some d

/-- The diagnostic of a failure within a span is the one to which the span is offered. -/
theorem Outcome.failure?_within {α : Type} (x : Outcome α) (s : Span) :
    (x.within s).failure? = x.failure?.map (·.within s) := by
  cases x <;> rfl

namespace Expr

/-! ### Nodes -/

/-- The operands that are evaluated before the rule of a node applies; they are all operands, unless
the node is a negation with a wrong number of them. -/
def operandsFirst : Expr → List Expr
  | .arith _ _ left right | .compare _ _ left right => [left, right]
  | .join _ _ es => es
  | .negate _ [e] | .returned _ e => [e]
  | _ => []

/-- What the rule of a node other than a call makes of the values of its operands. -/
def ruleOn (scope : Scope) : Expr → List Expr → Outcome Expr
  | .arith s op _ _, [l, r] => combine s op l r
  | .compare s relation _ _, [l, r] => pure (normalize s relation l r)
  | .join s c _, values => pure ((joinAll c values).moveTo s)
  | .negate s [_], [value] => do
      let value ← negated value
      pure (value.moveTo s)
  | .negate _ _, _ => .fail .negationArity
  | .returned _ _, [value] => pure (returning value)
  | .var _ name, _ =>
      match scope.lookup? name with
      | some value => .ok value
      | none => .fail (.unknownVariable name)
  | .error _ text, _ => .fail (.reported .fold text)
  | e, _ => .ok e

/-- The failure of the rule of a node, if its operands have values and the rule fails for them. -/
def ownFailure? (scope : Scope) (e : Expr) : Option Diagnostic :=
  match evaluateAll scope e.operandsFirst with
  | .ok values => (e.ruleOn scope values).failure?
  | .error _ => none

variable {scope : Scope}

/-- A node that is no call has the value that its rule makes of the values of its operands. -/
theorem evaluate_eq_ruleOn {e : Expr} (he : ∀ s name es, e ≠ .call s name es) :
    evaluate scope e = (evaluateAll scope e.operandsFirst >>= e.ruleOn scope).within e.span := by
  unfold evaluate evaluateAll
  cases e with
  | call s name es => exact absurd rfl (he s name es)
  | literal | read | modified | sum | always | error => rfl
  | var s name =>
    show _ = Outcome.within s (ruleOn scope (.var s name) [])
    cases h : scope.lookup? name <;> rw [evaluateWith, ruleOn, h]
    rfl
  | arith s op left right | compare s relation left right =>
    rw [evaluateWith, operandsFirst, evaluateAllWith, evaluateAllWith, evaluateAllWith]
    cases evaluateWith (runBody scope.remainingCalls) scope left with
    | error d => rfl
    | ok l => cases evaluateWith (runBody scope.remainingCalls) scope right <;> rfl
  | join s c es => rfl
  | negate s es =>
    rcases es with _ | ⟨e, _ | ⟨e', es⟩⟩
    · rfl
    · rw [evaluateWith, operandsFirst, evaluateAllWith, evaluateAllWith]
      cases evaluateWith (runBody scope.remainingCalls) scope e <;> rfl
    · rfl
  | returned s e =>
    rw [evaluateWith, operandsFirst, evaluateAllWith, evaluateAllWith]
    cases evaluateWith (runBody scope.remainingCalls) scope e <;> rfl

/-- A node fails if one of its operands does, or else if its rule does. -/
theorem failure?_evaluate_eq_or {e : Expr} (he : ∀ s name es, e ≠ .call s name es) :
    (evaluate scope e).failure? =
      ((evaluateAll scope e.operandsFirst).failure?.or (e.ownFailure? scope)).map
        (·.within e.span) := by
  rw [evaluate_eq_ruleOn he, Outcome.failure?_within, ownFailure?]
  cases evaluateAll scope e.operandsFirst <;> rfl

/-! ### Post-order -/

/-- An expression that evaluation comes to, and the spans of the expressions around it, from the
inside to the outside. -/
structure Visit where
  node : Expr
  above : List Span

namespace Visit

/-- The same visit inside an expression with a span. -/
def inside (s : Span) (v : Visit) : Visit :=
  ⟨v.node, v.above ++ [s]⟩

/-- The spans that are offered to a diagnostic of the node, in the order in which they are. -/
def spans (v : Visit) : List Span :=
  v.node.span :: v.above

/-- The failure that evaluation reports if it is the rule of the node that fails. -/
def failure? (scope : Scope) (v : Visit) : Option Diagnostic :=
  (v.node.ownFailure? scope).map (·.withinAll v.spans)

/-- An expression around a visit offers its span after all spans inside it. -/
theorem failure?_inside (s : Span) (v : Visit) :
    (v.inside s).failure? scope = (v.failure? scope).map (·.within s) := by
  rw [failure?, failure?, Option.map_map]
  refine congrArg (Option.map · (v.node.ownFailure? scope)) (funext fun d => ?_)
  exact d.withinAll_concat v.spans s

end Visit

mutual

/-- The expressions below an expression and the expression itself, in the order in which their rules
apply.  The operands of a negation are left out if their number is wrong. -/
def visits : Expr → List Visit
  | .arith s op left right =>
      (visits left ++ visits right).map (·.inside s) ++ [⟨.arith s op left right, []⟩]
  | .compare s relation left right =>
      (visits left ++ visits right).map (·.inside s) ++ [⟨.compare s relation left right, []⟩]
  | .join s c es => (visitsAll es).map (·.inside s) ++ [⟨.join s c es, []⟩]
  | .negate s [e] => (visits e).map (·.inside s) ++ [⟨.negate s [e], []⟩]
  | .returned s e => (visits e).map (·.inside s) ++ [⟨.returned s e, []⟩]
  | e => [⟨e, []⟩]
termination_by structural e => e

/-- The visits of a list of expressions, one after another. -/
def visitsAll : List Expr → List Visit
  | [] => []
  | e :: es => visits e ++ visitsAll es
termination_by structural es => es

end

/-- A node is visited after the operands that are evaluated before its rule. -/
theorem visits_eq (e : Expr) :
    visits e = (visitsAll e.operandsFirst).map (·.inside e.span) ++ [⟨e, []⟩] := by
  cases e with
  | arith s op left right | compare s relation left right =>
    rw [visits, operandsFirst, visitsAll, visitsAll, visitsAll, List.append_nil]
    rfl
  | negate s es =>
    rcases es with _ | ⟨e, _ | ⟨e', es⟩⟩
    · rfl
    · rw [visits, operandsFirst, visitsAll, visitsAll, List.append_nil]
      rfl
    · rfl
  | returned s e =>
    rw [visits, operandsFirst, visitsAll, visitsAll, List.append_nil]
    rfl
  | _ => rfl

/-! ### Expressions without calls -/

/-- No node of the expression is a call. -/
def IsCallFree (e : Expr) : Prop :=
  e.Everywhere fun e => ∀ s name es, e ≠ .call s name es

/-- Whether an expression is a call. -/
def isCall : Expr → Bool
  | .call _ _ _ => true
  | _ => false

/-- To find no call in an expression it is enough to test the nodes. -/
theorem isCallFree_of_allNodes {e : Expr} (h : e.allNodes (!·.isCall) = true) : e.IsCallFree := by
  refine (everywhere_of_allNodes e h).imp fun e hnode s name es he => ?_
  rw [he] at hnode
  cases hnode

/-- The operands that are evaluated before the rule of a node are children of it. -/
theorem mem_children_of_mem_operandsFirst {e c : Expr} (h : c ∈ e.operandsFirst) :
    c ∈ e.children := by
  unfold operandsFirst at h
  split at h
  · exact h
  · exact h
  · exact h
  · exact h
  · exact h
  · cases h

/-- A list of expressions fails with the first failure in post-order if each member does. -/
theorem failure?_evaluateAll {es : List Expr}
    (h : ∀ e ∈ es, (evaluate scope e).failure? = (visits e).findSome? (Visit.failure? scope)) :
    (evaluateAll scope es).failure? = (visitsAll es).findSome? (Visit.failure? scope) := by
  induction es with
  | nil => rfl
  | cons e es ih =>
    obtain ⟨he, hes⟩ := List.forall_mem_cons.1 h
    rw [visitsAll, List.findSome?_append, ← he, ← ih hes]
    unfold evaluate evaluateAll
    rw [evaluateAllWith]
    cases evaluateWith (runBody scope.remainingCalls) scope e with
    | error d => rfl
    | ok v => cases evaluateAllWith (runBody scope.remainingCalls) scope es <;> rfl

/-- Evaluation fails with the first failure in post-order. -/
theorem failure?_evaluate {e : Expr} (he : e.IsCallFree) :
    (evaluate scope e).failure? = (visits e).findSome? (Visit.failure? scope) := by
  induction he with
  | @intro e hnode _ ih =>
    have hoperands : (evaluateAll scope e.operandsFirst).failure? =
        (visitsAll e.operandsFirst).findSome? (Visit.failure? scope) :=
      failure?_evaluateAll fun c hc => ih c (mem_children_of_mem_operandsFirst hc)
    have hinside :
        (visitsAll e.operandsFirst).findSome? (Visit.failure? scope ∘ (·.inside e.span)) =
          ((visitsAll e.operandsFirst).findSome? (Visit.failure? scope)).map (·.within e.span) := by
      rw [List.map_findSome?]
      exact congrArg (List.findSome? · _) (funext (Visit.failure?_inside e.span))
    rw [failure?_evaluate_eq_or hnode, hoperands, visits_eq, List.findSome?_append,
      List.findSome?_map, hinside, List.findSome?_singleton, Option.map_or]
    rfl

/-- The first failure is reported with the innermost known span.  An expression without calls fails
exactly if the rule of some node in it fails for the values of its operands.  Kind and text are then
those of the first such node in post-order, and the span is the first known one among that which the
rule attached, that of the node, and those of the expressions around it.  If none of them is known,
an unknown one is attached. -/
theorem first_failure_is_reported {e : Expr} (he : e.IsCallFree) :
    ((∃ d, evaluate scope e = .error d) ↔
      ∃ visit ∈ visits e, ∃ d₀, visit.node.ownFailure? scope = some d₀) ∧
    ∀ d, evaluate scope e = .error d →
      ∃ before visit after d₀, visits e = before ++ visit :: after ∧
        (∀ earlier ∈ before, earlier.node.ownFailure? scope = none) ∧
        visit.node.ownFailure? scope = some d₀ ∧ d.kind = d₀.kind ∧ d.message = d₀.message ∧
        (∀ s, Span.firstKnown (d₀.span.toList ++ visit.node.span :: visit.above) = some s →
          d.span = some s) ∧
        (Span.firstKnown (d₀.span.toList ++ visit.node.span :: visit.above) = none →
          ∃ s, d.span = some s ∧ s.isUnknown = true) := by
  -- All statements are read off one search through the visits.
  have hfailure : (evaluate scope e).failure? = (visits e).findSome? (Visit.failure? scope) :=
    failure?_evaluate he
  refine ⟨⟨?_, ?_⟩, fun d h => ?_⟩
  · rintro ⟨d, h⟩
    rw [h, eq_comm] at hfailure
    obtain ⟨visit, hmem, hvisit⟩ := List.exists_of_findSome?_eq_some hfailure
    obtain ⟨d₀, hown, -⟩ := Option.map_eq_some_iff.1 hvisit
    exact ⟨visit, hmem, d₀, hown⟩
  · rintro ⟨visit, hmem, d₀, hown⟩
    cases h : evaluate scope e with
    | error d => exact ⟨d, rfl⟩
    | ok v =>
      rw [h, eq_comm] at hfailure
      have hvisit : visit.failure? scope = none := List.findSome?_eq_none_iff.1 hfailure visit hmem
      cases (Option.map_eq_none_iff.1 hvisit).symm.trans hown
  · rw [h, eq_comm] at hfailure
    obtain ⟨before, visit, after, hvisits, hvisit, hbefore⟩ :=
      List.findSome?_eq_some_iff.1 hfailure
    obtain ⟨d₀, hown, rfl⟩ := Option.map_eq_some_iff.1 hvisit
    have hearlier : ∀ earlier ∈ before, earlier.node.ownFailure? scope = none :=
      fun earlier hmem => Option.map_eq_none_iff.1 (hbefore earlier hmem)
    have hcause := d₀.cause_withinAll visit.spans
    refine ⟨before, visit, after, d₀, hvisits, hearlier, hown, congrArg Cause.kind hcause,
      congrArg Cause.message hcause, fun s => Diagnostic.span_withinAll_of_known, ?_⟩
    exact Diagnostic.span_withinAll_of_unknown (List.cons_ne_nil _ _)

/-- `true || !(x == 1 && 5) || late`, where `x` holds a read, `late` is unknown, and only the spans
of the disjunction and of `late` are known: the negation of 5 is the first failure, though `true`
decides the disjunction, and it is reported where the disjunction stands. -/
theorem first_failure_in_negation :
    let on (line first last : Nat) : Span := ⟨⟨line, first⟩, ⟨line, last⟩⟩
    let scope := (Scope.root {}).setVariable "x" (.read .unknown (.direct .byte 1))
    let both : Expr := .join .unknown .all
      [.compare .unknown .equal (.var .unknown "x") (.int 1), .int 5]
    let e : Expr := .join (on 1 1 30) .any
      [.bool true, .negate .unknown [both], .var (on 1 27 30) "late"]
    let d : Diagnostic := { cause := .cannotNegate "5", span := some (on 1 1 30) }
    (e.IsCallFree ∧ evaluate scope e = .error d) ∧
    ∃ before visit after d₀, visits e = before ++ visit :: after ∧
      (∀ earlier ∈ before, earlier.node.ownFailure? scope = none) ∧
      visit.node.ownFailure? scope = some d₀ ∧ d.kind = d₀.kind ∧ d.message = d₀.message ∧
      ∀ s, Span.firstKnown (d₀.span.toList ++ visit.node.span :: visit.above) = some s →
        d.span = some s := by
  intro on scope both e d
  have he : e.IsCallFree := isCallFree_of_allNodes rfl
  have h : evaluate scope e = .error d := rfl
  obtain ⟨before, visit, after, d₀, hvisits, hearlier, hown, hkind, hmessage, hspan, -⟩ :=
    (first_failure_is_reported he).2 d h
  exact ⟨⟨he, h⟩, before, visit, after, d₀, hvisits, hearlier, hown, hkind, hmessage, hspan⟩

end Expr

end TriggerLang
