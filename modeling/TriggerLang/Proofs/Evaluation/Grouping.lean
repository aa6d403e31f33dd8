import TriggerLang.Proofs.Evaluation.Agreement
import TriggerLang.Proofs.Evaluation.Negation
/-!
# Grouping of operands

Conjunctions and disjunctions are associative: a run of operands may be put into a connective of its
own, at any depth, and the value stays the same up to spans.  A run may be empty or have one operand
only.

On values this is a law of flattening (`joinAll_group`).  What a reduced value contributes to a
connective may be spliced in again without a change, so that it does not matter whether a run of
values is flattened before its neighbours or together with them.
-/

namespace TriggerLang.Expr

variable {names : Names}

/-! ### Values -/

/-- Values are flattened alike when they decide the connective alike and, if they do not decide it,
contribute the same operands. -/
theorem joinAll_congr {c : Connective} {es es' : List Expr}
    (hany : es.any (·.isBool c.absorbing) = es'.any (·.isBool c.absorbing))
    (hflat : es'.any (·.isBool c.absorbing) = false →
      es.flatMap (operandsUnder c) = es'.flatMap (operandsUnder c)) :
    joinAll c es = joinAll c es' := by
  rw [joinAll, joinAll, hany]
  cases hdecided : es'.any (·.isBool c.absorbing) with
  | true => rfl
  | false => rw [hflat hdecided]

/-- A run of reduced values, flattened by itself, decides the connective exactly if one of them
does, and contributes what they contribute if none of them does. -/
theorem joinAll_contributes {es : List Expr} (hes : ∀ e ∈ es, e.IsReduced names) (c : Connective) :
    (joinAll c es).isBool c.absorbing = es.any (·.isBool c.absorbing) ∧
      (es.any (·.isBool c.absorbing) = false →
        operandsUnder c (joinAll c es) = es.flatMap (operandsUnder c)) := by
  have hoperands : ∀ e ∈ es.flatMap (operandsUnder c), e.IsOperandOf c := by
    intro e he
    obtain ⟨e', he', he⟩ := List.mem_flatMap.1 he
    exact isOperandOf_of_mem (hes e' he') he
  unfold joinAll
  split
  · rename_i hdecided
    rw [hdecided]
    exact ⟨beq_self_eq_true _, nofun⟩
  · rename_i hundecided
    rw [Bool.not_eq_true] at hundecided
    rw [hundecided]
    generalize es.flatMap (operandsUnder c) = flat at hoperands ⊢
    rcases flat with _ | ⟨e, _ | ⟨e', flat⟩⟩
    · exact ⟨by cases c <;> rfl, fun _ => rfl⟩
    · have he := hoperands e List.mem_cons_self
      exact ⟨he.isBool_eq_false _, fun _ => he.operandsUnder_eq⟩
    · exact ⟨rfl, fun _ => if_pos rfl⟩

/-- A run of values may be flattened before its neighbours. -/
theorem joinAll_group {group : List Expr} (hgroup : ∀ e ∈ group, e.IsReduced names)
    (c : Connective) (before after : List Expr) :
    joinAll c (before ++ joinAll c group :: after) = joinAll c (before ++ group ++ after) := by
  obtain ⟨hdecides, hcontributes⟩ := joinAll_contributes hgroup c
  refine joinAll_congr ?_ fun hundecided => ?_
  · rw [List.any_append, List.any_cons, hdecides, List.any_append, List.any_append, Bool.or_assoc]
  · rw [List.any_append, List.any_append, Bool.or_eq_false_iff, Bool.or_eq_false_iff] at hundecided
    rw [List.flatMap_append, List.flatMap_cons, hcontributes hundecided.1.2, List.flatMap_append,
      List.flatMap_append, List.append_assoc]

/-! ### Expressions -/

/-- A run of operands of a connective is put into a connective of its own. -/
inductive GroupsRun : Expr → Expr → Prop
  | intro (s s' t : Span) (c : Connective) (before group after : List Expr) :
      GroupsRun (.join s c (before ++ group ++ after))
        (.join s' c (before ++ .join t c group :: after))

section

variable {run : BodyRule} {scope : Scope}

/-- A list of expressions may be evaluated in two parts, one after the other. -/
theorem evaluateAllWith_append (es es' : List Expr) :
    evaluateAllWith run scope (es ++ es') = (do
      let vs ← evaluateAllWith run scope es
      let vs' ← evaluateAllWith run scope es'
      pure (vs ++ vs')) := by
  induction es with
  | nil =>
    rw [List.nil_append, evaluateAllWith]
    exact (bind_pure _).symm
  | cons e es ih =>
    rw [List.cons_append, evaluateAllWith, evaluateAllWith, ih]
    simp only [bind_assoc, pure_bind, List.cons_append]

/-- A connective flattens the values of its operands. -/
theorem upTo_evaluateWith_join (s : Span) (c : Connective) (es : List Expr) :
    (evaluateWith run scope (.join s c es)).upTo erase =
      (evaluateAllWith run scope es).upTo fun vs => (joinAll c vs).erase := by
  rw [evaluateWith, Outcome.upTo_within]
  cases evaluateAllWith run scope es with
  | error d => rfl
  | ok vs => exact congrArg Except.ok (erase_moveTo s (joinAll c vs))

/-- A run of operands has the values in the connective of its own that it has without. -/
theorem GroupsRun.haveOneValue
    (hvalues : ∀ e v, evaluateWith run scope e = .ok v → v.IsReduced names) {e e' : Expr}
    (h : GroupsRun e e') : HaveOneValue run run scope scope e e' := by
  obtain ⟨s, s', t, c, before, group, after⟩ := h
  rw [HaveOneValue, upTo_evaluateWith_join, upTo_evaluateWith_join, evaluateAllWith_append,
    evaluateAllWith_append, evaluateAllWith_append, evaluateAllWith]
  cases evaluateAllWith run scope before with
  | error d => rfl
  | ok before =>
    -- The connective of the run has a value exactly if the run has values.
    have hgroup : evaluateWith run scope (.join t c group) = Outcome.within t
        (evaluateAllWith run scope group >>= fun vs => pure ((joinAll c vs).moveTo t)) := rfl
    rw [hgroup]
    cases hvs : evaluateAllWith run scope group with
    | error d => exact congrArg Except.error (d.cause_within t).symm
    | ok vs =>
      cases evaluateAllWith run scope after with
      | error d => rfl
      | ok after =>
        have hreduced : ∀ v ∈ vs, v.IsReduced names :=
          forall_of_forall₂ (evaluateAllWith_eq_ok_iff.1 hvs) fun e _ v hv => hvalues e v hv
        refine congrArg Except.ok ?_
        show (joinAll c (before ++ vs ++ after)).erase =
          (joinAll c (before ++ (joinAll c vs).moveTo t :: after)).erase
        rw [← joinAll_group hreduced]
        refine erase_joinAll_congr c ?_
        rw [List.map_append, List.map_append, List.map_cons, List.map_cons, erase_moveTo]

/-- In one scope, having one value up to spans is a congruence. -/
theorem isCongruence_haveOneValue (hcalls : CallsAgree run run scope scope) :
    IsCongruence (HaveOneValue run run scope scope) := by
  intro e cs hcs
  by_cases hvariable : ∃ s name, e = .var s name
  · obtain ⟨s, name, rfl⟩ := hvariable
    rfl
  · rw [not_exists] at hvariable
    have he : ∀ s name, e ≠ .var s name := fun s name h => hvariable s ⟨name, h⟩
    have hmoved := HaveOneValue.withChildren hcalls (e.withChildren cs).span he hcs
    rwa [moveTo_span] at hmoved

end

/-- Runs of operands may be grouped and ungrouped anywhere in an expression. -/
theorem upTo_evaluate_of_regrouped {scope : Scope}
    (hvariables : ∀ name value, scope.lookup? name = some value →
      value.Everywhere (IsReduced scope.names))
    {e e' : Expr} (h : Relation.EqvGen (Rewrites GroupsRun) e e') :
    (evaluate scope e).upTo erase = (evaluate scope e').upTo erase := by
  have hvalues (e v : Expr) (hv : evaluate scope e = .ok v) : v.IsReduced scope.names :=
    (everywhere_isReduced_evaluate hvariables hv).node
  have hcongruence : IsCongruence (HaveOneValue (runBody scope.remainingCalls)
      (runBody scope.remainingCalls) scope scope) :=
    isCongruence_haveOneValue ((Scope.Agrees.refl scope).callsAgree scope.remainingCalls)
  induction h with
  | rel e e' h => exact hcongruence.of_rewrites (fun _ _ h => h.haveOneValue hvalues) h
  | refl e => rfl
  | symm e e' _ ih => exact ih.symm
  | trans e e' e'' _ _ ih ih' => exact ih.trans ih'

end TriggerLang.Expr
