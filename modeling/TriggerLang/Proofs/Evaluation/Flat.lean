import TriggerLang.Proofs.Evaluation.Condition
import TriggerLang.Proofs.Evaluation.Reduced
/-!
# Flat conditions

The value of a condition is *flat*: a tree of connectives whose kinds alternate, each of them with
two operands at least, over truth values, constant conditions and comparisons of direct reads.
Negations are gone, and a truth value stands at the root only.

Flat trees are what the shape of a trigger is read off.
-/

namespace TriggerLang.Expr

/-! ### Flat trees -/

/-- A condition without connectives: a truth value, a constant condition, or a comparison of a
direct read with an integer or a direct read. -/
inductive IsAtom : Expr → Prop
  | bool (s : Span) (b : Bool) : IsAtom (.literal s (.bool b))
  | always (s : Span) (b : Bool) : IsAtom (.always s b)
  | compareInt (s s₁ s₂ : Span) (relation : Relation) (o : Operand) (n : IntLiteral) :
      IsAtom (.compare s relation (.read s₁ ⟨o, []⟩) (.literal s₂ (.int n)))
  | compareReads (s s₁ s₂ : Span) (relation : Relation) (o o' : Operand) :
      IsAtom (.compare s relation (.read s₁ ⟨o, []⟩) (.read s₂ ⟨o', []⟩))

/-- A tree of connectives over atoms, in which no connective has fewer than two operands, one of its
own kind, or a truth value. -/
inductive IsFlat : Expr → Prop
  | atom {e : Expr} (h : e.IsAtom) : IsFlat e
  | join (s : Span) (c : Connective) {es : List Expr} (hlength : 2 ≤ es.length)
      (hes : ∀ e ∈ es, IsFlat e) (hoperands : ∀ e ∈ es, e.IsOperandOf c) : IsFlat (.join s c es)

/-- An atom stays one at any span. -/
theorem IsAtom.moveTo {e : Expr} (h : e.IsAtom) (s : Span) : (e.moveTo s).IsAtom := by
  cases h with
  | bool _ b => exact .bool s b
  | always _ b => exact .always s b
  | compareInt _ s₁ s₂ relation o n => exact .compareInt s s₁ s₂ relation o n
  | compareReads _ s₁ s₂ relation o o' => exact .compareReads s s₁ s₂ relation o o'

/-- A flat tree stays flat at any span. -/
theorem IsFlat.moveTo {e : Expr} (h : e.IsFlat) (s : Span) : (e.moveTo s).IsFlat := by
  cases h with
  | atom h => exact .atom (h.moveTo s)
  | join _ c hlength hes hoperands => exact .join s c hlength hes hoperands

/-- An atom contributes itself to a connective, unless it is a truth value. -/
theorem IsAtom.of_mem_operandsUnder {c : Connective} {e e' : Expr} (h : e.IsAtom)
    (he' : e' ∈ operandsUnder c e) : e' = e ∧ e'.IsOperandOf c := by
  cases h with
  | bool s b => cases he'
  | always | compareInt | compareReads =>
    rw [List.mem_singleton.1 he']
    exact ⟨rfl, trivial⟩

/-- What a flat tree contributes to a connective is flat and may be an operand of it. -/
theorem IsFlat.of_mem_operandsUnder {c : Connective} {e e' : Expr} (h : e.IsFlat)
    (he' : e' ∈ operandsUnder c e) : e'.IsFlat ∧ e'.IsOperandOf c := by
  cases h with
  | atom h =>
    obtain ⟨rfl, hoperand⟩ := h.of_mem_operandsUnder he'
    exact ⟨.atom h, hoperand⟩
  | join s c' hlength hes hoperands =>
    rw [operandsUnder] at he'
    split at he'
    · rename_i hc
      exact ⟨hes e' he', hc ▸ hoperands e' he'⟩
    · rename_i hc
      rw [List.mem_singleton.1 he']
      exact ⟨.join s c' hlength hes hoperands, hc⟩

/-- Evaluation joins flat operands to a flat tree. -/
theorem isFlat_joinAll (c : Connective) {es : List Expr} (hes : ∀ e ∈ es, e.IsFlat) :
    (joinAll c es).IsFlat := by
  have hflat : ∀ e ∈ es.flatMap (operandsUnder c), e.IsFlat ∧ e.IsOperandOf c := by
    intro e he
    obtain ⟨e', he', he⟩ := List.mem_flatMap.1 he
    exact (hes e' he').of_mem_operandsUnder he
  unfold joinAll
  split
  · exact .atom (.bool _ _)
  · generalize es.flatMap (operandsUnder c) = operands at hflat ⊢
    rcases operands with _ | ⟨e, _ | ⟨e', es'⟩⟩
    · exact .atom (.bool _ _)
    · exact (hflat e (List.mem_singleton_self e)).1
    · exact .join _ c (Nat.le_add_left 2 _) (fun e he => (hflat e he).1) fun e he => (hflat e he).2

/-- Every atom has a negation, and it is an atom. -/
theorem IsAtom.exists_negated {e : Expr} (h : e.IsAtom) : ∃ v, negated e = .ok v ∧ v.IsAtom := by
  cases h with
  | bool s b => exact ⟨_, rfl, .bool s _⟩
  | always s b => exact ⟨_, rfl, .always s _⟩
  | compareInt s s₁ s₂ relation o n => exact ⟨_, rfl, .compareInt s s₁ s₂ _ o n⟩
  | compareReads s s₁ s₂ relation o o' => exact ⟨_, rfl, .compareReads s s₁ s₂ _ o o'⟩

/-- Every flat tree has a negation, and it is flat. -/
theorem IsFlat.exists_negated {e : Expr} (h : e.IsFlat) : ∃ v, negated e = .ok v ∧ v.IsFlat := by
  induction h with
  | atom h =>
    obtain ⟨v, hv, hatom⟩ := h.exists_negated
    exact ⟨v, hv, .atom hatom⟩
  | join s c hlength hes hoperands ih =>
    obtain ⟨vs, hvs, hflat⟩ := forall_exists_iff_forall₂.1 ih
    refine ⟨(joinAll c.dual vs).moveTo s, ?_, (isFlat_joinAll c.dual hflat).moveTo s⟩
    rw [negated, negatedAll_eq_ok_iff.2 hvs]
    rfl

/-! ### Values of conditions -/

variable {scope : Scope}

/-- A direct read evaluates to a read without a path. -/
theorem evaluateWith_of_isDirectRead (run : BodyRule) (hscope : scope.HasBuiltins) {e : Expr}
    (h : e.IsDirectRead) : ∃ s o, evaluateWith run scope e = .ok (.read s ⟨o, []⟩) := by
  obtain ⟨o, ho⟩ := h
  obtain ⟨s, hs⟩ := evaluateWith_of_read? run hscope ho
  exact ⟨s, o, hs⟩

/-- The value of a comparison of direct reads and integers is such a comparison. -/
theorem IsCondition.evaluateWith_compare (run : BodyRule) (hscope : scope.HasBuiltins) {s : Span}
    {relation : Relation} {left right : Expr}
    (h : (Expr.compare s relation left right).IsCondition) :
    ∃ relation' left' right', evaluateWith run scope (.compare s relation left right) =
      .ok (.compare s relation' left' right') ∧ (Expr.compare s relation' left' right').IsAtom := by
  cases h with
  | compareInt s s' relation n hleft =>
    obtain ⟨s₁, o, hl⟩ := evaluateWith_of_isDirectRead run hscope hleft
    exact ⟨_, _, _, evaluateWith_compare_eq_ok_iff.2 ⟨_, _, hl, rfl, rfl⟩,
      .compareInt s s₁ s' relation o n⟩
  | intCompare s s' relation n hright =>
    obtain ⟨s₁, o, hr⟩ := evaluateWith_of_isDirectRead run hscope hright
    exact ⟨_, _, _, evaluateWith_compare_eq_ok_iff.2 ⟨_, _, rfl, hr, rfl⟩,
      .compareInt s s₁ .unknown relation.converse o n⟩
  | compareReads s relation hleft hright =>
    obtain ⟨s₁, o, hl⟩ := evaluateWith_of_isDirectRead run hscope hleft
    obtain ⟨s₂, o', hr⟩ := evaluateWith_of_isDirectRead run hscope hright
    exact ⟨_, _, _, evaluateWith_compare_eq_ok_iff.2 ⟨_, _, hl, hr, rfl⟩,
      .compareReads s s₁ s₂ relation o o'⟩

/-- Every condition has a value, and it is flat. -/
theorem IsCondition.exists_isFlat (run : BodyRule) (hscope : scope.HasBuiltins) {e : Expr}
    (h : e.IsCondition) : ∃ v, evaluateWith run scope e = .ok v ∧ v.IsFlat := by
  have hcompare {s : Span} {relation : Relation} {left right : Expr}
      (h : (Expr.compare s relation left right).IsCondition) :
      ∃ v, evaluateWith run scope (.compare s relation left right) = .ok v ∧ v.IsFlat := by
    obtain ⟨_, _, _, hv, hatom⟩ := h.evaluateWith_compare run hscope
    exact ⟨_, hv, .atom hatom⟩
  induction h with
  | bool s b => exact ⟨_, rfl, .atom (.bool s b)⟩
  | always s b => exact ⟨_, rfl, .atom (.always s b)⟩
  | constantCall s b => exact ⟨_, evaluateWith_constantCall hscope s b, .atom (.always s b)⟩
  | compareInt s s' relation n hleft => exact hcompare (.compareInt s s' relation n hleft)
  | intCompare s s' relation n hright => exact hcompare (.intCompare s s' relation n hright)
  | compareReads s relation hleft hright => exact hcompare (.compareReads s relation hleft hright)
  | join s c hes ih =>
    obtain ⟨vs, hvs, hflat⟩ := forall_exists_iff_forall₂.1 ih
    exact ⟨_, evaluateWith_join_eq_ok_iff.2 ⟨vs, hvs, rfl⟩, (isFlat_joinAll c hflat).moveTo s⟩
  | negate s he ih =>
    obtain ⟨v, hv, hflat⟩ := ih
    obtain ⟨n, hn, hnegated⟩ := hflat.exists_negated
    exact ⟨_, evaluateWith_negate_eq_ok_iff.2 ⟨_, v, n, rfl, hv, hn, rfl⟩, hnegated.moveTo s⟩

end TriggerLang.Expr
