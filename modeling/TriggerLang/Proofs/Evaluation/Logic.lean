import TriggerLang.Expr.Logic
import TriggerLang.Proofs.Lowering.Comparison
/-!
# Truth under the logic of evaluation

Evaluation flattens connectives, drops truth values and moves negations to the leaves.  This module
shows that none of this changes the truth of a condition, and that the result stays *folded*: a tree
of connectives, each with an operand, over truth values and comparisons that can be lowered.

Both steps follow the structure of folded conditions.  The empty conjunction and the empty
disjunction never stay in the tree: they fold to the truth value that is neutral for them.
-/

namespace TriggerLang

/-! ### Truth of connectives -/

namespace Connective

/-- Without operands a connective has the truth value that does not decide it. -/
@[simp] theorem truth_nil (c : Connective) : c.truth [] = !c.absorbing := by
  cases c <;> rfl

/-- With one operand a connective has the truth of the operand. -/
theorem truth_singleton (c : Connective) (b : Bool) : c.truth [b] = b := by
  cases c <;> simp [truth]

/-- A connective reads its first operand and then the truth of the others. -/
theorem truth_cons (c : Connective) (b : Bool) (bs : List Bool) :
    c.truth (b :: bs) = c.truth [b, c.truth bs] := by
  cases c <;> simp [truth]

/-- A connective reads a list in two parts. -/
theorem truth_append (c : Connective) (bs bs' : List Bool) :
    c.truth (bs ++ bs') = c.truth [c.truth bs, c.truth bs'] := by
  cases c <;> simp [truth]

/-- An operand that decides the connective decides it in every list. -/
theorem truth_of_mem_absorbing {c : Connective} {bs : List Bool} (h : c.absorbing ∈ bs) :
    c.truth bs = c.absorbing := by
  cases c with
  | all => simpa [truth, absorbing] using h
  | any => simpa [truth, absorbing] using h

/-- The truth of negated operands under the dual connective. -/
theorem truth_dual (c : Connective) (bs : List Bool) :
    c.dual.truth (bs.map not) = !c.truth bs := by
  induction bs with
  | nil => rw [List.map_nil, truth_nil, truth_nil, absorbing_dual]
  | cons b bs ih =>
    rw [List.map_cons, truth_cons, ih, truth_cons c]
    cases c <;> cases b <;> simp [dual, truth]

end Connective

namespace Expr

/-! ### Folded conditions -/

/-- An evaluated condition without calls: connectives, each with an operand, over truth values and
comparisons of reads with integers or reads. -/
inductive IsFolded : Expr → Prop
  | bool (s : Span) (b : Bool) : IsFolded (.literal s (.bool b))
  | always (s : Span) (b : Bool) : IsFolded (.always s b)
  | compare (s : Span) (relation : Relation) {left right : Expr} (hleft : left.WellFormedReads)
      (hright : right.IsComparand) : IsFolded (.compare s relation left right)
  | join (s : Span) (c : Connective) {es : List Expr} (hne : es ≠ [])
      (hes : ∀ e ∈ es, IsFolded e) : IsFolded (.join s c es)

/-- A folded condition stays folded at any span. -/
theorem IsFolded.moveTo {e : Expr} (h : e.IsFolded) (s : Span) : (e.moveTo s).IsFolded := by
  cases h with
  | bool _ b => exact .bool s b
  | always _ b => exact .always s b
  | compare _ relation hleft hright => exact .compare s relation hleft hright
  | join _ c hne hes => exact .join s c hne hes

/-! ### Flattening -/

/-- An operand that does not decide a connective contributes its own truth, taken apart or not. -/
theorem truth_operandsUnder (m : Memory) (c : Connective) {e : Expr} (he : e.IsFolded)
    (h : e.isBool c.absorbing = false) :
    c.truth ((operandsUnder c e).map (truthIn m)) = e.truthIn m := by
  cases he with
  | bool s b =>
    have hb : b = !c.absorbing := by
      cases b <;> cases hc : c.absorbing <;> simp_all [isBool]
    rw [operandsUnder, List.map_nil, Connective.truth_nil, hb, truthIn]
  | always s b => exact Connective.truth_singleton c _
  | compare s relation hleft hright => exact Connective.truth_singleton c _
  | join s c' hne hes =>
    rw [operandsUnder]
    split
    · rename_i hc
      rw [hc, truthIn_join]
    · rw [List.map_singleton, Connective.truth_singleton]

/-- What a folded operand contributes to a connective is folded. -/
theorem isFolded_operandsUnder (c : Connective) {e : Expr} (he : e.IsFolded) :
    ∀ e' ∈ operandsUnder c e, e'.IsFolded := by
  intro e' he'
  cases he with
  | bool s b => cases he'
  | always s b =>
    rw [List.mem_singleton.1 he']
    exact .always s b
  | compare s relation hleft hright =>
    rw [List.mem_singleton.1 he']
    exact .compare s relation hleft hright
  | join s c' hne hes =>
    rw [operandsUnder] at he'
    split at he'
    · exact hes e' he'
    · rw [List.mem_singleton.1 he']
      exact .join s c' hne hes

/-- Operands that do not decide a connective contribute their truth, taken apart or not. -/
theorem truth_flatMap_operandsUnder (m : Memory) (c : Connective) {es : List Expr}
    (hes : ∀ e ∈ es, e.IsFolded) (hbool : ∀ e ∈ es, e.isBool c.absorbing = false) :
    c.truth ((es.flatMap (operandsUnder c)).map (truthIn m)) = c.truth (es.map (truthIn m)) := by
  induction es with
  | nil => rfl
  | cons e es ih =>
    have hhead := truth_operandsUnder m c (hes e List.mem_cons_self) (hbool e List.mem_cons_self)
    have htail := ih (fun e' he' => hes e' (List.mem_cons_of_mem _ he'))
      fun e' he' => hbool e' (List.mem_cons_of_mem _ he')
    rw [List.flatMap_cons, List.map_append, Connective.truth_append, hhead, htail, List.map_cons]
    exact (Connective.truth_cons c _ _).symm

/-- A flattened connective has the truth of its operands under the connective. -/
theorem truthIn_joinAll (m : Memory) (c : Connective) {es : List Expr}
    (hes : ∀ e ∈ es, e.IsFolded) :
    (joinAll c es).truthIn m = c.truth (es.map (truthIn m)) := by
  unfold joinAll
  split
  · rename_i hany
    obtain ⟨e, he, hbool⟩ := List.any_eq_true.1 hany
    have htruth : e.truthIn m = c.absorbing := by
      unfold isBool at hbool
      split at hbool
      · exact eq_of_beq hbool
      · cases hbool
    rw [Connective.truth_of_mem_absorbing (List.mem_map.2 ⟨e, he, htruth⟩)]
    rfl
  · rename_i hany
    have hbool : ∀ e ∈ es, e.isBool c.absorbing = false := by
      intro e he
      rw [Bool.eq_false_iff]
      exact fun h => hany (List.any_eq_true.2 ⟨e, he, h⟩)
    rw [← truth_flatMap_operandsUnder m c hes hbool]
    split
    · rename_i hnil
      rw [hnil, List.map_nil, Connective.truth_nil]
      rfl
    · rename_i e hsingle
      rw [hsingle, List.map_singleton, Connective.truth_singleton]
    · exact truthIn_join m _ c _

/-- Folded operands are flattened to a folded condition. -/
theorem isFolded_joinAll (c : Connective) {es : List Expr} (hes : ∀ e ∈ es, e.IsFolded) :
    (joinAll c es).IsFolded := by
  have hflat : ∀ e ∈ es.flatMap (operandsUnder c), e.IsFolded := by
    intro e he
    obtain ⟨e', he', he⟩ := List.mem_flatMap.1 he
    exact isFolded_operandsUnder c (hes e' he') e he
  unfold joinAll
  split
  · exact .bool _ _
  · split
    · exact .bool _ _
    · rename_i e hsingle
      exact hflat e (by rw [hsingle]; exact List.mem_singleton_self e)
    · rename_i hne _
      exact .join _ c hne hflat

/-! ### Negation -/

/-- The negation of a folded condition: it is there, folded, and has the other truth value. -/
def HasNegation (e : Expr) : Prop :=
  ∃ e', negated e = .ok e' ∧ e'.IsFolded ∧ ∀ m, e'.truthIn m = !e.truthIn m

/-- Conditions with negations are negated together, each to the other truth value. -/
theorem negatedAll_of_hasNegation {es : List Expr} (h : ∀ e ∈ es, e.HasNegation) :
    ∃ es', negatedAll es = .ok es' ∧ (∀ e ∈ es', e.IsFolded) ∧
      ∀ m, es'.map (truthIn m) = (es.map (truthIn m)).map not := by
  induction es with
  | nil => exact ⟨[], rfl, nofun, fun m => rfl⟩
  | cons e es ih =>
    obtain ⟨e', he, hfolded, htruth⟩ := h e List.mem_cons_self
    obtain ⟨es', hes, hfoldeds, htruths⟩ := ih fun e' he' => h e' (List.mem_cons_of_mem _ he')
    refine ⟨e' :: es', ?_, ?_, fun m => ?_⟩
    · rw [negatedAll, he, hes]
      rfl
    · exact List.forall_mem_cons.2 ⟨hfolded, hfoldeds⟩
    · rw [List.map_cons, htruth m, htruths m, List.map_cons, List.map_cons]

/-- Every folded condition has a negation. -/
theorem IsFolded.hasNegation {e : Expr} (he : e.IsFolded) : e.HasNegation := by
  induction he with
  | bool s b => exact ⟨_, rfl, .bool s _, fun m => rfl⟩
  | always s b => exact ⟨_, rfl, .always s _, fun m => rfl⟩
  | compare s relation hleft hright =>
    refine ⟨_, rfl, .compare s _ hleft hright, fun m => ?_⟩
    rw [truthIn, truthIn, Relation.holds_words, Relation.holds_negation, ← Relation.holds_words]
  | @join s c es hne hes ih =>
    obtain ⟨es', hes', hfolded, htruths⟩ := negatedAll_of_hasNegation ih
    refine ⟨(joinAll c.dual es').moveTo s, ?_, (isFolded_joinAll _ hfolded).moveTo s, fun m => ?_⟩
    · rw [negated, hes']
      rfl
    · rw [truthIn_moveTo, truthIn_joinAll m c.dual hfolded, htruths m, Connective.truth_dual,
        truthIn_join]

end Expr

end TriggerLang
