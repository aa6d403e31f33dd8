import TriggerLang.Proofs.Evaluation.Logic
/-!
# Evaluation of conditions

A source *condition* is a tree of connectives and negations over truth values, the constant
conditions and comparisons of direct reads with integers or direct reads.  In every scope with the
built-ins a condition evaluates, the result is folded, and it is true in the same states of memory.

The proof is by induction over the tree.  The leaves are comparisons, whose operands may trade
places; the connectives and negations are the business of `Proofs.Evaluation.Logic`.
-/

namespace TriggerLang

namespace Expr

/-! ### Source conditions -/

/-- A read at a constant address, without a pointer path. -/
def IsDirectRead (e : Expr) : Prop :=
  ∃ o, e.read? = some ⟨o, []⟩

/-- The conditions of a script whose truth is read off memory directly. -/
inductive IsCondition : Expr → Prop
  | bool (s : Span) (b : Bool) : IsCondition (.literal s (.bool b))
  | always (s : Span) (b : Bool) : IsCondition (.always s b)
  | constantCall (s : Span) (b : Bool) : IsCondition (.call s (Builtin.always b).name [])
  | compareInt (s s' : Span) (relation : Relation) {left : Expr} (n : IntLiteral)
      (hleft : left.IsDirectRead) : IsCondition (.compare s relation left (.literal s' (.int n)))
  | intCompare (s s' : Span) (relation : Relation) {right : Expr} (n : IntLiteral)
      (hright : right.IsDirectRead) : IsCondition (.compare s relation (.literal s' (.int n)) right)
  | compareReads (s : Span) (relation : Relation) {left right : Expr} (hleft : left.IsDirectRead)
      (hright : right.IsDirectRead) : IsCondition (.compare s relation left right)
  | join (s : Span) (c : Connective) {es : List Expr} (hes : ∀ e ∈ es, IsCondition e) :
      IsCondition (.join s c es)
  | negate (s : Span) {e : Expr} (he : IsCondition e) : IsCondition (.negate s [e])

/-! ### Operands of comparisons -/

section

variable {run : BodyRule} {scope : Scope}

/-- A call of a constant condition evaluates to the condition. -/
theorem evaluateWith_constantCall (hscope : scope.HasBuiltins) (s : Span) (b : Bool) :
    evaluateWith run scope (.call s (Builtin.always b).name []) = .ok (.always s b) := by
  rw [evaluateWith, hscope (.always b)]
  rfl

/-- An expression that stands for a read evaluates to the read. -/
theorem evaluateWith_of_read? (run : BodyRule) (hscope : scope.HasBuiltins) {e : Expr}
    {r : MemoryRead} (h : e.read? = some r) : ∃ s, evaluateWith run scope e = .ok (.read s r) := by
  unfold read? at h
  split at h
  · rename_i s r'
    cases h
    exact ⟨s, rfl⟩
  · rename_i s name s' n
    split at h
    · rename_i size hname
      cases h
      have hb : name = (Builtin.read size).name := by
        have := List.find?_some hname
        exact (eq_of_beq this).symm
      refine ⟨s, ?_⟩
      rw [evaluateWith, hb, hscope (.read size)]
      rfl
    · cases h
  · cases h

/-- A direct read has no path, and so a well formed one. -/
theorem wellFormedReads_direct (s : Span) (o : Operand) :
    (Expr.read s ⟨o, []⟩).WellFormedReads := by
  intro row hrow
  cases hrow

/-! ### Conditions -/

/-- A condition that evaluates to a folded one with the same truth in every state of memory. -/
def HasFoldedValue (run : BodyRule) (scope : Scope) (e : Expr) : Prop :=
  ∃ v, evaluateWith run scope e = .ok v ∧ v.IsFolded ∧ ∀ m, v.truthIn m = e.truthIn m

/-- Conditions with folded values evaluate together, each to one with its own truth. -/
theorem evaluateAllWith_of_hasFoldedValue {es : List Expr}
    (h : ∀ e ∈ es, HasFoldedValue run scope e) :
    ∃ vs, evaluateAllWith run scope es = .ok vs ∧ (∀ v ∈ vs, v.IsFolded) ∧
      ∀ m, vs.map (truthIn m) = es.map (truthIn m) := by
  induction es with
  | nil => exact ⟨[], rfl, nofun, fun m => rfl⟩
  | cons e es ih =>
    obtain ⟨v, he, hfolded, htruth⟩ := h e List.mem_cons_self
    obtain ⟨vs, hes, hfoldeds, htruths⟩ := ih fun e' he' => h e' (List.mem_cons_of_mem _ he')
    refine ⟨v :: vs, ?_, ?_, fun m => ?_⟩
    · rw [evaluateAllWith, he, hes]
      rfl
    · exact List.forall_mem_cons.2 ⟨hfolded, hfoldeds⟩
    · rw [List.map_cons, htruth m, htruths m, List.map_cons]

/-- A comparison of an evaluated read is kept as it is. -/
theorem hasFoldedValue_compare_read {s : Span} {relation : Relation} {left right right' : Expr}
    {s' : Span} {o : Operand} (hleft : left.read? = some ⟨o, []⟩)
    (hl : evaluateWith run scope left = .ok (.read s' ⟨o, []⟩))
    (hr : evaluateWith run scope right = .ok right') (hright : right'.IsComparand)
    (hword : ∀ m, right'.wordIn m = right.wordIn m) :
    HasFoldedValue run scope (.compare s relation left right) := by
  refine ⟨.compare s relation (.read s' ⟨o, []⟩) right', ?_, ?_, fun m => ?_⟩
  · rw [evaluateWith, hl, hr]
    rfl
  · exact .compare s relation (wellFormedReads_direct s' o) hright
  · rw [truthIn, truthIn, hword m, wordIn_of_read? m hleft]
    rfl

/-- Every condition evaluates, to a folded condition that is true in the same states of memory. -/
theorem IsCondition.hasFoldedValue (run : BodyRule) (hscope : scope.HasBuiltins) {e : Expr}
    (he : e.IsCondition) : HasFoldedValue run scope e := by
  induction he with
  | bool s b => exact ⟨_, rfl, .bool s b, fun m => rfl⟩
  | always s b => exact ⟨_, rfl, .always s b, fun m => rfl⟩
  | constantCall s b =>
    refine ⟨_, evaluateWith_constantCall hscope s b, .always s b, fun m => ?_⟩
    rw [truthIn, truthIn, Builtin.ofName?_name]
  | compareInt s s' relation n hleft =>
    obtain ⟨o, ho⟩ := hleft
    obtain ⟨s₁, hl⟩ := evaluateWith_of_read? run hscope ho
    exact hasFoldedValue_compare_read ho hl rfl (.int s' n) fun m => rfl
  -- An integer on the left side trades places with the read, and the relation becomes its converse.
  | intCompare s s' relation n hright =>
    obtain ⟨o, ho⟩ := hright
    obtain ⟨s₁, hr⟩ := evaluateWith_of_read? run hscope ho
    refine ⟨.compare s relation.converse (.read s₁ ⟨o, []⟩) (.literal .unknown (.int n)), ?_, ?_,
      fun m => ?_⟩
    · rw [evaluateWith, hr]
      rfl
    · exact .compare s _ (wellFormedReads_direct s₁ o) (.int _ n)
    · rw [truthIn, truthIn, wordIn_of_read? m ho, Relation.holds_words, Relation.holds_converse,
        ← Relation.holds_words]
      rfl
  | compareReads s relation hleft hright =>
    obtain ⟨o, ho⟩ := hleft
    obtain ⟨o', ho'⟩ := hright
    obtain ⟨s₁, hl⟩ := evaluateWith_of_read? run hscope ho
    obtain ⟨s₂, hr⟩ := evaluateWith_of_read? run hscope ho'
    exact hasFoldedValue_compare_read ho hl hr (.read s₂ _) fun m => (wordIn_of_read? m ho').symm
  | join s c hes ih =>
    obtain ⟨vs, hvs, hfolded, htruths⟩ := evaluateAllWith_of_hasFoldedValue ih
    refine ⟨(joinAll c vs).moveTo s, ?_, (isFolded_joinAll c hfolded).moveTo s, fun m => ?_⟩
    · rw [evaluateWith, hvs]
      rfl
    · rw [truthIn_moveTo, truthIn_joinAll m c hfolded, htruths m, truthIn_join]
  | negate s he ih =>
    obtain ⟨v, hv, hfolded, htruth⟩ := ih
    obtain ⟨v', hv', hfolded', htruth'⟩ := hfolded.hasNegation
    refine ⟨v'.moveTo s, ?_, hfolded'.moveTo s, fun m => ?_⟩
    · rw [evaluateWith, hv]
      show Outcome.within s (negated v >>= _) = _
      rw [hv']
      rfl
    · rw [truthIn_moveTo, htruth' m, htruth m, truthIn]

end

end Expr

end TriggerLang
