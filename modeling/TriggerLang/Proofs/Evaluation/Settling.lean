import TriggerLang.Proofs.Evaluation.Offset
/-!
# Settled comparisons

A comparison is *settled* when no simpler form of it exists.  Evaluation takes a bounded number of
steps toward a settled comparison, and this module shows that the bound is never felt: a literal
moves to the right side at most once, an offset moves at most once after that, and then the
comparison is settled or decided.

`SettlesTo` has no bound.  Its steps come to an end because each of them lowers `comparisonRank`,
and the bounded loop gets to the same end if its bound is above the rank of the comparison that it
starts from (`SettlesTo.settle_eq`).  What is shown about normal forms is read off `SettlesTo` and
not off the loop.
-/

namespace TriggerLang

/-- Whether two literals have a truth value does not change under negation. -/
theorem Literal.decide?_negation_eq_none {v w : Literal} {relation : Relation}
    (h : v.decide? relation w = none) : v.decide? relation.negation w = none := by
  cases v <;> cases w <;> cases relation <;> simp_all [decide?, Relation.negation]

/-- Whether an offset moves does not depend on the relation. -/
theorem ReadSum.takeOffset_negation_eq_none {v : ReadSum} {relation : Relation} {place : Span}
    {n : IntLiteral} (h : v.takeOffset relation place n = none) :
    v.takeOffset relation.negation place n = none := by
  unfold takeOffset at h ⊢
  grind

namespace Expr

/-! ### Steps -/

/-- The two steps that give another comparison: operands trade places, or an offset moves. -/
theorem simplerComparison?_eq_comparison {left right left' right' : Expr}
    {relation relation' : Relation}
    (h : simplerComparison? true left relation right =
      some (.comparison left' relation' right')) :
    (∃ s v, left = .literal s v ∧ right.isLiteral = false ∧ left' = right ∧
      right' = .ofLiteral v) ∨
    (∃ s v place n n', left = .sum s v ∧ v.offset ≠ 0 ∧ right = .literal place (.int n) ∧
      left' = (ReadSum.mk v.terms 0).toExpr ∧ right' = .literal place (.int n')) := by
  cases left with
  -- A literal on the left side can only trade places, and a sum can only give up its offset.
  | literal s v =>
    left
    cases right with
    | literal place w =>
      rw [simplerComparison?] at h
      cases hw : v.decide? relation w <;> rw [hw] at h <;> cases h
    | _ =>
      cases h
      exact ⟨s, v, rfl, rfl, rfl, rfl⟩
  | sum s v =>
    right
    cases right with
    | literal place w =>
      cases w with
      | int n =>
        rw [simplerComparison?, if_pos rfl, ReadSum.takeOffset] at h
        split at h
        · cases h
        · rename_i hoffset
          split at h
          · cases h
            exact ⟨s, v, place, n, _, rfl, hoffset, rfl, rfl, rfl⟩
          · split at h <;> cases h
      | _ => cases h
    | _ => cases h
  | _ => cases h

/-- The number of further comparisons that may come out of a comparison. -/
def comparisonRank (left right : Expr) : Nat :=
  match left, right with
  | .literal _ _, .literal _ _ => 0
  | .literal _ _, _ => 2
  | .sum _ v, .literal _ (.int _) => if v.offset = 0 then 0 else 1
  | _, _ => 0

/-- A literal on the left side may trade places, and then an offset may move. -/
theorem comparisonRank_literal_left (s : Span) (v : Literal) {right : Expr}
    (h : right.isLiteral = false) : comparisonRank (.literal s v) right = 2 := by
  cases right with
  | literal s' w => cases h
  | _ => rfl

/-- A literal on the right side leaves at most the offset of a sum to be moved. -/
theorem comparisonRank_literal_right {left : Expr} (s : Span) (v : Literal) :
    comparisonRank left (.literal s v) < 2 := by
  cases left with
  | sum s' w =>
    cases v with
    | int n =>
      rw [comparisonRank]
      split <;> decide
    | _ => exact Nat.zero_lt_two
  | literal s' w => exact Nat.zero_lt_two
  | _ => exact Nat.zero_lt_two

/-- Terms without an offset have nothing to move. -/
theorem comparisonRank_toExpr (terms : List Term) (right : Expr) (hright : right.isLiteral = true) :
    comparisonRank (ReadSum.mk terms 0).toExpr right = 0 := by
  cases right with
  | literal s v =>
    obtain ⟨-, h⟩ | ⟨r, -, -, h⟩ | ⟨-, h⟩ := (ReadSum.mk terms 0).toExpr_cases
    · rw [h]
      rfl
    · rw [h, ModifiedRead.toExpr]
      split <;> rfl
    · rw [h]
      cases v <;> rfl
  | _ => cases hright

/-- Every step lowers the rank. -/
theorem comparisonRank_lt {left right left' right' : Expr} {relation relation' : Relation}
    (h : simplerComparison? true left relation right =
      some (.comparison left' relation' right')) :
    comparisonRank left' right' < comparisonRank left right := by
  obtain ⟨s, v, rfl, hright, rfl, rfl⟩ | ⟨s, v, place, n, n', rfl, hoffset, rfl, rfl, rfl⟩ :=
    simplerComparison?_eq_comparison h
  · rw [comparisonRank_literal_left s v hright]
    exact comparisonRank_literal_right _ v
  · rw [comparisonRank_toExpr _ _ rfl, comparisonRank, if_neg hoffset]
    exact Nat.one_pos

/-! ### Steps without a bound -/

/-- What becomes of a comparison if steps are taken as long as there are any. -/
inductive SettlesTo : Expr → Relation → Expr → Verdict → Prop
  | settled {left right : Expr} {relation : Relation}
      (h : simplerComparison? true left relation right = none) :
      SettlesTo left relation right (.comparison left relation right)
  | decided {left right : Expr} {relation : Relation} {b : Bool}
      (h : simplerComparison? true left relation right = some (.decided b)) :
      SettlesTo left relation right (.decided b)
  | step {left right left' right' : Expr} {relation relation' : Relation} {verdict : Verdict}
      (h : simplerComparison? true left relation right =
        some (.comparison left' relation' right'))
      (hrest : SettlesTo left' relation' right' verdict) :
      SettlesTo left relation right verdict

/-- Steps come to an end. -/
theorem exists_settlesTo (left : Expr) (relation : Relation) (right : Expr) :
    ∃ verdict, SettlesTo left relation right verdict := by
  cases hsimpler : simplerComparison? true left relation right with
  | none => exact ⟨_, .settled hsimpler⟩
  | some verdict =>
    cases verdict with
    | decided b => exact ⟨_, .decided hsimpler⟩
    | comparison left' relation' right' =>
      have hlt := comparisonRank_lt hsimpler
      obtain ⟨verdict, hrest⟩ := exists_settlesTo left' relation' right'
      exact ⟨verdict, .step hsimpler hrest⟩
termination_by comparisonRank left right

section

variable {left right : Expr} {relation : Relation} {verdict : Verdict}

/-- At the end stands a truth value or a settled comparison.  What every step keeps of the operands
holds of the settled comparison. -/
theorem SettlesTo.decided_or_settled {P : Expr → Expr → Prop}
    (hstep : ∀ {left right left' right' relation relation'}, P left right →
      simplerComparison? true left relation right = some (.comparison left' relation' right') →
      P left' right')
    (h : SettlesTo left relation right verdict) (hP : P left right) :
    (∃ b, verdict = .decided b) ∨
    ∃ left' relation' right', verdict = .comparison left' relation' right' ∧
      simplerComparison? true left' relation' right' = none ∧ P left' right' := by
  induction h with
  | settled hnone => exact .inr ⟨_, _, _, rfl, hnone, hP⟩
  | decided _ => exact .inl ⟨_, rfl⟩
  | step hsimpler _ ih => exact ih (hstep hP hsimpler)

/-! ### The loop -/

/-- With more steps than the rank of the comparison the loop gets to the end. -/
theorem SettlesTo.settle_eq (h : SettlesTo left relation right verdict) (s : Span) {n : Nat}
    (hrank : comparisonRank left right < n) :
    settle s n left relation right = verdict.toExpr.moveTo s := by
  induction n generalizing left relation right with
  | zero => exact absurd hrank (Nat.not_lt_zero _)
  | succ n ih =>
    rw [settle]
    cases h with
    | settled hnone =>
      rw [hnone]
      rfl
    | decided hdecided =>
      rw [hdecided]
      rfl
    | step hsimpler hrest =>
      have hlt := comparisonRank_lt hsimpler
      rw [hsimpler]
      exact ih hrest (by omega)

/-- The bound on the number of steps is above every rank. -/
theorem comparisonRank_lt_settlingSteps (left right : Expr) :
    comparisonRank left right < settlingSteps := by
  unfold comparisonRank settlingSteps
  split
  · decide
  · decide
  · split <;> decide
  · decide

/-- The normal form of a comparison is what becomes of it without a bound. -/
theorem SettlesTo.normalize_eq (h : SettlesTo left relation right verdict) (s : Span) :
    normalize s relation left right = verdict.toExpr.moveTo s :=
  h.settle_eq s (comparisonRank_lt_settlingSteps left right)

end

/-- The normal form of a comparison is a truth value or a settled comparison. -/
theorem normalize_cases {P : Expr → Expr → Prop}
    (hstep : ∀ {left right left' right' relation relation'}, P left right →
      simplerComparison? true left relation right = some (.comparison left' relation' right') →
      P left' right')
    (s : Span) (relation : Relation) {left right : Expr} (h : P left right) :
    (∃ b, normalize s relation left right = .literal s (.bool b)) ∨
    ∃ left' relation' right', normalize s relation left right =
        .compare s relation' left' right' ∧
      simplerComparison? true left' relation' right' = none ∧ P left' right' := by
  obtain ⟨verdict, hverdict⟩ := exists_settlesTo left relation right
  rw [hverdict.normalize_eq s]
  obtain ⟨b, rfl⟩ | ⟨left', relation', right', rfl, hnone, hP⟩ :=
    hverdict.decided_or_settled hstep h
  · exact .inl ⟨b, rfl⟩
  · exact .inr ⟨left', relation', right', rfl, hnone, hP⟩

/-- A settled comparison is its own normal form. -/
theorem normalize_of_settled {left right : Expr} {relation : Relation}
    (h : simplerComparison? true left relation right = none) (s : Span) :
    normalize s relation left right = .compare s relation left right :=
  (SettlesTo.settled h).normalize_eq s

/-- A literal on the left side trades places with the other operand, and nothing else is different
from a comparison that has it on the right side. -/
theorem normalize_literal_left (s t : Span) (v : Literal) (relation : Relation) {right : Expr}
    (h : right.isLiteral = false) :
    normalize s relation (.literal t v) right =
      normalize s relation.converse right (.ofLiteral v) := by
  have hstep : simplerComparison? true (.literal t v) relation right =
      some (.comparison right relation.converse (.ofLiteral v)) := by
    cases right with
    | literal s' w => cases h
    | _ => rfl
  obtain ⟨verdict, hverdict⟩ := exists_settlesTo right relation.converse (.ofLiteral v)
  have hswapped : SettlesTo (.literal t v) relation right verdict := .step hstep hverdict
  rw [hswapped.normalize_eq s, hverdict.normalize_eq s]

/-! ### Negation -/

/-- The negation of a settled comparison is settled. -/
theorem simplerComparison?_negation_eq_none {moveOffsets : Bool} {left right : Expr}
    {relation : Relation} (h : simplerComparison? moveOffsets left relation right = none) :
    simplerComparison? moveOffsets left relation.negation right = none := by
  cases left with
  | literal s v =>
    cases right with
    | literal place w =>
      rw [simplerComparison?, Option.map_eq_none_iff] at h ⊢
      exact Literal.decide?_negation_eq_none h
    | _ => cases h
  | sum s v =>
    cases right with
    | literal place w =>
      cases w with
      | int n =>
        cases moveOffsets with
        | true => exact ReadSum.takeOffset_negation_eq_none h
        | false => rfl
      | _ => rfl
    | _ => rfl
  | _ => rfl

/-- Where no step is left with offsets that may move, none is left without. -/
theorem simplerComparison?_eq_none_of_moving {left right : Expr} {relation : Relation}
    (h : simplerComparison? true left relation right = none) (moveOffsets : Bool) :
    simplerComparison? moveOffsets left relation right = none := by
  cases moveOffsets with
  | true => exact h
  | false =>
    cases left with
    | literal s v =>
      cases right with
      | literal place w => exact h
      | _ => cases h
    | sum s v =>
      cases right with
      | literal place w => cases w <;> rfl
      | _ => rfl
    | _ => rfl

end Expr

namespace Verdict

/-- The verdict on the negation of a comparison. -/
def negation : Verdict → Verdict
  | decided b => decided !b
  | comparison left relation right => comparison left relation.negation right

/-- No step is left of a verdict, whether or not offsets may move. -/
def IsFinal : Verdict → Prop
  | decided _ => True
  | comparison left relation right =>
      ∀ moveOffsets, Expr.simplerComparison? moveOffsets left relation right = none

/-- Where no step is left of a verdict, none is left of its negation. -/
theorem IsFinal.negation {verdict : Verdict} (h : verdict.IsFinal) : verdict.negation.IsFinal := by
  cases verdict with
  | decided b => trivial
  | comparison left relation right =>
    exact fun moveOffsets => Expr.simplerComparison?_negation_eq_none (h moveOffsets)

/-- Negation leads from verdict to verdict. -/
theorem negated_toExpr (s : Span) (verdict : Verdict) :
    Expr.negated (verdict.toExpr.moveTo s) = .ok (verdict.negation.toExpr.moveTo s) := by
  cases verdict <;> rfl

end Verdict

namespace Expr

/-- No step is left at the end. -/
theorem SettlesTo.isFinal {left right : Expr} {relation : Relation} {verdict : Verdict}
    (h : SettlesTo left relation right verdict) : verdict.IsFinal := by
  induction h with
  | settled hnone => exact simplerComparison?_eq_none_of_moving hnone
  | decided _ => trivial
  | step _ _ ih => exact ih

/-- The bound on the number of steps is never felt.  The normal form of a comparison is what becomes
of it without a bound, a truth value or a comparison with no step left; so is its negation, which is
therefore in normal form as it stands; and no further steps change it. -/
theorem normalize_settles (s : Span) (left : Expr) (relation : Relation) (right : Expr) :
    ∃ verdict, SettlesTo left relation right verdict ∧
      normalize s relation left right = verdict.toExpr.moveTo s ∧
      verdict.IsFinal ∧ verdict.negation.IsFinal ∧
      negated (normalize s relation left right) = .ok (verdict.negation.toExpr.moveTo s) ∧
      ∀ extra, settle s (settlingSteps + extra) left relation right =
        normalize s relation left right := by
  obtain ⟨verdict, hverdict⟩ := exists_settlesTo left relation right
  have hnormal : normalize s relation left right = verdict.toExpr.moveTo s :=
    hverdict.normalize_eq s
  have hfinal : verdict.IsFinal := hverdict.isFinal
  refine ⟨verdict, hverdict, hnormal, hfinal, hfinal.negation, ?_, fun extra => ?_⟩
  · rw [hnormal]
    exact verdict.negated_toExpr s
  · have hrank := comparisonRank_lt_settlingSteps left right
    rw [hnormal]
    exact hverdict.settle_eq s (Nat.lt_add_right extra hrank)

-- `5 == s` for a sum `s` of the integer `2` alone takes all three kinds of steps: the sides trade
-- places, the offset moves, and two integers are left.  One step of the bound is to spare.
example :
    let left : Expr := .int 5
    let right : Expr := .sum .unknown ⟨[], 2⟩
    settle .unknown 2 left .equal right = .compare .unknown .equal (.int 0) (.int 3) ∧
      settle .unknown 3 left .equal right = .bool false :=
  ⟨rfl, rfl⟩

end Expr

end TriggerLang
