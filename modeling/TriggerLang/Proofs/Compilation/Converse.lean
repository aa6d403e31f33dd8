import TriggerLang.Proofs.Compilation.Spans
import TriggerLang.Proofs.Evaluation.Settling
import TriggerLang.Proofs.Word
/-!
# Comparisons the other way round

A comparison may be written either way round: `3 < byte(1)` is `byte(1) > 3`.  Where one operand is
a literal, both ways have one value up to spans and compile to one trigger.

Two literals are compared alike either way, by their numbers, texts or truth values.  Nothing is
asked of the order for it: `a < b` and `b > a` are one comparison, also if one of the two is not a
number.  What is needed is that equality is symmetric.
-/

namespace TriggerLang

/-! ### Values -/

namespace Binary32

open Float.Model

/-- Two floating point numbers stand in the opposite order the other way round, and without an order
one way there is none the other way. -/
theorem compare_symm (x y : UnpackedFloat) : y.compare x = (x.compare y).map Ordering.swap := by
  cases x with
  | notANumber => cases y <;> rfl
  | infinity sign =>
    cases sign <;> cases y with
    | infinity sign' => cases sign' <;> rfl
    | finite sign' => cases sign' <;> rfl
    | _ => rfl
  | zero sign =>
    cases y with
    | infinity sign' => cases sign' <;> rfl
    | finite sign' => cases sign' <;> rfl
    | _ => rfl
  | finite sign m e =>
    cases y with
    | finite sign' m' e' =>
      -- Two finite numbers of one sign are compared by their exponents first.
      have hswap : (compare e' e).then (compare m' m) =
          ((compare e e').then (compare m m')).swap := by
        rw [Ordering.swap_then, Int.compare_swap, Nat.compare_swap]
      cases sign <;> cases sign'
      · exact congrArg (fun order : Ordering => some order.swap) hswap
      · rfl
      · rfl
      · exact congrArg some hswap
    | infinity sign' => cases sign <;> cases sign' <;> rfl
    | notANumber | zero => cases sign <;> rfl

/-- Two floating point numbers are equal in either order. -/
theorem beq_comm (x y : Float32) : (x == y) = (y == x) := by
  show (x.toModel.unpack.compare y.toModel.unpack == some .eq) =
    (y.toModel.unpack.compare x.toModel.unpack == some .eq)
  rw [compare_symm x.toModel.unpack]
  cases x.toModel.unpack.compare y.toModel.unpack with
  | none => rfl
  | some order => cases order <;> rfl

end Binary32

namespace Literal

/-- A comparison of literals folds: both are numbers, both are texts, or both are truth values and
are compared for equality. -/
def FoldsUnder (r : Relation) : Literal → Literal → Prop
  | .int _, .int _ | .int _, .real _ | .real _, .int _ | .real _, .real _ => True
  | .text _, .text _ => True
  | .bool _, .bool _ => r = .equal ∨ r = .notEqual
  | _, _ => False

/-- A comparison of literals that folds has a truth value. -/
theorem exists_decide? {r : Relation} {a b : Literal} (h : FoldsUnder r a b) :
    ∃ truth, a.decide? r b = some truth := by
  cases a with
  | int m =>
    cases b with
    | int | real => exact ⟨_, rfl⟩
    | text | bool => exact h.elim
  | real x =>
    cases b with
    | int | real => exact ⟨_, rfl⟩
    | text | bool => exact h.elim
  | text s =>
    cases b with
    | text => exact ⟨_, rfl⟩
    | int | real | bool => exact h.elim
  | bool a =>
    cases b with
    | bool b => obtain rfl | rfl := h <;> exact ⟨_, rfl⟩
    | int | real | text => exact h.elim

/-- A comparison of literals has one truth either way round. -/
theorem decide?_converse (r : Relation) (a b : Literal) :
    b.decide? r.converse a = a.decide? r b := by
  have hreal (x y : Float32) : r.converse.holds y x = r.holds x y :=
    r.holds_converse_of_beq_comm Binary32.beq_comm y x
  cases a with
  | int m =>
    cases b with
    | int n => exact congrArg some (r.holds_converse_of_beq_comm (fun _ _ => BEq.comm) _ _)
    | real y => exact congrArg some (hreal m.toReal y)
    | text t => rfl
    | bool b => cases r <;> rfl
  | real x =>
    cases b with
    | int n => exact congrArg some (hreal x n.toReal)
    | real y => exact congrArg some (hreal x y)
    | text t => rfl
    | bool b => cases r <;> rfl
  | text s =>
    cases b with
    | text t => exact congrArg some (r.holds_converse_of_beq_comm (fun _ _ => BEq.comm) _ _)
    | bool b => cases r <;> rfl
    | int _ | real _ => rfl
  | bool a =>
    cases b with
    | bool b => cases r <;> cases a <;> cases b <;> rfl
    | int _ | real _ | text _ => cases r <;> rfl

end Literal

namespace Expr

variable {scope : Scope}

/-! ### Normal forms -/

/-- A literal and any other value have one normal form either way round. -/
theorem erase_normalize_converse (s s' t t' : Span) (a : Literal) (r : Relation) {v : Expr}
    (hv : v.isLiteral = false) :
    (normalize s r (.literal t a) v).erase =
      (normalize s' r.converse v (.literal t' a)).erase := by
  have hliteral : (ofLiteral a).erase = (literal t' a).erase := rfl
  rw [normalize_literal_left s t a r hv, erase_normalize rfl hliteral s s' r.converse]

/-- Two literals that fold have one truth either way round. -/
theorem exists_normalize_literals (s s' t t' u u' : Span) {a b : Literal} {r : Relation}
    (h : a.FoldsUnder r b) :
    ∃ truth, normalize s r (.literal t a) (.literal u b) = .literal s (.bool truth) ∧
      normalize s' r.converse (.literal u' b) (.literal t' a) = .literal s' (.bool truth) := by
  obtain ⟨truth, htruth⟩ := Literal.exists_decide? h
  have hconverse : b.decide? r.converse a = some truth := by
    rw [Literal.decide?_converse, htruth]
  refine ⟨truth, ?_, ?_⟩
  · rw [normalize, settlingSteps, settle, simplerComparison?, htruth]
    rfl
  · rw [normalize, settlingSteps, settle, simplerComparison?, hconverse]
    rfl

/-! ### Values -/

/-- A comparison of a literal with an expression that has a value. -/
theorem evaluate_compare_literal {e v : Expr} (hv : evaluate scope e = .ok v) (s t : Span)
    (r : Relation) (a : Literal) :
    evaluate scope (.compare s r (.literal t a) e) = .ok (normalize s r (.literal t a) v) ∧
      evaluate scope (.compare s r e (.literal t a)) = .ok (normalize s r v (.literal t a)) :=
  ⟨evaluateWith_compare_eq_ok_iff.2 ⟨_, v, by rw [evaluateWith], hv, rfl⟩,
    evaluateWith_compare_eq_ok_iff.2 ⟨v, _, hv, by rw [evaluateWith], rfl⟩⟩

/-- A comparison of a literal with an expression that has no value fails with its failure. -/
theorem upTo_evaluate_compare_literal {e : Expr} {d : Diagnostic} (hd : evaluate scope e = .error d)
    (s t : Span) (r : Relation) (a : Literal) :
    (evaluate scope (.compare s r (.literal t a) e)).upTo erase = .error d.cause ∧
      (evaluate scope (.compare s r e (.literal t a))).upTo erase = .error d.cause := by
  rw [evaluate] at hd
  constructor
  · rw [evaluate, evaluateWith, Outcome.upTo_within, evaluateWith, hd]
    rfl
  · rw [evaluate, evaluateWith, Outcome.upTo_within, hd]
    rfl

end Expr

open TriggerLang.Expr

/-- A comparison of a literal with an expression gives the same either way round.  If the
expression has a value that is no literal, then so have both comparisons, and the two values differ
in spans only; if it is a literal and the two fold, then both have the same truth; and in both cases
the two comparisons compile to the same trigger or fail for the same reason. -/
theorem compare_converse (scope : Scope) (a : Literal) (r : Relation) (e : Expr)
    (s s' t t' : Span) :
    (∀ v, evaluate scope e = .ok v → v.isLiteral = false →
      ∃ w w', evaluate scope (.compare s r (.literal t a) e) = .ok w ∧
        evaluate scope (.compare s' r.converse e (.literal t' a)) = .ok w' ∧
        w.erase = w'.erase) ∧
    (∀ u b, evaluate scope e = .ok (.literal u b) → a.FoldsUnder r b →
      ∃ truth,
        evaluate scope (.compare s r (.literal t a) e) = .ok (.literal s (.bool truth)) ∧
        evaluate scope (.compare s' r.converse e (.literal t' a)) =
          .ok (.literal s' (.bool truth))) ∧
    ((∀ v, evaluate scope.clause e = .ok v →
        v.isLiteral = false ∨ ∃ u b, v = .literal u b ∧ a.FoldsUnder r b) →
      (compile scope (.compare s r (.literal t a) e)).MatchUpTo id
        (compile scope (.compare s' r.converse e (.literal t' a)))) := by
  refine ⟨fun v hv hliteral => ?_, fun u b hb hfolds => ?_, fun hvalues => ?_⟩
  · exact ⟨_, _, (evaluate_compare_literal hv s t r a).1,
      (evaluate_compare_literal hv s' t' r.converse a).2,
      erase_normalize_converse s s' t t' a r hliteral⟩
  · obtain ⟨truth, hleft, hright⟩ := exists_normalize_literals s s' t t' u u hfolds
    refine ⟨truth, ?_, ?_⟩
    · rw [(evaluate_compare_literal hb s t r a).1, hleft]
    · rw [(evaluate_compare_literal hb s' t' r.converse a).2, hright]
  · refine Outcome.matchUpTo_of_upTo_eq ((Scope.SameUpToSpans.refl scope).upTo_compile ?_)
    cases he : evaluate scope.clause e with
    | error d =>
      rw [(upTo_evaluate_compare_literal he s t r a).1,
        (upTo_evaluate_compare_literal he s' t' r.converse a).2]
    | ok v =>
      rw [(evaluate_compare_literal he s t r a).1,
        (evaluate_compare_literal he s' t' r.converse a).2, Outcome.upTo_ok, Outcome.upTo_ok]
      refine congrArg Except.ok ?_
      obtain hliteral | ⟨u, b, rfl, hfolds⟩ := hvalues v he
      · exact erase_normalize_converse s s' t t' a r hliteral
      · obtain ⟨truth, hleft, hright⟩ := exists_normalize_literals s s' t t' u u hfolds
        rw [hleft, hright]
        rfl

/-- `7 >= byte(1) + 5` and `byte(1) + 5 <= 7` have one value up to spans and compile to the row
`byte 1 <= 2`.  A floating point number that is not a number differs from 3 either way round. -/
theorem compare_converse_offset :
    let scope : Scope := .root {}
    let e : Expr := .arith .unknown .add (.call .unknown "byte" [.int 1]) (.int 5)
    let seven : Literal := .int (.signed 7)
    let nan : Literal := .real (Float32.ofBits 0x7FC00000)
    let three : Literal := .int (.signed 3)
    let t : Trigger := ⟨[.compare (.read .byte 1) .lessOrEqual (.word 2)], []⟩
    (∃ w w', evaluate scope (.compare .unknown .greaterOrEqual (.ofLiteral seven) e) = .ok w ∧
      evaluate scope (.compare .unknown .lessOrEqual e (.ofLiteral seven)) = .ok w' ∧
      w.erase = w'.erase) ∧
    compile scope (.compare .unknown .greaterOrEqual (.ofLiteral seven) e) = .ok t ∧
    compile scope (.compare .unknown .lessOrEqual e (.ofLiteral seven)) = .ok t ∧
    nan.FoldsUnder .notEqual three ∧
    evaluate scope (.compare .unknown .notEqual (.ofLiteral nan) (.ofLiteral three)) =
      .ok (.bool true) ∧
    evaluate scope (.compare .unknown .notEqual (.ofLiteral three) (.ofLiteral nan)) =
      .ok (.bool true) := by
  intro scope e seven nan three t
  have hvalue : evaluate scope e = .ok _ := rfl
  have hclause : evaluate scope.clause e = .ok _ := rfl
  have hcompile : compile scope (.compare .unknown .greaterOrEqual (.ofLiteral seven) e) = .ok t :=
    rfl
  have hnan : evaluate scope (.compare .unknown .notEqual (.ofLiteral nan) (.ofLiteral three)) =
      .ok (.bool true) := rfl
  obtain ⟨hsum, -, hsame⟩ :=
    compare_converse scope seven .greaterOrEqual e .unknown .unknown .unknown .unknown
  obtain ⟨-, hliterals, -⟩ :=
    compare_converse scope nan .notEqual (.ofLiteral three) .unknown .unknown .unknown .unknown
  refine ⟨hsum _ hvalue rfl, hcompile, ?_, trivial, hnan, ?_⟩
  · obtain ⟨_, _, hleft, hright, rfl⟩ | ⟨_, _, hfail, -⟩ := hsame fun v hv => by
      cases hclause.symm.trans hv
      exact .inl rfl
    · cases hcompile.symm.trans hleft
      exact hright
    · cases hcompile.symm.trans hfail
  · obtain ⟨truth, hleft, hright⟩ := hliterals .unknown three rfl trivial
    cases hnan.symm.trans hleft
    exact hright

end TriggerLang
