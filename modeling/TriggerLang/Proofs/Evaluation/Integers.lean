import TriggerLang.Proofs.Evaluation.Inversion
import TriggerLang.Proofs.Tree
/-!
# Trees of integers

A tree of arithmetic over integers folds to one integer, or a division by zero stops it.  Words are
computed as signed numbers and wrap at 32 bits, and the unsigned tag of a single leaf is handed on
to the result.

The division that stops a tree is a node both of whose operands have values.  Its position does not
matter: an operand that has no value leaves none to the nodes above it.
-/

namespace TriggerLang

/-! ### Signed arithmetic -/

/-- The result of an operation on signed numbers of 32 bits, as a signed number.  Division truncates
toward zero and the remainder has the sign of the dividend; bits are those of two's complement. -/
def Arith.onSigned (op : Arith) (a b : Int) : Int :=
  match op with
  | .add => (a + b).bmod 4294967296
  | .subtract => (a - b).bmod 4294967296
  | .multiply => (a * b).bmod 4294967296
  | .divide => (a.tdiv b).bmod 4294967296
  | .modulus => a.tmod b
  | .bitAnd => (BitVec.ofInt 32 a &&& BitVec.ofInt 32 b).toInt
  | .bitXor => (BitVec.ofInt 32 a ^^^ BitVec.ofInt 32 b).toInt

/-- Only one quotient of signed numbers is out of their range, and it wraps. -/
example : Arith.divide.onSigned (-2147483648) (-1) = -2147483648 ∧
    Arith.modulus.onSigned (-2147483648) (-1) = 0 := by decide

namespace IntLiteral

/-- Arithmetic on words is arithmetic on the signed numbers that they stand for. -/
theorem toInt_wrapping (op : Arith) (a b : Int32) :
    (wrapping op a b).toInt = op.onSigned a.toInt b.toInt := by
  have hword (v : Int32) : BitVec.ofInt 32 v.toInt = v.toBitVec := BitVec.ofInt_toInt
  cases op with
  | add => exact Int32.toInt_add a b
  | subtract => exact Int32.toInt_sub a b
  | multiply => exact Int32.toInt_mul a b
  | divide => exact Int32.toInt_div a b
  | modulus => exact Int32.toInt_mod a b
  | bitAnd => rw [Arith.onSigned, hword, hword]; rfl
  | bitXor => rw [Arith.onSigned, hword, hword]; rfl

end IntLiteral

namespace Expr

/-! ### Trees -/

/-- A tree of arithmetic whose leaves are integers. -/
inductive IsIntTree : Expr → Prop
  | int (s : Span) (n : IntLiteral) : IsIntTree (.literal s (.int n))
  | arith (s : Span) (op : Arith) {left right : Expr} (hleft : IsIntTree left)
      (hright : IsIntTree right) : IsIntTree (.arith s op left right)

/-- The signed number that a tree of integers stands for; the tags play no part in it. -/
def signedValue : Expr → Int
  | .literal _ (.int n) => n.value.toInt
  | .arith _ op left right => op.onSigned left.signedValue right.signedValue
  | _ => 0

/-- An unsigned integer is among the leaves. -/
def HasUnsignedLeaf (e : Expr) : Prop :=
  ∃ s n, (Expr.literal s (.int n)).IsPartOf e ∧ n.unsigned = true

/-- Some division or remainder has two operands with values, of which the right one is zero. -/
def DividesByZero (scope : Scope) (e : Expr) : Prop :=
  ∃ s op left right value s' n, (Expr.arith s op left right).IsPartOf e ∧ op.isDivision = true ∧
    evaluate scope left = .ok value ∧ evaluate scope right = .ok (.literal s' (.int n)) ∧
    n.value = 0

section Nodes

variable {scope : Scope} {s : Span} {op : Arith} {left right : Expr}

/-- A part of an operation is the whole of it or a part of an operand. -/
theorem isPartOf_arith_iff {part : Expr} :
    part.IsPartOf (.arith s op left right) ↔
      part = .arith s op left right ∨ part.IsPartOf left ∨ part.IsPartOf right := by
  rw [isPartOf_iff]
  simp [children]

/-- An integer is its only leaf. -/
theorem hasUnsignedLeaf_literal {n : IntLiteral} :
    (Expr.literal s (.int n)).HasUnsignedLeaf ↔ n.unsigned = true := by
  constructor
  · rintro ⟨s', m, hpart, hm⟩
    cases (isPartOf_leaf_iff rfl).1 hpart
    exact hm
  · intro hn
    exact ⟨s, n, .refl _, hn⟩

/-- The leaves of an operation are those of its operands. -/
theorem hasUnsignedLeaf_arith :
    (Expr.arith s op left right).HasUnsignedLeaf ↔
      left.HasUnsignedLeaf ∨ right.HasUnsignedLeaf := by
  constructor
  · rintro ⟨s', m, hpart, hm⟩
    obtain h | h | h := isPartOf_arith_iff.1 hpart
    · cases h
    · exact .inl ⟨s', m, h, hm⟩
    · exact .inr ⟨s', m, h, hm⟩
  · rintro (⟨s', m, hpart, hm⟩ | ⟨s', m, hpart, hm⟩)
    · exact ⟨s', m, isPartOf_arith_iff.2 (.inr (.inl hpart)), hm⟩
    · exact ⟨s', m, isPartOf_arith_iff.2 (.inr (.inr hpart)), hm⟩

/-- A literal divides nothing. -/
theorem not_dividesByZero_literal {v : Literal} : ¬ (Expr.literal s v).DividesByZero scope := by
  rintro ⟨s', op', left', right', value, t, n, hpart, -⟩
  cases (isPartOf_leaf_iff rfl).1 hpart

/-- An operation divides by zero in an operand, or by its own right operand once both have values.
-/
theorem dividesByZero_arith :
    (Expr.arith s op left right).DividesByZero scope ↔
      left.DividesByZero scope ∨ right.DividesByZero scope ∨
      op.isDivision = true ∧ ∃ value t n, evaluate scope left = .ok value ∧
        evaluate scope right = .ok (.literal t (.int n)) ∧ n.value = 0 := by
  constructor
  · rintro ⟨s', op', left', right', value, t, n, hpart, h⟩
    obtain heq | hleft | hright := isPartOf_arith_iff.1 hpart
    · cases heq
      exact .inr (.inr ⟨h.1, value, t, n, h.2⟩)
    · exact .inl ⟨s', op', left', right', value, t, n, hleft, h⟩
    · exact .inr (.inl ⟨s', op', left', right', value, t, n, hright, h⟩)
  · rintro (⟨s', op', left', right', value, t, n, hpart, h⟩ |
      ⟨s', op', left', right', value, t, n, hpart, h⟩ | ⟨hop, value, t, n, h⟩)
    · exact ⟨s', op', left', right', value, t, n, isPartOf_arith_iff.2 (.inr (.inl hpart)), h⟩
    · exact ⟨s', op', left', right', value, t, n, isPartOf_arith_iff.2 (.inr (.inr hpart)), h⟩
    · exact ⟨s, op, left, right, value, t, n, .refl _, hop, h⟩

/-! ### One operation -/

/-- An operation evaluates its left operand, then its right one, and combines their values. -/
theorem evaluate_arith :
    evaluate scope (.arith s op left right) = Outcome.within s (do
      let l ← evaluate scope left
      let r ← evaluate scope right
      combine s op l r) := by
  rw [evaluate, evaluateWith]
  rfl

/-- Two integers under an operation. -/
theorem combine_int_int (t u : Span) (a b : IntLiteral) :
    combine s op (.literal t (.int a)) (.literal u (.int b)) =
      if op.isDivision = true ∧ b.value = 0 then (Outcome.fail .divisionByZero).within s
      else .ok (.literal s (.int
        ⟨IntLiteral.wrapping op a.value b.value, a.unsigned || b.unsigned⟩)) := by
  rw [combine, onLiterals?, Literal.fold?, IntLiteral.fold]
  by_cases h : op.isDivision = true ∧ b.value = 0
  · rw [if_pos h, if_pos (by simpa [IntLiteral.isZero] using h)]
    rfl
  · rw [if_neg h, if_neg (by simpa [IntLiteral.isZero] using h)]
    rfl

end Nodes

/-! ### Whole trees -/

/-- What a tree of integers evaluates to: a division by zero stops it, or it folds to one integer.
-/
structure FoldsToInteger (scope : Scope) (e : Expr) : Prop where
  failure : e.DividesByZero scope →
    ∃ d, evaluate scope e = .error d ∧ d.cause = .divisionByZero
  success : ¬ e.DividesByZero scope →
    ∃ n : IntLiteral, evaluate scope e = .ok (.literal e.span (.int n)) ∧
      n.value.toInt = e.signedValue ∧ (n.unsigned = true ↔ e.HasUnsignedLeaf)

/-- An integer folds to itself. -/
theorem foldsToInteger_literal {scope : Scope} (s : Span) (n : IntLiteral) :
    FoldsToInteger scope (.literal s (.int n)) where
  failure h := absurd h not_dividesByZero_literal
  success _ := by
    refine ⟨n, ?_, rfl, hasUnsignedLeaf_literal.symm⟩
    rw [evaluate, evaluateWith]
    rfl

/-- The left operand is the first that may stop the tree, then the right one, then the operation. -/
theorem FoldsToInteger.arith {scope : Scope} (s : Span) (op : Arith) {left right : Expr}
    (hleft : FoldsToInteger scope left) (hright : FoldsToInteger scope right) :
    FoldsToInteger scope (.arith s op left right) := by
  -- The left operand is evaluated first, so that its division by zero is the one that is reported.
  by_cases hl : left.DividesByZero scope
  · obtain ⟨d, hd, hcause⟩ := hleft.failure hl
    refine ⟨fun _ => ⟨d.within s, ?_, by rw [Diagnostic.cause_within, hcause]⟩,
      fun h => absurd (dividesByZero_arith.2 (.inl hl)) h⟩
    rw [evaluate_arith, hd]
    rfl
  obtain ⟨a, ha, hvalue, hunsigned⟩ := hleft.success hl
  by_cases hr : right.DividesByZero scope
  · obtain ⟨d, hd, hcause⟩ := hright.failure hr
    refine ⟨fun _ => ⟨d.within s, ?_, by rw [Diagnostic.cause_within, hcause]⟩,
      fun h => absurd (dividesByZero_arith.2 (.inr (.inl hr))) h⟩
    rw [evaluate_arith, ha, hd]
    rfl
  obtain ⟨b, hb, hvalue', hunsigned'⟩ := hright.success hr
  have hnode : evaluate scope (.arith s op left right) =
      (combine s op (.literal left.span (.int a)) (.literal right.span (.int b))).within s := by
    rw [evaluate_arith, ha, hb]
    rfl
  rw [combine_int_int] at hnode
  by_cases hzero : op.isDivision = true ∧ b.value = 0
  · rw [if_pos hzero] at hnode
    refine ⟨fun _ => ⟨_, hnode, by simp⟩, fun h => absurd (dividesByZero_arith.2 ?_) h⟩
    exact .inr (.inr ⟨hzero.1, _, _, b, ha, hb, hzero.2⟩)
  · rw [if_neg hzero] at hnode
    refine ⟨fun h => ?_, fun _ => ⟨_, hnode, ?_, ?_⟩⟩
    · obtain h | h | ⟨hop, value, t, n, -, hn, hn0⟩ := dividesByZero_arith.1 h
      · exact absurd h hl
      · exact absurd h hr
      · rw [hb] at hn
        cases hn
        exact absurd ⟨hop, hn0⟩ hzero
    · rw [IntLiteral.toInt_wrapping, hvalue, hvalue', signedValue]
    · rw [Bool.or_eq_true, hunsigned, hunsigned', hasUnsignedLeaf_arith]

/-- A tree of integers folds to an integer, or a division by zero stops it. -/
theorem IsIntTree.foldsToInteger {e : Expr} (h : e.IsIntTree) (scope : Scope) :
    FoldsToInteger scope e := by
  induction h with
  | int s n => exact foldsToInteger_literal s n
  | arith s op _ _ hleft hright => exact hleft.arith s op hright

/-- A tree of integers fails with a division by zero exactly when one of its divisions with two
values has a divisor of zero.  Otherwise it is one integer: the signed number that the tree stands
for, and unsigned exactly when one of the leaves is. -/
theorem evaluate_isIntTree {e : Expr} (h : e.IsIntTree) (scope : Scope) :
    ((∃ d, evaluate scope e = .error d ∧ d.kind = .fold ∧ d.message = "Division by zero") ↔
      e.DividesByZero scope) ∧
    (¬ e.DividesByZero scope →
      ∃ n : IntLiteral, evaluate scope e = .ok (.literal e.span (.int n)) ∧
        n.value.toInt = e.signedValue ∧ (n.unsigned = true ↔ e.HasUnsignedLeaf)) := by
  have hfolds := h.foldsToInteger scope
  refine ⟨⟨?_, ?_⟩, hfolds.success⟩
  · rintro ⟨d, hd, -⟩
    by_contra hdivides
    obtain ⟨n, hn, -⟩ := hfolds.success hdivides
    rw [hn] at hd
    cases hd
  · intro hdivides
    obtain ⟨d, hd, hcause⟩ := hfolds.failure hdivides
    refine ⟨d, hd, ?_, ?_⟩
    · rw [Diagnostic.kind, hcause]
      rfl
    · rw [Diagnostic.message, hcause]
      rfl

/-- The quotient of the least number by `1U - 2`, which is `-1` under the unsigned tag, is the least
number again and is unsigned; `7 % (2 - 2)` stops the tree around it, whose right operand is a
product that is out of range. -/
theorem evaluate_isIntTree_least :
    let two : Expr := .int 2
    let quotient : Expr := .arith .unknown .divide (.int (-2147483648))
      (.arith .unknown .subtract (.ofLiteral (.int (.ofWord 1))) two)
    let stopped : Expr := .arith .unknown .add
      (.arith .unknown .modulus (.int 7) (.arith .unknown .subtract two two))
      (.arith .unknown .multiply quotient two)
    let scope : Scope := .root {}
    (quotient.IsIntTree ∧ ¬ quotient.DividesByZero scope ∧
      ∃ n : IntLiteral, evaluate scope quotient = .ok (.literal .unknown (.int n)) ∧
        n.value.toInt = -2147483648 ∧ n.unsigned = true) ∧
    stopped.IsIntTree ∧ stopped.DividesByZero scope ∧
      ∃ d, evaluate scope stopped = .error d ∧ d.kind = .fold ∧ d.message = "Division by zero" := by
  intro two quotient stopped scope
  have hint (n : IntLiteral) : (Expr.ofLiteral (.int n)).IsIntTree := .int _ n
  have hquotient : quotient.IsIntTree := .arith _ _ (hint _) (.arith _ _ (hint _) (hint _))
  have hstopped : stopped.IsIntTree := .arith _ _
    (.arith _ _ (hint _) (.arith _ _ (hint _) (hint _))) (.arith _ _ hquotient (hint _))
  have hvalue : evaluate scope quotient = .ok _ := rfl
  have hfailure : evaluate scope stopped = .error _ := rfl
  obtain ⟨hfails, hfolds⟩ := evaluate_isIntTree hquotient scope
  have hdivides : ¬ quotient.DividesByZero scope := by
    intro h
    obtain ⟨d, hd, -⟩ := hfails.2 h
    rw [hvalue] at hd
    cases hd
  obtain ⟨n, hn, hsigned, hunsigned⟩ := hfolds hdivides
  have hzero : stopped.DividesByZero scope :=
    (evaluate_isIntTree hstopped scope).1.1 ⟨_, hfailure, rfl, rfl⟩
  refine ⟨⟨hquotient, hdivides, n, hn, hsigned, hunsigned.2 ?_⟩, hstopped, hzero,
    _, hfailure, rfl, rfl⟩
  exact hasUnsignedLeaf_arith.2 (.inr (hasUnsignedLeaf_arith.2 (.inl
    (hasUnsignedLeaf_literal.2 rfl))))

end Expr

end TriggerLang
