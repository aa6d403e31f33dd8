import TriggerLang.Expr.Basic
/-!
# Equality of expressions

`Expr.same` compares expressions node by node and ignores their spans.  `Expr.erase` forgets the
spans, so that two expressions with one erasure are the same up to where they were read.

The two differ on floating point numbers alone: `Expr.same` compares them as numbers.
-/

namespace TriggerLang.Expr

mutual

/-- Whether two expressions agree up to their spans. -/
def same : Expr → Expr → Bool
  | literal _ v, literal _ w => v.same w
  | var _ m, var _ n => m == n
  | arith _ o l r, arith _ o' l' r' => o == o' && same l l' && same r r'
  | compare _ o l r, compare _ o' l' r' => o == o' && same l l' && same r r'
  | join _ c es, join _ c' es' => c == c' && sameAll es es'
  | negate _ es, negate _ es' => sameAll es es'
  | call _ f es, call _ f' es' => f == f' && sameAll es es'
  | read _ m, read _ m' => m == m'
  | modified _ m, modified _ m' => m == m'
  | sum _ s, sum _ s' => s == s'
  | always _ b, always _ b' => b == b'
  | returned _ e, returned _ e' => same e e'
  | error _ t, error _ t' => t == t'
  | _, _ => false

/-- Whether two lists agree expression by expression. -/
def sameAll : List Expr → List Expr → Bool
  | [], [] => true
  | e :: es, e' :: es' => same e e' && sameAll es es'
  | _, _ => false

end

mutual

/-- The expression without its spans. -/
def erase : Expr → Expr
  | literal _ v => literal .unknown v
  | var _ n => var .unknown n
  | arith _ o l r => arith .unknown o l.erase r.erase
  | compare _ o l r => compare .unknown o l.erase r.erase
  | join _ c es => join .unknown c (eraseAll es)
  | negate _ es => negate .unknown (eraseAll es)
  | call _ f es => call .unknown f (eraseAll es)
  | read _ m => read .unknown m
  | modified _ m => modified .unknown m
  | sum _ s => sum .unknown s
  | always _ b => always .unknown b
  | returned _ e => returned .unknown e.erase
  | error _ t => error .unknown t

/-- A list of expressions without their spans. -/
def eraseAll : List Expr → List Expr
  | [] => []
  | e :: es => e.erase :: eraseAll es

end

/-- The spans of a list of expressions are erased one by one. -/
@[simp] theorem eraseAll_eq_map (es : List Expr) : eraseAll es = es.map erase := by
  induction es with
  | nil => rfl
  | cons e es ih => simp [eraseAll, ih]

/-- The outermost span plays no part once spans are erased. -/
@[simp] theorem erase_moveTo (s : Span) (e : Expr) : (e.moveTo s).erase = e.erase := by
  cases e <;> rfl

end TriggerLang.Expr
