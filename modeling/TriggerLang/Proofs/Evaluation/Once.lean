import TriggerLang.Proofs.Evaluation.Idempotence
import TriggerLang.Proofs.Evaluation.Images
/-!
# One hit as a number of hits

`once(c)` and `repeated(1, c)` are different calls that ask for the same.  `Expr.countOnce` writes
the second one for the first one everywhere in an expression.  Evaluation commutes with it: an
expression and its image, each in a scope with the variables and bodies to match, have a value and
its image, or both have none (`mapsTo_evaluate_countOnce`).

The diagnostics of failures differ, since they name expressions in full.
-/

namespace TriggerLang

/-- The names `once` and `repeated` mean the built-in functions. -/
structure Scope.HasCounting (scope : Scope) : Prop where
  once : scope.function? Builtin.once.name = some (.builtin .once)
  repeated : scope.function? Builtin.repeated.name = some (.builtin .repeated)

namespace Scope.HasCounting

variable {scope scope' : Scope} (h : scope.HasCounting)
include h

/-- Both names keep their meaning in a trigger clause. -/
theorem clause : scope.clause.HasCounting :=
  ⟨by rw [function?_clause, h.once], by rw [function?_clause, h.repeated]⟩

/-- Both names keep their meaning in the body of a call. -/
theorem inCall (values : List (String × Expr)) : (scope.inCall values).HasCounting :=
  ⟨by rw [function?_inCall, h.once], by rw [function?_inCall, h.repeated]⟩

/-- Both names have their meaning in the image of a scope. -/
theorem mapsTo {f : Expr → Expr} (hscope : scope.MapsTo f scope') : scope'.HasCounting := by
  constructor
  · rw [hscope.function?, h.once]
    rfl
  · rw [hscope.function?, h.repeated]
    rfl

end Scope.HasCounting

namespace Expr

/-- A call of `once` with the one argument that it takes. -/
abbrev IsOnceCall (name : String) (es : List Expr) : Prop :=
  name = Builtin.once.name ∧ es.length = 1

mutual

/-- The expression with `repeated(1, c)` in the place of every `once(c)`. -/
def countOnce : Expr → Expr
  | .call s name es =>
      .call s (if IsOnceCall name es then Builtin.repeated.name else name)
        (if IsOnceCall name es then ofCount 1 :: countOnceAll es else countOnceAll es)
  | .arith s op left right => .arith s op (countOnce left) (countOnce right)
  | .compare s relation left right => .compare s relation (countOnce left) (countOnce right)
  | .join s c es => .join s c (countOnceAll es)
  | .negate s es => .negate s (countOnceAll es)
  | .returned s e => .returned s (countOnce e)
  | .literal s v => .literal s v
  | .var s name => .var s name
  | .read s m => .read s m
  | .modified s m => .modified s m
  | .sum s v => .sum s v
  | .always s b => .always s b
  | .error s text => .error s text

/-- A list of expressions with `repeated(1, c)` in the place of every `once(c)`. -/
def countOnceAll : List Expr → List Expr
  | [] => []
  | e :: es => countOnce e :: countOnceAll es

end

/-- A list of expressions has the images of its members. -/
@[simp] theorem countOnceAll_eq_map (es : List Expr) : countOnceAll es = es.map countOnce := by
  induction es with
  | nil => rfl
  | cons e es ih => rw [countOnceAll, ih, List.map_cons]

/-- A call of `once` becomes a call of `repeated` with one hit. -/
theorem countOnce_once (s : Span) (e : Expr) :
    (Expr.call s Builtin.once.name [e]).countOnce =
      .call s Builtin.repeated.name [ofCount 1, e.countOnce] := rfl

/-- Any other call keeps its name and gets the images of its arguments. -/
theorem countOnce_call {name : String} {es : List Expr} (h : ¬ IsOnceCall name es) (s : Span) :
    (Expr.call s name es).countOnce = .call s name (es.map countOnce) := by
  rw [countOnce, if_neg h, if_neg h, countOnceAll_eq_map]

/-- A call under another name is no call of `once`. -/
theorem not_isOnceCall {name : String} (h : name ≠ Builtin.once.name) (es : List Expr) :
    ¬ IsOnceCall name es :=
  fun honce => h honce.1

/-! ### Nodes -/

/-- An image moves to a span with its expression. -/
@[simp] theorem countOnce_moveTo (s : Span) (e : Expr) :
    (e.moveTo s).countOnce = e.countOnce.moveTo s := by
  cases e <;> rfl

/-- An image has the span of its expression. -/
@[simp] theorem span_countOnce (e : Expr) : e.countOnce.span = e.span := by
  cases e <;> rfl

/-- An image takes a span for an unknown one where its expression does. -/
theorem countOnce_moveIfUnknown (s : Span) (e : Expr) :
    (e.moveIfUnknown s).countOnce = e.countOnce.moveIfUnknown s := by
  rw [moveIfUnknown, moveIfUnknown, span_countOnce]
  split
  · exact countOnce_moveTo s e
  · rfl

/-- A value and its image stay so at any span. -/
theorem mapsTo_moveTo (s : Span) (e : Expr) :
    Outcome.MapsTo countOnce (.ok (e.moveTo s)) (.ok (e.countOnce.moveTo s)) := by
  rw [← countOnce_moveTo]
  exact .ok _

/-- A value and its image stay so when a span takes the place of an unknown one. -/
theorem mapsTo_moveIfUnknown (s : Span) (e : Expr) :
    Outcome.MapsTo countOnce (.ok (e.moveIfUnknown s)) (.ok (e.countOnce.moveIfUnknown s)) := by
  rw [← countOnce_moveIfUnknown]
  exact .ok _

/-- What a call makes of a returned value has the image of what it makes of the value. -/
theorem countOnce_unwrapReturned (e : Expr) :
    e.unwrapReturned.countOnce = e.countOnce.unwrapReturned := by
  cases e <;> rfl

/-- A leaf has nothing to count. -/
theorem countOnce_of_leaf {e : Expr} (h : e.children = []) : e.countOnce = e := by
  cases e with
  | join s c es | negate s es =>
    obtain rfl : es = [] := h
    rfl
  | call s name es =>
    obtain rfl : es = [] := h
    exact countOnce_call (fun h : IsOnceCall name [] => Nat.zero_ne_one h.2) s
  | arith | compare | returned => cases h
  | _ => rfl

@[simp] theorem isBool_countOnce (b : Bool) (e : Expr) : e.countOnce.isBool b = e.isBool b := by
  cases e <;> rfl

@[simp] theorem isMemory_countOnce (e : Expr) : e.countOnce.isMemory = e.isMemory := by
  cases e <;> rfl

@[simp] theorem int?_countOnce (e : Expr) : e.countOnce.int? = e.int? := by
  cases e <;> rfl

@[simp] theorem ofExpr?_countOnce (e : Expr) :
    ReadSum.ofExpr? e.countOnce = ReadSum.ofExpr? e := by
  cases e <;> rfl

/-! ### Arithmetic -/

/-- Literals are their own images, and fold alike. -/
theorem onLiterals?_countOnce (op : Arith) (left right : Expr) :
    onLiterals? op left.countOnce right.countOnce = onLiterals? op left right := by
  cases left with
  | literal s v => cases right <;> rfl
  | _ => rfl

/-- What becomes of a read under an operation has its image if the operands are replaced by theirs.
-/
theorem modifyBy_countOnce (op : Arith) (left : Expr) (m : MemoryRead) (right : Expr) :
    modifyBy left.countOnce m op right.countOnce =
      (modifyBy left m op right).map (·.map countOnce) := by
  cases right with
  | literal s v =>
    cases v with
    | int n =>
      rw [countOnce, modifyBy, modifyBy]
      split
      · rfl
      · split <;> rfl
    | _ => rfl
  | read s other =>
    rw [countOnce, modifyBy, modifyBy]
    split <;> rfl
  | _ => rfl

/-- The form of an operation other than sums and differences has its image for the images of the
operands. -/
theorem modified?_countOnce (op : Arith) (left right : Expr) :
    modified? op left.countOnce right.countOnce =
      (modified? op left right).map (·.map countOnce) := by
  cases left with
  | read s m => exact modifyBy_countOnce op (.read s m) m right
  | literal s v =>
    cases v with
    | int n =>
      cases right with
      | read s' m =>
        rw [countOnce, countOnce, modified?]
        split
        · exact modifyBy_countOnce op (.read s' m) m (.literal s (.int n))
        · rfl
      | _ => rfl
    | _ => cases right <;> rfl
  | _ => rfl

/-- The form of an operation on memory has its image for the images of the operands. -/
theorem onMemory?_countOnce (op : Arith) (left right : Expr) :
    onMemory? op left.countOnce right.countOnce =
      (onMemory? op left right).map (·.map countOnce) := by
  have hsum (v : ReadSum) : v.toExpr.countOnce = v.toExpr := countOnce_of_leaf (children_toExpr v)
  unfold onMemory?
  rw [isMemory_countOnce, isMemory_countOnce]
  split
  · rfl
  · split
    · rw [ofExpr?_countOnce, ofExpr?_countOnce]
      split
      · exact congrArg (Except.ok ∘ some) (hsum _).symm
      · rfl
    · rw [ofExpr?_countOnce, ofExpr?_countOnce]
      split
      · exact congrArg (Except.ok ∘ some) (hsum _).symm
      · rfl
    · exact modified?_countOnce _ left right

/-- An operation has a value for operands and its image for their images, or none for both. -/
theorem mapsTo_combine_countOnce (s : Span) (op : Arith) (left right : Expr) :
    Outcome.MapsTo countOnce (combine s op left right)
      (combine s op left.countOnce right.countOnce) := by
  cases hliterals : onLiterals? op left right with
  | some folded =>
    rw [combine, combine, onLiterals?_countOnce, hliterals]
    cases folded with
    | ok v => exact .ok (Expr.literal s v)
    | error cause => exact .error _ _
  | none =>
    rw [combine_of_onLiterals?_eq_none hliterals,
      combine_of_onLiterals?_eq_none ((onLiterals?_countOnce op left right).trans hliterals),
      onMemory?_countOnce]
    rcases onMemory? op left right with d | _ | e
    · exact .error d d
    · exact .ok (Expr.arith s op left right)
    · exact mapsTo_moveTo s e

end Expr

/-! ### Comparisons -/

/-- A simpler form with `repeated(1, c)` in the place of every `once(c)`. -/
def Verdict.countOnce : Verdict → Verdict
  | .decided truth => .decided truth
  | .comparison left relation right => .comparison left.countOnce relation right.countOnce

namespace Expr

/-- A sum and an integer contain no calls, wherever the offset stands. -/
theorem takeOffset_countOnce (v : ReadSum) (relation : Relation) (place : Span) (n : IntLiteral) :
    (v.takeOffset relation place n).map Verdict.countOnce = v.takeOffset relation place n := by
  have hsum : (ReadSum.mk v.terms 0).toExpr.countOnce = (ReadSum.mk v.terms 0).toExpr :=
    countOnce_of_leaf (children_toExpr _)
  dsimp only [ReadSum.takeOffset]
  split
  · rfl
  · split
    · rw [Option.map_some, Verdict.countOnce, hsum]
      rfl
    · split <;> rfl

/-- The simpler form of a comparison has its image for the images of the operands. -/
theorem simplerComparison?_countOnce (relation : Relation) (left right : Expr) :
    simplerComparison? true left.countOnce relation right.countOnce =
      (simplerComparison? true left relation right).map Verdict.countOnce := by
  cases left with
  | literal s v =>
    cases right with
    | literal place w =>
      rw [countOnce, countOnce, simplerComparison?]
      cases v.decide? relation w <;> rfl
    | _ => rfl
  | sum s v =>
    cases right with
    | literal place w =>
      cases w with
      | int n => exact (takeOffset_countOnce v relation place n).symm
      | _ => rfl
    | _ => rfl
  | _ => rfl

/-- The images of operands settle to the image of what the operands settle to. -/
theorem settle_countOnce (s : Span) (steps : Nat) (left : Expr) (relation : Relation)
    (right : Expr) :
    settle s steps left.countOnce relation right.countOnce =
      (settle s steps left relation right).countOnce := by
  induction steps generalizing left relation right with
  | zero => rfl
  | succ steps ih =>
    rw [settle, settle, simplerComparison?_countOnce]
    rcases simplerComparison? true left relation right with _ | b | ⟨l, r, e⟩
    · rfl
    · rfl
    · exact ih l r e

/-- The normal form of a comparison has its image for the images of the operands. -/
theorem normalize_countOnce (s : Span) (relation : Relation) (left right : Expr) :
    normalize s relation left.countOnce right.countOnce =
      (normalize s relation left right).countOnce :=
  settle_countOnce s settlingSteps left relation right

/-! ### Connectives -/

/-- The image of an operand contributes the images of what the operand contributes. -/
theorem operandsUnder_countOnce (c : Connective) (e : Expr) :
    operandsUnder c e.countOnce = (operandsUnder c e).map countOnce := by
  cases e with
  | literal s v => cases v <;> rfl
  | join s c' es =>
    rw [countOnce, operandsUnder, operandsUnder]
    split
    · exact countOnceAll_eq_map es
    · rfl
  | _ => rfl

/-- The images of operands are flattened to the image of their connective. -/
theorem joinAll_countOnce (c : Connective) (es : List Expr) :
    joinAll c (es.map countOnce) = (joinAll c es).countOnce := by
  have hany : (es.map countOnce).any (·.isBool c.absorbing) = es.any (·.isBool c.absorbing) := by
    rw [List.any_map]
    exact congrArg (es.any ·) (funext (isBool_countOnce c.absorbing))
  have hflat : (es.map countOnce).flatMap (operandsUnder c) =
      (es.flatMap (operandsUnder c)).map countOnce := by
    rw [List.flatMap_map, List.map_flatMap]
    exact congrArg (es.flatMap ·) (funext (operandsUnder_countOnce c))
  rw [joinAll, joinAll, hany, hflat]
  split
  · rfl
  · rcases es.flatMap (operandsUnder c) with _ | ⟨e, _ | ⟨e', es'⟩⟩
    · rfl
    · rfl
    · exact congrArg (Expr.join .unknown c) (countOnceAll_eq_map (e :: e' :: es')).symm

mutual

/-- An expression and its image have a negation and its image, or both have none. -/
theorem mapsTo_negated_countOnce :
    (e : Expr) → Outcome.MapsTo countOnce (negated e) (negated e.countOnce)
  | .literal s (.bool b) => .ok (Expr.literal s (.bool !b))
  | .always s b => .ok (Expr.always s !b)
  | .compare s r left right => .ok (Expr.compare s r.negation left right)
  | .negate s [e] => mapsTo_moveTo s e
  | .join s c es => by
    rw [countOnce, negated, negated]
    refine (mapsTo_negatedAll_countOnce es).bind fun vs _ => ?_
    rw [joinAll_countOnce]
    exact mapsTo_moveTo s _
  | .literal _ (.int _) | .literal _ (.real _) | .literal _ (.text _) | .var _ _ | .read _ _
  | .modified _ _ | .sum _ _ | .error _ _ | .arith _ _ _ _ | .call _ _ _ | .returned _ _
  | .negate _ [] | .negate _ (_ :: _ :: _) => .error _ _

/-- Expressions and their images have negations and their images, or both have none. -/
theorem mapsTo_negatedAll_countOnce : (es : List Expr) →
    Outcome.MapsTo (List.map countOnce) (negatedAll es) (negatedAll (countOnceAll es))
  | [] => .ok []
  | e :: es => by
    rw [countOnceAll, negatedAll, negatedAll]
    exact (mapsTo_negated_countOnce e).bind fun v _ =>
      (mapsTo_negatedAll_countOnce es).bind fun vs _ => .ok (v :: vs)

end

/-! ### Addresses and counts -/

/-- An expression and its image are addresses of one read, or both are no addresses. -/
theorem mapsTo_atAddress_countOnce (size : ReadSize) (address : Expr) :
    Outcome.MapsTo id (MemoryRead.atAddress size address)
      (MemoryRead.atAddress size address.countOnce) := by
  refine Outcome.MapsTo.within ?_ _ _
  cases address with
  | literal s v => exact .refl _
  | read s m => exact .refl _
  | modified s m => exact .refl _
  | sum s v => exact .refl _
  | _ => exact .error _ _

/-- An expression and its image stand for one number of hits, or both for none. -/
theorem mapsTo_repeatCount_countOnce (value : Expr) :
    Outcome.MapsTo id (repeatCount value) (repeatCount value.countOnce) := by
  refine Outcome.MapsTo.within ?_ _ _
  rw [int?_countOnce]
  cases value.int? with
  | none => exact .error _ _
  | some n =>
    dsimp only
    split
    · exact .error _ _
    · exact .ok _

/-! ### Evaluation -/

/-- Bodies run from a scope and from its image with a value and its image, or both with none. -/
def RunsCounted (run : BodyRule) : Prop :=
  ∀ {scope scope' : Scope}, scope.MapsTo countOnce scope' → scope.HasCounting →
    ∀ values body, Outcome.MapsTo countOnce (run scope values body)
      (run scope' (values.map (Prod.map id countOnce)) body.countOnce)

section

variable {run : BodyRule} {scope scope' : Scope}

/-- What needs a trigger clause is allowed in a scope and its image or refused in both. -/
theorem mapsTo_requireClause (hclause : scope'.inClause = scope.inClause) (name name' : String) :
    Outcome.MapsTo id (scope.requireClause name) (scope'.requireClause name') := by
  unfold Scope.requireClause
  rw [hclause]
  split
  · exact .ok ()
  · exact .error _ _

/-- Expressions evaluate to values and their images to the images, if each member and its image do.
-/
theorem mapsTo_evaluateAllWith {es : List Expr}
    (hes : ∀ e ∈ es, Outcome.MapsTo countOnce (evaluateWith run scope e)
      (evaluateWith run scope' e.countOnce)) :
    Outcome.MapsTo (List.map countOnce) (evaluateAllWith run scope es)
      (evaluateAllWith run scope' (es.map countOnce)) := by
  induction es with
  | nil => exact .ok []
  | cons e es ih =>
    obtain ⟨he, hes⟩ := List.forall_mem_cons.1 hes
    rw [List.map_cons, evaluateAllWith, evaluateAllWith]
    exact he.bind fun v _ => (ih hes).bind fun vs _ => .ok (v :: vs)

/-- A call that is deferred with its condition. -/
theorem mapsTo_deferred (hclause : scope'.inClause = scope.inClause) {name : String}
    (hname : name ≠ Builtin.once.name) {condition : Expr}
    (hcondition : Outcome.MapsTo countOnce (evaluateWith run scope condition)
      (evaluateWith run scope' condition.countOnce)) :
    Outcome.MapsTo countOnce
      (do scope.requireClause name
          let value ← evaluateWith run scope condition
          pure (.call .unknown name [value]))
      (do scope'.requireClause name
          let value ← evaluateWith run scope' condition.countOnce
          pure (.call .unknown name [value])) := by
  refine (mapsTo_requireClause hclause name name).bind fun _ _ => hcondition.bind fun v _ => ?_
  have hcall := countOnce_call (not_isOnceCall hname [v]) .unknown
  rw [List.map_singleton] at hcall
  rw [← hcall]
  exact .ok _

/-- The built-in functions other than `once` have images as values if their arguments have. -/
theorem mapsTo_applyBuiltinWith (hclause : scope'.inClause = scope.inClause) {name : String}
    (hname : name ≠ Builtin.once.name) {b : Builtin} (hb : b ≠ .once) {es : List Expr}
    (hes : ∀ e ∈ es, Outcome.MapsTo countOnce (evaluateWith run scope e)
      (evaluateWith run scope' e.countOnce)) :
    Outcome.MapsTo countOnce (applyBuiltinWith run scope name b es)
      (applyBuiltinWith run scope' name b (es.map countOnce)) := by
  have hrequire := mapsTo_requireClause hclause name name
  cases b with
  | read size =>
    cases es with
    | nil =>
      rw [List.map_nil, applyBuiltinWith, applyBuiltinWith]
      exact .error _ _
    | cons address rest =>
      rw [List.map_cons, applyBuiltinWith, applyBuiltinWith]
      refine (hes address List.mem_cons_self).bind fun a _ => ?_
      exact (mapsTo_atAddress_countOnce size a).bind fun m _ => .ok (Expr.read .unknown m)
  | always b =>
    rw [applyBuiltinWith, applyBuiltinWith]
    exact .ok (Expr.always .unknown b)
  | repeated =>
    rcases es with _ | ⟨count, _ | ⟨condition, rest⟩⟩
    · rw [List.map_nil, applyBuiltinWith, applyBuiltinWith]
      exact hrequire.bind fun _ _ => .error _ _
    · rw [List.map_singleton, applyBuiltinWith, applyBuiltinWith]
      refine hrequire.bind fun _ _ => (hes count List.mem_cons_self).bind fun n _ => ?_
      exact (mapsTo_repeatCount_countOnce n).bind fun _ _ => .error _ _
    · rw [List.map_cons, List.map_cons, applyBuiltinWith, applyBuiltinWith]
      refine hrequire.bind fun _ _ => (hes count List.mem_cons_self).bind fun n _ => ?_
      refine (mapsTo_repeatCount_countOnce n).bind fun hits _ => ?_
      refine (hes condition (List.mem_cons_of_mem _ List.mem_cons_self)).bind fun v _ => ?_
      have hcall := countOnce_call (not_isOnceCall hname [ofCount hits, v]) .unknown
      rw [List.map_cons, List.map_singleton] at hcall
      show Outcome.MapsTo countOnce (.ok _) (.ok (.call .unknown name [ofCount hits, v.countOnce]))
      rw [← show (ofCount hits).countOnce = ofCount hits from rfl, ← hcall]
      exact .ok _
  | once => exact absurd rfl hb
  | guard g =>
    cases es with
    | nil =>
      rw [List.map_nil, applyBuiltinWith, applyBuiltinWith]
      exact hrequire.bind fun _ _ => .error _ _
    | cons condition rest =>
      rw [List.map_cons, applyBuiltinWith, applyBuiltinWith]
      exact mapsTo_deferred hclause hname (hes condition List.mem_cons_self)

/-- `once` and `repeated` with one hit have a value and its image. -/
theorem mapsTo_applyBuiltinWith_once (hclause : scope'.inClause = scope.inClause) {condition : Expr}
    (hcondition : Outcome.MapsTo countOnce (evaluateWith run scope condition)
      (evaluateWith run scope' condition.countOnce)) :
    Outcome.MapsTo countOnce (applyBuiltinWith run scope Builtin.once.name .once [condition])
      (applyBuiltinWith run scope' Builtin.repeated.name .repeated
        [ofCount 1, condition.countOnce]) := by
  have hcount (k : UInt16 → Outcome Expr) :
      (evaluateWith run scope' (ofCount 1) >>= fun n => repeatCount n >>= k) = k 1 := rfl
  rw [applyBuiltinWith, applyBuiltinWith, hcount]
  refine (mapsTo_requireClause hclause _ _).bind fun _ _ => hcondition.bind fun v _ => ?_
  rw [← countOnce_once]
  exact .ok _

/-- A call of `once` and one of `repeated` with one hit have a value and its image, or both have
none. -/
theorem mapsTo_evaluateWith_once (hscope : scope.MapsTo countOnce scope')
    (hcounting : scope.HasCounting) (s : Span) {condition : Expr}
    (hcondition : Outcome.MapsTo countOnce (evaluateWith run scope condition)
      (evaluateWith run scope' condition.countOnce)) :
    Outcome.MapsTo countOnce (evaluateWith run scope (.call s Builtin.once.name [condition]))
      (evaluateWith run scope'
        (.call s Builtin.repeated.name [ofCount 1, condition.countOnce])) := by
  rw [evaluateWith, evaluateWith, hcounting.once, (hcounting.mapsTo hscope).repeated]
  refine Outcome.MapsTo.within ?_ s s
  -- Both calls have as many arguments as their functions take.
  show Outcome.MapsTo countOnce (applyBuiltinWith run scope _ .once [condition] >>= _)
    (applyBuiltinWith run scope' _ .repeated [ofCount 1, condition.countOnce] >>= _)
  exact (mapsTo_applyBuiltinWith_once hscope.inClause hcondition).bind fun v _ =>
    mapsTo_moveIfUnknown s v

/-- Any other call has an image as value if its arguments have, and if bodies run to images. -/
theorem mapsTo_evaluateWith_call (hrun : RunsCounted run) (hscope : scope.MapsTo countOnce scope')
    (hcounting : scope.HasCounting) (s : Span) {name : String} {es : List Expr}
    (hname : ¬ IsOnceCall name es)
    (hes : ∀ e ∈ es, Outcome.MapsTo countOnce (evaluateWith run scope e)
      (evaluateWith run scope' e.countOnce)) :
    Outcome.MapsTo countOnce (evaluateWith run scope (.call s name es))
      (evaluateWith run scope' (.call s name (es.map countOnce))) := by
  have harity (parameters : List String) :
      requireArity name parameters (es.map countOnce) = requireArity name parameters es :=
    requireArity_of_length_eq name parameters (List.length_map _)
  rw [evaluateWith, evaluateWith, hscope.function? name]
  refine Outcome.MapsTo.within ?_ s s
  cases hf : scope.function? name with
  | none => exact .error _ _
  | some g =>
    cases g with
    | builtin b =>
      rw [Option.map_some]
      dsimp only [Function.mapBody]
      rw [harity]
      refine (Outcome.MapsTo.refl _).bind fun _ hgiven => ?_
      have hlength : es.length = b.parameters.length := requireArity_eq_ok_iff.1 hgiven
      have hb : b ≠ .once := by
        rintro rfl
        exact hname ⟨(Scope.name_eq_of_function? hf).symm, hlength⟩
      have hother : name ≠ Builtin.once.name := by
        rintro rfl
        exact hb (Function.builtin.inj (Option.some.inj (hf.symm.trans hcounting.once)))
      exact (mapsTo_applyBuiltinWith hscope.inClause hother hb hes).bind fun v _ =>
        mapsTo_moveIfUnknown s v
    | script name' parameters body =>
      rw [Option.map_some]
      dsimp only [Function.mapBody]
      rw [harity]
      refine (Outcome.MapsTo.refl _).bind fun _ _ => ?_
      refine (mapsTo_evaluateAllWith hes).bind fun vs _ => ?_
      have hbody := hrun hscope hcounting (parameters.zip vs) body
      rw [← List.zip_map_right] at hbody
      rw [callScript, callScript, bind_assoc, bind_assoc]
      refine hbody.bind fun v _ => ?_
      rw [pure_bind, pure_bind, ← countOnce_unwrapReturned]
      exact mapsTo_moveIfUnknown s _

/-- An expression and its image have a value and its image, or both have none. -/
theorem mapsTo_evaluateWith_countOnce (hrun : RunsCounted run)
    (hscope : scope.MapsTo countOnce scope') (hcounting : scope.HasCounting) (e : Expr) :
    Outcome.MapsTo countOnce (evaluateWith run scope e) (evaluateWith run scope' e.countOnce) := by
  have he : e.Everywhere fun _ => True := everywhere_of_forall (fun _ => trivial) e
  induction he with
  | @intro e _ _ ih =>
    cases e with
    | literal s v => exact .ok (Expr.literal s v)
    | read s m => exact .ok (Expr.read s m)
    | modified s m => exact .ok (Expr.modified s m)
    | sum s v => exact .ok (Expr.sum s v)
    | always s b => exact .ok (Expr.always s b)
    | error s text => exact .error _ _
    | var s name =>
      rw [countOnce, evaluateWith, evaluateWith, hscope.lookup?]
      cases scope.lookup? name with
      | none => exact .error _ _
      | some v => exact .ok v
    | arith s op left right =>
      obtain ⟨hleft, hright⟩ := List.forall_mem_cons.1 ih
      rw [countOnce, evaluateWith, evaluateWith]
      refine (hleft.bind fun l _ => ?_).within s s
      refine (hright right List.mem_cons_self).bind fun r _ => ?_
      exact mapsTo_combine_countOnce s op l r
    | compare s relation left right =>
      obtain ⟨hleft, hright⟩ := List.forall_mem_cons.1 ih
      rw [countOnce, evaluateWith, evaluateWith]
      refine (hleft.bind fun l _ => ?_).within s s
      refine (hright right List.mem_cons_self).bind fun r _ => ?_
      rw [normalize_countOnce]
      exact .ok _
    | negate s es =>
      rcases es with _ | ⟨e, _ | ⟨e', es⟩⟩
      · exact .error _ _
      · rw [countOnce, countOnceAll, countOnceAll, evaluateWith, evaluateWith]
        refine ((ih e List.mem_cons_self).bind fun v _ => ?_).within s s
        exact (mapsTo_negated_countOnce v).bind fun n _ => mapsTo_moveTo s n
      · exact .error _ _
    | join s c es =>
      rw [countOnce, countOnceAll_eq_map, evaluateWith, evaluateWith]
      refine ((mapsTo_evaluateAllWith ih).bind fun vs _ => ?_).within s s
      rw [joinAll_countOnce]
      exact mapsTo_moveTo s _
    | returned s e =>
      rw [countOnce, evaluateWith, evaluateWith]
      refine ((ih e List.mem_cons_self).bind fun v _ => ?_).within s s
      rw [returning, returning, span_countOnce]
      exact .ok (Expr.returned v.span v)
    | call s name es =>
      -- Only a call of `once` with its one argument is written differently; every other call keeps
      -- its name.
      by_cases honce : IsOnceCall name es
      · obtain ⟨rfl, hlength⟩ := honce
        obtain ⟨condition, rfl⟩ := List.length_eq_one_iff.1 hlength
        exact mapsTo_evaluateWith_once hscope hcounting s (ih condition List.mem_cons_self)
      · rw [countOnce_call honce]
        exact mapsTo_evaluateWith_call hrun hscope hcounting s honce ih

end

/-- Bodies run from a scope and from its image with a value and its image, or both with none. -/
theorem runsCounted_runBody (n : Nat) : RunsCounted (runBody n) := by
  induction n with
  | zero => exact fun _ _ _ _ => .error _ _
  | succ n ih =>
    intro scope scope' hscope hcounting values body
    exact mapsTo_evaluateWith_countOnce ih (hscope.inCall values) (hcounting.inCall values) body

/-- Evaluation commutes with writing `repeated(1, c)` for `once(c)`. -/
theorem mapsTo_evaluate_countOnce {scope scope' : Scope} (hscope : scope.MapsTo countOnce scope')
    (hcounting : scope.HasCounting) (e : Expr) :
    Outcome.MapsTo countOnce (evaluate scope e) (evaluate scope' e.countOnce) := by
  rw [evaluate, evaluate, hscope.remainingCalls]
  exact mapsTo_evaluateWith_countOnce (runsCounted_runBody _) hscope hcounting e

end Expr

end TriggerLang
