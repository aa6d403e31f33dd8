import TriggerLang.Proofs.Evaluation.Invariant
/-!
# Reduced values

Lowering takes the shape of its input for granted: names are resolved, negations have moved to the
leaves, connectives are flat and have operands to join, and a call that is still there emits rows.
This module says that shape node by node (`IsReduced`) and shows that every value has it.

The main statement is `everywhere_isReduced_evaluate`.  It asks of the variables of a scope only
what it gives for values, so that it applies again to scopes whose variables hold values.
-/

namespace TriggerLang

/-- The functions whose calls outlive evaluation. -/
def Builtin.deferred : List Builtin :=
  [.repeated, .once, .guard .reset, .guard .pause]

/-- Calls of guards outlive evaluation. -/
theorem Builtin.guard_mem_deferred (g : Guard) : .guard g ∈ deferred := by
  cases g <;> decide

namespace Expr

/-- An expression that a flat connective may have as an operand: no truth value, and no connective
of the same kind. -/
def IsOperandOf (c : Connective) : Expr → Prop
  | .literal _ (.bool _) => False
  | .join _ c' _ => c' ≠ c
  | _ => True

/-- A node that lowering can meet.  A call is left only within a trigger clause, only to a function
that emits rows, and with all arguments of that function. -/
def IsReduced (names : Names) : Expr → Prop
  | .var _ _ | .error _ _ | .negate _ _ => False
  | .compare _ _ left right => left.isLiteral = true → right.isLiteral = true
  | .join _ c es => 2 ≤ es.length ∧ ∀ e ∈ es, e.IsOperandOf c
  | .call _ name arguments =>
      names.inClause = true ∧ ∃ b ∈ Builtin.deferred, name = b.name ∧
        names.function? name = some (.builtin b) ∧ arguments.length = b.parameters.length
  | .literal _ _ | .arith _ _ _ _ | .read _ _ | .modified _ _ | .sum _ _ | .always _ _
  | .returned _ _ => True

variable {names : Names}

/-! ### Rules -/

/-- A settled comparison has a literal on the left side only next to another literal. -/
theorem isLiteral_right_of_settled {relation : Relation} {left right : Expr}
    (h : simplerComparison? true left relation right = none) (hleft : left.isLiteral = true) :
    right.isLiteral = true := by
  cases left with
  | literal s v =>
    cases right with
    | literal s' w => rfl
    | _ => cases h
  | _ => cases hleft

/-- What a reduced expression contributes to a connective may be an operand of it. -/
theorem isOperandOf_of_mem {c : Connective} {e e' : Expr} (he : e.IsReduced names)
    (he' : e' ∈ operandsUnder c e) : e'.IsOperandOf c := by
  unfold operandsUnder at he'
  split at he'
  · cases he'
  · rename_i s c' es
    split at he'
    · -- The operands of a connective of the same kind are operands already.
      rename_i hc
      rw [← hc]
      exact he.2 e' he'
    · rename_i hc
      rw [List.mem_singleton.1 he']
      exact hc
  · rename_i hbool hjoin
    rw [List.mem_singleton.1 he']
    unfold IsOperandOf
    split
    · rename_i s b
      exact hbool s b rfl
    · rename_i s c' es
      exact absurd rfl (hjoin s c' es)
    · trivial

/-- A call that evaluation leaves in place is reduced. -/
theorem isReduced_deferred {scope : Scope} {name : String} {b : Builtin} {arguments : List Expr}
    (hclause : scope.inClause = true) (hname : scope.function? name = some (.builtin b))
    (harguments : DeferredArguments b arguments) :
    (Expr.call .unknown name arguments).IsReduced scope.names := by
  have hown : b.name = name := Scope.name_eq_of_function? hname
  refine ⟨hclause, b, ?_, hown.symm, hname, ?_⟩
  · cases harguments with
    | repeated => decide
    | once => decide
    | guard g => exact Builtin.guard_mem_deferred g
  · cases harguments <;> rfl

/-- Evaluation makes reduced nodes only. -/
theorem isInvariant_isReduced (scope : Scope) : IsInvariant scope.names (IsReduced scope.names) where
  moveTo s e h := by
    cases e <;> exact h
  literal _ _ := trivial
  always _ _ := trivial
  address _ _ := trivial
  memory _ _ h := h.induction (fun _ => trivial) (fun _ _ => trivial) (fun _ => trivial)
    fun _ => trivial
  withoutOffset _ := ReadSum.toExpr_induction _ (fun _ => trivial) (fun _ => trivial)
    (fun _ => trivial) fun _ => trivial
  arith _ := trivial
  compare h := isLiteral_right_of_settled h
  negation h := h
  join c es hes _ hlength := by
    refine ⟨hlength, fun e he => ?_⟩
    obtain ⟨e', he', he⟩ := List.mem_flatMap.1 he
    exact isOperandOf_of_mem (hes e' he') he
  deferred hclause hname harguments := isReduced_deferred hclause hname harguments
  returned _ _ := trivial

/-! ### Values -/

/-- If the variables of a scope are reduced everywhere, then so is every value. -/
theorem everywhere_isReduced_evaluate {scope : Scope}
    (hvariables : ∀ name value, scope.lookup? name = some value →
      value.Everywhere (IsReduced scope.names))
    {e v : Expr} (h : evaluate scope e = .ok v) : v.Everywhere (IsReduced scope.names) := by
  have hreads (e : Expr) : e.ReadsSatisfy (IsReduced scope.names) :=
    everywhere_of_forall (fun e he => by cases e <;> trivial) e
  have hkeeps : scope.Keeps (IsReduced scope.names) :=
    ⟨isInvariant_isReduced scope, fun _ => hreads _, fun h => hvariables _ _ h⟩
  exact hkeeps.everywhere_evaluate (hreads e) h

/-- `!(x || low() || !(5 < byte(3)))` in a trigger clause, where `x` holds `byte(1) == 1` and `low()`
returns `byte(2) < 7 && true`, next to `repeated(3, x)`. -/
theorem everywhere_isReduced_evaluate_negated_call :
    let byte (address : Int32) : Expr := .call .unknown "byte" [.int address]
    let low : Function := .script "low" [] (.returned .unknown (.join .unknown .all
      [.compare .unknown .less (byte 2) (.int 7), .bool true]))
    let value : Expr := .compare .unknown .equal (.read .unknown (.direct .byte 1)) (.int 1)
    let scope := ((Scope.root {}).setFunction low).clause.setVariable "x" value
    let x : Expr := .var .unknown "x"
    let e : Expr := .join .unknown .all [.negate .unknown [.join .unknown .any
      [x, .call .unknown "low" [],
        .negate .unknown [.compare .unknown .less (.int 5) (byte 3)]]],
      .call .unknown "repeated" [.int 3, x]]
    (∀ name value, scope.lookup? name = some value → value.Everywhere (IsReduced scope.names)) ∧
    ∃ v, evaluate scope e = .ok v ∧ v.Everywhere (IsReduced scope.names) := by
  intro byte low value scope x e
  have hvariables : ∀ name value, scope.lookup? name = some value →
      value.Everywhere (IsReduced scope.names) := by
    intro name v h
    obtain ⟨-, rfl⟩ | h := Scope.lookup?_setVariable_eq_some h
    · exact ⟨fun _ => rfl, List.forall_mem_cons.2
        ⟨.of_leaf rfl trivial, List.forall_mem_singleton.2 (.of_leaf rfl trivial)⟩⟩
    · cases h
  have hevaluate : evaluate scope e = .ok _ := rfl
  exact ⟨hvariables, _, hevaluate, everywhere_isReduced_evaluate hvariables hevaluate⟩

end Expr

end TriggerLang
