import TriggerLang.Proofs.Evaluation.Erasure
import TriggerLang.Proofs.Evaluation.Invariant
/-!
# Evaluation is idempotent

Every rule of evaluation that makes a node makes one on which no rule fires again, and this is the
invariant `IsNormal` of its nodes.  An expression that is normal everywhere evaluates to itself, up
to spans (`evaluatesToItself_of_isNormal`), whatever the variables are and however many calls are
left: no variable and no script function is asked for.

The main statement is `evaluate_idempotent`.  The variables of the scope hold values that come from
scopes without variables, so that these values are normal everywhere too.
-/

namespace TriggerLang.Expr

/-! ### Normal nodes -/

/-- No rule of evaluation makes another node of this one when its operands stay as they are. -/
def IsNormal (names : Names) : Expr → Prop
  | .literal _ _ | .read _ _ | .modified _ _ | .sum _ _ | .always _ _ | .returned _ _ => True
  | .var _ _ | .negate _ _ | .error _ _ => False
  | .arith _ op left right =>
      onLiterals? op left right = none ∧ onMemory? op left right = .ok none
  | .compare _ relation left right => simplerComparison? true left relation right = none
  | .join _ c es => 2 ≤ es.length ∧ ∀ e ∈ es, operandsUnder c e = [e] ∧ e.isBool c.absorbing = false
  | .call _ name arguments =>
      names.inClause = true ∧
        ∃ b, names.function? name = some (.builtin b) ∧ DeferredArguments b arguments

variable {names : Names}

/-- An operation that stays has no other form. -/
theorem isNormal_arith {s : Span} {op : Arith} {left right : Expr}
    (h : combine s op left right = .ok (.arith s op left right)) :
    (Expr.arith s op left right).IsNormal names := by
  unfold combine at h
  split at h
  · cases h
  · rw [Outcome.within_eq_ok_iff] at h
    exact absurd h Outcome.fail_ne_ok
  · rename_i hliterals
    split at h
    · rename_i e he
      have hleaf := (memoryResult_of_onMemory? he).children_eq_nil
      rw [Except.ok.injEq] at h
      rw [← children_moveTo s, h] at hleaf
      cases hleaf
    · rename_i hmemory
      exact ⟨hliterals, hmemory⟩
    · cases h

/-- What a normal operand contributes to a connective stays under the connective. -/
theorem operandsUnder_of_mem {c : Connective} {e e' : Expr} (he : e.IsNormal names)
    (h : e.isBool c.absorbing = false) (he' : e' ∈ operandsUnder c e) :
    operandsUnder c e' = [e'] ∧ e'.isBool c.absorbing = false := by
  unfold operandsUnder at he'
  split at he'
  · cases he'
  · rename_i s c' es
    split at he'
    · rename_i hc
      rw [← hc]
      exact he.2 e' he'
    · rename_i hc
      rw [List.mem_singleton.1 he', operandsUnder, if_neg hc]
      exact ⟨rfl, rfl⟩
  · rename_i hbool hjoin
    rw [List.mem_singleton.1 he']
    refine ⟨?_, h⟩
    unfold operandsUnder
    split
    · rename_i s b
      exact absurd rfl (hbool s b)
    · rename_i s c' es
      exact absurd rfl (hjoin s c' es)
    · rfl

/-- Evaluation makes normal nodes only. -/
theorem isInvariant_isNormal (names : Names) : IsInvariant names (IsNormal names) where
  moveTo s e h := by
    cases e <;> exact h
  literal _ _ := trivial
  always _ _ := trivial
  address _ _ := trivial
  memory _ _ h := h.induction (fun _ => trivial) (fun _ _ => trivial) (fun _ => trivial)
    fun _ => trivial
  withoutOffset _ := ReadSum.toExpr_induction _ (fun _ => trivial) (fun _ => trivial)
    (fun _ => trivial) fun _ => trivial
  arith h := isNormal_arith h
  compare h := h
  negation h := simplerComparison?_negation_eq_none h
  join c es hes hbool hlength := by
    refine ⟨hlength, fun e he => ?_⟩
    obtain ⟨e', he', he⟩ := List.mem_flatMap.1 he
    exact operandsUnder_of_mem (hes e' he') (hbool e' he') he
  deferred hclause hname harguments := ⟨hclause, _, hname, harguments⟩
  returned _ _ := trivial

/-! ### Normal expressions evaluate to themselves -/

variable {run : BodyRule} {scope : Scope}

/-- The expression evaluates to itself up to spans. -/
def EvaluatesToItself (run : BodyRule) (scope : Scope) (e : Expr) : Prop :=
  ∃ v, evaluateWith run scope e = .ok v ∧ v.erase = e.erase

/-- Expressions that evaluate to themselves have values with the same erasures. -/
theorem forall₂_of_evaluatesToItself {es : List Expr}
    (h : ∀ e ∈ es, EvaluatesToItself run scope e) :
    ∃ vs, List.Forall₂ (fun e v => evaluateWith run scope e = .ok v) es vs ∧
      vs.map erase = es.map erase := by
  induction es with
  | nil => exact ⟨[], .nil, rfl⟩
  | cons e es ih =>
    obtain ⟨v, hv, herase⟩ := h e List.mem_cons_self
    obtain ⟨vs, hvs, herases⟩ := ih fun e' he' => h e' (List.mem_cons_of_mem _ he')
    exact ⟨v :: vs, .cons hv hvs, congrArg₂ List.cons herase herases⟩

/-- Normal operands form their connective as they are. -/
theorem joinAll_of_isNormal {s : Span} {c : Connective} {es : List Expr}
    (h : (Expr.join s c es).IsNormal names) : joinAll c es = .join .unknown c es := by
  obtain ⟨hlength, hes⟩ := h
  have hany : es.any (·.isBool c.absorbing) = false := by
    rw [List.any_eq_false]
    exact fun e he => Bool.eq_false_iff.1 (hes e he).2
  have hflat : es.flatMap (operandsUnder c) = es := by
    rw [List.flatMap_congr fun e he => (hes e he).1]
    exact List.flatMap_singleton' es
  rw [joinAll, hany, hflat]
  rcases es with _ | ⟨e, _ | ⟨e', es⟩⟩
  · exact absurd hlength (by decide)
  · exact absurd hlength (Nat.not_succ_le_self 1)
  · rfl

/-- Whether a node is normal does not depend on the spans of its operands. -/
theorem combine_of_isNormal {s : Span} {op : Arith} {left right l r : Expr}
    (h : (Expr.arith s op left right).IsNormal names) (hl : l.erase = left.erase)
    (hr : r.erase = right.erase) : combine s op l r = .ok (.arith s op l r) := by
  obtain ⟨hliterals, hmemory⟩ := h
  rw [← onLiterals?_erase, ← hl, ← hr, onLiterals?_erase] at hliterals
  rw [← onMemory?_erase_eq_none_iff, ← hl, ← hr, onMemory?_erase_eq_none_iff] at hmemory
  rw [combine, hliterals, hmemory]

/-- A normal comparison is its own normal form, whatever the spans of its operands are. -/
theorem normalize_of_isNormal {s : Span} {relation : Relation} {left right l r : Expr}
    (h : (Expr.compare s relation left right).IsNormal names) (hl : l.erase = left.erase)
    (hr : r.erase = right.erase) : normalize s relation l r = .compare s relation l r := by
  refine normalize_of_settled ?_ s
  rw [← simplerComparison?_erase_eq_none_iff, hl, hr, simplerComparison?_erase_eq_none_iff]
  exact h

/-- A number of hits is read back from its expression. -/
theorem repeatCount_ofCount (hits : UInt16) : repeatCount (ofCount hits) = .ok hits := by
  have hlt : hits.toNat < 65536 := hits.toNat_lt
  have hnegative : ¬ Int32.ofNat hits.toNat < 0 := by
    rw [Int32.not_lt, Int32.le_iff_toInt_le, Int32.toInt_ofNat_of_lt (by omega)]
    exact Int.natCast_nonneg _
  have hrange : ¬ 65535 < hits.toUInt32 := by
    rw [UInt32.lt_iff_toNat_lt, UInt16.toNat_toUInt32]
    show ¬ 65535 < hits.toNat
    omega
  have hcount : (ofCount hits).int? = some (.signed (Int32.ofNat hits.toNat)) := rfl
  rw [repeatCount, hcount]
  simp [IntLiteral.isNegative, IntLiteral.signed, IntLiteral.word, hnegative, hrange]

/-- A deferred call evaluates its condition again. -/
theorem evaluatesToItself_call {s : Span} {name : String} {arguments : List Expr}
    (h : (Expr.call s name arguments).IsNormal scope.names)
    (harguments : ∀ e ∈ arguments, EvaluatesToItself run scope e) :
    EvaluatesToItself run scope (.call s name arguments) := by
  obtain ⟨hclause, b, hname, hdeferred⟩ := h
  have hvalue {value : Expr} (harity : arguments.length = b.parameters.length)
      (hbuiltin : BuiltinValue run scope name b arguments value)
      (herase : value.erase = (Expr.call s name arguments).erase) :
      EvaluatesToItself run scope (.call s name arguments) :=
    ⟨_, evaluateWith_call_eq_ok_iff.2 (.inl ⟨b, value, hname, harity, hbuiltin, rfl⟩),
      (erase_moveIfUnknown s value).trans herase⟩
  cases hdeferred with
  | repeated hits condition =>
    obtain ⟨v, hv, herase⟩ := harguments condition (List.mem_cons_of_mem _ List.mem_cons_self)
    have hcount : evaluateWith run scope (ofCount hits) = .ok (ofCount hits) := rfl
    refine hvalue rfl (.repeated hclause hcount (repeatCount_ofCount hits) hv) ?_
    rw [erase, erase, eraseAll_eq_map, eraseAll_eq_map, List.map_cons, List.map_singleton, herase]
    rfl
  | once condition =>
    obtain ⟨v, hv, herase⟩ := harguments condition List.mem_cons_self
    refine hvalue rfl (.once hclause hv) ?_
    rw [erase, erase, eraseAll_eq_map, eraseAll_eq_map, List.map_singleton, herase]
    rfl
  | guard g condition =>
    obtain ⟨v, hv, herase⟩ := harguments condition List.mem_cons_self
    refine hvalue rfl (.guard g hclause hv) ?_
    rw [erase, erase, eraseAll_eq_map, eraseAll_eq_map, List.map_singleton, herase]
    rfl

/-- An expression that is normal everywhere evaluates to itself, however bodies are run. -/
theorem evaluatesToItself_of_isNormal {v : Expr} (hv : v.Everywhere (IsNormal scope.names)) :
    EvaluatesToItself run scope v := by
  induction hv with
  | @intro e hnode hchildren ih =>
    cases e with
    | literal s v => exact ⟨_, rfl, rfl⟩
    | read s m => exact ⟨_, rfl, rfl⟩
    | modified s m => exact ⟨_, rfl, rfl⟩
    | sum s t => exact ⟨_, rfl, rfl⟩
    | always s b => exact ⟨_, rfl, rfl⟩
    -- No value has a variable, a negation or an error left in it.
    | var s name => cases hnode
    | negate s es => cases hnode
    | error s text => cases hnode
    | arith s op left right =>
      obtain ⟨l, hl, hlerase⟩ := ih left List.mem_cons_self
      obtain ⟨r, hr, hrerase⟩ := ih right (List.mem_cons_of_mem _ List.mem_cons_self)
      refine ⟨.arith s op l r, evaluateWith_arith_eq_ok_iff.2
        ⟨l, r, hl, hr, combine_of_isNormal hnode hlerase hrerase⟩, ?_⟩
      rw [erase, erase, hlerase, hrerase]
    | compare s relation left right =>
      obtain ⟨l, hl, hlerase⟩ := ih left List.mem_cons_self
      obtain ⟨r, hr, hrerase⟩ := ih right (List.mem_cons_of_mem _ List.mem_cons_self)
      refine ⟨.compare s relation l r, evaluateWith_compare_eq_ok_iff.2
        ⟨l, r, hl, hr, (normalize_of_isNormal hnode hlerase hrerase).symm⟩, ?_⟩
      rw [erase, erase, hlerase, hrerase]
    | join s c es =>
      obtain ⟨vs, hvs, herase⟩ := forall₂_of_evaluatesToItself ih
      refine ⟨_, evaluateWith_join_eq_ok_iff.2 ⟨vs, hvs, rfl⟩, ?_⟩
      calc ((joinAll c vs).moveTo s).erase = (joinAll c (vs.map erase)).erase := by
            rw [erase_moveTo, erase_joinAll]
        _ = (joinAll c es).erase := by rw [erase_joinAll c es, herase, children]
        _ = (Expr.join s c es).erase := by rw [joinAll_of_isNormal hnode]; rfl
    | returned s e =>
      obtain ⟨value, hvalue, herase⟩ := ih e (List.mem_singleton_self e)
      refine ⟨returning value, evaluateWith_returned_eq_ok_iff.2 ⟨value, hvalue, rfl⟩, ?_⟩
      rw [returning, erase, erase, herase]
    | call s name arguments => exact evaluatesToItself_call hnode ih

/-! ### Values are normal -/

/-- If the variables of a scope are normal everywhere, then so is every value. -/
theorem everywhere_isNormal_evaluate
    (hvariables : ∀ name value, scope.lookup? name = some value →
      value.Everywhere (IsNormal scope.names))
    {e v : Expr} (h : evaluate scope e = .ok v) : v.Everywhere (IsNormal scope.names) := by
  have hreads (e : Expr) : e.ReadsSatisfy (IsNormal scope.names) :=
    everywhere_of_forall (fun e he => by cases e <;> trivial) e
  have hkeeps : scope.Keeps (IsNormal scope.names) :=
    ⟨isInvariant_isNormal scope.names, fun _ => hreads _, fun h => hvariables _ _ h⟩
  exact hkeeps.everywhere_evaluate (hreads e) h

/-- Evaluation is idempotent: a value evaluates to itself, up to spans.  Each variable of the scope
holds a value from a scope without variables, but with the same functions and the same trigger
clause. -/
theorem evaluate_idempotent
    (hvariables : ∀ name value, scope.lookup? name = some value →
      ∃ (scope' : Scope) (e : Expr), scope'.names = scope.names ∧
        (∀ name, scope'.lookup? name = none) ∧ evaluate scope' e = .ok value)
    {e v : Expr} (h : evaluate scope e = .ok v) :
    ∃ w, evaluate scope v = .ok w ∧ w.erase = v.erase := by
  have hnormal : ∀ name value, scope.lookup? name = some value →
      value.Everywhere (IsNormal scope.names) := by
    intro name value hvalue
    obtain ⟨scope', e, hnames, hnone, he⟩ := hvariables name value hvalue
    rw [← hnames]
    exact everywhere_isNormal_evaluate (fun name value h => nomatch (hnone name).symm.trans h) he
  exact evaluatesToItself_of_isNormal (everywhere_isNormal_evaluate hnormal h)

/-- `repeated(2, x == 9 || !(3 > x && bonus() == 1))` in a trigger clause, where `x` holds the value
of `byte(1) + 4` and `bonus()` returns `byte(2) * 1`. -/
theorem evaluate_counted_disjunction :
    let byte (address : Int32) : Expr := .call .unknown "byte" [.int address]
    let bonus : Function :=
      .script "bonus" [] (.returned .unknown (.arith .unknown .multiply (byte 2) (.int 1)))
    let bare := ((Scope.root {}).setFunction bonus).clause
    let scope := bare.setVariable "x" (.sum .unknown ⟨[.added (.plain (.direct .byte 1))], 4⟩)
    let x : Expr := .var .unknown "x"
    let e : Expr := .call .unknown "repeated" [.int 2, .join .unknown .any
      [.compare .unknown .equal x (.int 9), .negate .unknown [.join .unknown .all
        [.compare .unknown .greater (.int 3) x,
          .compare .unknown .equal (.call .unknown "bonus" []) (.int 1)]]]]
    (∀ name value, scope.lookup? name = some value →
      ∃ (scope' : Scope) (e : Expr), scope'.names = scope.names ∧
        (∀ name, scope'.lookup? name = none) ∧ evaluate scope' e = .ok value) ∧
    ∃ v w, evaluate scope e = .ok v ∧ evaluate scope v = .ok w ∧ w.erase = v.erase := by
  intro byte bonus bare scope x e
  have hvariables : ∀ name value, scope.lookup? name = some value →
      ∃ (scope' : Scope) (e : Expr), scope'.names = scope.names ∧
        (∀ name, scope'.lookup? name = none) ∧ evaluate scope' e = .ok value := by
    intro name value h
    have hbare (name : String) : bare.lookup? name = none := rfl
    have hx : value = .sum .unknown ⟨[.added (.plain (.direct .byte 1))], 4⟩ := by
      by_cases hname : name = "x"
      · rw [hname] at h
        exact (Option.some.inj h).symm
      · rw [Scope.lookup?_setVariable_of_ne bare hname, hbare] at h
        cases h
    exact ⟨bare, .arith .unknown .add (byte 1) (.int 4), rfl, hbare, hx ▸ rfl⟩
  have hevaluate : evaluate scope e = .ok _ := rfl
  obtain ⟨w, hw, herase⟩ := evaluate_idempotent hvariables hevaluate
  exact ⟨hvariables, _, w, hevaluate, hw, herase⟩

end TriggerLang.Expr
