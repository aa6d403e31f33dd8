import TriggerLang.Proofs.Evaluation.Erasure
import TriggerLang.Proofs.Evaluation.Idempotence
import TriggerLang.Proofs.Evaluation.Reduced
/-!
# Laws of negation

Evaluation moves a negation to the leaves of a value and builds every connective on the way again.
On a reduced value nothing is lost in this: the negation of a connective is the dual connective of
the negations, operand by operand, with no operand spliced in and none dropped.  So negation goes
back to where it came from (`negated_negated`), and it does not matter whether operands are negated
before or after their connective is flattened (`negated_joinAll`).

The main statement, `evaluate_negation_laws`, carries both facts to expressions.
-/

namespace TriggerLang.Expr

variable {names : Names}

/-! ### Operands of flat connectives -/

namespace IsOperandOf

variable {c : Connective} {e : Expr}

/-- An operand that a flat connective may have contributes itself. -/
theorem operandsUnder_eq (h : e.IsOperandOf c) : operandsUnder c e = [e] := by
  unfold operandsUnder
  split
  · cases h
  · rename_i s c' es
    exact if_neg h
  · rfl

/-- An operand that a flat connective may have is no truth value. -/
theorem isBool_eq_false (h : e.IsOperandOf c) (b : Bool) : e.isBool b = false := by
  unfold isBool
  split
  · cases h
  · rfl

end IsOperandOf

/-- Two or more operands form their connective as they are. -/
theorem joinAll_of_isOperandOf {c : Connective} {es : List Expr} (hlength : 2 ≤ es.length)
    (hes : ∀ e ∈ es, e.IsOperandOf c) : joinAll c es = .join .unknown c es := by
  have hnormal : (Expr.join .unknown c es).IsNormal ⟨fun _ => none, false⟩ :=
    ⟨hlength, fun e he => ⟨(hes e he).operandsUnder_eq, (hes e he).isBool_eq_false _⟩⟩
  exact joinAll_of_isNormal hnormal

/-! ### Negations of reduced values -/

/-- The negations of operands stand in the place of the operands under the dual connective. -/
theorem negated_join_of_isOperandOf {c : Connective} {s : Span} {es ns : List Expr}
    (hlength : 2 ≤ es.length) (h : List.Forall₂ (fun e n => negated e = .ok n) es ns)
    (hns : ∀ n ∈ ns, n.IsOperandOf c.dual) :
    negated (.join s c es) = .ok (.join s c.dual ns) := by
  rw [negated, negatedAll_eq_ok_iff.2 h]
  show (.ok ((joinAll c.dual ns).moveTo s) : Outcome Expr) = _
  rw [joinAll_of_isOperandOf (h.length_eq ▸ hlength) hns]
  rfl

/-- A negation is an operand of the dual connective where the negated value is one. -/
theorem isOperandOf_of_negated {e n : Expr} (he : e.Everywhere (IsReduced names))
    (h : negated e = .ok n) {c : Connective} (hc : e.IsOperandOf c) : n.IsOperandOf c.dual := by
  induction he generalizing n c with
  | @intro e hnode hchildren ih =>
    unfold negated at h
    split at h
    · cases hc
    · cases h
      trivial
    · cases h
      trivial
    · cases hnode
    · rename_i s c' es
      obtain ⟨ns, hns, h⟩ := Outcome.bind_eq_ok_iff.1 h
      have hall : ∀ n ∈ ns, n.IsOperandOf c'.dual :=
        forall_of_forall₂ (negatedAll_eq_ok_iff.1 hns) fun e he n hn => ih e he hn (hnode.2 e he)
      have hlength := (negatedAll_eq_ok_iff.1 hns).length_eq ▸ hnode.1
      rw [joinAll_of_isOperandOf hlength hall] at h
      cases h
      have hne : c' ≠ c := hc
      exact fun hdual => hne (by rw [← c'.dual_dual, hdual, c.dual_dual])
    · rw [Outcome.within_eq_ok_iff] at h
      exact absurd h Outcome.fail_ne_ok

/-- The negation of a reduced connective negates operand by operand. -/
theorem negated_join_eq_ok {s : Span} {c : Connective} {es : List Expr} {n : Expr}
    (he : (Expr.join s c es).Everywhere (IsReduced names)) (h : negated (.join s c es) = .ok n) :
    ∃ ns, List.Forall₂ (fun e n => negated e = .ok n) es ns ∧ (∀ n ∈ ns, n.IsOperandOf c.dual) ∧
      n = .join s c.dual ns := by
  obtain ⟨ns, hns, -⟩ := Outcome.bind_eq_ok_iff.1 (show negatedAll es >>= _ = .ok n from h)
  rw [negatedAll_eq_ok_iff] at hns
  have hall : ∀ n ∈ ns, n.IsOperandOf c.dual := forall_of_forall₂ hns fun e hmem n hn =>
    isOperandOf_of_negated (he.children e hmem) hn (he.node.2 e hmem)
  have hjoin := negated_join_of_isOperandOf (s := s) he.node.1 hns hall
  exact ⟨ns, hns, hall, Except.ok.inj (h.symm.trans hjoin)⟩

/-- The negation of the negation of a reduced value is the value. -/
theorem negated_negated {e n : Expr} (he : e.Everywhere (IsReduced names))
    (h : negated e = .ok n) : negated n = .ok e := by
  induction he generalizing n with
  | @intro e hnode hchildren ih =>
    cases e with
    | literal s v =>
      cases v with
      | bool b =>
        cases h
        rw [negated, Bool.not_not]
      | _ => cases h
    | always s b =>
      cases h
      rw [negated, Bool.not_not]
    | compare s r left right =>
      cases h
      rw [negated, Relation.negation_negation]
    | negate s es => cases hnode
    | join s c es =>
      obtain ⟨ns, hns, hall, rfl⟩ := negated_join_eq_ok ⟨hnode, hchildren⟩ h
      have hback : List.Forall₂ (fun n e => negated n = .ok e) ns es :=
        (forall₂_imp_of_mem hns fun e he n hn => ih e he hn).flip
      have hlength := hns.length_eq ▸ hnode.1
      have hes : ∀ e ∈ es, e.IsOperandOf c.dual.dual := by
        rw [c.dual_dual]
        exact hnode.2
      rw [negated_join_of_isOperandOf hlength hback hes, c.dual_dual]
    | _ => cases h

/-- Negation keeps the span, whichever it is. -/
theorem negated_moveTo {e n : Expr} (h : negated e = .ok n) (s : Span) :
    negated (e.moveTo s) = .ok (n.moveTo s) := by
  unfold negated at h
  split at h
  · cases h
    rfl
  · cases h
    rfl
  · cases h
    rfl
  · cases h
    rw [moveTo_moveTo]
    rfl
  · obtain ⟨ns, hns, h⟩ := Outcome.bind_eq_ok_iff.1 h
    cases h
    rw [moveTo_moveTo, moveTo, negated, hns]
    rfl
  · rw [Outcome.within_eq_ok_iff] at h
    exact absurd h Outcome.fail_ne_ok

/-! ### Flattening -/

/-- Under a connective an expression is a truth value, a connective of the same kind, or an operand.
-/
theorem operand_cases (c : Connective) (e : Expr) :
    (∃ s b, e = .literal s (.bool b)) ∨ (∃ s es, e = .join s c es) ∨ e.IsOperandOf c := by
  cases e with
  | literal s v =>
    cases v with
    | bool b => exact .inl ⟨s, b, rfl⟩
    | _ => exact .inr (.inr trivial)
  | join s c' es =>
    by_cases hc : c' = c
    · exact .inr (.inl ⟨s, es, by rw [hc]⟩)
    · exact .inr (.inr hc)
  | _ => exact .inr (.inr trivial)

/-- What a negation contributes to the dual connective are the negations of what the value
contributes, and it decides the dual connective where the value decides the connective. -/
theorem operandsUnder_negated {e n : Expr} (he : e.Everywhere (IsReduced names))
    (h : negated e = .ok n) (c : Connective) :
    List.Forall₂ (fun e n => negated e = .ok n) (operandsUnder c e) (operandsUnder c.dual n) ∧
      n.isBool c.dual.absorbing = e.isBool c.absorbing := by
  obtain ⟨s, b, rfl⟩ | ⟨s, es, rfl⟩ | hc := operand_cases c e
  · cases h
    refine ⟨.nil, ?_⟩
    rw [isBool, isBool, c.absorbing_dual]
    cases b <;> cases c.absorbing <;> rfl
  · obtain ⟨ns, hns, -, rfl⟩ := negated_join_eq_ok he h
    rw [operandsUnder, operandsUnder, if_pos rfl, if_pos rfl]
    exact ⟨hns, rfl⟩
  · have hn := isOperandOf_of_negated he h hc
    rw [hc.operandsUnder_eq, hn.operandsUnder_eq, hc.isBool_eq_false, hn.isBool_eq_false]
    exact ⟨.cons h .nil, rfl⟩

/-- What negations contribute to the dual connective are the negations of what the values
contribute, and they decide it where the values decide theirs. -/
theorem flatMap_operandsUnder_negated {es ns : List Expr}
    (h : List.Forall₂ (fun e n => negated e = .ok n) es ns)
    (hes : ∀ e ∈ es, e.Everywhere (IsReduced names)) (c : Connective) :
    List.Forall₂ (fun e n => negated e = .ok n) (es.flatMap (operandsUnder c))
        (ns.flatMap (operandsUnder c.dual)) ∧
      ns.any (·.isBool c.dual.absorbing) = es.any (·.isBool c.absorbing) := by
  induction h with
  | nil => exact ⟨.nil, rfl⟩
  | cons hhead _ ih =>
    obtain ⟨he, hes⟩ := List.forall_mem_cons.1 hes
    obtain ⟨hoperands, hbool⟩ := operandsUnder_negated he hhead c
    obtain ⟨hrest, hany⟩ := ih hes
    rw [List.flatMap_cons, List.flatMap_cons, List.any_cons, List.any_cons, hbool, hany]
    exact ⟨List.rel_append hoperands hrest, rfl⟩

/-- The negation of a flattened connective is the flattened dual connective of the negations. -/
theorem negated_joinAll {es ns : List Expr} (hes : ∀ e ∈ es, e.Everywhere (IsReduced names))
    (h : List.Forall₂ (fun e n => negated e = .ok n) es ns) (c : Connective) :
    negated (joinAll c es) = .ok (joinAll c.dual ns) := by
  obtain ⟨hflat, hany⟩ := flatMap_operandsUnder_negated h hes c
  have hoperands : ∀ n ∈ ns.flatMap (operandsUnder c.dual), n.IsOperandOf c.dual := by
    refine forall_of_forall₂ hflat fun e he n hn => ?_
    obtain ⟨e', he', hmem⟩ := List.mem_flatMap.1 he
    exact isOperandOf_of_negated (IsInvariant.everywhere_operandsUnder c (hes e' he') e hmem) hn
      (isOperandOf_of_mem (hes e' he').node hmem)
  rw [joinAll, joinAll, hany, c.absorbing_dual]
  split
  · rfl
  · -- No operand decides the connective; what is left of the two lists has the same length.
    generalize es.flatMap (operandsUnder c) = flat at hflat ⊢
    generalize ns.flatMap (operandsUnder c.dual) = flat' at hflat hoperands ⊢
    cases hflat with
    | nil => rfl
    | cons hhead htail =>
      cases htail with
      | nil => exact hhead
      | cons hnext hrest =>
        exact negated_join_of_isOperandOf (Nat.le_add_left 2 _) (.cons hhead (.cons hnext hrest))
          hoperands

/-! ### Values of negations -/

/-- Evaluation of negated operands gives the negations of their values, up to spans. -/
theorem exists_negated_of_forall₂ {run : BodyRule} {scope : Scope} {es : List (Span × Expr)}
    {ws : List Expr} (h : List.Forall₂ (fun e w => evaluateWith run scope e = .ok w)
      (es.map fun e => .negate e.1 [e.2]) ws) :
    ∃ vs ns, List.Forall₂ (fun e v => evaluateWith run scope e = .ok v) (es.map Prod.snd) vs ∧
      List.Forall₂ (fun v n => negated v = .ok n) vs ns ∧ ws.map erase = ns.map erase := by
  induction es generalizing ws with
  | nil =>
    cases h
    exact ⟨[], [], .nil, .nil, rfl⟩
  | cons e es ih =>
    obtain _ | ⟨hhead, htail⟩ := h
    obtain ⟨_, v, n, ⟨⟩, hv, hn, rfl⟩ := evaluateWith_negate_eq_ok_iff.1 hhead
    obtain ⟨vs, ns, hvs, hns, herase⟩ := ih htail
    refine ⟨v :: vs, n :: ns, .cons hv hvs, .cons hn hns, ?_⟩
    rw [List.map_cons, List.map_cons, erase_moveTo, herase]

/-- Negation is an involution, and it exchanges the connectives.  Wherever an expression has a
negation, its double negation has the value of the expression; and wherever the negations of
operands have a value under a connective, the negation of the operands under the dual connective has
the same value.  Values are compared up to spans.  The variables of the scope hold reduced values,
as evaluation makes them. -/
theorem evaluate_negation_laws {scope : Scope}
    (hvariables : ∀ name value, scope.lookup? name = some value →
      value.Everywhere (IsReduced scope.names)) :
    (∀ (s t : Span) (e w : Expr), evaluate scope (.negate s [e]) = .ok w →
      ∃ v v', evaluate scope e = .ok v ∧ evaluate scope (.negate t [.negate s [e]]) = .ok v' ∧
        v'.erase = v.erase) ∧
    ∀ (s t u : Span) (c : Connective) (es : List (Span × Expr)) (w : Expr),
      evaluate scope (.join s c.dual (es.map fun e => .negate e.1 [e.2])) = .ok w →
      ∃ w', evaluate scope (.negate t [.join u c (es.map Prod.snd)]) = .ok w' ∧
        w'.erase = w.erase := by
  have hreduced {e v : Expr} (h : evaluate scope e = .ok v) :
      v.Everywhere (IsReduced scope.names) := everywhere_isReduced_evaluate hvariables h
  constructor
  · intro s t e w h
    obtain ⟨_, v, n, ⟨⟩, hv, hn, rfl⟩ := evaluateWith_negate_eq_ok_iff.1 h
    have hback : negated (n.moveTo s) = .ok (v.moveTo s) :=
      negated_moveTo (negated_negated (hreduced hv) hn) s
    refine ⟨v, _, hv, evaluateWith_negate_eq_ok_iff.2 ⟨_, _, _, rfl, h, hback, rfl⟩, ?_⟩
    rw [erase_moveTo, erase_moveTo]
  · intro s t u c es w h
    obtain ⟨ws, hws, rfl⟩ := evaluateWith_join_eq_ok_iff.1 h
    obtain ⟨vs, ns, hvs, hns, herase⟩ := exists_negated_of_forall₂ hws
    have hjoin : evaluate scope (.join u c (es.map Prod.snd)) = .ok ((joinAll c vs).moveTo u) :=
      evaluateWith_join_eq_ok_iff.2 ⟨vs, hvs, rfl⟩
    have hvalues : ∀ v ∈ vs, v.Everywhere (IsReduced scope.names) :=
      forall_of_forall₂ hvs fun _ _ _ hv => hreduced hv
    have hnegated := negated_moveTo (negated_joinAll hvalues hns c) u
    refine ⟨_, evaluateWith_negate_eq_ok_iff.2 ⟨_, _, _, rfl, hjoin, hnegated, rfl⟩, ?_⟩
    rw [erase_moveTo, erase_moveTo, erase_moveTo, erase_joinAll_congr _ herase]

/-- `x` and `e`, which is `!(5 < byte(3)) || byte(4) != 4 && x`, where `x` holds the conjunction
`byte(1) == 1 && byte(2) > 2`: `!!e` has the value of `e`, and `!x || !e || !true` the value of
`!(x && e && true)`, in which the conjunction of `x` is taken apart. -/
theorem evaluate_negation_laws_nested :
    let byte (address : Int32) : Expr := .call .unknown "byte" [.int address]
    let read (address : UInt32) : Expr := .read .unknown (.direct .byte address)
    let value : Expr := .join .unknown .all
      [.compare .unknown .equal (read 1) (.int 1), .compare .unknown .greater (read 2) (.int 2)]
    let scope := (Scope.root {}).setVariable "x" value
    let not (e : Expr) : Expr := .negate .unknown [e]
    let x : Expr := .var .unknown "x"
    let e : Expr := .join .unknown .any [not (.compare .unknown .less (.int 5) (byte 3)),
      .join .unknown .all [.compare .unknown .notEqual (byte 4) (.int 4), x]]
    (∀ name value, scope.lookup? name = some value →
      value.Everywhere (IsReduced scope.names)) ∧
    (∃ v v', evaluate scope e = .ok v ∧ evaluate scope (not (not e)) = .ok v' ∧
      v'.erase = v.erase) ∧
    ∃ w w', evaluate scope (.join .unknown .any [not x, not e, not (.bool true)]) = .ok w ∧
      evaluate scope (not (.join .unknown .all [x, e, .bool true])) = .ok w' ∧
      w'.erase = w.erase := by
  intro byte read value scope not x e
  have hcompare (r : Relation) (address : UInt32) (n : Int32) :
      (Expr.compare .unknown r (read address) (.int n)).Everywhere (IsReduced scope.names) :=
    ⟨fun _ => rfl, List.forall_mem_cons.2
      ⟨.of_leaf rfl trivial, List.forall_mem_singleton.2 (.of_leaf rfl trivial)⟩⟩
  have hvariables : ∀ name value, scope.lookup? name = some value →
      value.Everywhere (IsReduced scope.names) := by
    intro name v h
    obtain ⟨-, rfl⟩ | h := Scope.lookup?_setVariable_eq_some h
    · exact ⟨⟨Nat.le_refl 2, List.forall_mem_cons.2 ⟨trivial, List.forall_mem_singleton.2 trivial⟩⟩,
        List.forall_mem_cons.2 ⟨hcompare .equal 1 1,
          List.forall_mem_singleton.2 (hcompare .greater 2 2)⟩⟩
    · cases h
  have hnegation : evaluate scope (not e) = .ok _ := rfl
  have hjoin : evaluate scope (.join .unknown .any [not x, not e, not (.bool true)]) = .ok _ := rfl
  obtain ⟨hinvolution, hdual⟩ := evaluate_negation_laws hvariables
  obtain ⟨w', hw', herase⟩ := hdual .unknown .unknown .unknown .all
    [(.unknown, x), (.unknown, e), (.unknown, .bool true)] _ hjoin
  exact ⟨hvariables, hinvolution .unknown .unknown e _ hnegation, _, w', hjoin, hw', herase⟩

end TriggerLang.Expr
