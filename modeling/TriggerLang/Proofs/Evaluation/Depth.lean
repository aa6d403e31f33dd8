import TriggerLang.Proofs.Evaluation.Invariant
/-!
# Evaluation under other limits of calls

The limit on nested calls only refuses evaluations.  An expression that has a value in a scope has
the same value in every scope with the same variables and functions in which at least as many calls
may still be nested (`evaluate_of_isDeepenedBy`).

Evaluation is monotone in how bodies are run (`evaluateWith_of_sameNames`), and from this the
statement follows by induction on the number of calls that are left.
-/

namespace TriggerLang

/-! ### Scopes with the same names -/

/-- Two scopes have the same names when every variable and every function of one is that of the
other, within the same trigger clauses. -/
structure Scope.SameNames (scope scope' : Scope) : Prop where
  lookup? (name : String) : scope'.lookup? name = scope.lookup? name
  names : scope'.names = scope.names

/-- A scope is deepened by another one with the same names in which at least as many calls may still
be nested. -/
structure Scope.IsDeepenedBy (scope scope' : Scope) : Prop extends scope.SameNames scope' where
  remainingCalls : scope.remainingCalls ≤ scope'.remainingCalls

namespace Scope.SameNames

variable {scope scope' : Scope}

/-- Scopes with the same names have the same functions. -/
theorem function? (h : scope.SameNames scope') : scope'.function? = scope.function? :=
  congrArg Names.function? h.names

/-- Of two scopes with the same names both are within a trigger clause, or neither is. -/
theorem inClause (h : scope.SameNames scope') : scope'.inClause = scope.inClause :=
  congrArg Names.inClause h.names

/-- Scopes with the same names have them in the bodies of calls with the same values. -/
theorem inCall (h : scope.SameNames scope') (values : List (String × Expr)) :
    (scope.inCall values).SameNames (scope'.inCall values) := by
  refine ⟨fun name => ?_, ?_⟩
  · rw [lookup?_inCall_eq, lookup?_inCall_eq, h.lookup?]
  · rw [names_inCall, names_inCall, h.names]

/-- Scopes with the same names have them in trigger clauses. -/
theorem clause (h : scope.SameNames scope') : scope.clause.SameNames scope'.clause := by
  refine ⟨fun name => ?_, ?_⟩
  · rw [lookup?_clause, lookup?_clause, h.lookup?]
  · rw [names_clause, names_clause, h.function?]

end Scope.SameNames

/-- A trigger clause uses up no calls, so that it is deepened like its scope. -/
theorem Scope.IsDeepenedBy.clause {scope scope' : Scope} (h : scope.IsDeepenedBy scope') :
    scope.clause.IsDeepenedBy scope'.clause :=
  ⟨h.toSameNames.clause, h.remainingCalls⟩

namespace Expr

variable {run run' : BodyRule} {scope scope' : Scope}

/-! ### Monotonicity -/

/-- What a built-in function makes of its arguments in one scope it makes of them in the other one.
-/
theorem BuiltinValue.of_sameNames (hscope : scope.SameNames scope') {name : String} {b : Builtin}
    {arguments : List Expr} {v : Expr}
    (harguments : ∀ e ∈ arguments, ∀ v, evaluateWith run scope e = .ok v →
      evaluateWith run' scope' e = .ok v)
    (h : BuiltinValue run scope name b arguments v) :
    BuiltinValue run' scope' name b arguments v := by
  have hfirst {e : Expr} {es : List Expr} (hes : arguments = e :: es) {v : Expr} :
      evaluateWith run scope e = .ok v → evaluateWith run' scope' e = .ok v :=
    harguments e (hes ▸ List.mem_cons_self) v
  cases h with
  | read haddress hread => exact .read (hfirst rfl haddress) hread
  | always b => exact .always b arguments
  | @repeated count n condition value rest hits hclause hcount hhits hvalue =>
    have hcondition := harguments condition (List.mem_cons_of_mem _ List.mem_cons_self) _ hvalue
    exact .repeated (hscope.inClause.trans hclause) (hfirst rfl hcount) hhits hcondition
  | once hclause hvalue => exact .once (hscope.inClause.trans hclause) (hfirst rfl hvalue)
  | guard g hclause hvalue => exact .guard g (hscope.inClause.trans hclause) (hfirst rfl hvalue)

/-- If whatever bodies return in one scope they return in another one with the same names, then
expressions keep their values. -/
theorem evaluateWith_of_sameNames (hscope : scope.SameNames scope')
    (hrun : ∀ {values body v}, run scope values body = .ok v → run' scope' values body = .ok v)
    {e v : Expr} (h : evaluateWith run scope e = .ok v) : evaluateWith run' scope' e = .ok v := by
  -- The induction is on the nodes of the expression; bodies of functions are covered by `hrun`.
  have he : e.Everywhere fun _ => True := everywhere_of_forall (fun _ => trivial) e
  induction he generalizing v with
  | @intro e _ _ ih =>
    have hchild : ∀ c ∈ e.children, ∀ w, evaluateWith run scope c = .ok w →
        evaluateWith run' scope' c = .ok w := fun c hc w hw => ih c hc hw
    cases e with
    | var s name =>
      rw [evaluateWith_var_eq_ok_iff] at h ⊢
      rw [hscope.lookup?, h]
    | arith s op left right =>
      obtain ⟨l, r, hl, hr, h⟩ := evaluateWith_arith_eq_ok_iff.1 h
      have hl := hchild left List.mem_cons_self l hl
      have hr := hchild right (List.mem_cons_of_mem _ List.mem_cons_self) r hr
      exact evaluateWith_arith_eq_ok_iff.2 ⟨l, r, hl, hr, h⟩
    | compare s relation left right =>
      obtain ⟨l, r, hl, hr, h⟩ := evaluateWith_compare_eq_ok_iff.1 h
      have hl := hchild left List.mem_cons_self l hl
      have hr := hchild right (List.mem_cons_of_mem _ List.mem_cons_self) r hr
      exact evaluateWith_compare_eq_ok_iff.2 ⟨l, r, hl, hr, h⟩
    | negate s es =>
      obtain ⟨e, l, n, rfl, hl, hn, h⟩ := evaluateWith_negate_eq_ok_iff.1 h
      have hl := hchild e (List.mem_singleton_self e) l hl
      exact evaluateWith_negate_eq_ok_iff.2 ⟨e, l, n, rfl, hl, hn, h⟩
    | join s c es =>
      obtain ⟨vs, hvs, h⟩ := evaluateWith_join_eq_ok_iff.1 h
      exact evaluateWith_join_eq_ok_iff.2 ⟨vs, forall₂_imp_of_mem hvs hchild, h⟩
    | returned s e =>
      obtain ⟨value, hvalue, h⟩ := evaluateWith_returned_eq_ok_iff.1 h
      have hvalue := hchild e (List.mem_singleton_self e) value hvalue
      exact evaluateWith_returned_eq_ok_iff.2 ⟨value, hvalue, h⟩
    | call s name arguments =>
      rw [evaluateWith_call_eq_ok_iff] at h ⊢
      rw [hscope.function?]
      obtain ⟨b, value, hname, harity, hvalue, h⟩ |
        ⟨name', parameters, body, values, value, hname, harity, hvalues, hvalue, h⟩ := h
      · exact .inl ⟨b, value, hname, harity, hvalue.of_sameNames hscope hchild, h⟩
      · exact .inr ⟨name', parameters, body, values, value, hname, harity,
          forall₂_imp_of_mem hvalues hchild, hrun hvalue, h⟩
    | _ => exact h

/-! ### Calls -/

/-- A body that returns a value with some calls left returns it with more calls left. -/
theorem runBody_of_le {n m : Nat} (hle : n ≤ m) (hscope : scope.SameNames scope')
    {values : List (String × Expr)} {body v : Expr} (h : runBody n scope values body = .ok v) :
    runBody m scope' values body = .ok v := by
  induction n generalizing m scope scope' values body v with
  | zero => exact absurd h Outcome.fail_ne_ok
  | succ n ih =>
    obtain ⟨m, rfl⟩ : ∃ k, m = k + 1 := ⟨m - 1, by omega⟩
    have hinner := hscope.inCall values
    exact evaluateWith_of_sameNames hinner (ih (Nat.le_of_succ_le_succ hle) hinner) h

/-- An expression keeps its value where more calls may be nested. -/
theorem evaluate_of_isDeepenedBy (hscope : scope.IsDeepenedBy scope') {e v : Expr}
    (h : evaluate scope e = .ok v) : evaluate scope' e = .ok v :=
  evaluateWith_of_sameNames hscope.toSameNames
    (runBody_of_le hscope.remainingCalls hscope.toSameNames) h

end Expr

end TriggerLang
