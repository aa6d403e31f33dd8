import TriggerLang.Proofs.Evaluation.Agreement
import TriggerLang.Proofs.Evaluation.Idempotence
import TriggerLang.Proofs.Evaluation.Termination
/-!
# Calls as substitution

Names are looked up dynamically: the body of a script function is evaluated in a frame above the
frames of its callers, and so it sees their variables.  When the variables of every body are among
its parameters, none of these is ever asked for, and a call means the substitution of the values of
its arguments (`upTo_evaluate_call_eq`).

The values that a call binds are not evaluated again, and the substituted ones are.  The statement
therefore rests on idempotence, for which the values have to be evaluated expressions
(`IsEvaluated`).
-/

namespace TriggerLang

/-! ### Closed functions -/

namespace Expr

/-- Whether every variable of an expression is one of the given names. -/
def usesOnly (names : List String) (e : Expr) : Bool :=
  e.allNodes fun
    | .var _ name => names.contains name
    | _ => true

/-- To find only the given variables in an expression it is enough to test the nodes. -/
theorem variablesIn_of_usesOnly {names : List String} {e : Expr} (h : e.usesOnly names = true) :
    e.VariablesIn (· ∈ names) := by
  refine (everywhere_of_allNodes e h).imp fun e he s name hname => ?_
  rw [hname] at he
  exact List.contains_iff_mem.1 he

end Expr

/-- The script functions have different parameters, and no other variables in their bodies. -/
def Names.AreClosed (names : Names) : Prop :=
  ∀ {name name' parameters body}, names.function? name = some (.script name' parameters body) →
    parameters.Nodup ∧ body.VariablesIn (· ∈ parameters)

namespace Scope

/-- A root scope has no script functions that could have further variables. -/
theorem areClosed_root (settings : Settings) : (root settings).names.AreClosed := by
  intro name name' parameters body hname
  obtain ⟨b, hb⟩ := function?_root_eq_some hname
  cases hb

/-- A function with different parameters and no further variables keeps the functions closed. -/
theorem areClosed_setFunction {scope : Scope} (h : scope.names.AreClosed) {name : String}
    {parameters : List String} {body : Expr} (hnodup : parameters.Nodup)
    (hbody : body.usesOnly parameters = true) :
    (scope.setFunction (.script name parameters body)).names.AreClosed := by
  intro called name' parameters' body' hcalled
  by_cases heq : name = called
  · subst heq
    have hself := scope.function?_setFunction_self (.script name parameters body)
    cases hself.symm.trans hcalled
    exact ⟨hnodup, Expr.variablesIn_of_usesOnly hbody⟩
  · have hother : (scope.setFunction (.script name parameters body)).function? called =
        scope.function? called := scope.function?_setFunction_of_ne heq
    exact h (hother.symm.trans hcalled)

/-- Scopes with the same functions agree when these are closed, whatever the variables are. -/
theorem agrees_of_closed {scope inner : Scope} (hclosed : scope.names.AreClosed)
    (hnames : inner.names = scope.names) (hsettings : inner.settings = scope.settings) :
    scope.Agrees inner := by
  have hfunction : inner.function? = scope.function? := congrArg Names.function? hnames
  have hclause : inner.inClause = scope.inClause := congrArg Names.inClause hnames
  refine ⟨by rw [hsettings], hclause.symm, fun name => by rw [hfunction], fun hname => ?_⟩
  exact (hclosed hname).2.imp fun x hx => .inl hx

end Scope

namespace Expr

/-! ### Evaluated expressions -/

/-- An expression that comes out of evaluation under the given names of functions; the variables of
the scope that it comes from hold such expressions too. -/
inductive IsEvaluated (names : Names) : Expr → Prop
  | intro {scope : Scope} {e v : Expr} (hnames : scope.names = names)
      (hvariables : ∀ name value, scope.lookup? name = some value → IsEvaluated names value)
      (h : evaluate scope e = .ok v) : IsEvaluated names v

/-- An evaluated expression is normal everywhere. -/
theorem IsEvaluated.everywhere_isNormal {names : Names} {v : Expr} (h : IsEvaluated names v) :
    v.Everywhere (IsNormal names) := by
  induction h with
  | intro hnames _ h ih =>
    subst hnames
    exact everywhere_isNormal_evaluate ih h

/-- An evaluated expression evaluates to itself wherever functions have the same names. -/
theorem IsEvaluated.upTo_evaluateWith {run : BodyRule} {scope : Scope} {v : Expr}
    (h : IsEvaluated scope.names v) : (evaluateWith run scope v).upTo erase = .ok v.erase := by
  have hself : EvaluatesToItself run scope v := evaluatesToItself_of_isNormal h.everywhere_isNormal
  obtain ⟨w, hw, herase⟩ := hself
  rw [hw, Outcome.upTo_ok, herase]

/-! ### Substituted arguments -/

/-- Among bindings of different names each one is found. -/
theorem lookup_eq_some_of_mem {values : List (String × Expr)} (h : (values.map Prod.fst).Nodup)
    {b : String × Expr} (hb : b ∈ values) : values.lookup b.1 = some b.2 := by
  induction values with
  | nil => cases hb
  | cons b' values ih =>
    rw [List.map_cons, List.nodup_cons] at h
    obtain rfl | hb := List.mem_cons.1 hb
    · rw [List.lookup_cons, beq_self_eq_true]
    · have hne : b.1 ≠ b'.1 := fun heq => h.1 (heq ▸ List.mem_map_of_mem hb)
      rw [List.lookup_cons, beq_false_of_ne hne]
      exact ih h.2 hb

/-- The substitution of evaluated values for parameters is realized by binding them. -/
theorem isRealized_of_mem {run run' : BodyRule} {scope inner : Scope} {parameters : List String}
    {values : List Expr} (hnodup : parameters.Nodup) (hlength : values.length = parameters.length)
    (hvalues : ∀ v ∈ values, IsEvaluated inner.names v)
    (hcalls : CallsAgree run' run' inner inner) {name : String} (hname : name ∈ parameters) :
    IsRealized run run' (scope.inCall (parameters.zip values)) inner
      (fun x => (parameters.zip values).lookup x) name := by
  have hfst : (parameters.zip values).map Prod.fst = parameters :=
    List.map_fst_zip (by rw [hlength])
  have hkeys : ((parameters.zip values).map Prod.fst).Nodup := by
    rw [hfst]
    exact hnodup
  have hkeys' : ((parameters.zip values).reverse.map Prod.fst).Nodup := by
    rw [List.map_reverse, List.nodup_reverse]
    exact hkeys
  rw [← hfst] at hname
  obtain ⟨⟨name, v⟩, hb, rfl⟩ := List.mem_map.1 hname
  have hv : (parameters.zip values).lookup name = some v := lookup_eq_some_of_mem hkeys hb
  have hbound : (parameters.zip values).reverse.lookup name = some v :=
    lookup_eq_some_of_mem hkeys' (List.mem_reverse.2 hb)
  have hevaluated : IsEvaluated inner.names v := hvalues v (List.of_mem_zip hb).2
  intro s
  have hvar : (evaluateWith run (scope.inCall (parameters.zip values)) (.var s name)).upTo erase =
      .ok v.erase := by
    rw [upTo_evaluateWith_var, Scope.lookup?_inCall_eq, hbound]
    rfl
  have herased : (evaluateWith run' inner v.erase).upTo erase =
      (evaluateWith run' inner v).upTo erase :=
    upTo_evaluateWith_congr hcalls hcalls (variablesIn_of_forall (fun _ => rfl) _) (erase_erase v)
  rw [HaveOneValue, hvar, subst, hv, Option.getD_some, herased, hevaluated.upTo_evaluateWith]

/-! ### Calls -/

/-- Outcomes that agree up to spans do so once the value is no longer marked as returned. -/
theorem upTo_unwrapReturned {x x' : Outcome Expr} (h : x.upTo erase = x'.upTo erase) :
    (x.upTo fun v => v.unwrapReturned.erase) = x'.upTo fun v => v.unwrapReturned.erase := by
  rw [← bind_pure x, ← bind_pure x']
  refine Outcome.upTo_bind_congr h fun v v' hv => ?_
  rw [Outcome.upTo_pure, Outcome.upTo_pure, ← erase_unwrapReturned, hv, erase_unwrapReturned]

/-- The body of a call under the substitution of evaluated values has the value of the body with
these values bound, whatever variables its scope holds. -/
theorem upTo_evaluate_inCall {scope inner : Scope} {parameters : List String} {body : Expr}
    {values : List Expr} (hclosed : scope.names.AreClosed) (hnodup : parameters.Nodup)
    (hbody : body.VariablesIn (· ∈ parameters)) (hlength : values.length = parameters.length)
    (hvalues : ∀ v ∈ values, IsEvaluated scope.names v) (hnames : inner.names = scope.names)
    (hsettings : inner.settings = scope.settings) (hdepth : inner.depth = scope.depth + 1) :
    (evaluate (scope.inCall (parameters.zip values)) body).upTo erase =
      (evaluate inner (body.subst fun x => (parameters.zip values).lookup x)).upTo erase := by
  have hnames' := scope.names_inCall (parameters.zip values)
  have hagrees : (scope.inCall (parameters.zip values)).Agrees inner :=
    Scope.agrees_of_closed (hnames' ▸ hclosed) (hnames.trans hnames'.symm) hsettings
  have hremaining :
      (scope.inCall (parameters.zip values)).remainingCalls = inner.remainingCalls := by
    rw [Scope.remainingCalls, Scope.remainingCalls, hsettings, hdepth, Scope.depth_inCall,
      Scope.settings_inCall]
  have hcalls := (Scope.Agrees.refl inner).callsAgree inner.remainingCalls
  rw [evaluate, evaluate, hremaining]
  calc (evaluateWith (runBody inner.remainingCalls) (scope.inCall (parameters.zip values))
          body).upTo erase
    _ = (evaluateWith (runBody inner.remainingCalls) inner
          (body.subst fun x => (parameters.zip values).lookup x).erase).upTo erase :=
      upTo_evaluateWith_subst (hagrees.callsAgree _)
        (hbody.imp fun _ => isRealized_of_mem hnodup hlength (hnames ▸ hvalues) hcalls)
    _ = _ := upTo_evaluateWith_congr hcalls hcalls (variablesIn_of_forall (fun _ => rfl) _)
        (erase_erase _)

/-- A call of a script function means the substitution of the values of its arguments.

The script functions of the scope are closed, and its variables hold evaluated expressions.  Up to
spans, the call has the value of its body under the substitution, without one outer return, or it
fails for the same cause, which fixes the kind and the text of a failure.  The body under the
substitution is evaluated in a child scope one call deeper, `scope.inCall []`; the variables of that
scope make no difference, so that neither the body nor what it calls captures one. -/
theorem upTo_evaluate_call_eq {scope : Scope} {s : Span} {name name' : String}
    {parameters : List String} {body : Expr} {arguments values : List Expr}
    (hclosed : scope.names.AreClosed)
    (hvariables : ∀ name value, scope.lookup? name = some value → IsEvaluated scope.names value)
    (hname : scope.function? name = some (.script name' parameters body))
    (harity : arguments.length = parameters.length)
    (harguments : evaluateAll scope arguments = .ok values)
    (hdepth : scope.depth < scope.settings.callDepthLimit) :
    let substituted := body.subst fun x => (parameters.zip values).lookup x
    (evaluate scope (.call s name arguments)).upTo erase =
        ((evaluate (scope.inCall []) substituted).upTo fun v => v.unwrapReturned.erase) ∧
      ∀ inner : Scope, inner.names = scope.names → inner.settings = scope.settings →
        inner.depth = scope.depth + 1 →
          (evaluate inner substituted).upTo erase =
            (evaluate (scope.inCall []) substituted).upTo erase := by
  intro substituted
  have hvalues : ∀ v ∈ values, IsEvaluated scope.names v :=
    forall_of_forall₂ (evaluateAllWith_eq_ok_iff.1 harguments)
      fun _ _ _ hv => .intro rfl hvariables hv
  have hlength : values.length = parameters.length :=
    (evaluateAllWith_eq_ok_iff.1 harguments).length_eq.symm.trans harity
  obtain ⟨hnodup, hbody⟩ := hclosed hname
  -- The body with its parameters bound has the value of the substituted body in every scope at the
  -- depth of the call.
  have hbound (inner : Scope) (hnames : inner.names = scope.names)
      (hsettings : inner.settings = scope.settings) (hdepth : inner.depth = scope.depth + 1) :
      (evaluate (scope.inCall (parameters.zip values)) body).upTo erase =
        (evaluate inner substituted).upTo erase :=
    upTo_evaluate_inCall hclosed hnodup hbody hlength hvalues hnames hsettings hdepth
  have hchild := hbound (scope.inCall []) (scope.names_inCall []) rfl (scope.depth_inCall [])
  refine ⟨?_, fun inner hnames hsettings hdepth => ?_⟩
  · have henter : scope.bindCall name parameters arguments =
        .ok (scope.inCall (parameters.zip values)) :=
      Scope.bindCall_eq_ok_iff.2
        ⟨harity, values, harguments, Scope.enterCall_eq_ok_iff.2 ⟨hdepth, rfl⟩⟩
    rw [← upTo_unwrapReturned hchild, evaluate_call_of_script hname, henter, Outcome.upTo_within]
    show Outcome.upTo erase (evaluate (scope.inCall (parameters.zip values)) body >>= _) = _
    cases evaluate (scope.inCall (parameters.zip values)) body with
    | error d => rfl
    | ok v => exact congrArg Except.ok (erase_moveIfUnknown s v.unwrapReturned)
  · rw [← hbound inner hnames hsettings hdepth, hchild]

/-- `peek(x, y)` is `byte(next(x) + y)` and `next(y)` returns `y + 1`; `peek(3, x)` is called where
`x` holds `byte(9)`. -/
theorem upTo_evaluate_call_eq_nested :
    let x : Expr := .var .unknown "x"
    let y : Expr := .var .unknown "y"
    let pointer : Expr := .read .unknown (.direct .byte 9)
    let next : Expr := .returned .unknown (.arith .unknown .add y (.int 1))
    let peek (x y : Expr) : Expr :=
      .call .unknown "byte" [.arith .unknown .add (.call .unknown "next" [x]) y]
    let bare := ((Scope.root {}).setFunction (.script "next" ["y"] next)).setFunction
      (.script "peek" ["x", "y"] (peek x y))
    let scope := bare.setVariable "x" pointer
    let other := (bare.setVariable "y" (.bool true)).inCall [("x", .bool false)]
    (evaluate scope (.call .unknown "peek" [.int 3, x])).upTo erase =
        ((evaluate (scope.inCall []) (peek (.int 3) pointer)).upTo fun v =>
          v.unwrapReturned.erase) ∧
      (evaluate other (peek (.int 3) pointer)).upTo erase =
        (evaluate (scope.inCall []) (peek (.int 3) pointer)).upTo erase ∧
      evaluate scope (.call .unknown "peek" [.int 3, x]) = .ok (.read .unknown
        ⟨.read .byte 4, [Row.single .addAddress (.read .byte 9)]⟩) := by
  intro x y pointer next peek bare scope other
  have hpeek : scope.function? "peek" = some (.script "peek" ["x", "y"] (peek x y)) := rfl
  have hclosed : scope.names.AreClosed :=
    Scope.areClosed_setFunction (Scope.areClosed_setFunction (Scope.areClosed_root {})
      (by decide) rfl) (by decide) rfl
  have hvariables : ∀ name value, scope.lookup? name = some value →
      IsEvaluated scope.names value := by
    intro name value hvalue
    have hbare (name : String) : bare.lookup? name = none := rfl
    have hnone : ∀ name value, bare.lookup? name = some value → IsEvaluated scope.names value :=
      fun name value h => nomatch (hbare name).symm.trans h
    obtain ⟨-, rfl⟩ | h := Scope.lookup?_setVariable_eq_some hvalue
    · have hevaluate : evaluate bare pointer = .ok pointer := rfl
      have hnames : bare.names = scope.names := rfl
      exact .intro hnames hnone hevaluate
    · exact hnone name value h
  have hlength : [Expr.int 3, x].length = ["x", "y"].length := rfl
  have harguments : evaluateAll scope [.int 3, x] = .ok [.int 3, pointer] := rfl
  obtain ⟨hcall, hinner⟩ := upTo_evaluate_call_eq (s := .unknown) hclosed hvariables hpeek hlength
    harguments (by decide)
  exact ⟨hcall, hinner other rfl rfl rfl, rfl⟩

end Expr

end TriggerLang
