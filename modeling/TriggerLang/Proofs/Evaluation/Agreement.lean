import TriggerLang.Proofs.Evaluation.Erasure
import TriggerLang.Proofs.Evaluation.Invariant
/-!
# Scopes that agree

Evaluation reads no spans, and it asks a scope for variables, functions, the trigger clause and the
limit of calls only.  So two scopes in which these agree up to spans give an expression the same
value up to spans, or let it fail for the same cause (`upTo_evaluateWith_congr`).

The step of the simulation is one node: it has the same value in both scopes when its children have
(`HaveOneValue.withChildren`).  The simulation itself, `upTo_evaluateWith_subst`, also allows a
substitution: on one side a variable may stand against an expression with the value of the variable.
The induction is on the number of calls that may still be nested (`Scope.Agrees.callsAgree`), and
below it on the expression.
-/

namespace TriggerLang

/-- A function without the spans of its body. -/
def Function.erase : Function → Function
  | .builtin b => .builtin b
  | .script name parameters body => .script name parameters body.erase

namespace Function

@[simp] theorem parameters_erase (f : Function) : f.erase.parameters = f.parameters := by
  cases f <;> rfl

/-- A built-in function has no spans to lose, and no other function becomes one without them. -/
theorem erase_eq_builtin_iff {f : Function} {b : Builtin} :
    f.erase = .builtin b ↔ f = .builtin b := by
  cases f with
  | builtin b' => exact Iff.rfl
  | script name parameters body => exact ⟨nofun, nofun⟩

/-- A script function keeps its name and its parameters, and its body loses its spans. -/
theorem erase_eq_script_iff {f : Function} {name : String} {parameters : List String}
    {body : Expr} :
    f.erase = .script name parameters body ↔
      ∃ body', f = .script name parameters body' ∧ body'.erase = body := by
  cases f with
  | builtin b' => exact ⟨nofun, nofun⟩
  | script name' parameters' body' =>
    rw [erase, script.injEq]
    constructor
    · rintro ⟨rfl, rfl, hbody⟩
      exact ⟨body', rfl, hbody⟩
    · rintro ⟨_, ⟨⟩, hbody⟩
      exact ⟨rfl, rfl, hbody⟩

end Function

namespace Expr

/-! ### Substitution -/

mutual

/-- The expression with expressions in the place of variables, all at once. -/
def subst (σ : String → Option Expr) : Expr → Expr
  | .var s name => (σ name).getD (.var s name)
  | .literal s v => .literal s v
  | .arith s op left right => .arith s op (subst σ left) (subst σ right)
  | .compare s relation left right => .compare s relation (subst σ left) (subst σ right)
  | .join s c es => .join s c (substAll σ es)
  | .negate s es => .negate s (substAll σ es)
  | .call s name es => .call s name (substAll σ es)
  | .read s m => .read s m
  | .modified s m => .modified s m
  | .sum s t => .sum s t
  | .always s b => .always s b
  | .returned s e => .returned s (subst σ e)
  | .error s text => .error s text

/-- A list of expressions with expressions in the place of variables. -/
def substAll (σ : String → Option Expr) : List Expr → List Expr
  | [] => []
  | e :: es => subst σ e :: substAll σ es

end

/-- A substitution in a list of expressions is one in each of them. -/
theorem substAll_eq_map (σ : String → Option Expr) (es : List Expr) :
    substAll σ es = es.map (subst σ) := by
  induction es with
  | nil => rfl
  | cons e es ih => rw [substAll, ih, List.map_cons]

mutual

/-- The substitution of nothing changes nothing. -/
theorem subst_none : (e : Expr) → e.subst (fun _ => none) = e
  | .var _ _ | .literal _ _ | .read _ _ | .modified _ _ | .sum _ _ | .always _ _ | .error _ _ => rfl
  | .arith _ _ left right | .compare _ _ left right => by
    rw [subst, subst_none left, subst_none right]
  | .join _ _ es | .negate _ es | .call _ _ es => by
    rw [subst, substAll_none es]
  | .returned _ e => by
    rw [subst, subst_none e]

/-- The substitution of nothing changes no list of expressions. -/
theorem substAll_none : (es : List Expr) → substAll (fun _ => none) es = es
  | [] => rfl
  | e :: es => by
    rw [substAll, subst_none e, substAll_none es]

end

/-- The variables of an expression have a property. -/
def VariablesIn (P : String → Prop) (e : Expr) : Prop :=
  e.Everywhere fun e => ∀ s name, e = .var s name → P name

/-! ### Simulation -/

/-- Calls from one scope and calls from another one have the same results, up to spans. -/
structure CallsAgree (run run' : BodyRule) (scope scope' : Scope) : Prop where
  inClause : scope.inClause = scope'.inClause
  function? (name : String) :
    (scope.function? name).map Function.erase = (scope'.function? name).map Function.erase
  run {name name' : String} {parameters : List String} {body body' : Expr}
    {values values' : List Expr} :
    scope.function? name = some (.script name' parameters body) →
    scope'.function? name = some (.script name' parameters body') →
    values.length = parameters.length → values.map erase = values'.map erase →
      (run scope (parameters.zip values) body).upTo erase =
        (run' scope' (parameters.zip values') body').upTo erase

/-- Two expressions have the same value up to spans, each in its scope, or they fail for one cause.
-/
def HaveOneValue (run run' : BodyRule) (scope scope' : Scope) (e e' : Expr) : Prop :=
  (evaluateWith run scope e).upTo erase = (evaluateWith run' scope' e').upTo erase

/-- A variable has the value of what a substitution puts in its place, up to spans. -/
def IsRealized (run run' : BodyRule) (scope scope' : Scope) (σ : String → Option Expr)
    (name : String) : Prop :=
  ∀ s, HaveOneValue run run' scope scope' (.var s name) ((Expr.var s name).subst σ).erase

section

variable {run run' : BodyRule} {scope scope' : Scope}

/-- Whether a call has enough arguments depends on their number only. -/
theorem requireArity_of_length_eq (name : String) (parameters : List String) {es es' : List Expr}
    (h : es.length = es'.length) :
    requireArity name parameters es = requireArity name parameters es' := by
  rw [requireArity, requireArity, h]

/-- What needs a trigger clause is allowed in both scopes or refused in both. -/
theorem upTo_requireClause (h : scope.inClause = scope'.inClause) (name : String) :
    (scope.requireClause name).upTo id = (scope'.requireClause name).upTo id := by
  rw [Scope.requireClause, Scope.requireClause, h]

/-- Lists of expressions have the same values in both scopes when their members have. -/
theorem upTo_evaluateAllWith {es es' : List Expr}
    (h : List.Forall₂ (HaveOneValue run run' scope scope') es es') :
    (evaluateAllWith run scope es).upTo (List.map erase) =
      (evaluateAllWith run' scope' es').upTo (List.map erase) := by
  induction h with
  | nil => rw [evaluateAllWith, evaluateAllWith]
  | cons he _ ih =>
    rw [evaluateAllWith, evaluateAllWith]
    refine Outcome.upTo_bind_congr he fun v v' hv => ?_
    refine Outcome.upTo_bind_congr ih fun vs vs' hvs => ?_
    rw [Outcome.upTo_pure, Outcome.upTo_pure, List.map_cons, List.map_cons, hv, hvs]

/-- A deferred call is refused, evaluates its condition and keeps it alike in both scopes. -/
private theorem upTo_deferred (hclause : scope.inClause = scope'.inClause) (name : String)
    {e e' : Expr} (h : HaveOneValue run run' scope scope' e e') :
    Outcome.upTo erase (do
      scope.requireClause name
      let value ← evaluateWith run scope e
      pure (.call .unknown name [value])) =
    Outcome.upTo erase (do
      scope'.requireClause name
      let value ← evaluateWith run' scope' e'
      pure (.call .unknown name [value])) := by
  refine Outcome.upTo_bind_congr (upTo_requireClause hclause name) fun _ _ _ => ?_
  refine Outcome.upTo_bind_congr h fun v v' hv => ?_
  simp [erase, hv]

/-- A built-in function has the same value in both scopes when its arguments have. -/
theorem upTo_applyBuiltinWith (hclause : scope.inClause = scope'.inClause) (name : String)
    (b : Builtin) {es es' : List Expr}
    (h : List.Forall₂ (HaveOneValue run run' scope scope') es es') :
    (applyBuiltinWith run scope name b es).upTo erase =
      (applyBuiltinWith run' scope' name b es').upTo erase := by
  have hrequire := upTo_requireClause hclause name
  cases b with
  | read size =>
    cases h with
    | nil => rfl
    | cons haddress _ =>
      rw [applyBuiltinWith, applyBuiltinWith]
      refine Outcome.upTo_bind_congr haddress fun a a' ha => ?_
      refine Outcome.upTo_bind_congr (upTo_atAddress_congr ha size) fun m m' hm => ?_
      obtain rfl : m = m' := hm
      rfl
  | always b => rw [applyBuiltinWith, applyBuiltinWith]
  | repeated =>
    rcases h with _ | ⟨hcount, _ | ⟨hcondition, _⟩⟩
    · rw [applyBuiltinWith, applyBuiltinWith]
      exact Outcome.upTo_bind_congr hrequire fun _ _ _ => rfl
    · rw [applyBuiltinWith, applyBuiltinWith]
      refine Outcome.upTo_bind_congr hrequire fun _ _ _ => ?_
      refine Outcome.upTo_bind_congr hcount fun n n' hn => ?_
      exact Outcome.upTo_bind_congr (upTo_repeatCount_congr hn) fun _ _ _ => rfl
    · rw [applyBuiltinWith, applyBuiltinWith]
      refine Outcome.upTo_bind_congr hrequire fun _ _ _ => ?_
      refine Outcome.upTo_bind_congr hcount fun n n' hn => ?_
      refine Outcome.upTo_bind_congr (upTo_repeatCount_congr hn) fun hits hits' hhits => ?_
      refine Outcome.upTo_bind_congr hcondition fun v v' hv => ?_
      obtain rfl : hits = hits' := hhits
      simp [erase, hv]
  | once =>
    cases h with
    | nil =>
      rw [applyBuiltinWith, applyBuiltinWith]
      exact Outcome.upTo_bind_congr hrequire fun _ _ _ => rfl
    | cons hcondition _ =>
      rw [applyBuiltinWith, applyBuiltinWith]
      exact upTo_deferred hclause name hcondition
  | guard g =>
    cases h with
    | nil =>
      rw [applyBuiltinWith, applyBuiltinWith]
      exact Outcome.upTo_bind_congr hrequire fun _ _ _ => rfl
    | cons hcondition _ =>
      rw [applyBuiltinWith, applyBuiltinWith]
      exact upTo_deferred hclause name hcondition

/-- A call has the same value in both scopes when its arguments have. -/
theorem HaveOneValue.call (hcalls : CallsAgree run run' scope scope') (s s' : Span)
    (name : String) {es es' : List Expr}
    (h : List.Forall₂ (HaveOneValue run run' scope scope') es es') :
    HaveOneValue run run' scope scope' (.call s name es) (.call s' name es') := by
  rw [HaveOneValue, evaluateWith, evaluateWith, Outcome.upTo_within, Outcome.upTo_within]
  have hfunction := hcalls.function? name
  cases hf : scope.function? name with
  | none =>
    rw [hf, Option.map_none, eq_comm, Option.map_eq_none_iff] at hfunction
    rw [hfunction]
  | some g =>
    rw [hf, eq_comm] at hfunction
    obtain ⟨g', hf', hg⟩ := Option.map_eq_some_iff.1 hfunction
    rw [hf']
    have hparameters : g'.parameters = g.parameters := by
      rw [← Function.parameters_erase, hg, Function.parameters_erase]
    have harity : (requireArity name g.parameters es).upTo id =
        (requireArity name g'.parameters es').upTo id := by
      rw [hparameters, requireArity_of_length_eq name g.parameters h.length_eq]
    refine Outcome.upTo_bind_congr_of_eq_ok harity fun _ _ hgiven _ _ => ?_
    cases g with
    | builtin b =>
      obtain rfl := Function.erase_eq_builtin_iff.1 hg
      have hvalue := upTo_applyBuiltinWith hcalls.inClause name b h
      refine Outcome.upTo_bind_congr hvalue fun v v' hv => ?_
      rw [Outcome.upTo_pure, Outcome.upTo_pure, erase_moveIfUnknown, erase_moveIfUnknown, hv]
    | script name' parameters body =>
      obtain ⟨body', rfl, -⟩ := Function.erase_eq_script_iff.1 hg
      refine Outcome.upTo_bind_congr_of_eq_ok (upTo_evaluateAllWith h)
        fun vs vs' hvs _ herase => ?_
      -- With fewer values than parameters, a parameter could mean a variable of the caller.
      have hlength : vs.length = parameters.length :=
        (evaluateAllWith_eq_ok_iff.1 hvs).length_eq.symm.trans (requireArity_eq_ok_iff.1 hgiven)
      rw [callScript, callScript, bind_assoc, bind_assoc]
      refine Outcome.upTo_bind_congr (hcalls.run hf hf' hlength herase) fun v v' hv => ?_
      rw [pure_bind, pure_bind, Outcome.upTo_pure, Outcome.upTo_pure, erase_moveIfUnknown,
        erase_moveIfUnknown, ← erase_unwrapReturned, hv, erase_unwrapReturned]

/-- A node has the same value in both scopes when its children have, wherever it was read. -/
theorem HaveOneValue.withChildren (hcalls : CallsAgree run run' scope scope') (s : Span)
    {e : Expr} {cs : List Expr} (hvariable : ∀ s name, e ≠ .var s name)
    (h : List.Forall₂ (HaveOneValue run run' scope scope') e.children cs) :
    HaveOneValue run run' scope scope' e ((e.withChildren cs).moveTo s) := by
  cases e with
  -- Nodes without operands are the same on both sides.  At every other node the operands are
  -- evaluated in turn, and what is made of them ignores their spans.
  | var s' name => exact absurd rfl (hvariable s' name)
  | literal s' v => rfl
  | read s' m => rfl
  | modified s' m => rfl
  | sum s' v => rfl
  | always s' b => rfl
  | error s' text => rfl
  | arith s' op left right =>
    obtain _ | ⟨hleft, _ | ⟨hright, ⟨⟩⟩⟩ := h
    rw [Expr.withChildren, moveTo, HaveOneValue, evaluateWith, evaluateWith, Outcome.upTo_within,
      Outcome.upTo_within]
    refine Outcome.upTo_bind_congr hleft fun l l' hl => ?_
    refine Outcome.upTo_bind_congr hright fun r r' hr => ?_
    exact upTo_combine_congr hl hr s' s op
  | compare s' relation left right =>
    obtain _ | ⟨hleft, _ | ⟨hright, ⟨⟩⟩⟩ := h
    rw [Expr.withChildren, moveTo, HaveOneValue, evaluateWith, evaluateWith, Outcome.upTo_within,
      Outcome.upTo_within]
    refine Outcome.upTo_bind_congr hleft fun l l' hl => ?_
    refine Outcome.upTo_bind_congr hright fun r r' hr => ?_
    rw [Outcome.upTo_pure, Outcome.upTo_pure, erase_normalize hl hr]
  | negate s' es =>
    obtain _ | ⟨he, _ | ⟨_, _⟩⟩ := show List.Forall₂ _ es cs from h
    · rfl
    · rw [Expr.withChildren, moveTo, HaveOneValue, evaluateWith, evaluateWith, Outcome.upTo_within,
        Outcome.upTo_within]
      refine Outcome.upTo_bind_congr he fun v v' hv => ?_
      refine Outcome.upTo_bind_congr (upTo_negated_congr hv) fun n n' hn => ?_
      rw [Outcome.upTo_pure, Outcome.upTo_pure, erase_moveTo, erase_moveTo, hn]
    · rfl
  | join s' c es =>
    rw [Expr.withChildren, moveTo, HaveOneValue, evaluateWith, evaluateWith, Outcome.upTo_within,
      Outcome.upTo_within]
    refine Outcome.upTo_bind_congr (upTo_evaluateAllWith h) fun vs vs' hvs => ?_
    rw [Outcome.upTo_pure, Outcome.upTo_pure, erase_moveTo, erase_moveTo, erase_joinAll_congr c hvs]
  | returned s' e =>
    obtain _ | ⟨he, ⟨⟩⟩ := h
    rw [Expr.withChildren, moveTo, HaveOneValue, evaluateWith, evaluateWith, Outcome.upTo_within,
      Outcome.upTo_within]
    refine Outcome.upTo_bind_congr he fun v v' hv => ?_
    rw [Outcome.upTo_pure, Outcome.upTo_pure, returning, returning, erase, erase, hv]
  | call s' name es => exact .call hcalls s' s name h

/-- A substitution without spans puts other children under every node that is no variable. -/
theorem erase_subst_eq {σ : String → Option Expr} {e : Expr} (he : ∀ s name, e ≠ .var s name) :
    (e.subst σ).erase =
      (e.withChildren (e.children.map fun c => (c.subst σ).erase)).moveTo .unknown := by
  cases e with
  | var s name => exact absurd rfl (he s name)
  | join s c es | negate s es | call s name es =>
    rw [subst, erase, substAll_eq_map, eraseAll_eq_map, List.map_map]
    rfl
  | _ => rfl

/-- What a substitution realizes has the value of the variables, up to spans. -/
theorem upTo_evaluateWith_subst (hcalls : CallsAgree run run' scope scope')
    {σ : String → Option Expr} {e : Expr}
    (he : e.VariablesIn (IsRealized run run' scope scope' σ)) :
    (evaluateWith run scope e).upTo erase =
      (evaluateWith run' scope' (e.subst σ).erase).upTo erase := by
  induction he with
  | @intro e hnode _ ih =>
    by_cases hvariable : ∃ s name, e = .var s name
    · obtain ⟨s, name, rfl⟩ := hvariable
      exact hnode s name rfl s
    · rw [not_exists] at hvariable
      have he : ∀ s name, e ≠ .var s name := fun s name h => hvariable s ⟨name, h⟩
      rw [erase_subst_eq he]
      exact HaveOneValue.withChildren hcalls .unknown he
        (List.forall₂_map_right_iff.2 (List.forall₂_same.2 ih))

end

end Expr

/-! ### Variables of calls -/

/-- A variable has the same value in two scopes, up to spans. -/
def Scope.AgreesAt (scope scope' : Scope) (name : String) : Prop :=
  (scope.lookup? name).map Expr.erase = (scope'.lookup? name).map Expr.erase

/-- A binding whose value is changed is found under the same name. -/
theorem lookup_map_snd (f : Expr → Expr) (values : List (String × Expr)) (name : String) :
    (values.map (Prod.map id f)).lookup name = (values.lookup name).map f := by
  induction values with
  | nil => rfl
  | cons b values ih =>
    rw [List.map_cons, List.lookup_cons, List.lookup_cons, ih]
    cases h : name == b.1 <;> simp [h]

/-- The values of parameters agree, whatever the callers agree on. -/
theorem Scope.agreesAt_inCall {scope scope' : Scope} {parameters : List String}
    {values values' : List Expr} {name : String} (hlength : values.length = parameters.length)
    (hvalues : values.map Expr.erase = values'.map Expr.erase)
    (h : name ∈ parameters ∨ scope.AgreesAt scope' name) :
    (scope.inCall (parameters.zip values)).AgreesAt (scope'.inCall (parameters.zip values'))
      name := by
  have hbound (values : List Expr) :
      ((parameters.zip values).reverse.lookup name).map Expr.erase =
        (parameters.zip (values.map Expr.erase)).reverse.lookup name := by
    rw [List.zip_map_right, ← List.map_reverse, lookup_map_snd]
  rw [AgreesAt, lookup?_inCall_eq, lookup?_inCall_eq, Option.map_or, Option.map_or, hbound, hbound,
    ← hvalues]
  obtain hname | h := h
  · have hfst : (parameters.zip (values.map Expr.erase)).map Prod.fst = parameters :=
      List.map_fst_zip (by rw [List.length_map, hlength])
    have hsome : ((parameters.zip (values.map Expr.erase)).reverse.lookup name).isSome = true := by
      rw [← hfst] at hname
      obtain ⟨b, hb, rfl⟩ := List.mem_map.1 hname
      exact List.lookup_isSome_iff.2 ⟨b, List.mem_reverse.2 hb, beq_self_eq_true _⟩
    rw [Option.or_of_isSome hsome, Option.or_of_isSome hsome]
  · rw [h]

/-! ### Evaluation in scopes that agree -/

/-- Two scopes agree when they have the same functions up to spans, under one limit of calls and
within the same trigger clauses, and when they agree on the variables of every body that are not its
parameters. -/
structure Scope.Agrees (scope scope' : Scope) : Prop where
  limit : scope.settings.callDepthLimit = scope'.settings.callDepthLimit
  inClause : scope.inClause = scope'.inClause
  function? (name : String) :
    (scope.function? name).map Function.erase = (scope'.function? name).map Function.erase
  body {name name' : String} {parameters : List String} {body : Expr} :
    scope.function? name = some (.script name' parameters body) →
      body.VariablesIn fun x => x ∈ parameters ∨ scope.AgreesAt scope' x

namespace Expr

variable {run run' : BodyRule} {scope scope' : Scope}

/-- What follows for every name follows for the variables of an expression. -/
theorem VariablesIn.imp {P Q : String → Prop} {e : Expr} (h : e.VariablesIn P)
    (hPQ : ∀ name, P name → Q name) : e.VariablesIn Q :=
  Everywhere.imp (fun _ he s name hname => hPQ name (he s name hname)) h

/-- What holds of every name holds of the variables of an expression. -/
theorem variablesIn_of_forall {P : String → Prop} (h : ∀ name, P name) (e : Expr) :
    e.VariablesIn P :=
  everywhere_of_forall (fun _ _ name _ => h name) e

/-- A variable has the value that is looked up, and it fails by its name if there is none. -/
theorem upTo_evaluateWith_var (s : Span) (name : String) :
    (evaluateWith run scope (.var s name)).upTo erase =
      ((scope.lookup? name).map erase).elim (.error (.unknownVariable name)) .ok := by
  rw [evaluateWith]
  cases scope.lookup? name with
  | none => rfl
  | some v => rfl

/-- A variable on which two scopes agree needs no substitution. -/
theorem isRealized_none {name : String} (h : scope.AgreesAt scope' name) :
    IsRealized run run' scope scope' (fun _ => none) name := by
  intro s
  rw [HaveOneValue, subst, Option.getD_none, erase, upTo_evaluateWith_var, upTo_evaluateWith_var, h]

/-- Without a substitution, expressions with one erasure have the same value, up to spans. -/
theorem upTo_evaluateWith_congr (hcalls : CallsAgree run run' scope scope')
    (hcalls' : CallsAgree run' run' scope' scope') {e e' : Expr}
    (he : e.VariablesIn (scope.AgreesAt scope')) (herase : e.erase = e'.erase) :
    (evaluateWith run scope e).upTo erase = (evaluateWith run' scope' e').upTo erase := by
  have hleft := upTo_evaluateWith_subst hcalls (he.imp fun _ => isRealized_none)
  have hright := upTo_evaluateWith_subst hcalls'
    (variablesIn_of_forall (fun _ => isRealized_none rfl) e')
  rw [subst_none] at hleft hright
  rw [hleft, herase, hright]

end Expr

namespace Scope.Agrees

variable {scope scope' : Scope}

/-- Every scope agrees with itself. -/
theorem refl (scope : Scope) : scope.Agrees scope :=
  ⟨rfl, rfl, fun _ => rfl, fun _ => Expr.variablesIn_of_forall (fun _ => .inr rfl) _⟩

/-- Scopes that agree do so in the bodies of calls with the same values up to spans. -/
theorem inCall (h : scope.Agrees scope') {parameters : List String} {values values' : List Expr}
    (hlength : values.length = parameters.length)
    (hvalues : values.map Expr.erase = values'.map Expr.erase) :
    (scope.inCall (parameters.zip values)).Agrees (scope'.inCall (parameters.zip values')) := by
  refine ⟨h.limit, ?_, fun name => ?_, fun hname => ?_⟩
  · rw [inClause_inCall, inClause_inCall, h.inClause]
  · rw [function?_inCall, function?_inCall, h.function?]
  · rw [function?_inCall] at hname
    refine (h.body hname).imp fun x hx => ?_
    exact hx.imp_right fun hx => agreesAt_inCall hlength hvalues (.inr hx)

/-- Bodies run alike from scopes that agree, with any number of calls left. -/
theorem callsAgree (h : scope.Agrees scope') (n : Nat) :
    Expr.CallsAgree (Expr.runBody n) (Expr.runBody n) scope scope' := by
  induction n generalizing scope scope' with
  | zero =>
    refine ⟨h.inClause, h.function?, fun _ _ _ _ => ?_⟩
    rw [Expr.runBody, Outcome.upTo_fail, Outcome.upTo_fail, h.limit]
  | succ n ih =>
    refine ⟨h.inClause, h.function?, ?_⟩
    intro name name' parameters body body' values values' hname hname' hlength hvalues
    have hbody := h.function? name
    rw [hname, hname', Option.map_some, Option.map_some, Option.some_inj, Function.erase,
      Function.erase, Function.script.injEq] at hbody
    exact Expr.upTo_evaluateWith_congr (ih (h.inCall hlength hvalues)) (ih (refl _))
      ((h.body hname).imp fun _ => agreesAt_inCall hlength hvalues) hbody.2.2

end Scope.Agrees

end TriggerLang
