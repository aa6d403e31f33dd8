import Mathlib.Logic.Relation
import TriggerLang.Proofs.Evaluation.Invariant
/-!
# Evaluation terminates

The evaluation of an expression starts other evaluations: those of its operands and arguments, in
the same scope, and that of the body of a script function, in the scope of the call.  A body may be
larger than the call and may call the function again, and arguments are evaluated before the depth
of calls is checked.  Still no evaluation starts others without end (`wellFounded_starts`): a body
uses up one of the calls that may still be nested, and an operand is smaller.

Evaluation is strict, so that whatever a successful evaluation starts succeeds
(`Task.Succeeds.of_starts`).  A function that calls itself, directly or through others, would start
the evaluation of its own call again and again, and therefore never has a value.
-/

namespace TriggerLang

/-! ### Calls -/

namespace Scope

/-- A call is entered exactly where its depth is within the limit, in the scope of its body. -/
theorem enterCall_eq_ok_iff {scope inner : Scope} {values : List (String × Expr)} :
    scope.enterCall values = .ok inner ↔
      scope.depth < scope.settings.callDepthLimit ∧ inner = scope.inCall values := by
  unfold enterCall
  split
  · rename_i hdepth
    rw [Except.ok.injEq, eq_comm]
    exact ⟨fun h => ⟨hdepth, h⟩, fun h => h.2⟩
  · rename_i hdepth
    exact ⟨fun h => absurd h Outcome.fail_ne_ok, fun h => absurd h.1 hdepth⟩

/-- A call is bound when its arguments are as many as its parameters, when they have values, and
when it may be entered. -/
theorem bindCall_eq_ok_iff {scope inner : Scope} {name : String} {parameters : List String}
    {arguments : List Expr} :
    scope.bindCall name parameters arguments = .ok inner ↔
      arguments.length = parameters.length ∧
        ∃ values, Expr.evaluateAll scope arguments = .ok values ∧
          scope.enterCall (parameters.zip values) = .ok inner := by
  rw [bindCall, Outcome.bind_eq_ok_iff]
  constructor
  · rintro ⟨⟨⟩, harity, h⟩
    exact ⟨Expr.requireArity_eq_ok_iff.1 harity, Outcome.bind_eq_ok_iff.1 h⟩
  · rintro ⟨harity, h⟩
    exact ⟨(), Expr.requireArity_eq_ok_iff.2 harity, Outcome.bind_eq_ok_iff.2 h⟩

/-- The scope of a body: one call deeper, within the limit, with the names of the caller. -/
theorem of_bindCall {scope inner : Scope} {name : String} {parameters : List String}
    {arguments : List Expr} (h : scope.bindCall name parameters arguments = .ok inner) :
    inner.names = scope.names ∧ inner.settings = scope.settings ∧
      inner.depth = scope.depth + 1 ∧ scope.depth < scope.settings.callDepthLimit := by
  obtain ⟨-, values, -, henter⟩ := bindCall_eq_ok_iff.1 h
  obtain ⟨hdepth, rfl⟩ := enterCall_eq_ok_iff.1 henter
  exact ⟨scope.names_inCall _, rfl, scope.depth_inCall _, hdepth⟩

end Scope

namespace Expr

/-- A call of a script function evaluates the body in the scope of the call. -/
theorem evaluate_call_of_script {scope : Scope} {s : Span} {name name' : String}
    {parameters : List String} {body : Expr} {arguments : List Expr}
    (hname : scope.function? name = some (.script name' parameters body)) :
    evaluate scope (.call s name arguments) = Outcome.within s (do
      let inner ← scope.bindCall name parameters arguments
      let value ← evaluate inner body
      pure (value.unwrapReturned.moveIfUnknown s)) := by
  rw [evaluate, evaluateWith, hname, Scope.bindCall]
  simp only [callScript, runBody_remainingCalls, bind_assoc, pure_bind]
  rfl

end Expr

/-! ### The recursion equation -/

namespace Expr

/-- The recursion equation of evaluation: bodies are evaluated by the same function, in the scope of
their call, and nothing but that scope refuses a call. -/
def IsEvaluator (eval : Scope → Expr → Outcome Expr) : Prop :=
  ∀ scope e, eval scope e = evaluateWith
    (fun scope values body => scope.enterCall values >>= fun inner => eval inner body) scope e

section

variable {run run' : BodyRule} {scope : Scope}

/-- Lists of expressions are evaluated alike when their members are. -/
theorem evaluateAllWith_congr {es : List Expr}
    (h : ∀ e ∈ es, evaluateWith run scope e = evaluateWith run' scope e) :
    evaluateAllWith run scope es = evaluateAllWith run' scope es := by
  induction es with
  | nil => rw [evaluateAllWith, evaluateAllWith]
  | cons e es ih =>
    obtain ⟨he, hes⟩ := List.forall_mem_cons.1 h
    rw [evaluateAllWith, evaluateAllWith, he, ih hes]

/-- Built-in functions are applied alike when their arguments are evaluated alike. -/
theorem applyBuiltinWith_congr {name : String} {b : Builtin} {arguments : List Expr}
    (h : ∀ e ∈ arguments, evaluateWith run scope e = evaluateWith run' scope e) :
    applyBuiltinWith run scope name b arguments = applyBuiltinWith run' scope name b arguments := by
  rcases arguments with _ | ⟨first, _ | ⟨second, rest⟩⟩
  · cases b <;> rw [applyBuiltinWith, applyBuiltinWith]
  · have hfirst := h first List.mem_cons_self
    cases b <;> simp only [applyBuiltinWith, hfirst]
  · have hfirst := h first List.mem_cons_self
    have hsecond := h second (List.mem_cons_of_mem _ List.mem_cons_self)
    cases b <;> simp only [applyBuiltinWith, hfirst, hsecond]

/-- Evaluation asks for bodies from its own scope only. -/
theorem evaluateWith_congr (h : ∀ values body, run scope values body = run' scope values body)
    (e : Expr) : evaluateWith run scope e = evaluateWith run' scope e := by
  have he : e.Everywhere fun _ => True := everywhere_of_forall (fun _ => trivial) e
  induction he with
  | @intro e _ _ ih =>
    cases e with
    | arith s op left right =>
      have hleft := ih left List.mem_cons_self
      have hright := ih right (List.mem_cons_of_mem _ List.mem_cons_self)
      rw [evaluateWith, evaluateWith, hleft, hright]
    | compare s relation left right =>
      have hleft := ih left List.mem_cons_self
      have hright := ih right (List.mem_cons_of_mem _ List.mem_cons_self)
      rw [evaluateWith, evaluateWith, hleft, hright]
    | negate s es =>
      rcases es with _ | ⟨e, _ | ⟨e', es⟩⟩
      · rfl
      · have he := ih e List.mem_cons_self
        rw [evaluateWith, evaluateWith, he]
      · rfl
    | join s c es =>
      have hes : evaluateAllWith run scope es = evaluateAllWith run' scope es :=
        evaluateAllWith_congr ih
      rw [evaluateWith, evaluateWith, hes]
    | returned s e =>
      have he := ih e List.mem_cons_self
      rw [evaluateWith, evaluateWith, he]
    | call s name arguments =>
      have harguments :
          evaluateAllWith run scope arguments = evaluateAllWith run' scope arguments :=
        evaluateAllWith_congr ih
      have hbuiltin (b : Builtin) : applyBuiltinWith run scope name b arguments =
          applyBuiltinWith run' scope name b arguments := applyBuiltinWith_congr ih
      rw [evaluateWith, evaluateWith]
      cases scope.function? name with
      | none => rfl
      | some f =>
        cases f with
        | builtin b => simp only [hbuiltin]
        | script name' parameters body => simp only [harguments, callScript, h]
    | _ => rw [evaluateWith, evaluateWith]

end

/-- Evaluation is the only solution of its recursion equation. -/
theorem isEvaluator_iff {eval : Scope → Expr → Outcome Expr} :
    IsEvaluator eval ↔ eval = evaluate := by
  constructor
  · intro heval
    have hall : ∀ n scope, scope.remainingCalls = n → ∀ e, eval scope e = evaluate scope e := by
      intro n
      induction n using Nat.strongRecOn with
      | ind n ih =>
        intro scope hn e
        rw [heval, evaluate]
        refine evaluateWith_congr (fun values body => ?_) e
        rw [runBody_remainingCalls]
        cases henter : scope.enterCall values with
        | error d => rfl
        | ok inner =>
          -- A call that is entered uses up one of the calls that are left.
          obtain ⟨hdepth, rfl⟩ := Scope.enterCall_eq_ok_iff.1 henter
          refine ih _ ?_ _ rfl body
          rw [Scope.remainingCalls_inCall, hn]
          unfold Scope.remainingCalls at hn
          omega
    exact funext fun scope => funext fun e => hall _ scope rfl e
  · rintro rfl scope e
    rw [evaluate]
    exact evaluateWith_congr (fun values body => runBody_remainingCalls scope values body) e

end Expr

/-! ### Evaluations and those that they start -/

/-- An evaluation: of an expression in a scope. -/
structure Task where
  scope : Scope
  expr : Expr

namespace Task

/-- The call of a script function evaluates its body in the scope of the call. -/
inductive RunsBody : Task → Task → Prop
  | intro {scope inner : Scope} {s : Span} {name name' : String} {parameters : List String}
      {body : Expr} {arguments : List Expr}
      (hname : scope.function? name = some (.script name' parameters body))
      (hinner : scope.bindCall name parameters arguments = .ok inner) :
      RunsBody ⟨scope, .call s name arguments⟩ ⟨inner, body⟩

/-- The evaluations that an evaluation may start: those of operands and arguments, unless an earlier
one fails, and that of a body. -/
inductive Starts : Task → Task → Prop
  | operand {scope : Scope} {e c : Expr} (hc : c ∈ e.children) : Starts ⟨scope, e⟩ ⟨scope, c⟩
  | body {t t' : Task} (h : RunsBody t t') : Starts t t'

/-- A body is evaluated with fewer calls left, by the same names. -/
theorem RunsBody.scope {t t' : Task} (h : t.RunsBody t') :
    t'.scope.names = t.scope.names ∧ t'.scope.settings = t.scope.settings ∧
      t'.scope.depth = t.scope.depth + 1 ∧ t.scope.depth < t.scope.settings.callDepthLimit := by
  obtain ⟨-, hinner⟩ := h
  exact Scope.of_bindCall hinner

/-- A body has fewer calls left than its caller. -/
theorem RunsBody.remainingCalls_lt {t t' : Task} (h : t.RunsBody t') :
    t'.scope.remainingCalls < t.scope.remainingCalls := by
  obtain ⟨-, hsettings, hdepth, hlimit⟩ := h.scope
  unfold Scope.remainingCalls
  rw [hsettings, hdepth]
  omega

/-- An evaluation starts others under its own settings. -/
theorem Starts.settings_eq {t t' : Task} (h : t.Starts t') :
    t'.scope.settings = t.scope.settings := by
  cases h with
  | operand => rfl
  | body h => exact h.scope.2.1

/-- No evaluation starts others without end.  The recursion is on the number of calls that are left
and below it on the expression. -/
theorem wellFounded_starts : WellFounded fun t' t => Starts t t' := by
  have hall : ∀ n scope, scope.remainingCalls = n →
      ∀ e, Acc (fun t' t => Starts t t') ⟨scope, e⟩ := by
    intro n
    induction n using Nat.strongRecOn with
    | ind n ih =>
      intro scope hn e
      have he : e.Everywhere fun _ => True := Expr.everywhere_of_forall (fun _ => trivial) e
      induction he with
      | @intro e _ _ ihe =>
        refine ⟨_, fun t' hstarts => ?_⟩
        cases hstarts with
        | operand hc => exact ihe _ hc
        | body hbody => exact ih _ (hn ▸ hbody.remainingCalls_lt) _ rfl _
  exact ⟨fun t => hall _ t.scope rfl t.expr⟩

/-- All evaluations that are started in turn are under the same settings. -/
theorem settings_eq_of_reaches {t t' : Task} (h : Relation.ReflTransGen Starts t t') :
    t'.scope.settings = t.scope.settings := by
  induction h with
  | refl => rfl
  | tail _ hlast ih => rw [hlast.settings_eq, ih]

/-- No body is evaluated deeper than the limit allows. -/
theorem depth_le_of_runsBody {t t' t'' : Task} (h : Relation.ReflTransGen Starts t t')
    (hbody : t'.RunsBody t'') : t''.scope.depth ≤ t.scope.settings.callDepthLimit := by
  obtain ⟨-, -, hdepth, hlimit⟩ := hbody.scope
  rw [hdepth, ← settings_eq_of_reaches h]
  exact hlimit

/-! ### Strictness -/

/-- The evaluation ends with a value. -/
def Succeeds (t : Task) : Prop :=
  ∃ v, Expr.evaluate t.scope t.expr = .ok v

end Task

namespace Expr

variable {run : BodyRule} {scope : Scope}

/-- A built-in function that has a value has evaluated each of its arguments. -/
theorem BuiltinValue.exists_of_mem {name : String} {b : Builtin} {arguments : List Expr} {v : Expr}
    (h : BuiltinValue run scope name b arguments v)
    (harity : arguments.length = b.parameters.length) :
    ∀ c ∈ arguments, ∃ w, evaluateWith run scope c = .ok w := by
  cases h with
  | @read size address a rest m haddress hread =>
    obtain rfl : rest = [] := List.length_eq_zero_iff.1 (Nat.succ_inj.1 harity)
    exact List.forall_mem_singleton.2 ⟨a, haddress⟩
  | always b =>
    rw [List.length_eq_zero_iff.1 harity]
    exact List.forall_mem_nil _
  | @repeated count n condition value rest hits hclause hcount hhits hvalue =>
    obtain rfl : rest = [] :=
      List.length_eq_zero_iff.1 (Nat.succ_inj.1 (Nat.succ_inj.1 harity))
    exact List.forall_mem_cons.2 ⟨⟨n, hcount⟩, List.forall_mem_singleton.2 ⟨value, hvalue⟩⟩
  | @once condition value rest hclause hvalue =>
    obtain rfl : rest = [] := List.length_eq_zero_iff.1 (Nat.succ_inj.1 harity)
    exact List.forall_mem_singleton.2 ⟨value, hvalue⟩
  | @guard g condition value rest hclause hvalue =>
    obtain rfl : rest = [] := List.length_eq_zero_iff.1 (Nat.succ_inj.1 harity)
    exact List.forall_mem_singleton.2 ⟨value, hvalue⟩

/-- All operands and arguments of an expression with a value have values. -/
theorem exists_evaluateWith_of_mem_children {e v c : Expr} (h : evaluateWith run scope e = .ok v)
    (hc : c ∈ e.children) : ∃ w, evaluateWith run scope c = .ok w := by
  cases e with
  | arith s op left right =>
    obtain ⟨l, r, hl, hr, -⟩ := evaluateWith_arith_eq_ok_iff.1 h
    obtain rfl | hc := List.mem_cons.1 hc
    · exact ⟨l, hl⟩
    · rw [List.mem_singleton.1 hc]
      exact ⟨r, hr⟩
  | compare s relation left right =>
    obtain ⟨l, r, hl, hr, -⟩ := evaluateWith_compare_eq_ok_iff.1 h
    obtain rfl | hc := List.mem_cons.1 hc
    · exact ⟨l, hl⟩
    · rw [List.mem_singleton.1 hc]
      exact ⟨r, hr⟩
  | negate s es =>
    obtain ⟨e, l, n, rfl, hl, -⟩ := evaluateWith_negate_eq_ok_iff.1 h
    rw [List.mem_singleton.1 hc]
    exact ⟨l, hl⟩
  | join s connective es =>
    obtain ⟨vs, hvs, -⟩ := evaluateWith_join_eq_ok_iff.1 h
    exact exists_of_forall₂ hvs c hc
  | returned s e =>
    obtain ⟨w, hw, -⟩ := evaluateWith_returned_eq_ok_iff.1 h
    rw [List.mem_singleton.1 hc]
    exact ⟨w, hw⟩
  | call s name arguments =>
    obtain ⟨b, value, -, harity, hvalue, -⟩ |
      ⟨name', parameters, body, values, value, -, -, hvalues, -⟩ := evaluateWith_call_eq_ok_iff.1 h
    · exact hvalue.exists_of_mem harity c hc
    · exact exists_of_forall₂ hvalues c hc
  | _ => cases hc

end Expr

namespace Task

/-- Whatever a successful evaluation may start succeeds too. -/
theorem Succeeds.of_starts {t t' : Task} (ht : t.Succeeds) (h : t.Starts t') : t'.Succeeds := by
  obtain ⟨v, hv⟩ := ht
  cases h with
  | operand hc => exact Expr.exists_evaluateWith_of_mem_children hv hc
  | body hbody =>
    obtain ⟨hname, hinner⟩ := hbody
    have hv := (Expr.evaluate_call_of_script hname).symm.trans hv
    rw [Outcome.within_eq_ok_iff] at hv
    obtain ⟨inner, hinner', hv⟩ := Outcome.bind_eq_ok_iff.1 hv
    obtain rfl := Except.ok.inj (hinner.symm.trans hinner')
    obtain ⟨value, hvalue, -⟩ := Outcome.bind_eq_ok_iff.1 hv
    exact ⟨value, hvalue⟩

/-- A successful call of a script function evaluates its body. -/
theorem Succeeds.exists_runsBody {scope : Scope} {s : Span} {name name' : String}
    {parameters : List String} {body : Expr} {arguments : List Expr}
    (h : Succeeds ⟨scope, .call s name arguments⟩)
    (hname : scope.function? name = some (.script name' parameters body)) :
    ∃ inner, RunsBody ⟨scope, .call s name arguments⟩ ⟨inner, body⟩ := by
  obtain ⟨v, hv⟩ := h
  have hv := (Expr.evaluate_call_of_script hname).symm.trans hv
  rw [Outcome.within_eq_ok_iff] at hv
  obtain ⟨inner, hinner, -⟩ := Outcome.bind_eq_ok_iff.1 hv
  exact ⟨inner, hname, hinner⟩

end Task

/-! ### Functions that call themselves -/

/-- The body of a script function contains a call of another function, or of itself. -/
def Scope.Calls (scope : Scope) (caller callee : String) : Prop :=
  ∃ name parameters body, scope.function? caller = some (.script name parameters body) ∧
    ∃ s arguments, Relation.ReflTransGen (fun e c => c ∈ e.children) body (.call s callee arguments)

/-- Which functions call which depends on the names of a scope only. -/
theorem Scope.calls_eq_of_names {scope inner : Scope} (hnames : inner.names = scope.names) :
    inner.Calls = scope.Calls := by
  have hfunction : inner.function? = scope.function? := congrArg Names.function? hnames
  funext caller callee
  unfold Calls
  rw [hfunction]

namespace Task

/-- What is below an expression is evaluated in the same scope. -/
theorem reaches_of_below {scope : Scope} {e c : Expr}
    (h : Relation.ReflTransGen (fun e c => c ∈ e.children) e c) :
    Relation.ReflTransGen Starts ⟨scope, e⟩ ⟨scope, c⟩ := by
  induction h with
  | refl => exact .refl
  | tail _ hc ih => exact ih.tail (.operand hc)

/-- Whatever a successful evaluation starts in turn succeeds too. -/
theorem Succeeds.of_reaches {t t' : Task} (ht : t.Succeeds)
    (h : Relation.ReflTransGen Starts t t') : t'.Succeeds := by
  induction h with
  | refl => exact ht
  | tail _ hlast ih => exact ih.of_starts hlast

/-- A successful call starts, in turn, a call of every function that its body contains a call of. -/
theorem Succeeds.exists_call_of_calls {scope : Scope} {s : Span} {caller callee : String}
    {arguments : List Expr} (h : Succeeds ⟨scope, .call s caller arguments⟩)
    (hcalls : scope.Calls caller callee) :
    ∃ (inner : Scope) (s' : Span) (arguments' : List Expr), inner.names = scope.names ∧
      Relation.TransGen Starts ⟨scope, .call s caller arguments⟩
        ⟨inner, .call s' callee arguments'⟩ := by
  obtain ⟨name, parameters, body, hname, s', arguments', hbelow⟩ := hcalls
  obtain ⟨inner, hbody⟩ := h.exists_runsBody hname
  exact ⟨inner, s', arguments', hbody.scope.1, .head' (.body hbody) (reaches_of_below hbelow)⟩

/-- A successful call leads to a call of every function that its function calls, directly or through
others. -/
theorem Succeeds.exists_call {scope : Scope} {s : Span} {caller callee : String}
    {arguments : List Expr} (h : Succeeds ⟨scope, .call s caller arguments⟩)
    (hcalls : Relation.TransGen scope.Calls caller callee) :
    ∃ (inner : Scope) (s' : Span) (arguments' : List Expr), inner.names = scope.names ∧
      Relation.TransGen Starts ⟨scope, .call s caller arguments⟩
        ⟨inner, .call s' callee arguments'⟩ := by
  induction hcalls with
  | single hcalls => exact h.exists_call_of_calls hcalls
  | tail _ hcalls ih =>
    obtain ⟨inner, s', arguments', hnames, hreaches⟩ := ih
    have hinner := h.of_reaches hreaches.to_reflTransGen
    obtain ⟨inner', s'', arguments'', hnames', hreaches'⟩ :=
      hinner.exists_call_of_calls (Scope.calls_eq_of_names hnames ▸ hcalls)
    exact ⟨inner', s'', arguments'', hnames'.trans hnames, hreaches.trans hreaches'⟩

/-- A function that calls itself, directly or through others, has no value: each of its calls would
lead to another one. -/
theorem not_succeeds_of_recursive {scope : Scope} {s : Span} {name : String}
    {arguments : List Expr} (hcalls : Relation.TransGen scope.Calls name name) :
    ¬ Succeeds ⟨scope, .call s name arguments⟩ := by
  intro h
  generalize ht : (⟨scope, .call s name arguments⟩ : Task) = t at h
  induction t using wellFounded_starts.transGen.induction generalizing scope s arguments with
  | _ t ih =>
    subst ht
    obtain ⟨inner, s', arguments', hnames, hreaches⟩ := h.exists_call hcalls
    have hinner := h.of_reaches hreaches.to_reflTransGen
    have hcalls' : Relation.TransGen inner.Calls name name := by
      rw [Scope.calls_eq_of_names hnames]
      exact hcalls
    exact ih _ (Relation.transGen_swap.2 hreaches) hcalls' rfl hinner

end Task

/-! ### Summary -/

namespace Expr

/-- Evaluation ends for every expression in every scope.

It is the only solution of its recursion equation, in which no bound but the depth of scopes
appears, and no evaluation starts others without end.  No body is evaluated deeper than the limit,
and a function that calls itself, directly or through others, never has a value. -/
theorem evaluation_ends :
    (∀ scope e, (∃ v, evaluate scope e = .ok v) ∨ ∃ d, evaluate scope e = .error d) ∧
    (∀ eval, IsEvaluator eval ↔ eval = evaluate) ∧
    WellFounded (fun t' t => Task.Starts t t') ∧
    (∀ t t' t'' : Task, Relation.ReflTransGen Task.Starts t t' → t'.RunsBody t'' →
      t''.scope.depth ≤ t.scope.settings.callDepthLimit) ∧
    ∀ (scope : Scope) (name : String), Relation.TransGen scope.Calls name name →
      ∀ s arguments v, evaluate scope (.call s name arguments) ≠ .ok v := by
  refine ⟨fun scope e => ?_, fun eval => isEvaluator_iff, Task.wellFounded_starts,
    fun t t' t'' => Task.depth_le_of_runsBody, ?_⟩
  · cases evaluate scope e with
    | ok v => exact .inl ⟨v, rfl⟩
    | error d => exact .inr ⟨d, rfl⟩
  · intro scope name hcalls s arguments v hv
    exact Task.not_succeeds_of_recursive hcalls ⟨v, hv⟩

/-- `ping(x)` returns `pong(x) + 1` and `pong(x)` returns `byte(ping(ping(x)))`, under a limit of
three calls; `ping(5)` enters its body one call deep and never has a value. -/
theorem evaluation_ends_mutual_recursion :
    let x : Expr := .var .unknown "x"
    let call (name : String) (argument : Expr) : Expr := .call .unknown name [argument]
    let pong : Expr := call "byte" (call "ping" (call "ping" x))
    let ping : Expr := .returned .unknown (.arith .unknown .add (call "pong" x) (.int 1))
    let scope := ((Scope.root { callDepthLimit := 3 }).setFunction
      (.script "pong" ["x"] pong)).setFunction (.script "ping" ["x"] ping)
    let inner := scope.inCall [("x", .int 5)]
    Relation.TransGen scope.Calls "ping" "ping" ∧
    Task.RunsBody ⟨scope, call "ping" (.int 5)⟩ ⟨inner, ping⟩ ∧ inner.depth ≤ 3 ∧
    (∀ v, evaluate scope (call "ping" (.int 5)) ≠ .ok v) := by
  intro x call pong ping scope inner
  have hping : scope.function? "ping" = some (.script "ping" ["x"] ping) := rfl
  have hpong : scope.function? "pong" = some (.script "pong" ["x"] pong) := rfl
  have hcalls : Relation.TransGen scope.Calls "ping" "ping" := by
    refine .head ⟨"ping", ["x"], ping, hping, .unknown, [x], ?_⟩
      (.single ⟨"pong", ["x"], pong, hpong, .unknown, [x], ?_⟩)
    · exact .head List.mem_cons_self (.single List.mem_cons_self)
    · exact .head List.mem_cons_self (.single List.mem_cons_self)
  have hbody : Task.RunsBody ⟨scope, call "ping" (.int 5)⟩ ⟨inner, ping⟩ := .intro hping rfl
  obtain ⟨-, -, -, hdepth, hrecursive⟩ := evaluation_ends
  exact ⟨hcalls, hbody, hdepth _ _ _ .refl hbody, hrecursive scope "ping" hcalls _ _⟩

end Expr

end TriggerLang
