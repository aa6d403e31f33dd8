import TriggerLang.Proofs.Evaluation.Substitution
/-!
# Origins of calls

Calls of counting and guarding functions outlive evaluation.  Such a call may have come up far from
where it is met again: in the body of a function that a function calls, or in an expression whose
value was passed on as an argument or set as a variable.  Its *origin* is the evaluation of a call
whose function made it (`Task.Makes`), and the evaluations in which an origin can lie are those
behind a task (`Task.IsBehind`).

Every call in a value has an origin behind the evaluation of the value
(`Expr.everywhere_isMadeBehind`), and a name means the same function there as where it is met again
(`Task.IsBehind.names_eq`): calls of functions add variables to a scope, and no functions.
-/

namespace TriggerLang

open TriggerLang.Expr

namespace Task

/-- The evaluation of a call made a call, by a built-in function. -/
def Makes (t : Task) (b : Builtin) (name : String) (arguments : List Expr) : Prop :=
  ∃ s given, t.expr = .call s name given ∧ t.scope.function? name = some (.builtin b) ∧
    apply t.scope name (.builtin b) given = .ok (.call .unknown name arguments)

/-- An evaluation takes part in another one: it is started by it, or it is part of one that gave a
variable its value, under the same names of functions. -/
inductive IsBehind (t : Task) : Task → Prop
  | self : IsBehind t t
  | starts {u u' : Task} (h : u.Starts u') (hbehind : IsBehind t u') : IsBehind t u
  | variable {u u' : Task} {name : String} {value : Expr}
      (hvalue : u.scope.lookup? name = some value)
      (hevaluate : evaluate u'.scope u'.expr = .ok value)
      (hnames : u'.scope.names = u.scope.names) (hbehind : IsBehind t u') : IsBehind t u

/-- An evaluation starts others under its own names. -/
theorem Starts.names_eq {t t' : Task} (h : t.Starts t') : t'.scope.names = t.scope.names := by
  cases h with
  | operand => rfl
  | body h => exact h.scope.1

/-- A name means one function in all evaluations that take part. -/
theorem IsBehind.names_eq {t u : Task} (h : t.IsBehind u) : t.scope.names = u.scope.names := by
  induction h with
  | self => rfl
  | starts h _ ih => exact ih.trans h.names_eq
  | «variable» _ _ hnames _ ih => exact ih.trans hnames

end Task

namespace Expr

/-- If the node is a call, then an evaluation behind the task made it. -/
def IsMadeBehind (t : Task) (e : Expr) : Prop :=
  ∀ s name arguments, e = .call s name arguments →
    ∃ (t' : Task) (b : Builtin), t'.IsBehind t ∧ t'.Makes b name arguments

variable {t : Task}

/-- What was made behind a task was made behind every task with the same evaluations behind it. -/
theorem IsMadeBehind.mono {u : Task} (htu : ∀ t' : Task, t'.IsBehind t → t'.IsBehind u) {e : Expr}
    (h : e.IsMadeBehind t) : e.IsMadeBehind u := by
  intro s name arguments he
  obtain ⟨t', b, hbehind, hmakes⟩ := h s name arguments he
  exact ⟨t', b, htu t' hbehind, hmakes⟩

/-- Nothing is asked of a node that is no call. -/
theorem isMadeBehind_of_ne_call {e : Expr} (h : ∀ s name arguments, e ≠ .call s name arguments) :
    e.IsMadeBehind t :=
  fun s name arguments he => absurd he (h s name arguments)

/-- No rule but that of calls makes a call.  The names are such that no call is ever deferred. -/
theorem isInvariant_isMadeBehind (t : Task) :
    IsInvariant ⟨fun _ => none, false⟩ (IsMadeBehind t) where
  moveTo s e h := by
    cases e with
    | call s' name arguments =>
      rintro _ _ _ ⟨⟩
      exact h s' name arguments rfl
    | _ => exact isMadeBehind_of_ne_call nofun
  literal _ _ := isMadeBehind_of_ne_call nofun
  always _ _ := isMadeBehind_of_ne_call nofun
  address _ _ := isMadeBehind_of_ne_call nofun
  memory _ _ h := h.induction (fun _ => isMadeBehind_of_ne_call nofun)
    (fun _ _ => isMadeBehind_of_ne_call nofun) (fun _ => isMadeBehind_of_ne_call nofun)
    fun _ => isMadeBehind_of_ne_call nofun
  withoutOffset _ := ReadSum.toExpr_induction _ (fun _ => isMadeBehind_of_ne_call nofun)
    (fun _ => isMadeBehind_of_ne_call nofun) (fun _ => isMadeBehind_of_ne_call nofun)
    fun _ => isMadeBehind_of_ne_call nofun
  arith _ := isMadeBehind_of_ne_call nofun
  compare _ := isMadeBehind_of_ne_call nofun
  negation _ := isMadeBehind_of_ne_call nofun
  join _ _ _ _ _ := isMadeBehind_of_ne_call nofun
  deferred h _ _ := by cases h
  returned _ _ := isMadeBehind_of_ne_call nofun

/-- A value comes out of an evaluation under the names behind which every call in it was made. -/
def HasOrigins (names : Names) (v : Expr) : Prop :=
  ∃ u : Task, u.scope.names = names ∧ evaluate u.scope u.expr = .ok v ∧
    v.Everywhere (IsMadeBehind u)

/-- The variables of the body of a call have origins if those of the caller have, and if the values
of the arguments have. -/
theorem hasOrigins_inCall {scope : Scope} {parameters : List String} {values : List Expr}
    (hvariables : ∀ name value, scope.lookup? name = some value → HasOrigins scope.names value)
    (hvalues : ∀ v ∈ values, HasOrigins scope.names v) :
    ∀ name value, (scope.inCall (parameters.zip values)).lookup? name = some value →
      HasOrigins (scope.inCall (parameters.zip values)).names value := by
  intro name value h
  rw [Scope.names_inCall]
  obtain ⟨b, hb, rfl⟩ | h := Scope.lookup?_inCall h
  · exact hvalues b.2 (List.of_mem_zip hb).2
  · exact hvariables name value h

/-- A call that a built-in function makes is made by its own evaluation, and its arguments are
values of the arguments. -/
theorem BuiltinValue.everywhere_isMadeBehind {scope : Scope} {s : Span} {name : String}
    {b : Builtin} {given : List Expr} {v : Expr} (hname : scope.function? name = some (.builtin b))
    (hgiven : ∀ c ∈ given, ∀ w, evaluate scope c = .ok w →
      w.Everywhere (IsMadeBehind ⟨scope, .call s name given⟩))
    (h : BuiltinValue (runBody scope.remainingCalls) scope name b given v) :
    v.Everywhere (IsMadeBehind ⟨scope, .call s name given⟩) := by
  have hmade {arguments : List Expr} (hv : v = .call .unknown name arguments) :
      v.IsMadeBehind ⟨scope, .call s name given⟩ := by
    rintro s' name' arguments' hcall
    cases hv.symm.trans hcall
    have happly : apply scope name (.builtin b) given = .ok v := h.applyBuiltinWith_eq_ok
    exact ⟨_, b, .self, s, given, rfl, hname, hv ▸ happly⟩
  cases h with
  | read haddress hread => exact .of_leaf rfl (isMadeBehind_of_ne_call nofun)
  | always b => exact .of_leaf rfl (isMadeBehind_of_ne_call nofun)
  | @repeated count n condition value rest hits hclause hcount hhits hvalue =>
    have hv := hgiven condition (List.mem_cons_of_mem _ List.mem_cons_self) value hvalue
    exact ⟨hmade rfl, List.forall_mem_cons.2
      ⟨.of_leaf rfl (isMadeBehind_of_ne_call nofun), List.forall_mem_singleton.2 hv⟩⟩
  | once hclause hvalue =>
    exact ⟨hmade rfl, List.forall_mem_singleton.2 (hgiven _ List.mem_cons_self _ hvalue)⟩
  | guard g hclause hvalue =>
    exact ⟨hmade rfl, List.forall_mem_singleton.2 (hgiven _ List.mem_cons_self _ hvalue)⟩

/-- A call of a script function has the value of its body, unless a body is refused. -/
theorem exists_runsBody_of_run {scope : Scope} {s : Span} {name name' : String}
    {parameters : List String} {body value : Expr} {arguments values : List Expr}
    (hname : scope.function? name = some (.script name' parameters body))
    (harity : arguments.length = parameters.length)
    (hvalues : List.Forall₂ (fun e v => evaluate scope e = .ok v) arguments values)
    (hrun : runBody scope.remainingCalls scope (parameters.zip values) body = .ok value) :
    Task.RunsBody ⟨scope, .call s name arguments⟩
        ⟨scope.inCall (parameters.zip values), body⟩ ∧
      evaluate (scope.inCall (parameters.zip values)) body = .ok value := by
  rw [runBody_remainingCalls] at hrun
  obtain ⟨inner, henter, hvalue⟩ := Outcome.bind_eq_ok_iff.1 hrun
  obtain ⟨hdepth, rfl⟩ := Scope.enterCall_eq_ok_iff.1 henter
  exact ⟨⟨hname, Scope.bindCall_eq_ok_iff.2
    ⟨harity, values, evaluateAllWith_eq_ok_iff.2 hvalues, henter⟩⟩, hvalue⟩

/-- Every call in the value of an evaluation was made behind it. -/
theorem everywhere_isMadeBehind (hvariables : ∀ name value, t.scope.lookup? name = some value →
      HasOrigins t.scope.names value) {v : Expr} (h : evaluate t.scope t.expr = .ok v) :
    v.Everywhere (IsMadeBehind t) := by
  have hP := isInvariant_isMadeBehind
  induction t using Task.wellFounded_starts.induction generalizing v with
  | h t ih =>
    obtain ⟨scope, e⟩ := t
    -- What an operand or a body gives was made behind the evaluation that starts it.
    have hstarted {u : Task} (hstarts : Task.Starts ⟨scope, e⟩ u) {w : Expr}
        (hw : w.Everywhere (IsMadeBehind u)) : w.Everywhere (IsMadeBehind ⟨scope, e⟩) :=
      hw.imp fun _ => .mono fun _ => .starts hstarts
    have hchild : ∀ c ∈ e.children, ∀ w, evaluate scope c = .ok w →
        w.Everywhere (IsMadeBehind ⟨scope, e⟩) :=
      fun c hc w hw => hstarted (.operand hc) (ih ⟨scope, c⟩ (.operand hc) hvariables hw)
    refine (hP _).everywhere_of_operands ?_ hchild ?_ ?_ h
    · rintro hmemory _ _ _ rfl
      cases hmemory
    · rintro s name rfl
      have hvalue := evaluateWith_var_eq_ok_iff.1 h
      obtain ⟨u, hnames, hu, hmade⟩ := hvariables name v hvalue
      exact hmade.imp fun _ => .mono fun _ => .variable hvalue hu hnames
    · rintro s name arguments rfl
      obtain ⟨b, value, hname, -, hvalue, rfl⟩ |
        ⟨name', parameters, body, values, value, hname, harity, hvalues, hrun, rfl⟩ :=
        evaluateWith_call_eq_ok_iff.1 h
      · exact (hP _).everywhere_moveIfUnknown s (hvalue.everywhere_isMadeBehind hname hchild)
      · obtain ⟨hbody, hvalue⟩ := exists_runsBody_of_run (s := s) hname harity hvalues hrun
        have harguments : ∀ v ∈ values, HasOrigins scope.names v :=
          forall_of_forall₂ hvalues fun c hc v hv =>
            ⟨⟨scope, c⟩, rfl, hv, ih ⟨scope, c⟩ (.operand hc) hvariables hv⟩
        have hmade := ih _ (.body hbody) (hasOrigins_inCall hvariables harguments) hvalue
        exact (hP _).everywhere_moveIfUnknown s
          (everywhere_unwrapReturned (hstarted (.body hbody) hmade))

/-- An expression that comes out of evaluation has origins. -/
theorem IsEvaluated.hasOrigins {names : Names} {v : Expr} (h : IsEvaluated names v) :
    HasOrigins names v := by
  induction h with
  | @intro scope e v hnames _ h ih =>
    subst hnames
    exact ⟨⟨scope, e⟩, rfl, h, everywhere_isMadeBehind (t := ⟨scope, e⟩) ih h⟩

end Expr

end TriggerLang
