import TriggerLang.Proofs.Compilation.Related
import TriggerLang.Proofs.Evaluation.Origin
/-!
# Failures after evaluation

Evaluation and lowering agree on what a call is.  Whatever evaluation leaves of a call is a call of
a built-in function that emits rows, with all the arguments of that function, and its name means the
same function when it is lowered (`calls_of_values_lower_as_made`).

What lowering may still refuse is a matter of shape: operands that a row cannot hold, disjunctions
where there may be none, modifiers on top of each other, and too many alternates
(`Cause.arisesInLowering`).  Computations with no other failures are put together like related ones,
so that the rules of lowering need no cases of their own here, calls apart.
-/

namespace TriggerLang

/-- A failure of lowering is a failure of usage or of conversion. -/
theorem Cause.kind_of_arisesInLowering {cause : Cause} (h : cause.arisesInLowering = true) :
    cause.kind = .usage ∨ cause.kind = .conversion := by
  cases cause with
  | incompleteCondition | unrelatedPaths | notComparable => exact .inr rfl
  | nestedOr | orUnderModifier | alreadyModified | modifierInRepeated | severalOrs
  | tooManyAlternates => exact .inl rfl
  | _ => cases h

namespace Building

variable {σ τ α β : Type}

/-- A place for failures does not change their causes. -/
theorem FailsInLowering.within {x : Building σ α} (h : FailsInLowering x) (place : Span) :
    FailsInLowering (x.within place) := by
  intro s _ t hrun
  obtain ⟨d, hx, rfl⟩ := run_within_eq_error_iff.1 hrun
  rw [Diagnostic.cause_within]
  exact h s d t hx

/-- A sequence fails for causes of lowering only if its parts do. -/
theorem FailsInLowering.bind {x : Building σ α} {k : α → Building σ β} (h : FailsInLowering x)
    (hk : ∀ a, FailsInLowering (k a)) : FailsInLowering (x >>= k) := by
  intro s d t hrun
  obtain hx | ⟨a, s', -, hrun⟩ := run_bind_eq_error_iff.1 hrun
  · exact h s d t hx
  · exact hk a s' d t hrun

/-- An outcome whose failures are of lowering may be used as a computation. -/
theorem failsInLowering_ofOutcome {x : Outcome α}
    (h : ∀ d, x = .error d → d.cause.arisesInLowering = true) :
    FailsInLowering (ofOutcome x : Building σ α) := by
  cases x with
  | ok a => exact .pure a
  | error d => exact .throw (h d rfl)

/-- To have such failures only is a relation, if of one computation alone. -/
theorem isRelation_failsInLowering : IsRelation fun _ _ x _ => FailsInLowering x where
  refl h := h
  within h s _ := h.within s
  bind h hk := h.bind hk
  build {_ _ _ x} _ _ _ h s hk := by
    refine (failsInLowering_ofOutcome fun d hbuild => ?_).bind hk
    obtain ⟨t, hx⟩ := build_eq_error_iff.1 hbuild
    exact h s d t hx
  zoom h part put s d t hrun := by
    obtain ⟨t', hx, -⟩ := run_zoom_eq_error_iff.1 hrun
    exact h (part s) d t' hx

end Building

namespace Expr

open Building

variable {scope : Scope}

/-- Every condition is its own image. -/
theorem keepsConnectives_id : KeepsConnectives id where
  join s c es := ⟨s, congrArg (Expr.join s c) (List.map_id es).symm⟩
  other h s := h s

/-! ### Conditions -/

/-- A comparison is refused for its shape only. -/
theorem failsInLowering_lowerComparison (left : Expr) (relation : Relation) (right : Expr) :
    FailsInLowering (lowerComparison left relation right) := by
  unfold lowerComparison
  cases left.leftSide? with
  | none => exact (FailsInLowering.fail rfl).within _
  | some side =>
    refine (FailsInLowering.modify _).bind fun _ => ?_
    refine (failsInLowering_ofOutcome fun d h => ?_).bind fun _ => .modify _
    unfold rightOperand at h
    split at h
    · cases h
    · cases h
    · cases h
    · split at h
      · cases h
      · cases h
        rw [Diagnostic.cause_within]
        rfl
    · cases h
      rw [Diagnostic.cause_within]
      rfl

/-- A call that evaluation leaves has the parameters of its function, and its number of hits is one
that the function takes. -/
theorem failsInLowering_lowerBuiltin {name : String} {b : Builtin} {arguments : List Expr}
    (harguments : DeferredArguments b arguments)
    (hlower : ∀ e ∈ arguments, FailsInLowering (lower scope e))
    (hoperands : ∀ e ∈ arguments, ∀ c ∈ e.children, FailsInLowering (lower scope c)) :
    FailsInLowering (lowerBuiltin scope name b arguments) := by
  have hcounted (hits : UInt16) {condition : Expr} (hmem : condition ∈ arguments) :
      FailsInLowering (lowerCounted scope hits condition) :=
    @related_lowerCounted _ isRelation_failsInLowering id scope scope keepsConnectives_id rfl
      condition (hlower condition hmem) (hoperands condition hmem) hits
  cases harguments with
  | repeated hits condition =>
    have hcount : (evaluate scope (ofCount hits) >>= repeatCount) = .ok hits :=
      repeatCount_ofCount hits
    rw [lowerBuiltin_repeated, hcount]
    exact hcounted hits (List.mem_cons_of_mem _ List.mem_cons_self)
  | once condition =>
    rw [lowerBuiltin_once]
    exact hcounted 1 List.mem_cons_self
  | guard g condition =>
    rw [lowerBuiltin_guarding]
    exact @related_lowerGuarded _ isRelation_failsInLowering id scope scope keepsConnectives_id g
      condition (hlower condition List.mem_cons_self)

/-- A condition that no rule of evaluation changes is refused for its shape only. -/
theorem failsInLowering_lower {e : Expr} (he : e.Everywhere (IsNormal scope.names)) :
    FailsInLowering (lower scope e) := by
  induction e using induction_two_levels with
  | h e ih ih' =>
    have hchildren : ∀ c ∈ e.children, FailsInLowering (lower scope c) :=
      fun c hc => ih c hc (he.children c hc)
    have hnested : ∀ c ∈ e.children, ∀ c' ∈ c.children, FailsInLowering (lower scope c') :=
      fun c hc c' hc' => ih' c hc c' hc' ((he.children c hc).children c' hc')
    cases e with
    | compare s relation left right =>
      exact (failsInLowering_lowerComparison left relation right).within s
    | literal s v =>
      cases v with
      | bool b => exact .modify _
      | _ => exact (FailsInLowering.fail rfl).within s
    | always s b => exact .modify _
    | join s c es =>
      cases c with
      | all =>
        exact (@related_lowerAll _ isRelation_failsInLowering scope scope es es
          (List.forall₂_same.2 hchildren)).within s
      | any => exact (FailsInLowering.fail rfl).within s
    | call s name arguments =>
      obtain ⟨-, b, hname, harguments⟩ := he.node
      rw [lower, show scope.function? name = some (.builtin b) from hname]
      exact (failsInLowering_lowerBuiltin harguments hchildren hnested).within s
    | _ => exact (FailsInLowering.fail rfl).within _

end Expr

open Building TriggerLang.Expr

variable {scope : Scope}

/-- The groups of a condition that no rule of evaluation changes are refused for its shape only. -/
theorem Trigger.failsInLowering_addCondition {e : Expr} (he : e.Everywhere (IsNormal scope.names)) :
    FailsInLowering (addCondition scope e) :=
  @related_addCondition _ isRelation_failsInLowering id scope scope keepsConnectives_id rfl e
    (failsInLowering_lower he) (fun c hc => failsInLowering_lower (he.children c hc))
    fun c hc c' hc' => failsInLowering_lower ((he.children c hc).children c' hc')

/-- Evaluation and lowering agree on what a call is.  If the variables of a scope hold evaluated
expressions, then every call in a value was made by an evaluation behind that of the value, and its
name means the function that made it.  The groups of the value are refused, if at all, for the shape
of a condition and not for a call: not for a call of no condition, not for a missing argument, and
not for a number of hits. -/
theorem calls_of_values_lower_as_made
    (hvariables : ∀ name value, scope.lookup? name = some value → IsEvaluated scope.names value)
    {e v : Expr} (h : evaluate scope e = .ok v) :
    (∀ s name arguments, (Expr.call s name arguments).IsPartOf v →
      (∃ (t : Task) (b : Builtin), t.IsBehind ⟨scope, e⟩ ∧ t.Makes b name arguments) ∧
      ∀ (t : Task) (b : Builtin), t.IsBehind ⟨scope, e⟩ → t.Makes b name arguments →
        scope.function? name = some (.builtin b)) ∧
    ∀ t d t', (Trigger.addCondition scope v).run t = .error d t' →
      (d.kind = .usage ∨ d.kind = .conversion) ∧
      ∀ name position text, d.cause ≠ .notACondition name ∧
        d.cause ≠ .missingParameter name position ∧ d.cause ≠ .countNotInteger text ∧
        d.cause ≠ .countOutOfRange text := by
  constructor
  · intro s name arguments hpart
    have horigins := everywhere_isMadeBehind (t := ⟨scope, e⟩)
      (fun name value h => (hvariables name value h).hasOrigins) h
    refine ⟨horigins.of_isPartOf hpart s name arguments rfl, fun t b hbehind hmakes => ?_⟩
    obtain ⟨-, -, -, hname, -⟩ := hmakes
    have hsame : t.scope.function? = scope.function? :=
      congrArg Names.function? hbehind.names_eq
    rwa [hsame] at hname
  · intro t d t' hrun
    have hnormal := everywhere_isNormal_evaluate
      (fun name value h => (hvariables name value h).everywhere_isNormal) h
    have hcause := Trigger.failsInLowering_addCondition hnormal t d t' hrun
    -- Faults of a call are found in evaluation only, so that lowering cannot fail for one of them.
    have hne {cause : Cause} (hother : cause.arisesInLowering = false) : d.cause ≠ cause := by
      rintro rfl
      cases hother.symm.trans hcause
    exact ⟨Cause.kind_of_arisesInLowering hcause, fun name position text =>
      ⟨hne rfl, hne rfl, hne rfl, hne rfl⟩⟩

/-- `stop(x)` in a trigger clause, where `x` holds the value of `once(byte(1) == 1)` and `stop(c)`
returns `never(never(c))`: the call of `once` comes from the variable, and the calls of `never` from
the body of `stop`.  A group cannot be guarded twice, and this is what lowering reports. -/
theorem call_in_variable_lowers_as_made :
    let stop : Function := .script "stop" ["c"] (.returned .unknown
      (.call .unknown "never" [.call .unknown "never" [.var .unknown "c"]]))
    let bare := ((Scope.root {}).setFunction stop).clause
    let one : Expr := .compare .unknown .equal (.call .unknown "byte" [.int 1]) (.int 1)
    let read : Expr :=
      .compare .unknown .equal (.read .unknown (.direct .byte 1)) (.int 1)
    let x : Expr := .call .unknown "once" [read]
    let scope := bare.setVariable "x" x
    let e : Expr := .call .unknown "stop" [.var .unknown "x"]
    let v : Expr := .call .unknown "never" [.call .unknown "never" [x]]
    let d : Diagnostic := { cause := .alreadyModified "never", span := some .unknown }
    ((∀ name value, scope.lookup? name = some value → IsEvaluated scope.names value) ∧
      evaluate bare (.call .unknown "once" [one]) = .ok x ∧ evaluate scope e = .ok v) ∧
    (∃ (t : Task) (b : Builtin), t.IsBehind ⟨scope, e⟩ ∧ t.Makes b "once" [read]) ∧
    (∃ rows, (Trigger.addCondition scope v).run .empty = .error d rows) ∧
    (d.kind = .usage ∨ d.kind = .conversion) := by
  intro stop bare one read x scope e v d
  have hx : evaluate bare (.call .unknown "once" [one]) = .ok x := rfl
  have hbare (name : String) : bare.lookup? name = none := rfl
  have hvariables : ∀ name value, scope.lookup? name = some value →
      IsEvaluated scope.names value := by
    intro name value hvalue
    have hnames : bare.names = scope.names := rfl
    obtain ⟨-, rfl⟩ | hvalue := Scope.lookup?_setVariable_eq_some hvalue
    · exact .intro hnames (fun name value h => nomatch (hbare name).symm.trans h) hx
    · cases (hbare name).symm.trans hvalue
  have h : evaluate scope e = .ok v := rfl
  have hpart : x.IsPartOf v :=
    .of_mem_children List.mem_cons_self (.of_mem_children List.mem_cons_self (.refl x))
  have hrun : ∃ rows, (Trigger.addCondition scope v).run .empty = .error d rows := ⟨_, rfl⟩
  obtain ⟨hmade, hfails⟩ := calls_of_values_lower_as_made hvariables h
  obtain ⟨rows, hrows⟩ := hrun
  exact ⟨⟨hvariables, hx, h⟩, (hmade .unknown "once" [read] hpart).1, ⟨rows, hrows⟩,
    (hfails .empty d rows hrows).1⟩

end TriggerLang
