import TriggerLang.Proofs.Evaluation.Spans
import TriggerLang.Proofs.Lowering.Related
/-!
# Lowering and spans

Lowering gives spans to diagnostics, and it reads none.  Computations are *alike* when from every
state they leave the same state, with the same result or with failures of one cause.  Expressions
that differ in spans lower alike, in any two scopes that are the same up to spans (`alike_lower`).

The rows of a call depend on a disjunction among its arguments as a whole and on the branches of the
disjunction, so that the induction is on the tree by two levels.
-/

namespace TriggerLang

/-! ### Computations that are alike -/

namespace Building

variable {σ τ α β γ δ : Type}

/-- Two computations leave the same state from every state, and they have the same result there, or
fail for the same cause. -/
def Alike (x y : Building σ α) : Prop :=
  ∀ s, (x.outcome s).1.upTo id = (y.outcome s).1.upTo id ∧ (x.outcome s).2 = (y.outcome s).2

/-- Every computation is like itself. -/
theorem Alike.refl (x : Building σ α) : Alike x x :=
  fun _ => ⟨rfl, rfl⟩

/-- To be alike is symmetric. -/
theorem Alike.symm {x y : Building σ α} (h : Alike x y) : Alike y x :=
  fun s => ⟨(h s).1.symm, (h s).2.symm⟩

/-- To be alike is transitive. -/
theorem Alike.trans {x y z : Building σ α} (hxy : Alike x y) (hyz : Alike y z) : Alike x z :=
  fun s => ⟨(hxy s).1.trans (hyz s).1, (hxy s).2.trans (hyz s).2⟩

/-- A place changes the diagnostics of a computation, and not the state that it leaves. -/
theorem outcome_within (place : Span) (x : Building σ α) (s : σ) :
    (within place x).outcome s = ((x.outcome s).1.within place, (x.outcome s).2) := by
  cases h : x.run s with
  | ok a t =>
    have hwithin : (within place x).run s = .ok a t := run_within_eq_ok_iff.2 h
    rw [outcome, outcome, hwithin, h]
    rfl
  | error d t =>
    have hwithin : (within place x).run s = .error (d.within place) t :=
      run_within_eq_error_iff.2 ⟨d, h, rfl⟩
    rw [outcome, outcome, hwithin, h]
    rfl

/-- A place matters to failures only. -/
theorem alike_within (place : Span) (x : Building σ α) : Alike (Building.within place x) x := by
  intro s
  rw [outcome_within, Outcome.upTo_within]
  exact ⟨rfl, rfl⟩

/-- Places may differ between computations that are alike. -/
theorem Alike.within {x y : Building σ α} (h : Alike x y) (place place' : Span) :
    Alike (Building.within place x) (Building.within place' y) :=
  (alike_within place x).trans (h.trans (alike_within place' y).symm)

/-- Sequences are alike when their parts are. -/
theorem Alike.bind {x y : Building σ α} {f g : α → Building σ β} (hx : Alike x y)
    (hf : ∀ a, Alike (f a) (g a)) : Alike (x >>= f) (y >>= g) := by
  intro s
  obtain ⟨hresult, hstate⟩ := hx s
  unfold outcome at hresult hstate ⊢
  cases hxs : x.run s with
  | ok a t =>
    cases hys : y.run s with
    | ok a' t' =>
      rw [hxs, hys] at hresult hstate
      cases hresult
      cases hstate
      rw [run_bind_of_ok hxs, run_bind_of_ok hys]
      exact hf a t
    | error d' t' =>
      rw [hxs, hys] at hresult
      cases hresult
  | error d t =>
    cases hys : y.run s with
    | ok a' t' =>
      rw [hxs, hys] at hresult
      cases hresult
    | error d' t' =>
      rw [hxs, hys] at hresult hstate
      rw [run_bind_of_error hxs, run_bind_of_error hys]
      exact ⟨congrArg Except.error (Except.error.inj hresult), hstate⟩

/-- Results that agree up to functions may be used alike. -/
theorem alike_ofOutcome_bind {f : α → γ} {f' : β → γ} {x : Outcome α} {y : Outcome β}
    (h : x.upTo f = y.upTo f') {k : α → Building σ δ} {k' : β → Building σ δ}
    (hk : ∀ a b, f a = f' b → Alike (k a) (k' b)) :
    Alike (ofOutcome x >>= k) (ofOutcome y >>= k') := by
  cases x with
  | error d =>
    cases y with
    | error d' => exact fun s => ⟨congrArg Except.error (Except.error.inj h), rfl⟩
    | ok b => cases h
  | ok a =>
    cases y with
    | error d' => cases h
    | ok b => exact hk a b (Except.ok.inj h)

/-- What two computations that are alike build is the same, and they fail for the same cause. -/
theorem Alike.upTo_build {x y : Building σ Unit} (h : Alike x y) (s : σ) :
    (x.build s).upTo id = (y.build s).upTo id := by
  obtain ⟨hresult, hstate⟩ := h s
  unfold outcome at hresult hstate
  unfold build
  cases hxs : x.run s with
  | ok u t =>
    cases hys : y.run s with
    | ok u' t' =>
      rw [hxs, hys] at hstate
      exact congrArg Except.ok hstate
    | error d' t' =>
      rw [hxs, hys] at hresult
      cases hresult
  | error d t =>
    cases hys : y.run s with
    | ok u' t' =>
      rw [hxs, hys] at hresult
      cases hresult
    | error d' t' =>
      rw [hxs, hys] at hresult
      exact congrArg Except.error (Except.error.inj hresult)

/-- A computation over a part of the state ends as over the part alone, and writes the part back. -/
theorem outcome_zoom (part : σ → τ) (put : σ → τ → σ) (x : Building τ α) (s : σ) :
    (x.zoom part put).outcome s =
      ((x.outcome (part s)).1, put s (x.outcome (part s)).2) := by
  have hrun : (x.zoom part put).run s = x.zoom part put s := rfl
  rw [outcome, outcome, hrun, zoom]
  cases x.run (part s) <;> rfl

/-- To be alike is a relation that all rules of lowering keep. -/
theorem isRelation_alike : IsRelation fun _ _ => Alike where
  refl _ := .refl _
  within h := h.within
  bind h hk := h.bind hk
  build h s hk := alike_ofOutcome_bind (h.upTo_build s) fun t t' ht => by
    obtain rfl : t = t' := ht
    exact hk t
  zoom h part put s := by
    obtain ⟨hresult, hstate⟩ := h (part s)
    rw [outcome_zoom, outcome_zoom, hstate]
    exact ⟨hresult, rfl⟩

end Building

namespace Expr

open Building

variable {scope scope' : Scope}

/-- The left side of a comparison is taken without its spans. -/
theorem leftSide?_erase (e : Expr) : e.erase.leftSide? = e.leftSide? := by
  cases e <;> rfl

/-- The right side of a comparison is taken without its spans, and it is refused for the same cause.
-/
theorem upTo_rightOperand_erase (path : List Row) (e : Expr) :
    (rightOperand path e.erase).upTo id = (rightOperand path e).upTo id := by
  have hfail : (.error (.notComparable e.erase.text) : Except Cause Operand) = _ :=
    error_text_erase .notComparable e
  unfold rightOperand
  rw [Outcome.upTo_within, Outcome.upTo_within]
  cases e with
  | literal s v => cases v <;> rfl
  | read s m => rfl
  | _ => exact hfail

/-- A comparison lowers like the one without spans. -/
theorem alike_lowerComparison (left : Expr) (relation : Relation) (right : Expr) :
    Alike (lowerComparison left relation right)
      (lowerComparison left.erase relation right.erase) := by
  have htext : (Expr.compare .unknown relation left.erase right.erase).text =
      (Expr.compare .unknown relation left right).text :=
    text_erase (.compare .unknown relation left right)
  unfold lowerComparison
  rw [leftSide?_erase, htext]
  cases left.leftSide? with
  | none => exact (Alike.refl _).within _ _
  | some side =>
    refine (Alike.refl _).bind fun _ => ?_
    refine alike_ofOutcome_bind (upTo_rightOperand_erase side.path right).symm fun o o' ho => ?_
    cases ho
    exact .refl _

/-- An erased connective is that connective of the erased operands, and no other expression becomes
one. -/
theorem keepsConnectives_erase : KeepsConnectives erase where
  join _ c es := ⟨.unknown, congrArg (Expr.join .unknown c) (eraseAll_eq_map es)⟩
  other {e} c h s es he := by
    cases e with
    | join s' c' es' =>
      cases he
      exact h _ _ rfl
    | _ => cases he

/-- The number of hits of a call is read without regard to spans. -/
theorem upTo_repeatCount_evaluate (hscope : scope.SameUpToSpans scope') (count : Expr) :
    (evaluate scope count >>= repeatCount).upTo id =
      (evaluate scope' count.erase >>= repeatCount).upTo id :=
  Outcome.upTo_bind_congr (hscope.upTo_evaluate (erase_erase count).symm)
    fun _ _ h => upTo_repeatCount_congr h

/-- A call lowers alike if its arguments and their operands do. -/
theorem alike_lowerBuiltin (hscope : scope.SameUpToSpans scope') (name : String) (b : Builtin)
    {es : List Expr} (hes : ∀ e ∈ es, Alike (lower scope e) (lower scope' e.erase))
    (hoperands : ∀ e ∈ es, ∀ c ∈ e.children, Alike (lower scope c) (lower scope' c.erase)) :
    Alike (lowerBuiltin scope name b es) (lowerBuiltin scope' name b (es.map erase)) := by
  refine related_lowerBuiltin isRelation_alike keepsConnectives_erase hscope.settings.symm
    (fun _ => .refl _) (fun count _ _ hk => ?_) name b hes hoperands
  refine alike_ofOutcome_bind (upTo_repeatCount_evaluate hscope count) fun hits hits' h => ?_
  obtain rfl : hits = hits' := h
  exact hk hits

/-! ### Conditions -/

/-- A condition that cannot be lowered for its kind is named without its spans. -/
theorem alike_incompleteCondition (s s' : Span) (e : Expr) :
    Alike (Building.within s (fail (.incompleteCondition e.text)) : Emission Unit)
      (Building.within s' (fail (.incompleteCondition e.erase.text))) := by
  rw [text_erase]
  exact (Alike.refl _).within s s'

/-- Lowering reads no spans. -/
theorem alike_lower (hscope : scope.SameUpToSpans scope') (e : Expr) :
    Alike (lower scope e) (lower scope' e.erase) := by
  -- By two levels, since a call looks through a disjunction among its arguments to the branches.
  induction e using induction_two_levels with
  | h e ih ih' =>
    cases e with
    | compare s relation left right =>
      exact (alike_lowerComparison left relation right).within s .unknown
    | always s b => exact .refl _
    | join s c es =>
      rw [erase, eraseAll_eq_map]
      cases c with
      | all =>
        exact (related_lowerAll isRelation_alike (forall₂_map_of_mem ih)).within s .unknown
      | any =>
        rw [lower, lower]
        exact (Alike.refl _).within s .unknown
    | call s name es =>
      rw [erase, eraseAll_eq_map, lower, lower]
      refine Alike.within ?_ s .unknown
      have hfunction := hscope.function? name
      cases hf : scope.function? name with
      | none =>
        rw [hf, Option.map_none, eq_comm, Option.map_eq_none_iff] at hfunction
        rw [hfunction]
        exact .refl _
      | some f =>
        rw [hf, eq_comm] at hfunction
        obtain ⟨f', hf', hfunction⟩ := Option.map_eq_some_iff.1 hfunction
        rw [hf']
        cases f with
        | builtin b =>
          obtain rfl := Function.erase_eq_builtin_iff.1 hfunction
          exact alike_lowerBuiltin hscope name b ih ih'
        | script name' parameters body =>
          obtain ⟨body', rfl, -⟩ := Function.erase_eq_script_iff.1 hfunction
          exact .refl _
    | literal s v =>
      cases v with
      | bool b => exact .refl _
      | _ => exact alike_incompleteCondition s .unknown (.literal s _)
    | _ => exact alike_incompleteCondition _ .unknown _

end Expr

end TriggerLang
