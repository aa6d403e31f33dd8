import TriggerLang.Proofs.Evaluation.Once
import TriggerLang.Proofs.Lowering.Related
/-!
# Lowering of one hit as a number of hits

A condition emits the same rows with `once(c)` and with `repeated(1, c)` in its place
(`sameResults_lower_countOnce`), since both count the hits of their condition toward one.  What a
condition has emitted before a failure and the texts of failures are not compared.
-/

namespace TriggerLang

namespace Building

variable {σ τ α β γ : Type}

/-- Two computations succeed from the same states, with the same results and the same states after
them. -/
def SameResults (x y : Building σ α) : Prop :=
  ∀ s a t, x.run s = .ok a t ↔ y.run s = .ok a t

/-- Every computation has its own results. -/
theorem SameResults.refl (x : Building σ α) : SameResults x x :=
  fun _ _ _ => Iff.rfl

/-- Failures have no results, whatever their causes. -/
theorem sameResults_fail (cause cause' : Cause) :
    SameResults (fail cause : Building σ α) (fail cause') :=
  fun _ _ _ => iff_of_false run_fail_ne_ok run_fail_ne_ok

/-- Places play no part in results. -/
theorem SameResults.within {x y : Building σ α} (h : SameResults x y) (place place' : Span) :
    SameResults (x.within place) (y.within place') :=
  fun s a t => run_within_eq_ok_iff.trans ((h s a t).trans run_within_eq_ok_iff.symm)

/-- Sequences have the same results when their parts have. -/
theorem SameResults.bind {x y : Building σ α} {k k' : α → Building σ β} (h : SameResults x y)
    (hk : ∀ a, SameResults (k a) (k' a)) : SameResults (x >>= k) (y >>= k') := by
  intro s b t
  rw [run_bind_eq_ok_iff, run_bind_eq_ok_iff]
  exact exists_congr fun a => exists_congr fun s' => and_congr (h s a s') (hk a s' b t)

/-- A result and its image may be used side by side. -/
theorem sameResults_ofOutcome_bind {f : α → β} {x : Outcome α} {y : Outcome β}
    (h : x.MapsTo f y) {k : α → Building σ γ} {k' : β → Building σ γ}
    (hk : ∀ a, SameResults (k a) (k' (f a))) :
    SameResults (ofOutcome x >>= k) (ofOutcome y >>= k') := by
  cases h with
  | ok a => exact hk a
  | error d d' => exact fun _ _ _ => iff_of_false nofun nofun

/-- What two computations with the same results build is the same, and they fail together. -/
theorem SameResults.mapsTo_build {x y : Building σ Unit} (h : SameResults x y) (s : σ) :
    (x.build s).MapsTo id (y.build s) := by
  refine Outcome.MapsTo.id_iff.2 fun t => ?_
  rw [build_eq_ok_iff, build_eq_ok_iff, h s () t]

/-- To have the same results is a relation that all rules of lowering keep. -/
theorem isRelation_sameResults : IsRelation fun _ _ => SameResults where
  refl _ := .refl _
  within h := h.within
  bind h hk := h.bind hk
  build h s hk := sameResults_ofOutcome_bind (h.mapsTo_build s) hk
  zoom h part put s a t := by
    rw [run_zoom_eq_ok_iff, run_zoom_eq_ok_iff]
    exact exists_congr fun s' => and_congr_left fun _ => h (part s) a s'

end Building

namespace Expr

open Building

variable {scope scope' : Scope}

/-- The image of a connective is that connective of the images, and no other expression becomes one.
-/
theorem keepsConnectives_countOnce : KeepsConnectives countOnce where
  join s c es := ⟨s, congrArg (Expr.join s c) (countOnceAll_eq_map es)⟩
  other {e} c h s es he := by
    cases e with
    | join s' c' es' =>
      cases he
      exact h _ _ rfl
    | _ => cases he

/-- An expression and its image are the same left side of a comparison. -/
theorem leftSide?_countOnce (e : Expr) : e.countOnce.leftSide? = e.leftSide? := by
  cases e <;> rfl

/-- An expression and its image are the same right side of a comparison. -/
theorem mapsTo_rightOperand_countOnce (path : List Row) (e : Expr) :
    (rightOperand path e).MapsTo id (rightOperand path e.countOnce) := by
  refine Outcome.MapsTo.within ?_ _ _
  cases e with
  | literal s v => exact .refl _
  | read s m => exact .refl _
  | _ => exact .error _ _

/-- A comparison emits the same rows as its image. -/
theorem sameResults_lowerComparison (left : Expr) (relation : Relation) (right : Expr) :
    SameResults (lowerComparison left relation right)
      (lowerComparison left.countOnce relation right.countOnce) := by
  unfold lowerComparison
  rw [leftSide?_countOnce]
  cases left.leftSide? with
  | none => exact (sameResults_fail _ _).within _ _
  | some side =>
    refine (SameResults.refl _).bind fun _ => ?_
    exact sameResults_ofOutcome_bind (mapsTo_rightOperand_countOnce side.path right)
      fun o => .refl _

/-- The number of hits of a call and its image are the same. -/
theorem mapsTo_repeatCount_evaluate (hscope : scope.MapsTo countOnce scope')
    (hcounting : scope.HasCounting) (count : Expr) :
    (evaluate scope count >>= repeatCount).MapsTo id
      (evaluate scope' count.countOnce >>= repeatCount) :=
  (mapsTo_evaluate_countOnce hscope hcounting count).bind fun n _ => mapsTo_repeatCount_countOnce n

/-- `once` and `repeated` with one hit emit the same rows. -/
theorem sameResults_lowerBuiltin_once (hscope : scope.MapsTo countOnce scope') {condition : Expr}
    (hcondition : SameResults (lower scope condition) (lower scope' condition.countOnce))
    (hoperands : ∀ e ∈ condition.children, SameResults (lower scope e) (lower scope' e.countOnce)) :
    SameResults (lowerBuiltin scope Builtin.once.name .once [condition])
      (lowerBuiltin scope' Builtin.repeated.name .repeated [ofCount 1, condition.countOnce]) := by
  have hcount : (evaluate scope' (ofCount 1) >>= repeatCount) = .ok 1 := rfl
  rw [lowerBuiltin_once, lowerBuiltin_repeated, hcount]
  exact related_lowerCounted isRelation_sameResults keepsConnectives_countOnce hscope.settings
    hcondition hoperands 1

/-- An evaluated condition emits the same rows as its image. -/
theorem sameResults_lower_countOnce (hscope : scope.MapsTo countOnce scope')
    (hcounting : scope.HasCounting) (e : Expr) :
    SameResults (lower scope e) (lower scope' e.countOnce) := by
  induction e using induction_two_levels with
  | h e ih ih' =>
    cases e with
    | compare s relation left right =>
      exact (sameResults_lowerComparison left relation right).within s s
    | always s b => exact .refl _
    | literal s v =>
      cases v with
      | bool b => exact .refl _
      | _ => exact .refl _
    | join s c es =>
      rw [countOnce, countOnceAll_eq_map]
      cases c with
      | all =>
        exact (related_lowerAll isRelation_sameResults (forall₂_map_of_mem ih)).within s s
      | any => exact .refl _
    | call s name es =>
      by_cases honce : IsOnceCall name es
      · obtain ⟨rfl, hlength⟩ := honce
        obtain ⟨condition, rfl⟩ := List.length_eq_one_iff.1 hlength
        rw [countOnce_once, lower, lower, hcounting.once, (hcounting.mapsTo hscope).repeated]
        exact (sameResults_lowerBuiltin_once hscope (ih condition List.mem_cons_self)
          (ih' condition List.mem_cons_self)).within s s
      · rw [countOnce_call honce, lower, lower, hscope.function? name]
        refine SameResults.within ?_ s s
        rcases scope.function? name with _ | b | ⟨name', parameters, body⟩
        · exact .refl _
        · exact related_lowerBuiltin isRelation_sameResults keepsConnectives_countOnce
            hscope.settings (fun _ => .refl _) (fun count _ _ hk => sameResults_ofOutcome_bind
              (mapsTo_repeatCount_evaluate hscope hcounting count) hk) name b ih ih'
        · exact .refl _
    | _ => exact (sameResults_fail _ _).within _ _

end Expr

end TriggerLang
