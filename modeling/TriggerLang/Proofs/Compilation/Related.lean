import TriggerLang.Proofs.Compilation.Choices
import TriggerLang.Proofs.Lowering.Related
/-!
# Relations between compilations

A relation between the rows of conditions and of their images under a function that keeps
connectives passes to the groups of a trigger (`Trigger.related_addCondition`): the disjunctions of
a condition and of its image are multiplied out in the same order and against the same limits.
-/

namespace TriggerLang

namespace Expr

/-- To be a disjunction, as a check and as a form. -/
theorem isOr_eq_true_iff {e : Expr} : e.isOr = true ↔ ∃ s es, e = .join s .any es := by
  constructor
  · intro h
    unfold isOr at h
    split at h
    · exact ⟨_, _, rfl⟩
    · cases h
  · rintro ⟨s, es, rfl⟩
    rfl

/-- An expression that is no connective has no operands. -/
theorem operands_of_ne {e : Expr} (h : ∀ s c es, e ≠ .join s c es) : e.operands = [] := by
  unfold operands
  split
  · exact absurd rfl (h _ _ _)
  · rfl

/-- The operands of a connective stand right below it. -/
theorem mem_children_of_mem_operands {e c : Expr} (h : c ∈ e.operands) : c ∈ e.children := by
  cases e with
  | join s connective es => exact h
  | _ => cases h

variable {f : Expr → Expr}

namespace KeepsConnectives

variable (hf : KeepsConnectives f)
include hf

/-- The image of a condition is a disjunction exactly when the condition is one. -/
theorem isOr_apply (e : Expr) : (f e).isOr = e.isOr := by
  rw [Bool.eq_iff_iff, isOr_eq_true_iff, isOr_eq_true_iff]
  constructor
  · intro h
    by_contra hother
    rw [not_exists] at hother
    obtain ⟨s, es, h⟩ := h
    exact hf.other (fun s es he => hother s ⟨es, he⟩) s es h
  · rintro ⟨s, es, rfl⟩
    obtain ⟨s', h⟩ := hf.join s .any es
    exact ⟨s', _, h⟩

/-- The operands of an image are the images of the operands. -/
theorem operands_apply (e : Expr) : (f e).operands = e.operands.map f := by
  by_cases hjoin : ∃ s c es, e = .join s c es
  · obtain ⟨s, c, es, rfl⟩ := hjoin
    obtain ⟨s', h⟩ := hf.join s c es
    rw [h]
    rfl
  · have he : ∀ s c es, e ≠ .join s c es := fun s c es h => hjoin ⟨s, c, es, h⟩
    rw [operands_of_ne he, operands_of_ne fun s c => hf.other (fun s es => he s c es) s]
    rfl

/-- The disjunctions among the images of conditions, and the other ones. -/
theorem filter_isOr_map (p : Bool → Bool) (es : List Expr) :
    (es.map f).filter (fun e => p e.isOr) = (es.filter fun e => p e.isOr).map f := by
  rw [List.filter_map]
  exact congrArg (fun q => (es.filter q).map f) (funext fun e => congrArg p (hf.isOr_apply e))

/-- Images are chosen as the conditions are, within the same limit. -/
theorem choices_map (limit used : Nat) (chosen : List (List Expr)) (disjunctions : List Expr) :
    choices limit used (chosen.map (List.map f)) (disjunctions.map f) =
      (choices limit used chosen disjunctions).map (List.map (List.map f)) := by
  induction disjunctions generalizing chosen with
  | nil => rfl
  | cons disjunction rest ih =>
    have hnext :
        ((chosen.map (List.map f)).flatMap fun c =>
          (disjunction.operands.map f).map fun e => c ++ [e]) =
        (chosen.flatMap fun c => disjunction.operands.map fun e => c ++ [e]).map
          (List.map f) := by
      simp [List.map_flatMap, List.flatMap_map, Function.comp_def]
    rw [List.map_cons, choices, choices, hf.operands_apply, hnext, List.length_map, List.length_map]
    split
    · rfl
    · exact ih _

end KeepsConnectives

end Expr

open TriggerLang.Expr Building

/-- Alternates are added by lowering conditions over the alternates that are there. -/
theorem Trigger.addAlternates_eq_zoom (scope : Scope) (es : List Expr) :
    addAlternates scope es =
      zoom alternates (fun t alternates => { t with alternates }) (lowerEach scope es) := by
  funext t
  rw [addAlternates, zoom]
  cases (lowerEach scope es).run t.alternates <;> rfl

/-- A condition that is no connective is added to the core. -/
theorem Trigger.addGroups_of_ne {scope : Scope} {e : Expr} (h : ∀ s c es, e ≠ .join s c es) :
    addGroups scope e = (do extendCore (← ofOutcome (group scope e))) := by
  unfold addGroups
  split
  · exact absurd rfl (h _ _ _)
  · exact absurd rfl (h _ _ _)
  · rfl

section

variable {R : (σ α : Type) → Building σ α → Building σ α → Prop} (hR : IsRelation R)
  {f : Expr → Expr} {scope scope' : Scope}

include hR

/-- Conjunctions of conditions are related if the conditions are one by one. -/
theorem Expr.related_lower_conjunction {es es' : List Expr}
    (h : List.Forall₂ (fun e e' => R _ _ (lower scope e) (lower scope' e')) es es') :
    R _ _ (lower scope (conjunction es)) (lower scope' (conjunction es')) := by
  cases h with
  | nil => exact hR.within (hR.refl (.pure _)) .unknown .unknown
  | cons he hes =>
    cases hes with
    | nil => exact he
    | cons he' hes => exact hR.within (related_lowerAll hR (.cons he (.cons he' hes))) _ _

namespace Trigger

/-- Conditions become alternates in related ways if they are related one by one. -/
theorem related_addAlternates {es es' : List Expr}
    (h : List.Forall₂ (fun e e' => R _ _ (lower scope e) (lower scope' e')) es es') :
    R _ _ (addAlternates scope es) (addAlternates scope' es') := by
  rw [addAlternates_eq_zoom, addAlternates_eq_zoom]
  exact hR.zoom (related_lowerEach hR h) _ _

/-- Related conditions extend the core in related ways. -/
theorem related_extendCore_group {e e' : Expr} (h : R _ _ (lower scope e) (lower scope' e')) :
    R _ _ (do extendCore (← ofOutcome (group scope e)) : Building Trigger Unit)
      (do extendCore (← ofOutcome (group scope' e')) : Building Trigger Unit) :=
  hR.build h [] fun _ => hR.refl (.modify _)

variable (hf : KeepsConnectives f) (hsettings : scope'.settings = scope.settings)
include hf hsettings

/-- Disjunctions are multiplied out in related ways if their operands are related to the images. -/
theorem related_addDistributed {ors : List Expr}
    (hoperands : ∀ o ∈ ors, ∀ e ∈ o.operands, R _ _ (lower scope e) (lower scope' (f e))) :
    R _ _ (addDistributed scope ors) (addDistributed scope' (ors.map f)) := by
  unfold addDistributed
  refine hR.bind (hR.refl .get) fun t => ?_
  unfold distribute
  dsimp only
  rw [hsettings, List.length_map]
  have hchoices := hf.choices_map scope.settings.alternateLimit t.alternates.length [[]] ors
  rw [List.map_singleton, List.map_nil] at hchoices
  rw [hchoices]
  split
  · have hseveral : FailsInLowering (fail .severalOrs : Building Trigger Unit) := .fail rfl
    exact hR.refl hseveral
  · cases hcs : choices scope.settings.alternateLimit t.alternates.length [[]] ors with
    | error d =>
      obtain ⟨count, -, hcause⟩ := cause_of_choices_eq_error hcs
      have hlimit : FailsInLowering (throw d : Building Trigger Unit) := .throw (hcause ▸ rfl)
      exact hR.refl hlimit
    | ok cs =>
      obtain ⟨-, rfl⟩ := choices_eq_ok_iff.1 hcs
      refine related_addAlternates hR (List.forall₂_map_left_iff.2 ?_)
      refine List.forall₂_map_right_iff.2 (List.forall₂_map_right_iff.2 (List.forall₂_same.2 ?_))
      intro c hc
      rw [List.flatMap_singleton, List.mem_map] at hc
      obtain ⟨c, hc, rfl⟩ := hc
      refine related_lower_conjunction hR (forall₂_map_of_mem fun e he => ?_)
      obtain ⟨o, ho, he⟩ := exists_mem_operands hc he
      exact hoperands o ho e he

/-- The groups of a condition are related to those of its image if the condition, its operands and
the operands of these are. -/
theorem related_addGroups {e : Expr} (he : R _ _ (lower scope e) (lower scope' (f e)))
    (hoperands : ∀ c ∈ e.children, R _ _ (lower scope c) (lower scope' (f c)))
    (hnested : ∀ c ∈ e.children, ∀ c' ∈ c.children, R _ _ (lower scope c') (lower scope' (f c'))) :
    R _ _ (addGroups scope e) (addGroups scope' (f e)) := by
  by_cases hjoin : ∃ s c es, e = .join s c es
  · obtain ⟨s, c, es, rfl⟩ := hjoin
    obtain ⟨s', h⟩ := hf.join s c es
    have hes : List.Forall₂ (fun e e' => R _ _ (lower scope e) (lower scope' e')) es (es.map f) :=
      forall₂_map_of_mem hoperands
    rw [h]
    cases c with
    | any => exact related_addAlternates hR hes
    | all =>
      have hany : (es.map f).any isOr = es.any isOr := by
        rw [List.any_map]
        exact congrArg (es.any ·) (funext hf.isOr_apply)
      by_cases hors : es.any isOr = true
      · have hfilter : (es.map f).filter isOr = (es.filter isOr).map f := hf.filter_isOr_map id es
        rw [addGroups_all hors, addGroups_all (hany.trans hors), hfilter, hf.filter_isOr_map]
        refine hR.build ?_ [] fun g => hR.bind (hR.refl (.modify _)) fun _ => ?_
        · exact related_lower_conjunction hR
            (forall₂_map_of_mem fun e he => hoperands e (List.mem_of_mem_filter he))
        · exact related_addDistributed hR hf hsettings fun o ho e he =>
            hnested o (List.mem_of_mem_filter ho) e (mem_children_of_mem_operands he)
      · rw [addGroups, addGroups, hany, if_neg hors, if_neg hors]
        exact related_extendCore_group hR (hR.within (related_lowerAll hR hes) s s')
  · have hother : ∀ s c es, e ≠ .join s c es := fun s c es h => hjoin ⟨s, c, es, h⟩
    have hfe : ∀ s c es, f e ≠ .join s c es := fun s c => hf.other (fun s es => hother s c es) s
    rw [addGroups_of_ne hother, addGroups_of_ne hfe]
    exact related_extendCore_group hR he

/-- What a condition adds to a trigger is related to what its image adds. -/
theorem related_addCondition {e : Expr} (he : R _ _ (lower scope e) (lower scope' (f e)))
    (hoperands : ∀ c ∈ e.children, R _ _ (lower scope c) (lower scope' (f c)))
    (hnested : ∀ c ∈ e.children, ∀ c' ∈ c.children, R _ _ (lower scope c') (lower scope' (f c'))) :
    R _ _ (addCondition scope e) (addCondition scope' (f e)) := by
  unfold addCondition
  refine hR.bind (related_addGroups hR hf hsettings he hoperands hnested) fun _ => ?_
  refine hR.bind (hR.refl .get) fun t => ?_
  exact related_requireAlternates hR hsettings _ _ _

end Trigger

end

end TriggerLang
