import TriggerLang.Proofs.Evaluation.Logic
/-!
# Meaning of lowered conditions

A folded condition that can be lowered becomes one chain of rows, whatever was emitted before it,
and the chain decides the truth of the condition.  A conjunction lowers its operands one after
another and joins each to the next, so that its chain decides all of them together.

A disjunction has no chain of its own: one chain per operand is what makes it true when one of them
holds.
-/

namespace TriggerLang

namespace Expr

variable {scope : Scope}

/-- Wherever the condition can be lowered, it adds a chain of rows that decides its truth. -/
def LowersFaithfully (scope : Scope) (e : Expr) : Prop :=
  ∀ before after, (lower scope e).run before = .ok () after →
    ∃ g, after = before ++ g ∧ ∀ m, Group.Decides m g (e.truthIn m)

/-- Conditions that are joined to each other decide their conjunction. -/
theorem run_lowerAll {es : List Expr} (hne : es ≠ [])
    (hes : ∀ e ∈ es, e.LowersFaithfully scope) {before after : List Row}
    (h : (lowerAll scope es).run before = .ok () after) :
    ∃ g, after = before ++ g ∧
      ∀ m, Group.Decides m g (Connective.all.truth (es.map (truthIn m))) := by
  induction es generalizing before with
  | nil => exact absurd rfl hne
  | cons e es ih =>
    cases es with
    | nil =>
      rw [lowerAll] at h
      obtain ⟨g, hg, hdecides⟩ := hes e List.mem_cons_self before after h
      refine ⟨g, hg, fun m => ?_⟩
      rw [List.map_singleton, Connective.truth_singleton]
      exact hdecides m
    | cons e' es =>
      rw [lowerAll, Building.run_bind_eq_ok_iff] at h
      obtain ⟨⟨⟩, rows, hhead, h⟩ := h
      obtain ⟨g, rfl, hdecides⟩ := hes e List.mem_cons_self before rows hhead
      rw [Building.run_bind_eq_ok_iff] at h
      obtain ⟨⟨⟩, joined, hjoin, htail⟩ := h
      obtain ⟨g', rfl, hdecides'⟩ := ih (List.cons_ne_nil e' es)
        (fun e'' he'' => hes e'' (List.mem_cons_of_mem _ he'')) htail
      cases hjoin
      rw [LastElement.update_append _ _ (hdecides default).ne_nil, List.append_assoc]
      refine ⟨_, rfl, fun m => ?_⟩
      exact (hdecides m).join (hdecides' m)

/-- The row of a constant condition decides its truth in every state of memory. -/
theorem decides_constantRow (m : Memory) (b : Bool) : Group.Decides m [constantRow b] b := by
  refine ⟨[], constantRow b, rfl, ?_, fun _ hrow => absurd hrow List.not_mem_nil, fun joined => ?_⟩
  · cases b <;> rfl
  · cases b <;> cases joined <;> rfl

/-- Every folded condition lowers faithfully. -/
theorem IsFolded.lowersFaithfully {e : Expr} (he : e.IsFolded) : e.LowersFaithfully scope := by
  induction he with
  | bool s b =>
    intro before after h
    cases h
    exact ⟨[constantRow b], rfl, fun m => decides_constantRow m b⟩
  | always s b =>
    intro before after h
    cases h
    exact ⟨[constantRow b], rfl, fun m => decides_constantRow m b⟩
  | compare s relation hleft hright =>
    intro before after h
    exact decides_of_lower_compare hleft hright h
  | @join s c es hne hes ih =>
    intro before after h
    cases c with
    | any =>
      rw [lower, Building.run_within_eq_ok_iff] at h
      exact absurd h Building.run_fail_ne_ok
    | all =>
      rw [lower, Building.run_within_eq_ok_iff] at h
      obtain ⟨g, hg, hdecides⟩ := run_lowerAll hne ih h
      refine ⟨g, hg, fun m => ?_⟩
      rw [truthIn_join]
      exact hdecides m

/-- The group of a folded condition holds exactly when the condition is true. -/
theorem holds_of_group {e : Expr} (he : e.IsFolded) {g : Group} (h : Expr.group scope e = .ok g)
    (m : Memory) : Group.holds m g = e.truthIn m := by
  rw [Expr.group, Building.build_eq_ok_iff] at h
  obtain ⟨g', rfl, hdecides⟩ := he.lowersFaithfully [] g h
  exact (hdecides m).holds_eq

/-- The groups of conditions hold when the conditions are true. -/
theorem map_holds_of_forall₂_group {es : List Expr} {groups : List Group}
    (hes : ∀ e ∈ es, e.IsFolded) (h : List.Forall₂ (fun e g => group scope e = .ok g) es groups)
    (m : Memory) : groups.map (Group.holds m) = es.map (truthIn m) := by
  induction h with
  | nil => rfl
  | cons hg _ ih =>
    rw [List.forall_mem_cons] at hes
    rw [List.map_cons, List.map_cons, holds_of_group hes.1 hg m, ih hes.2]

end Expr

end TriggerLang
