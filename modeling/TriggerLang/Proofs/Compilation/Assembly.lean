import TriggerLang.Proofs.Compilation.Choices
import TriggerLang.Proofs.Lowering.Local
/-!
# How a trigger is put together

A condition that compiles is evaluated first.  Then its value is put together to a trigger in one of
three ways: it is the core by itself, or it is a disjunction whose operands are the alternates, or
it is a conjunction in which disjunctions are multiplied out to alternates beside a core of the
other operands.

`compile_eq_ok_iff_assembly` says this once, so that no later proof opens the steps of the
compilation again.
-/

namespace TriggerLang

open TriggerLang.Expr

variable {scope : Scope}

namespace Trigger

/-- The three ways in which the groups of a trigger come from an evaluated condition. -/
inductive Assembly (scope : Scope) : Expr → Trigger → Prop
  /-- The condition is the core. -/
  | core {e : Expr} {g : Group} (hcore : group scope e = .ok g) : Assembly scope e ⟨g, []⟩
  /-- The condition is a disjunction, and its operands are the alternates. -/
  | alternates {s : Span} {es : List Expr} {groups : List Group}
      (hgroups : List.Forall₂ (fun e g => group scope e = .ok g) es groups) :
      Assembly scope (.join s .any es) ⟨[], groups⟩
  /-- The condition is a conjunction of disjunctions only. -/
  | distributed {s : Span} {es conditions : List Expr} {groups : List Group}
      (hors : es.any isOr = true) (hrest : es.filter (!·.isOr) = [])
      (hconditions : distribute scope.settings 0 (es.filter isOr) = .ok conditions)
      (hgroups : List.Forall₂ (fun e g => group scope e = .ok g) conditions groups) :
      Assembly scope (.join s .all es) ⟨[], groups⟩
  /-- The condition is a conjunction of disjunctions and of other operands, which are the core. -/
  | distributedBeside {s : Span} {es conditions : List Expr} {g : Group} {groups : List Group}
      (hors : es.any isOr = true) (hrest : es.filter (!·.isOr) ≠ [])
      (hcore : group scope (conjunction (es.filter (!·.isOr))) = .ok g)
      (hconditions : distribute scope.settings 0 (es.filter isOr) = .ok conditions)
      (hgroups : List.Forall₂ (fun e g => group scope e = .ok g) conditions groups) :
      Assembly scope (.join s .all es) ⟨g, groups⟩

/-- Conditions become alternates when each of them has a group, and the groups come after the others
in the same order. -/
theorem run_addAlternates_eq_ok_iff {es : List Expr} {t t' : Trigger} :
    (addAlternates scope es).run t = .ok () t' ↔
      ∃ groups, List.Forall₂ (fun e g => group scope e = .ok g) es groups ∧
        t' = ⟨t.core, t.alternates ++ groups⟩ := by
  show addAlternates scope es t = .ok () t' ↔ _
  rw [addAlternates]
  cases heach : (lowerEach scope es).run t.alternates with
  | error d alternates =>
    constructor
    · nofun
    · rintro ⟨groups, hgroups, -⟩
      rw [run_lowerEach_eq_ok_iff.2 ⟨groups, hgroups, rfl⟩] at heach
      cases heach
  | ok u alternates =>
    obtain ⟨groups, hgroups, rfl⟩ := run_lowerEach_eq_ok_iff.1 heach
    constructor
    · intro h
      cases h
      exact ⟨groups, hgroups, rfl⟩
    · rintro ⟨groups', hgroups', rfl⟩
      have heach' : (lowerEach scope es).run t.alternates = .ok () (t.alternates ++ groups') :=
        run_lowerEach_eq_ok_iff.2 ⟨groups', hgroups', rfl⟩
      rw [heach, EStateM.Result.ok.injEq] at heach'
      rw [heach'.2]

/-- A condition with a group makes the group the core of an empty trigger. -/
private theorem run_extendCore_eq_ok_iff {e : Expr} {t : Trigger} :
    (do extendCore (← Building.ofOutcome (group scope e)) : Building Trigger Unit).run .empty =
      .ok () t ↔ ∃ g, group scope e = .ok g ∧ t = ⟨g, []⟩ := by
  rw [Building.run_bind_eq_ok_iff]
  constructor
  · rintro ⟨g, t₁, hgroup, hextend⟩
    obtain ⟨hg, rfl⟩ := Building.run_ofOutcome_eq_ok_iff.1 hgroup
    cases hextend
    exact ⟨g, hg, rfl⟩
  · rintro ⟨g, hg, rfl⟩
    exact ⟨g, .empty, Building.run_ofOutcome_eq_ok_iff.2 ⟨hg, rfl⟩, rfl⟩

/-- Disjunctions are multiplied out to conditions, whose groups become alternates. -/
theorem run_addDistributed_eq_ok_iff {ors : List Expr} {t t' : Trigger} :
    (addDistributed scope ors).run t = .ok () t' ↔
      ∃ conditions groups, distribute scope.settings t.alternates.length ors = .ok conditions ∧
        List.Forall₂ (fun e g => group scope e = .ok g) conditions groups ∧
        t' = ⟨t.core, t.alternates ++ groups⟩ := by
  rw [run_addDistributed]
  constructor
  · intro h
    obtain ⟨conditions, t₁, hdistribute, hadd⟩ := Building.run_bind_eq_ok_iff.1 h
    obtain ⟨hconditions, rfl⟩ := Building.run_ofOutcome_eq_ok_iff.1 hdistribute
    obtain ⟨groups, hgroups, rfl⟩ := run_addAlternates_eq_ok_iff.1 hadd
    exact ⟨conditions, groups, hconditions, hgroups, rfl⟩
  · rintro ⟨conditions, groups, hconditions, hgroups, rfl⟩
    have hadd := run_addAlternates_eq_ok_iff (t := t).2 ⟨groups, hgroups, rfl⟩
    exact Building.run_bind_eq_ok_iff.2
      ⟨conditions, _, Building.run_ofOutcome_eq_ok_iff.2 ⟨hconditions, rfl⟩, hadd⟩

/-- A conjunction with disjunctions adds rows to the core and then multiplies them out. -/
theorem run_addGroups_all_eq_ok_iff {s : Span} {es : List Expr} (hors : es.any isOr = true)
    {t t' : Trigger} :
    (addGroups scope (.join s .all es)).run t = .ok () t' ↔
      ∃ g, group scope (conjunction (es.filter (!·.isOr))) = .ok g ∧
        (addDistributed scope (es.filter isOr)).run ⟨t.core ++ g, t.alternates⟩ = .ok () t' := by
  constructor
  · intro h
    rw [addGroups_all hors] at h
    obtain ⟨g, t₁, hgroup, hextended⟩ := Building.run_bind_eq_ok_iff.1 h
    obtain ⟨hg, rfl⟩ := Building.run_ofOutcome_eq_ok_iff.1 hgroup
    exact ⟨g, hg, hextended⟩
  · rintro ⟨g, hg, hdistributed⟩
    rw [run_addGroups_all_of_group hors hg]
    exact hdistributed

/-- The groups of a conjunction with disjunctions come about in one of two ways. -/
theorem assembly_of_addGroups_all {s : Span} {es : List Expr} (hors : es.any isOr = true)
    {t : Trigger} (h : (addGroups scope (.join s .all es)).run .empty = .ok () t) :
    Assembly scope (.join s .all es) t := by
  obtain ⟨g, hg, hdistributed⟩ := (run_addGroups_all_eq_ok_iff hors).1 h
  obtain ⟨conditions, groups, hconditions, hgroups, rfl⟩ :=
    run_addDistributed_eq_ok_iff.1 hdistributed
  by_cases hrest : es.filter (!·.isOr) = []
  · rw [hrest, group_conjunction_nil] at hg
    obtain rfl := Except.ok.inj hg
    exact .distributed hors hrest hconditions hgroups
  · exact .distributedBeside hors hrest hg hconditions hgroups

/-- The groups of an evaluated condition come about in one of the three ways. -/
theorem assembly_of_addGroups {e : Expr} {t : Trigger}
    (h : (addGroups scope e).run .empty = .ok () t) : Assembly scope e t := by
  unfold addGroups at h
  split at h
  · obtain ⟨groups, hgroups, rfl⟩ := run_addAlternates_eq_ok_iff.1 h
    exact .alternates hgroups
  · rename_i s es
    split at h
    · rename_i hors
      exact assembly_of_addGroups_all hors (by rwa [addGroups, if_pos hors])
    · obtain ⟨g, hg, rfl⟩ := run_extendCore_eq_ok_iff.1 h
      exact .core hg
  · obtain ⟨g, hg, rfl⟩ := run_extendCore_eq_ok_iff.1 h
    exact .core hg

/-- A disjunction has no group of its own. -/
theorem isOr_eq_false_of_run_lower {e : Expr} {before after : List Row}
    (h : (lower scope e).run before = .ok () after) : e.isOr = false := by
  unfold isOr
  split
  · rw [lower, Building.run_within_eq_ok_iff] at h
    exact absurd h Building.run_fail_ne_ok
  · rfl

/-- No operand of a conjunction that has a group is a disjunction. -/
theorem any_isOr_eq_false_of_group {s : Span} {es : List Expr} {g : Group}
    (h : group scope (.join s .all es) = .ok g) : es.any isOr = false := by
  have hrun := Building.build_eq_ok_iff.1 h
  rw [lower, Building.run_within_eq_ok_iff] at hrun
  refine List.any_eq_false.2 fun e he => Bool.eq_false_iff.1 ?_
  obtain ⟨rows, rows', he⟩ := exists_run_lower_of_mem hrun e he
  exact isOr_eq_false_of_run_lower he

/-- Whatever comes about in one of the three ways is what the condition adds. -/
theorem addGroups_of_assembly {e : Expr} {t : Trigger} (h : Assembly scope e t) :
    (addGroups scope e).run .empty = .ok () t := by
  cases h with
  | core hcore =>
    have hrun := run_extendCore_eq_ok_iff.2 ⟨_, hcore, rfl⟩
    unfold addGroups
    split
    · exact Bool.noConfusion (isOr_eq_false_of_run_lower (Building.build_eq_ok_iff.1 hcore))
    · rw [if_neg (Bool.eq_false_iff.1 (any_isOr_eq_false_of_group hcore))]
      exact hrun
    · exact hrun
  | alternates hgroups => exact run_addAlternates_eq_ok_iff.2 ⟨_, hgroups, rfl⟩
  | distributed hors hrest hconditions hgroups =>
    exact (run_addGroups_all_eq_ok_iff hors).2 ⟨[], by rw [hrest, group_conjunction_nil],
      run_addDistributed_eq_ok_iff.2 ⟨_, _, hconditions, hgroups, rfl⟩⟩
  | distributedBeside hors hrest hcore hconditions hgroups =>
    exact (run_addGroups_all_eq_ok_iff hors).2 ⟨_, hcore,
      run_addDistributed_eq_ok_iff.2 ⟨_, _, hconditions, hgroups, rfl⟩⟩

/-- A condition is added if its groups are and leave no more alternates than the limit. -/
theorem run_addCondition_eq_ok_iff {e : Expr} {t t' : Trigger} :
    (addCondition scope e).run t = .ok () t' ↔
      (addGroups scope e).run t = .ok () t' ∧
        t'.alternates.length ≤ scope.settings.alternateLimit := by
  rw [addCondition, Building.run_bind_eq_ok_iff]
  constructor
  · rintro ⟨⟨⟩, t₁, hgroups, hrest⟩
    obtain ⟨t₂, t₃, hget, hcheck⟩ := Building.run_bind_eq_ok_iff.1 hrest
    cases hget
    obtain ⟨hlimit, rfl⟩ := Scope.run_requireAlternates_eq_ok_iff.1 hcheck
    exact ⟨hgroups, hlimit⟩
  · rintro ⟨hgroups, hlimit⟩
    exact ⟨(), t', hgroups, Building.run_bind_eq_ok_iff.2
      ⟨t', t', rfl, Scope.run_requireAlternates_eq_ok_iff.2 ⟨hlimit, rfl⟩⟩⟩

/-- The triggers that a condition by itself is put together to. -/
theorem build_addCondition_eq_ok_iff {e : Expr} {t : Trigger} :
    (addCondition scope e).build .empty = .ok t ↔
      Assembly scope e t ∧ t.alternates.length ≤ scope.settings.alternateLimit := by
  rw [Building.build_eq_ok_iff, run_addCondition_eq_ok_iff]
  exact and_congr_left fun _ => ⟨assembly_of_addGroups, addGroups_of_assembly⟩

end Trigger

/-- A condition compiles when it has a value in a trigger clause whose groups can be built, and
which has no more alternates than the limit. -/
theorem compile_eq_ok_iff {e : Expr} {t : Trigger} :
    compile scope e = .ok t ↔
      ∃ v, evaluate scope.clause e = .ok v ∧
        (Trigger.addGroups scope.clause v).run .empty = .ok () t ∧
        t.alternates.length ≤ scope.settings.alternateLimit := by
  rw [compile, Outcome.bind_eq_ok_iff]
  exact exists_congr fun v => and_congr_right fun _ =>
    Building.build_eq_ok_iff.trans Trigger.run_addCondition_eq_ok_iff

/-- A condition compiles when it has a value in a trigger clause from which a trigger is put
together that has no more alternates than the limit. -/
theorem compile_eq_ok_iff_assembly {e : Expr} {t : Trigger} :
    compile scope e = .ok t ↔
      ∃ v, evaluate scope.clause e = .ok v ∧ Trigger.Assembly scope.clause v t ∧
        t.alternates.length ≤ scope.settings.alternateLimit := by
  rw [compile, Outcome.bind_eq_ok_iff]
  exact exists_congr fun v => and_congr_right fun _ => Trigger.build_addCondition_eq_ok_iff

end TriggerLang
