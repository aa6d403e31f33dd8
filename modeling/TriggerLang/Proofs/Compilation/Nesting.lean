import TriggerLang.Proofs.Compilation.Limits
import TriggerLang.Proofs.Evaluation.Flat
import TriggerLang.Proofs.Tree
/-!
# Nested disjunctions

A disjunction becomes alternates, and a disjunction below an outer conjunction is multiplied out.
Nothing else can be done with a disjunction: one that stands below a conjunction which is itself
below a disjunction has no rows and no alternates of its own.

This module shows that such nesting is all that compilation refuses, as far as conditions that count
no hits and guard nothing are concerned and the limit on alternates leaves room
(`compile_condition_iff`).  The shape is that of the value of the condition, which evaluation has
flattened.

A computation here either succeeds or fails for one and the same reason, depending on whether a
proposition holds (`Building.FailsIff`).
-/

namespace TriggerLang

/-! ### Computations that fail for one reason -/

namespace Building

variable {σ α β : Type}

/-- From a state, the computation fails with the cause if the proposition holds, and succeeds if it
does not. -/
def FailsIff (x : Building σ α) (s : σ) (cause : Cause) (p : Prop) : Prop :=
  (p ∧ ∃ d t, x.run s = .error d t ∧ d.cause = cause) ∨ ¬ p ∧ ∃ a t, x.run s = .ok a t

variable {x : Building σ α} {s : σ} {cause : Cause} {p q : Prop}

/-- The proposition may be replaced by an equivalent one. -/
theorem FailsIff.congr (h : x.FailsIff s cause p) (hpq : p ↔ q) : x.FailsIff s cause q := by
  rwa [FailsIff, hpq] at h

/-- A computation that succeeds fails under no condition. -/
theorem failsIff_of_ok {t : σ} {a : α} (h : x.run s = .ok a t) : x.FailsIff s cause False :=
  .inr ⟨not_false, a, t, h⟩

/-- A failure fails under every condition. -/
theorem failsIff_fail (s : σ) (cause : Cause) :
    (fail cause : Building σ α).FailsIff s cause True :=
  .inl ⟨trivial, { cause }, s, rfl, rfl⟩

/-- A place does not change whether and why a computation fails. -/
theorem FailsIff.within (h : x.FailsIff s cause p) (place : Span) :
    (x.within place).FailsIff s cause p := by
  obtain ⟨hp, d, t, hrun, hcause⟩ | ⟨hp, a, t, hrun⟩ := h
  · exact .inl ⟨hp, d.within place, t, run_within_eq_error_iff.2 ⟨d, hrun, rfl⟩,
      (d.cause_within place).trans hcause⟩
  · exact .inr ⟨hp, a, t, run_within_eq_ok_iff.2 hrun⟩

/-- One computation after another fails if the first one does, or else the second one. -/
theorem FailsIff.bind {f : α → Building σ β} (h : x.FailsIff s cause p)
    (hf : ∀ a t, x.run s = .ok a t → (f a).FailsIff t cause q) :
    (x >>= f).FailsIff s cause (p ∨ q) := by
  obtain ⟨hp, d, t, hrun, hcause⟩ | ⟨hp, a, t, hrun⟩ := h
  · exact .inl ⟨.inl hp, d, t, run_bind_of_error hrun, hcause⟩
  · rw [FailsIff, run_bind_of_ok hrun]
    obtain ⟨hq, h⟩ | ⟨hq, h⟩ := hf a t hrun
    · exact .inl ⟨.inr hq, h⟩
    · exact .inr ⟨not_or_intro hp hq, h⟩

/-- Computations that run alike fail alike. -/
theorem FailsIff.of_run_eq {y : Building σ α} {t : σ} (h : x.run s = y.run t)
    (hy : y.FailsIff t cause p) : x.FailsIff s cause p := by
  rwa [FailsIff, h]

/-- What comes after a computation that succeeds decides. -/
theorem FailsIff.of_bind_ok {f : α → Building σ β} {t : σ} {a : α} (h : x.run s = .ok a t)
    (hf : (f a).FailsIff t cause p) : (x >>= f).FailsIff s cause p :=
  .of_run_eq (run_bind_of_ok h) hf

/-- What is built by a computation is missing exactly when it fails. -/
theorem FailsIff.build {x : Building σ Unit} (h : x.FailsIff s cause p) :
    (p ∧ ∃ d, x.build s = .error d ∧ d.cause = cause) ∨ ¬ p ∧ ∃ t, x.build s = .ok t := by
  obtain ⟨hp, d, t, hrun, hcause⟩ | ⟨hp, a, t, hrun⟩ := h
  · exact .inl ⟨hp, d, build_eq_error_iff.2 ⟨t, hrun⟩, hcause⟩
  · exact .inr ⟨hp, t, build_eq_ok_iff.2 hrun⟩

/-- A computation by itself fails within another one as it does alone. -/
theorem FailsIff.ofOutcome_build {τ : Type} {x : Building σ Unit} (h : x.FailsIff s cause p)
    (t : τ) : (ofOutcome (x.build s) : Building τ σ).FailsIff t cause p := by
  obtain ⟨hp, d, hbuild, hcause⟩ | ⟨hp, s', hbuild⟩ := h.build
  · rw [hbuild]
    exact .inl ⟨hp, d, t, rfl, hcause⟩
  · rw [hbuild]
    exact .inr ⟨hp, s', t, rfl⟩

end Building

namespace Expr

variable {e v : Expr} {s : Span} {c : Connective} {es : List Expr}

/-! ### Disjunctions below conjunctions below disjunctions -/

/-- A disjunction is a part of the expression. -/
def HasOr (e : Expr) : Prop :=
  ∃ s es, (Expr.join s .any es).IsPartOf e

/-- A conjunction with a disjunction below it is a part of the expression. -/
def HasOrBelowAnd (e : Expr) : Prop :=
  ∃ s es, (Expr.join s .all es).IsPartOf e ∧ (Expr.join s .all es).HasOr

/-- A disjunction with a conjunction below it that has a disjunction below is a part of the
expression. -/
def HasNestedOr (e : Expr) : Prop :=
  ∃ s es, (Expr.join s .any es).IsPartOf e ∧ (Expr.join s .any es).HasOrBelowAnd

/-- A disjunction in a part is one in the whole. -/
theorem HasOr.of_isPartOf {part : Expr} (h : part.HasOr) (hpart : part.IsPartOf e) : e.HasOr := by
  obtain ⟨s, es, h⟩ := h
  exact ⟨s, es, h.trans hpart⟩

/-- A nested disjunction is a disjunction. -/
theorem HasNestedOr.hasOr (h : e.HasNestedOr) : e.HasOr := by
  obtain ⟨s, es, h, -⟩ := h
  exact ⟨s, es, h⟩

/-- An expression has a disjunction if it is one or if one stands below it. -/
theorem hasOr_iff : e.HasOr ↔ e.isOr = true ∨ ∃ c ∈ e.children, c.HasOr := by
  constructor
  · rintro ⟨s, es, h⟩
    obtain rfl | ⟨c, hc, h⟩ := isPartOf_iff.1 h
    · exact .inl rfl
    · exact .inr ⟨c, hc, s, es, h⟩
  · rintro (h | ⟨c, hc, h⟩)
    · cases e with
      | join s c es =>
        cases c with
        | all => cases h
        | any => exact ⟨s, es, .refl _⟩
      | _ => cases h
    · exact h.of_isPartOf (.of_mem_children hc (.refl c))

/-- A conjunction has a disjunction if one of its operands does. -/
theorem hasOr_all_iff : (Expr.join s .all es).HasOr ↔ ∃ e ∈ es, e.HasOr := by
  rw [hasOr_iff]
  exact or_iff_right Bool.false_ne_true

/-- The conjunction of conditions has a disjunction if one of them does. -/
theorem hasOr_conjunction_iff : (conjunction es).HasOr ↔ ∃ e ∈ es, e.HasOr := by
  unfold conjunction
  split
  · simp
  · exact hasOr_all_iff

/-- A leaf has no disjunction unless it is an empty one. -/
theorem not_hasOr_of_leaf (hleaf : e.children = []) (h : e.isOr = false) : ¬ e.HasOr := by
  rw [hasOr_iff, hleaf, h]
  simp

/-- A comparison of operands without disjunctions has none. -/
theorem not_hasOr_compare {relation : Relation} {left right : Expr} (hleft : ¬ left.HasOr)
    (hright : ¬ right.HasOr) : ¬ (Expr.compare s relation left right).HasOr := by
  rw [hasOr_iff]
  simp [isOr, children, hleft, hright]

/-- Atoms of conditions have no disjunctions. -/
theorem IsAtom.not_hasOr (h : e.IsAtom) : ¬ e.HasOr := by
  have hread (s : Span) (m : MemoryRead) : ¬ (Expr.read s m).HasOr := not_hasOr_of_leaf rfl rfl
  cases h with
  | bool | always => exact not_hasOr_of_leaf rfl rfl
  | compareInt => exact not_hasOr_compare (hread _ _) (not_hasOr_of_leaf rfl rfl)
  | compareReads => exact not_hasOr_compare (hread _ _) (hread _ _)

/-- A flat operand of a disjunction has a disjunction below a conjunction if it has one at all. -/
theorem IsFlat.hasOrBelowAnd_iff (h : e.IsFlat) (hoperand : e.IsOperandOf .any) :
    e.HasOrBelowAnd ↔ e.HasOr := by
  constructor
  · rintro ⟨s, es, hpart, hor⟩
    exact hor.of_isPartOf hpart
  · intro hor
    cases h with
    | atom h => exact absurd hor h.not_hasOr
    | join s c =>
      cases c with
      | all => exact ⟨s, _, .refl _, hor⟩
      | any => exact absurd rfl hoperand

/-- A flat disjunction is nested if one of its operands has a disjunction. -/
theorem hasNestedOr_any_iff (hes : ∀ e ∈ es, e.IsFlat) (hoperands : ∀ e ∈ es, e.IsOperandOf .any) :
    (Expr.join s .any es).HasNestedOr ↔ ∃ e ∈ es, e.HasOr := by
  constructor
  · rintro ⟨s', es', hpart, s'', es'', hbelow, hor⟩
    obtain heq | ⟨e, he, hpart⟩ := isPartOf_iff.1 hpart
    · cases heq
      obtain heq | ⟨e, he, hbelow⟩ := isPartOf_iff.1 hbelow
      · cases heq
      · exact ⟨e, he, hor.of_isPartOf hbelow⟩
    · exact ⟨e, he, s', es', hpart⟩
  · rintro ⟨e, he, hor⟩
    obtain ⟨s', es', hbelow, hor⟩ := ((hes e he).hasOrBelowAnd_iff (hoperands e he)).2 hor
    exact ⟨s, es, .refl _, s', es', .of_mem_children he hbelow, hor⟩

/-- An operand of a flat conjunction is a flat disjunction, or it has no disjunction. -/
theorem IsFlat.cases_under_all (h : e.IsFlat) (hoperand : e.IsOperandOf .all) :
    (e.isOr = false ∧ ¬ e.HasOr) ∨
    ∃ s es, e = .join s .any es ∧ es ≠ [] ∧ (∀ o ∈ es, o.IsFlat) ∧
      ∀ o ∈ es, o.IsOperandOf .any := by
  cases h with
  | atom h => exact .inl ⟨Bool.eq_false_iff.2 fun hisOr => h.not_hasOr (hasOr_iff.2 (.inl hisOr)),
      h.not_hasOr⟩
  | @join s c es hlength hes hoperands =>
    cases c with
    | all => exact absurd rfl hoperand
    | any =>
      refine .inr ⟨s, es, rfl, ?_, hes, hoperands⟩
      rintro rfl
      exact absurd hlength (by decide)

/-- A flat operand of a conjunction is nested if it is a disjunction with an operand that has one.
-/
theorem IsFlat.hasNestedOr_iff (h : e.IsFlat) (hoperand : e.IsOperandOf .all) :
    e.HasNestedOr ↔ e.isOr = true ∧ ∃ o ∈ e.operands, o.HasOr := by
  obtain ⟨hisOr, hor⟩ | ⟨s, es, rfl, -, hes, hoperands⟩ := h.cases_under_all hoperand
  · exact iff_of_false (fun hnested => hor hnested.hasOr)
      fun hoperands => Bool.false_ne_true (hisOr.symm.trans hoperands.1)
  · exact (hasNestedOr_any_iff hes hoperands).trans (and_iff_right rfl).symm

/-- A flat conjunction is nested if an operand of one of its disjunctions has a disjunction. -/
theorem hasNestedOr_all_iff (hes : ∀ e ∈ es, e.IsFlat) (hoperands : ∀ e ∈ es, e.IsOperandOf .all) :
    (Expr.join s .all es).HasNestedOr ↔ ∃ o ∈ es.filter isOr, ∃ e ∈ o.operands, e.HasOr := by
  constructor
  · rintro ⟨s', es', hpart, hbelow⟩
    obtain heq | ⟨o, ho, hpart⟩ := isPartOf_iff.1 hpart
    · cases heq
    · have hnested : o.HasNestedOr := ⟨s', es', hpart, hbelow⟩
      obtain ⟨hisOr, hor⟩ := ((hes o ho).hasNestedOr_iff (hoperands o ho)).1 hnested
      exact ⟨o, List.mem_filter.2 ⟨ho, hisOr⟩, hor⟩
  · rintro ⟨o, ho, hor⟩
    obtain ⟨ho, hisOr⟩ := List.mem_filter.1 ho
    obtain ⟨s', es', hpart, hbelow⟩ :=
      ((hes o ho).hasNestedOr_iff (hoperands o ho)).2 ⟨hisOr, hor⟩
    exact ⟨s', es', .of_mem_children ho hpart, hbelow⟩

/-! ### Lowering -/

variable {scope : Scope}

/-- The condition is lowered, wherever rows are emitted, unless it has a disjunction. -/
def LowersUnlessOr (scope : Scope) (e : Expr) : Prop :=
  ∀ before, (lower scope e).FailsIff before .nestedOr e.HasOr

/-- An atom is lowered everywhere. -/
theorem IsAtom.lowersUnlessOr (h : e.IsAtom) : e.LowersUnlessOr scope := by
  intro before
  have hlower : (lower scope e).FailsIff before .nestedOr False := by
    cases h <;> exact Building.failsIff_of_ok rfl
  exact hlower.congr (iff_of_false not_false h.not_hasOr)

/-- Conjoined conditions are lowered unless one of them has a disjunction. -/
theorem failsIff_lowerAll (hes : ∀ e ∈ es, e.LowersUnlessOr scope) (before : List Row) :
    (lowerAll scope es).FailsIff before .nestedOr (∃ e ∈ es, e.HasOr) := by
  induction es generalizing before with
  | nil => exact (Building.failsIff_of_ok rfl).congr (by simp)
  | cons e es ih =>
    obtain ⟨he, hes⟩ := List.forall_mem_cons.1 hes
    cases es with
    | nil => exact (he before).congr (by simp)
    | cons e' es =>
      rw [lowerAll, List.exists_mem_cons_iff]
      exact (he before).bind fun _ _ _ => .of_bind_ok rfl (ih hes _)

/-- Conditions have a group each unless one of them has a disjunction. -/
theorem failsIff_lowerEach (hes : ∀ e ∈ es, e.LowersUnlessOr scope) (before : List Group) :
    (lowerEach scope es).FailsIff before .nestedOr (∃ e ∈ es, e.HasOr) := by
  induction es generalizing before with
  | nil => exact (Building.failsIff_of_ok rfl).congr (by simp)
  | cons e es ih =>
    obtain ⟨he, hes⟩ := List.forall_mem_cons.1 hes
    rw [lowerEach, List.exists_mem_cons_iff]
    exact ((he []).ofOutcome_build before).bind fun _ _ _ => .of_bind_ok rfl (ih hes _)

/-- A conjunction is lowered if its operands are, unless one of them has a disjunction. -/
theorem LowersUnlessOr.join_all (hes : ∀ e ∈ es, e.LowersUnlessOr scope) (s : Span) :
    (Expr.join s .all es).LowersUnlessOr scope := by
  intro before
  rw [lower]
  exact ((failsIff_lowerAll hes before).within s).congr hasOr_all_iff.symm

/-- The conjunction of conditions is lowered if they are, unless one of them has a disjunction. -/
theorem LowersUnlessOr.conjunction (hes : ∀ e ∈ es, e.LowersUnlessOr scope) :
    (conjunction es).LowersUnlessOr scope := by
  unfold Expr.conjunction
  split
  · exact hes _ (List.mem_singleton_self _)
  · exact .join_all hes .unknown

/-- A flat condition has no rows of its own exactly if it has a disjunction. -/
theorem IsFlat.lowersUnlessOr (h : e.IsFlat) : e.LowersUnlessOr scope := by
  induction h with
  | atom h => exact h.lowersUnlessOr
  | join s c hlength hes hoperands ih =>
    cases c with
    | all => exact .join_all ih s
    | any =>
      intro before
      rw [lower]
      exact ((Building.failsIff_fail before .nestedOr).within s).congr
        (iff_of_true trivial (hasOr_iff.2 (.inl rfl)))

/-- A condition that is lowered unless it has a disjunction, and has none, has a group. -/
theorem LowersUnlessOr.exists_group (h : e.LowersUnlessOr scope) (hor : ¬ e.HasOr) :
    ∃ g, group scope e = .ok g := by
  obtain ⟨hor', -⟩ | ⟨-, hg⟩ := (h []).build
  · exact absurd hor' hor
  · exact hg

/-! ### Disjunctions of a flat conjunction -/

/-- What stands beside the disjunctions of a flat conjunction has no disjunction. -/
theorem not_hasOr_of_mem_filter (hes : ∀ e ∈ es, e.IsFlat)
    (hoperands : ∀ e ∈ es, e.IsOperandOf .all) : ∀ e ∈ es.filter (!·.isOr), ¬ e.HasOr := by
  intro e he
  obtain ⟨he, hisOr⟩ := List.mem_filter.1 he
  obtain ⟨-, hor⟩ | ⟨s, es, rfl, -⟩ := (hes e he).cases_under_all (hoperands e he)
  · exact hor
  · cases hisOr

/-- The disjunctions of a flat conjunction have operands, all of them flat. -/
theorem operands_of_mem_filter (hes : ∀ e ∈ es, e.IsFlat)
    (hoperands : ∀ e ∈ es, e.IsOperandOf .all) :
    ∀ o ∈ es.filter isOr, o.operands ≠ [] ∧ ∀ e ∈ o.operands, e.IsFlat := by
  intro o ho
  obtain ⟨ho, hisOr⟩ := List.mem_filter.1 ho
  obtain ⟨hnot, -⟩ | ⟨s, es, rfl, hne, hflat, -⟩ := (hes o ho).cases_under_all (hoperands o ho)
  · exact absurd (hnot.symm.trans hisOr) Bool.false_ne_true
  · exact ⟨hne, hflat⟩

/-- Every operand of a disjunction is in one of the conjunctions that are multiplied out. -/
theorem exists_hasOr_selections_iff {ors : List Expr} (hors : ∀ o ∈ ors, o.operands ≠ []) :
    (∃ e ∈ (selections (ors.map operands)).map conjunction, e.HasOr) ↔
      ∃ o ∈ ors, ∃ e ∈ o.operands, e.HasOr := by
  have hne : ∀ xs ∈ ors.map operands, xs ≠ [] := by
    simpa using hors
  constructor
  · rintro ⟨_, hmem, hor⟩
    obtain ⟨c, hc, rfl⟩ := List.mem_map.1 hmem
    obtain ⟨e, he, hor⟩ := hasOr_conjunction_iff.1 hor
    obtain ⟨o, ho, he⟩ := exists_mem_operands hc he
    exact ⟨o, ho, e, he, hor⟩
  · rintro ⟨o, ho, e, he, hor⟩
    obtain ⟨c, hc, he⟩ := exists_mem_selections hne (List.mem_map_of_mem ho) he
    exact ⟨_, List.mem_map_of_mem hc, hasOr_conjunction_iff.2 ⟨e, he, hor⟩⟩

/-! ### Numbers of alternates -/

/-- The number of alternates of the trigger of an evaluated condition. -/
def alternateCount : Expr → Nat
  | .join _ .any es => es.length
  | .join _ .all es =>
      if es.any isOr then ((es.filter isOr).map (·.operands.length)).prod else 0
  | _ => 0

/-- Disjunctions are multiplied out to as many conditions as the numbers of their operands multiply
to. -/
theorem length_of_distribute {settings : Settings} {used : Nat} {ors conditions : List Expr}
    (h : distribute settings used ors = .ok conditions) :
    conditions.length = (ors.map (·.operands.length)).prod := by
  rw [(distribute_eq_ok_iff.1 h).2.2, List.length_map, length_selections, List.map_map]
  rfl

end Expr

open TriggerLang.Expr

variable {scope : Scope}

namespace Trigger

/-- A trigger has as many alternates as its value tells. -/
theorem Assembly.length_alternates {v : Expr} {t : Trigger} (h : Assembly scope v t) :
    t.alternates.length = v.alternateCount := by
  cases h with
  | core hcore =>
    cases v with
    | join s c es =>
      cases c with
      | all =>
        rw [alternateCount, any_isOr_eq_false_of_group hcore]
        rfl
      | any =>
        exact Bool.noConfusion (isOr_eq_false_of_run_lower (Building.build_eq_ok_iff.1 hcore))
    | _ => rfl
  | alternates hgroups => exact hgroups.length_eq.symm
  | distributed hors hrest hconditions hgroups =>
    rw [alternateCount, if_pos hors, ← length_of_distribute hconditions, hgroups.length_eq]
  | distributedBeside hors hrest hcore hconditions hgroups =>
    rw [alternateCount, if_pos hors, ← length_of_distribute hconditions, hgroups.length_eq]

/-! ### Triggers -/

variable {es : List Expr} {v : Expr}

/-- A condition becomes rows of the core unless it has a disjunction. -/
theorem failsIff_extendCore_group (h : v.LowersUnlessOr scope) (t : Trigger) :
    (do extendCore (← Building.ofOutcome (group scope v)) : Building Trigger Unit).FailsIff t
      .nestedOr v.HasOr := by
  have hbind := ((h []).ofOutcome_build t).bind (f := extendCore) (q := False)
    fun g t _ => Building.failsIff_of_ok rfl
  exact hbind.congr (or_iff_left id)

/-- Conditions become alternates unless one of them has a disjunction. -/
theorem failsIff_addAlternates (hes : ∀ e ∈ es, e.LowersUnlessOr scope) (t : Trigger) :
    (addAlternates scope es).FailsIff t .nestedOr (∃ e ∈ es, e.HasOr) := by
  obtain ⟨hor, d, alternates, hrun, hcause⟩ | ⟨hor, u, alternates, hrun⟩ :=
    failsIff_lowerEach hes t.alternates
  · refine .inl ⟨hor, d, ⟨t.core, alternates⟩, ?_, hcause⟩
    show addAlternates scope es t = _
    rw [addAlternates, hrun]
  · refine .inr ⟨hor, (), ⟨t.core, alternates⟩, ?_⟩
    show addAlternates scope es t = _
    rw [addAlternates, hrun]

/-- A flat conjunction with disjunctions is refused if an operand of one of them has a disjunction.
-/
theorem failsIff_addGroups_all {s : Span} (hes : ∀ e ∈ es, e.IsFlat)
    (hoperands : ∀ e ∈ es, e.IsOperandOf .all) (hors : es.any isOr = true)
    (hexpand : scope.settings.expandNestedOr = true)
    (hcount : (Expr.join s .all es).alternateCount ≤ scope.settings.alternateLimit) :
    (addGroups scope (.join s .all es)).FailsIff .empty .nestedOr
      (Expr.join s .all es).HasNestedOr := by
  have hflat := operands_of_mem_filter hes hoperands
  -- The operands without a disjunction are the core.
  have hrest : ∀ e ∈ es.filter (!·.isOr), e.LowersUnlessOr scope := fun e he =>
    (hes e (List.mem_filter.1 he).1).lowersUnlessOr
  have hnone : ¬ (conjunction (es.filter (!·.isOr))).HasOr := by
    rw [hasOr_conjunction_iff]
    rintro ⟨e, he, hor⟩
    exact not_hasOr_of_mem_filter hes hoperands e he hor
  obtain ⟨g, hg⟩ := (LowersUnlessOr.conjunction hrest).exists_group hnone
  -- The number of choices is within the limit.
  have hfits : FitsWithin scope.settings.alternateLimit 0 (es.filter isOr) := by
    refine .of_length_le (fun o ho => (hflat o ho).1) ?_
    rw [alternateCount, if_pos hors] at hcount
    rw [Nat.zero_add, length_selections, List.map_map]
    exact hcount
  have hdistribute := distribute_eq_ok_iff.2 ⟨fun _ => hexpand, hfits, rfl⟩
  have hlowers : ∀ e ∈ (selections ((es.filter isOr).map operands)).map conjunction,
      e.LowersUnlessOr scope := by
    intro e he
    obtain ⟨c, hc, rfl⟩ := List.mem_map.1 he
    refine .conjunction fun e he => ?_
    obtain ⟨o, ho, he⟩ := exists_mem_operands hc he
    exact ((hflat o ho).2 e he).lowersUnlessOr
  have hadd := failsIff_addAlternates hlowers ⟨[] ++ g, []⟩
  rw [exists_hasOr_selections_iff fun o ho => (hflat o ho).1,
    ← hasNestedOr_all_iff (s := s) hes hoperands] at hadd
  refine .of_run_eq (run_addGroups_all_of_group hors hg .empty) ?_
  refine .of_run_eq (run_addDistributed _ _) ?_
  exact .of_bind_ok (Building.run_ofOutcome_eq_ok_iff.2 ⟨hdistribute, rfl⟩) hadd

/-- A flat condition adds its groups, unless it has nested disjunctions. -/
theorem failsIff_addGroups (hv : v.IsFlat) (hexpand : scope.settings.expandNestedOr = true)
    (hcount : v.alternateCount ≤ scope.settings.alternateLimit) :
    (addGroups scope v).FailsIff .empty .nestedOr v.HasNestedOr := by
  have hlowers : v.LowersUnlessOr scope := hv.lowersUnlessOr
  have hcore := failsIff_extendCore_group hlowers .empty
  cases hv with
  | atom h =>
    have hgroups : addGroups scope v =
        (do extendCore (← Building.ofOutcome (group scope v))) := by
      cases h <;> rfl
    rw [hgroups]
    exact hcore.congr (iff_of_false h.not_hasOr fun hnested => h.not_hasOr hnested.hasOr)
  | @join s c es hlength hes hoperands =>
    cases c with
    | any =>
      rw [hasNestedOr_any_iff hes hoperands]
      exact failsIff_addAlternates (fun e he => (hes e he).lowersUnlessOr) .empty
    | all =>
      by_cases hors : es.any isOr = true
      · exact failsIff_addGroups_all hes hoperands hors hexpand hcount
      · have hnone : ¬ (Expr.join s .all es).HasOr := by
          have hfilter : es.filter (!·.isOr) = es := List.filter_eq_self.2 fun e he => by
            simpa using fun h => hors (List.any_eq_true.2 ⟨e, he, h⟩)
          rw [hasOr_all_iff, ← hfilter]
          rintro ⟨e, he, hor⟩
          exact not_hasOr_of_mem_filter hes hoperands e he hor
        rw [addGroups, if_neg hors]
        exact hcore.congr (iff_of_false hnone fun hnested => hnone hnested.hasOr)

/-- A flat condition is refused for nothing but nested disjunctions: the groups that it adds are no
more than the limit allows. -/
theorem failsIff_addCondition (hv : v.IsFlat) (hexpand : scope.settings.expandNestedOr = true)
    (hcount : v.alternateCount ≤ scope.settings.alternateLimit) :
    (addCondition scope v).FailsIff .empty .nestedOr v.HasNestedOr := by
  have hgroups := failsIff_addGroups hv hexpand hcount
  refine (hgroups.bind (q := False) fun _ t hrun => ?_).congr (or_iff_left id)
  have hlength : t.alternates.length ≤ scope.settings.alternateLimit :=
    (assembly_of_addGroups hrun).length_alternates ▸ hcount
  exact .of_bind_ok rfl
    (Building.failsIff_of_ok (Scope.run_requireAlternates_eq_ok_iff.2 ⟨hlength, rfl⟩))

end Trigger

/-- Every condition has a value.  Where disjunctions may be multiplied out and the limit leaves room
for the alternates of the value, the condition is refused exactly if the value has a disjunction
below a conjunction that is below a disjunction. -/
theorem compile_condition_iff (hscope : scope.HasBuiltins)
    (hexpand : scope.settings.expandNestedOr = true) {e : Expr} (he : e.IsCondition) :
    ∃ v, evaluate scope.clause e = .ok v ∧ ∀ limit, v.alternateCount ≤ limit →
      ((∃ t, compile (scope.withAlternateLimit limit) e = .ok t) ↔ ¬ v.HasNestedOr) ∧
      (v.HasNestedOr → ∃ d, compile (scope.withAlternateLimit limit) e = .error d ∧
        d.kind = .usage ∧
        d.message = "Nested OR conditions are not supported in this context") := by
  obtain ⟨v, hv, hflat⟩ := he.exists_isFlat (runBody scope.clause.remainingCalls) hscope.clause
  refine ⟨v, hv, fun limit hlimit => ?_⟩
  have hvalue : evaluate (scope.withAlternateLimit limit).clause e = .ok v :=
    evaluate_of_isDeepenedBy (scope.isDeepenedBy_withAlternateLimit limit).clause hv
  have hcompile : compile (scope.withAlternateLimit limit) e =
      (Trigger.addCondition (scope.withAlternateLimit limit).clause v).build .empty := by
    rw [compile, hvalue]
    rfl
  have hfails : (Trigger.addCondition (scope.withAlternateLimit limit).clause v).FailsIff .empty
      .nestedOr v.HasNestedOr := Trigger.failsIff_addCondition hflat hexpand hlimit
  rw [hcompile]
  obtain ⟨hnested, d, hd, hcause⟩ | ⟨hnested, t, ht⟩ := hfails.build
  · refine ⟨⟨?_, fun h => absurd hnested h⟩, fun _ => ⟨d, hd, ?_, ?_⟩⟩
    · rintro ⟨t, ht⟩
      cases ht.symm.trans hd
    · rw [Diagnostic.kind, hcause]
      rfl
    · rw [Diagnostic.message, hcause]
      rfl
  · exact ⟨⟨fun _ => hnested, fun _ => ⟨t, ht⟩⟩, fun h => absurd h hnested⟩

/-- Where four alternates are allowed and `is n` is `byte(n) == n`, `is 1 || is 2 && (is 3 || is 4)`
is refused, and `(is 1 || is 2 && is 3) && !(is 4 && is 5)` compiles to four alternates. -/
theorem compile_condition_iff_two_disjunctions :
    let is (n : Int32) : Expr :=
      .compare .unknown .equal (.call .unknown "byte" [.int n]) (.int n)
    let all (es : List Expr) : Expr := .join .unknown .all es
    let any (es : List Expr) : Expr := .join .unknown .any es
    let nested : Expr := any [is 1, all [is 2, any [is 3, is 4]]]
    let flat : Expr := all [any [is 1, all [is 2, is 3]], .negate .unknown [all [is 4, is 5]]]
    let root : Scope := .root {}
    let scope : Scope := root.withAlternateLimit 4
    (root.HasBuiltins ∧ root.settings.expandNestedOr = true ∧ nested.IsCondition ∧
      flat.IsCondition) ∧
    (∃ v, evaluate root.clause nested = .ok v ∧ v.HasNestedOr ∧
      ∃ d, compile scope nested = .error d ∧ d.kind = .usage ∧
        d.message = "Nested OR conditions are not supported in this context") ∧
    ∃ v t, evaluate root.clause flat = .ok v ∧ ¬ v.HasNestedOr ∧ compile scope flat = .ok t ∧
      t.alternates.length = 4 := by
  intro is all any nested flat root scope
  have his (n : Int32) : (is n).IsCondition := .compareInt _ _ _ _ ⟨_, rfl⟩
  have hnested : nested.IsCondition := by
    refine .join _ _ (List.forall_mem_cons.2 ⟨his 1, List.forall_mem_singleton.2 (.join _ _ ?_)⟩)
    refine List.forall_mem_cons.2 ⟨his 2, List.forall_mem_singleton.2 (.join _ _ ?_)⟩
    exact List.forall_mem_cons.2 ⟨his 3, List.forall_mem_singleton.2 (his 4)⟩
  have hflat : flat.IsCondition := by
    refine .join _ _ (List.forall_mem_cons.2 ⟨.join _ _ ?_, List.forall_mem_singleton.2
      (.negate _ (.join _ _ ?_))⟩)
    · refine List.forall_mem_cons.2 ⟨his 1, List.forall_mem_singleton.2 (.join _ _ ?_)⟩
      exact List.forall_mem_cons.2 ⟨his 2, List.forall_mem_singleton.2 (his 3)⟩
    · exact List.forall_mem_cons.2 ⟨his 4, List.forall_mem_singleton.2 (his 5)⟩
  have hscope : root.HasBuiltins := Scope.hasBuiltins_root {}
  have hnestedValue : evaluate root.clause nested = .ok _ := rfl
  have hflatValue : evaluate root.clause flat = .ok _ := rfl
  have hfails : compile scope nested = .error _ := rfl
  have hcompile : compile scope flat = .ok _ := rfl
  obtain ⟨v, hv, hrefused⟩ := compile_condition_iff hscope rfl hnested
  obtain ⟨w, hw, haccepted⟩ := compile_condition_iff hscope rfl hflat
  have hcount : v.alternateCount ≤ 4 := by
    cases hnestedValue.symm.trans hv
    decide
  have hcount' : w.alternateCount ≤ 4 := by
    cases hflatValue.symm.trans hw
    decide
  have hor : v.HasNestedOr := by
    by_contra h
    obtain ⟨t, ht⟩ := (hrefused 4 hcount).1.2 h
    cases hfails.symm.trans ht
  exact ⟨⟨hscope, rfl, hnested, hflat⟩, ⟨v, hv, hor, (hrefused 4 hcount).2 hor⟩,
    w, _, hw, (haccepted 4 hcount').1.1 ⟨_, hcompile⟩, hcompile, rfl⟩

end TriggerLang
