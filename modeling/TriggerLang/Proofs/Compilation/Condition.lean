import TriggerLang.Proofs.Compilation.Assembly
import TriggerLang.Proofs.Evaluation.Condition
import TriggerLang.Proofs.Lowering.Condition
/-!
# Meaning of compiled conditions

A trigger holds when its core does and, if there are alternates, one of them does too.  This module
shows that the trigger of a folded condition holds exactly when the condition is true: an outer
disjunction becomes the alternates, disjunctions under an outer conjunction are multiplied out, and
everything else is the core.

Together with the evaluation of source conditions this is the correctness of compilation: whatever
the settings are, a condition that compiles has a trigger that holds in the states of memory in
which the condition is true.
-/

namespace TriggerLang

namespace Trigger

variable {m : Memory}

/-- A trigger without alternates holds when its core does. -/
theorem holds_core (m : Memory) (g : Group) : holds m ⟨g, []⟩ = Group.holds m g := by
  simp [holds]

/-- Alternates that stand for conditions hold if one of the conditions is true. -/
theorem holds_of_map_eq {core : Group} {groups : List Group} {es : List Expr} (hne : es ≠ [])
    (h : groups.map (Group.holds m) = es.map (Expr.truthIn m)) :
    holds m ⟨core, groups⟩ = (Group.holds m core && es.any (Expr.truthIn m)) := by
  have hgroups : groups.isEmpty = false := by
    rw [List.isEmpty_eq_false_iff]
    rintro rfl
    exact hne (List.map_eq_nil_iff.1 h.symm)
  have hany : groups.any (Group.holds m) = es.any (Expr.truthIn m) := by
    have hid := congrArg (List.any · id) h
    rwa [List.any_map, List.any_map] at hid
  rw [holds, hgroups, hany]
  rfl

end Trigger

namespace Expr

/-! ### Conjunctions of choices -/

/-- The conjunction of conditions is true when all of them are, also where it is a single one
without a connective. -/
theorem truthIn_conjunction (m : Memory) (es : List Expr) :
    (conjunction es).truthIn m = es.all (truthIn m) := by
  unfold conjunction
  split
  · simp
  · exact truthIn_join_all m _ _

/-- The conjunction of folded conditions is folded. -/
theorem isFolded_conjunction {es : List Expr} (hne : es ≠ []) (hes : ∀ e ∈ es, e.IsFolded) :
    (conjunction es).IsFolded := by
  unfold conjunction
  split
  · exact hes _ List.mem_cons_self
  · exact .join .unknown .all hne hes

/-- A folded connective has operands, all of them folded. -/
theorem IsFolded.of_join {s : Span} {c : Connective} {es : List Expr}
    (h : (Expr.join s c es).IsFolded) : es ≠ [] ∧ ∀ e ∈ es, e.IsFolded := by
  cases h with
  | join _ _ hne hes => exact ⟨hne, hes⟩

/-- A folded disjunction is true when one of its operands is. -/
theorem IsFolded.truthIn_isOr (m : Memory) {e : Expr} (he : e.IsFolded) (h : e.isOr = true) :
    e.operands ≠ [] ∧ (∀ e' ∈ e.operands, e'.IsFolded) ∧
      e.truthIn m = e.operands.any (truthIn m) := by
  cases e with
  | join s c es =>
    obtain ⟨hne, hes⟩ := he.of_join
    cases c with
    | all => cases h
    | any => exact ⟨hne, hes, truthIn_join_any m s es⟩
  | _ => cases h

/-- The conjunctions that disjunctions are multiplied out to are folded, and one of them is true
exactly when all disjunctions are. -/
theorem any_truthIn_distribute {settings : Settings} {used : Nat} {ors es : List Expr}
    (hfolded : ∀ e ∈ ors, e.IsFolded) (hors : ∀ e ∈ ors, e.isOr = true) (hne : ors ≠ [])
    (h : distribute settings used ors = .ok es) :
    es ≠ [] ∧ (∀ e ∈ es, e.IsFolded) ∧
      ∀ m, es.any (truthIn m) = ors.all (truthIn m) := by
  have hoperands (m : Memory) (e : Expr) (he : e ∈ ors) :=
    (hfolded e he).truthIn_isOr m (hors e he)
  obtain ⟨hnonempty, hconjunctions⟩ :=
    exists_conjunction_of_distribute hne (fun o ho => (hoperands default o ho).1) h
  refine ⟨hnonempty, fun e he => ?_, fun m => ?_⟩
  · obtain ⟨c, rfl, hc, hmem⟩ := hconjunctions e he
    refine isFolded_conjunction hc fun e' he' => ?_
    obtain ⟨o, ho, he'⟩ := hmem e' he'
    exact (hoperands default o ho).2.1 e' he'
  · rw [(distribute_eq_ok_iff.1 h).2.2]
    calc ((selections (ors.map operands)).map conjunction).any (truthIn m)
        = (selections (ors.map operands)).any (·.all (truthIn m)) := by
          simp only [List.any_map, Function.comp_def, truthIn_conjunction]
      _ = (ors.map operands).all (·.any (truthIn m)) := any_all_selections _ _
      _ = ors.all (truthIn m) := by
          rw [List.all_map, Bool.eq_iff_iff, List.all_eq_true, List.all_eq_true]
          refine forall₂_congr fun e he => ?_
          rw [(hoperands m e he).2.2]
          rfl

/-- A conjunction may be read in two parts. -/
theorem all_truthIn_filter (m : Memory) (es : List Expr) :
    es.all (truthIn m) =
      ((es.filter (!·.isOr)).all (truthIn m) && (es.filter isOr).all (truthIn m)) := by
  induction es with
  | nil => rfl
  | cons e es ih =>
    rw [List.all_cons, ih]
    cases hor : e.isOr with
    | false => simp [hor, Bool.and_assoc]
    | true => simp [hor, Bool.and_left_comm]

end Expr

/-! ### Triggers of folded conditions -/

namespace Trigger

open TriggerLang.Expr

variable {scope : Scope}

/-- Beside a core, the alternates of multiplied out disjunctions hold if all disjunctions are true.
-/
theorem holds_of_distribute {ors conditions : List Expr} (hfolded : ∀ e ∈ ors, e.IsFolded)
    (hors : ∀ e ∈ ors, e.isOr = true) (hne : ors ≠ []) {used : Nat} {core : Group}
    {groups : List Group} (hconditions : distribute scope.settings used ors = .ok conditions)
    (hgroups : List.Forall₂ (fun e g => group scope e = .ok g) conditions groups) (m : Memory) :
    holds m ⟨core, groups⟩ = (Group.holds m core && ors.all (truthIn m)) := by
  obtain ⟨hne', hfolded', htruth⟩ := any_truthIn_distribute hfolded hors hne hconditions
  rw [holds_of_map_eq hne' (map_holds_of_forall₂_group hfolded' hgroups m), htruth m]

/-- The trigger of a folded condition holds when the condition is true, whichever way it is put
together. -/
theorem holds_of_assembly {e : Expr} (he : e.IsFolded) {t : Trigger} (h : Assembly scope e t)
    (m : Memory) : t.holds m = e.truthIn m := by
  have hfilter {es : List Expr} (hes : ∀ e ∈ es, e.IsFolded) (p : Expr → Bool) :
      ∀ e ∈ es.filter p, e.IsFolded := fun e he => hes e (List.mem_filter.1 he).1
  have hors (es : List Expr) : ∀ e ∈ es.filter isOr, e.isOr = true := fun e he =>
    (List.mem_filter.1 he).2
  cases h with
  | core hcore => exact (holds_core m _).trans (holds_of_group he hcore m)
  | @alternates s es groups hgroups =>
    obtain ⟨hne, hes⟩ := he.of_join
    rw [holds_of_map_eq hne (map_holds_of_forall₂_group hes hgroups m), truthIn_join_any]
    rfl
  | @distributed s es conditions groups hany hrest hconditions hgroups =>
    obtain ⟨-, hes⟩ := he.of_join
    rw [truthIn_join_all, all_truthIn_filter, hrest]
    exact holds_of_distribute (hfilter hes isOr) (hors es) (filter_isOr_ne_nil hany) hconditions
      hgroups m
  | @distributedBeside s es conditions g groups hany hrest hcore hconditions hgroups =>
    obtain ⟨-, hes⟩ := he.of_join
    have hholds : Group.holds m g = (es.filter (!·.isOr)).all (truthIn m) := by
      rw [holds_of_group (isFolded_conjunction hrest (hfilter hes _)) hcore, truthIn_conjunction]
    rw [truthIn_join_all, all_truthIn_filter, ← hholds]
    exact holds_of_distribute (hfilter hes isOr) (hors es) (filter_isOr_ne_nil hany) hconditions
      hgroups m

end Trigger

/-! ### Correctness of compilation -/

/-- The trigger of a compiled condition that evaluates to a folded one. -/
theorem holds_of_addCondition {scope : Scope} {e : Expr} (he : e.IsFolded) {t : Trigger}
    (h : (Trigger.addCondition scope e).build .empty = .ok t) (m : Memory) :
    t.holds m = e.truthIn m :=
  Trigger.holds_of_assembly he (Trigger.build_addCondition_eq_ok_iff.1 h).1 m

/-- Compilation is correct: the trigger of a condition holds in the states of memory in which the
condition is true. -/
theorem holds_compile_condition {scope : Scope} (hscope : scope.HasBuiltins) {e : Expr}
    (he : e.IsCondition) {t : Trigger} (h : compile scope e = .ok t) (m : Memory) :
    t.holds m = e.truthIn m := by
  obtain ⟨v, hv, hfolded, htruth⟩ :=
    he.hasFoldedValue (Expr.runBody scope.clause.remainingCalls) hscope.clause
  obtain ⟨v', hv', h⟩ := Outcome.bind_eq_ok_iff.1 h
  cases hv.symm.trans hv'
  rw [← htruth m]
  exact holds_of_addCondition hfolded h m

/-- A conjunction with two disjunctions, of which a negation makes one: six alternates. -/
theorem holds_compile_two_disjunctions :
    let m : Memory := ⟨fun _ _ address => address⟩
    let byte (address : Int32) : Expr := .call .unknown "byte" [.int address]
    let e : Expr := .join .unknown .all
      [.compare .unknown .equal (byte 1) (.int 1),
        .join .unknown .any [.compare .unknown .equal (byte 2) (.int 0),
          .compare .unknown .greater (.int 4) (byte 3)],
        .negate .unknown [.join .unknown .all [.compare .unknown .less (byte 4) (byte 5),
          .compare .unknown .equal (byte 6) (.int 7), .call .unknown "always_true" []]]]
    (Scope.root {}).HasBuiltins ∧ e.IsCondition ∧
      ∃ t, compile (.root {}) e = .ok t ∧ t.alternates.length = 6 ∧ t.holds m = true := by
  intro m byte e
  have hbyte (address : Int32) : (byte address).IsDirectRead := ⟨_, rfl⟩
  have he : e.IsCondition := by
    refine .join _ _ (List.forall_mem_cons.2 ⟨.compareInt _ _ _ _ (hbyte 1),
      List.forall_mem_cons.2 ⟨.join _ _ ?_, List.forall_mem_cons.2 ⟨.negate _ (.join _ _ ?_), ?_⟩⟩⟩)
    · exact List.forall_mem_cons.2 ⟨.compareInt _ _ _ _ (hbyte 2),
        List.forall_mem_cons.2 ⟨.intCompare _ _ _ _ (hbyte 3), nofun⟩⟩
    · exact List.forall_mem_cons.2 ⟨.compareReads _ _ (hbyte 4) (hbyte 5),
        List.forall_mem_cons.2 ⟨.compareInt _ _ _ _ (hbyte 6),
          List.forall_mem_cons.2 ⟨.constantCall _ true, nofun⟩⟩⟩
    · nofun
  have hcompile : compile (.root {}) e = .ok _ := rfl
  have htruth : e.truthIn m = true := by
    simp only [e, byte, m]
    decide +kernel
  exact ⟨Scope.hasBuiltins_root {}, he, _, hcompile, rfl,
    (holds_compile_condition (Scope.hasBuiltins_root {}) he hcompile m).trans htruth⟩

end TriggerLang
