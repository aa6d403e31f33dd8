import TriggerLang.Proofs.Compilation.Spans
import TriggerLang.Proofs.Evaluation.Grouping
/-!
# Grouping of operands in conditions

Grouping changes neither the value of an expression, up to spans, nor the rows of a conjunction that
was not evaluated again after its operands were grouped
(`regrouped_evaluates_and_lowers_alike`).  Such conjunctions arise where an outer conjunction is
multiplied out.

On rows the law is one about concatenation: two runs of conditions, one after the other, are joined
in between, and each of them is lowered as by itself (`lowerAll_append`).  A run without operands
would let the row before it be joined to the row after it, so that it cannot be left out.
-/

namespace TriggerLang.Expr

open Building

/-- Trees of conjunctions with operands over a sequence of operands.  A conjunction counts as an
operand too. -/
inductive IsGrouping : List Expr → List Expr → Prop
  | nil : IsGrouping [] []
  | operand (e : Expr) {trees operands : List Expr} (h : IsGrouping trees operands) :
      IsGrouping (e :: trees) (e :: operands)
  | group (s : Span) {es run trees operands : List Expr} (hne : es ≠ []) (hes : IsGrouping es run)
      (h : IsGrouping trees operands) : IsGrouping (.join s .all es :: trees) (run ++ operands)

/-- Trees over a sequence of operands are missing exactly when the operands are. -/
theorem IsGrouping.eq_nil_iff {trees operands : List Expr} (h : IsGrouping trees operands) :
    trees = [] ↔ operands = [] := by
  induction h with
  | nil => exact Iff.rfl
  | operand e h ih => exact iff_of_false (List.cons_ne_nil _ _) (List.cons_ne_nil _ _)
  | group s hne hes h ihes ih =>
    refine iff_of_false (List.cons_ne_nil _ _) fun hnil => ?_
    exact hne (ihes.2 (List.append_eq_nil_iff.1 hnil).1)

variable {scope : Scope}

/-- Two runs of conditions are lowered one after the other and joined in between. -/
theorem lowerAll_append {es es' : List Expr} (hes : es ≠ []) (hes' : es' ≠ []) :
    lowerAll scope (es ++ es') = (do
      lowerAll scope es
      Emission.joinNext
      lowerAll scope es') := by
  induction es with
  | nil => exact absurd rfl hes
  | cons e es ih =>
    cases es with
    | nil =>
      obtain ⟨e', es', rfl⟩ := List.exists_cons_of_ne_nil hes'
      rfl
    | cons e₂ es =>
      have hrest := ih (List.cons_ne_nil e₂ es)
      rw [List.cons_append] at hrest ⊢
      rw [List.cons_append, lowerAll, lowerAll, hrest]
      simp only [bind_assoc]

/-- Runs of conditions may be replaced by runs that lower alike, side by side. -/
theorem alike_lowerAll_append {es es' trees trees' : List Expr} (hnil : es = [] ↔ es' = [])
    (hnil' : trees = [] ↔ trees' = []) (hes : Alike (lowerAll scope es) (lowerAll scope es'))
    (htrees : Alike (lowerAll scope trees) (lowerAll scope trees')) :
    Alike (lowerAll scope (es ++ trees)) (lowerAll scope (es' ++ trees')) := by
  by_cases he : es = []
  · rwa [he, hnil.1 he]
  by_cases ht : trees = []
  · rwa [ht, hnil'.1 ht, List.append_nil, List.append_nil]
  rw [lowerAll_append he ht, lowerAll_append (fun h => he (hnil.2 h)) fun h => ht (hnil'.2 h)]
  exact hes.bind fun _ => (Alike.refl _).bind fun _ => htrees

/-- Trees of conjunctions are lowered like their operands. -/
theorem IsGrouping.alike_lowerAll {trees operands : List Expr} (h : IsGrouping trees operands) :
    Alike (lowerAll scope trees) (lowerAll scope operands) := by
  induction h with
  | nil => exact .refl _
  | @operand e trees operands h ih =>
    show Alike (lowerAll scope ([e] ++ trees)) (lowerAll scope ([e] ++ operands))
    exact alike_lowerAll_append Iff.rfl h.eq_nil_iff (.refl _) ih
  | @group s es run trees operands hne hes h ihes ih =>
    show Alike (lowerAll scope ([.join s .all es] ++ trees)) (lowerAll scope (run ++ operands))
    have hrun : run ≠ [] := fun hnil => hne (hes.eq_nil_iff.2 hnil)
    have hconjunction : Alike (lower scope (.join s .all es)) (lowerAll scope run) :=
      (alike_within s _).trans ihes
    exact alike_lowerAll_append (iff_of_false (List.cons_ne_nil _ _) hrun) h.eq_nil_iff
      hconjunction ih

/-- Grouping does not matter.  If the variables of a scope hold reduced values, then grouping a run
of operands of a connective, anywhere and any number of times, keeps the value up to spans, or the
reason of the failure.  Conjunctions with operands over the same sequence of operands emit the
same rows, and a failure of one of them is a failure of the other for the same reason. -/
theorem regrouped_evaluates_and_lowers_alike {scope : Scope}
    (hvariables : ∀ name value, scope.lookup? name = some value →
      value.Everywhere (IsReduced scope.names)) :
    (∀ e e', Relation.EqvGen (Rewrites GroupsRun) e e' →
        (evaluate scope e).MatchUpTo erase (evaluate scope e')) ∧
      ∀ e e' operands, IsGrouping [e] operands → IsGrouping [e'] operands →
        Alike (lower scope e) (lower scope e') := by
  refine ⟨fun e e' h => ?_, fun e e' operands he he' => ?_⟩
  · exact Outcome.matchUpTo_of_upTo_eq (upTo_evaluate_of_regrouped hvariables h)
  · exact he.alike_lowerAll.trans he'.alike_lowerAll.symm

/-- `!(x && c && byte(4) == 4)` and `!(x && (c && byte(4) == 4) && ())`, where `x` holds the
conjunction `byte(1) == 1 && byte(2) == 2` and `c` is `byte(3) == 3`, have one value without spans,
a disjunction of four comparisons.  The rows of `p && (q && r)` are those of `(p && q) && r`. -/
theorem regrouped_evaluates_and_lowers_alike_negated :
    let read (address : UInt32) : Expr := .read .unknown (.direct .byte address)
    let isEqual (address : UInt32) (n : Int32) : Expr :=
      .compare .unknown .equal (read address) (.int n)
    let value : Expr := .join .unknown .all [isEqual 1 1, isEqual 2 2]
    let scope := (Scope.root {}).setVariable "x" value
    let and (es : List Expr) : Expr := .join .unknown .all es
    let not (e : Expr) : Expr := .negate .unknown [e]
    let x : Expr := .var .unknown "x"
    let e := not (and [x, isEqual 3 3, isEqual 4 4])
    let e' := not (and [x, and [isEqual 3 3, isEqual 4 4], and []])
    let differs (address : UInt32) (n : Int32) : Expr :=
      .compare .unknown .notEqual (read address) (.int n)
    let flat := and [isEqual 1 1, isEqual 2 2, isEqual 3 3]
    let left := and [and [isEqual 1 1, isEqual 2 2], isEqual 3 3]
    let right := and [isEqual 1 1, and [isEqual 2 2, isEqual 3 3]]
    (∀ name value, scope.lookup? name = some value →
      value.Everywhere (IsReduced scope.names)) ∧
    (∃ v v', evaluate scope e = .ok v ∧ evaluate scope e' = .ok v' ∧ v.erase = v'.erase ∧
      v.erase = .join .unknown .any [differs 1 1, differs 2 2, differs 3 3, differs 4 4]) ∧
    (∃ rows, rows.length = 3 ∧ ((lower scope flat).outcome []).2 = rows ∧
      ((lower scope left).outcome []).2 = rows ∧ ((lower scope right).outcome []).2 = rows) := by
  intro read isEqual value scope and not x e e' differs flat left right
  have hcompare (address : UInt32) (n : Int32) :
      (isEqual address n).Everywhere (IsReduced scope.names) :=
    ⟨fun _ => rfl, List.forall_mem_cons.2
      ⟨.of_leaf rfl trivial, List.forall_mem_singleton.2 (.of_leaf rfl trivial)⟩⟩
  have hvariables : ∀ name value, scope.lookup? name = some value →
      value.Everywhere (IsReduced scope.names) := by
    intro name v h
    obtain ⟨-, rfl⟩ | h := Scope.lookup?_setVariable_eq_some h
    · exact ⟨⟨Nat.le_refl 2, List.forall_mem_cons.2 ⟨trivial, List.forall_mem_singleton.2 trivial⟩⟩,
        List.forall_mem_cons.2 ⟨hcompare 1 1, List.forall_mem_singleton.2 (hcompare 2 2)⟩⟩
    · cases h
  obtain ⟨hevaluate, hlower⟩ := regrouped_evaluates_and_lowers_alike hvariables
  let grouped := and [x, and [isEqual 3 3, isEqual 4 4]]
  have hgrouped : Rewrites GroupsRun e (not grouped) := by
    have hc : e.children = [] ++ and [x, isEqual 3 3, isEqual 4 4] :: [] := rfl
    exact .part hc (.whole (.intro .unknown .unknown .unknown .all
      [x] [isEqual 3 3, isEqual 4 4] []))
  have hempty : Rewrites GroupsRun (not grouped) e' := by
    have hc : (not grouped).children = [] ++ grouped :: [] := rfl
    exact .part hc (.whole (.intro .unknown .unknown .unknown .all
      [x, and [isEqual 3 3, isEqual 4 4]] [] []))
  have hflat : IsGrouping [flat] [isEqual 1 1, isEqual 2 2, isEqual 3 3] :=
    .group _ (List.cons_ne_nil _ _) (.operand _ (.operand _ (.operand _ .nil))) .nil
  have hleft : IsGrouping [left] [isEqual 1 1, isEqual 2 2, isEqual 3 3] :=
    .group _ (List.cons_ne_nil _ _) (.group _ (List.cons_ne_nil _ _)
      (.operand _ (.operand _ .nil)) (.operand _ .nil)) .nil
  have hright : IsGrouping [right] [isEqual 1 1, isEqual 2 2, isEqual 3 3] :=
    .group _ (List.cons_ne_nil _ _) (.operand _ (.group _ (List.cons_ne_nil _ _)
      (.operand _ (.operand _ .nil)) .nil)) .nil
  have hv : evaluate scope e = .ok _ := rfl
  refine ⟨hvariables, ?_, _, ?_, rfl, ((hlower _ _ _ hleft hflat) []).2,
    ((hlower _ _ _ hright hflat) []).2⟩
  · obtain ⟨_, v', hv₁, hv', herase⟩ | ⟨_, _, hfail, -⟩ :=
      hevaluate _ _ (.trans _ _ _ (.rel _ _ hgrouped) (.rel _ _ hempty))
    · cases hv.symm.trans hv₁
      exact ⟨_, v', hv, hv', herase, rfl⟩
    · cases hv.symm.trans hfail
  · rfl

end TriggerLang.Expr
