import TriggerLang.Proofs.Compilation.Assembly
/-!
# Multiplying out disjunctions

A conjunction with disjunctions adds one alternate for every way of taking one operand from each of
them.  Such a *choice* is told apart from others by the positions of its operands, since operands
may be equal.  The alternates stand in the lexicographic order of these positions.

The number of choices is checked while they are made, after each disjunction.  Every disjunction has
an operand, so the number never falls, and the checks on the way refuse nothing that the number of
all choices would let pass (`fitsWithin_iff_length_le`).
-/

namespace TriggerLang

open TriggerLang.Expr

namespace Expr

/-- One operand from each disjunction, with its position there. -/
def IsChoice (ors : List Expr) (c : List (Expr × Nat)) : Prop :=
  List.Forall₂ (fun b e => e.operands[b.2]? = some b.1) c ors

/-- The choices from disjunctions, one after another. -/
def numberedChoices (ors : List Expr) : List (List (Expr × Nat)) :=
  selections (ors.map fun e => e.operands.zipIdx)

variable {ors : List Expr}

/-- The numbered choices are exactly the choices of one operand from each disjunction. -/
theorem mem_numberedChoices_iff {c : List (Expr × Nat)} :
    c ∈ numberedChoices ors ↔ IsChoice ors c := by
  rw [numberedChoices, mem_selections_iff, List.forall₂_map_right_iff]
  simp only [List.mem_zipIdx_iff_getElem?]
  exact Iff.rfl

/-- The choices ascend in the order of their positions. -/
theorem pairwise_numberedChoices (ors : List Expr) :
    (numberedChoices ors).Pairwise (List.Lex fun b b' => b.2 < b'.2) := by
  refine pairwise_selections fun bs hbs => ?_
  obtain ⟨e, -, rfl⟩ := List.mem_map.1 hbs
  have hpositions : (e.operands.zipIdx.map Prod.snd).Pairwise (· < ·) := by
    rw [List.zipIdx_map_snd]
    exact List.pairwise_lt_range'
  exact List.pairwise_map.1 hpositions

/-- Without positions the choices are the selections. -/
theorem map_fst_numberedChoices (ors : List Expr) :
    (numberedChoices ors).map (List.map Prod.fst) = selections (ors.map operands) := by
  rw [numberedChoices, ← selections_map, List.map_map]
  congr 1
  exact List.map_congr_left fun e _ => List.zipIdx_map_fst 0 e.operands

/-- There are as many choices as the numbers of operands multiply to. -/
theorem length_numberedChoices (ors : List Expr) :
    (numberedChoices ors).length = (ors.map (·.operands.length)).prod := by
  rw [numberedChoices, length_selections, List.map_map]
  congr 1
  exact List.map_congr_left fun e _ => List.length_zipIdx

/-- The limit is checked on the number of all choices. -/
theorem fitsWithin_iff_prod_le {limit used : Nat} (hne : ors ≠ [])
    (hors : ∀ e ∈ ors, e.operands ≠ []) :
    FitsWithin limit used ors ↔ used + (ors.map (·.operands.length)).prod ≤ limit := by
  rw [fitsWithin_iff_length_le hne hors, ← length_numberedChoices, ← map_fst_numberedChoices,
    List.length_map]

end Expr

namespace Trigger

variable {scope : Scope} {ors : List Expr} {t : Trigger}

/-- If the choices fit and the conjunction of each of them has a group, these groups are added. -/
theorem run_addDistributed_of_fitsWithin
    (hseveral : 1 < ors.length → scope.settings.expandNestedOr = true)
    (hfits : FitsWithin scope.settings.alternateLimit t.alternates.length ors)
    (hgroups : ∀ c, IsChoice ors c →
      ∃ g, group scope (conjunction (c.map Prod.fst)) = .ok g) :
    ∃ groups, List.Forall₂ (fun c g => group scope (conjunction (c.map Prod.fst)) = .ok g)
        (numberedChoices ors) groups ∧
      (addDistributed scope ors).run t = .ok () ⟨t.core, t.alternates ++ groups⟩ := by
  have heach : ∀ c ∈ numberedChoices ors,
      ∃ g, group scope (conjunction (c.map Prod.fst)) = .ok g := fun c hc =>
    hgroups c (mem_numberedChoices_iff.1 hc)
  obtain ⟨groups, hlowered⟩ := exists_iff_forall₂.1 heach
  have hconditions : List.Forall₂ (fun e g => group scope e = .ok g)
      ((selections (ors.map operands)).map conjunction) groups := by
    rw [← map_fst_numberedChoices, List.map_map, List.forall₂_map_left_iff]
    exact hlowered
  have hdistribute := distribute_eq_ok_iff.2 ⟨hseveral, hfits, rfl⟩
  exact ⟨groups, hlowered,
    run_addDistributed_eq_ok_iff.2 ⟨_, groups, hdistribute, hconditions, rfl⟩⟩

/-- If the choices do not fit, nothing is added for them. -/
theorem run_addDistributed_of_not_fitsWithin
    (hseveral : 1 < ors.length → scope.settings.expandNestedOr = true)
    (hfits : ¬ FitsWithin scope.settings.alternateLimit t.alternates.length ors) :
    ∃ d, (addDistributed scope ors).run t = .error d t ∧ d.kind = .usage := by
  cases hdistribute : distribute scope.settings t.alternates.length ors with
  | ok conditions => exact absurd (distribute_eq_ok_iff.1 hdistribute).2.1 hfits
  | error d =>
    obtain ⟨count, -, hcause⟩ := cause_of_distribute_eq_error hseveral hdistribute
    refine ⟨d, ?_, by rw [Diagnostic.kind, hcause, Cause.kind]⟩
    rw [run_addDistributed, hdistribute]
    rfl

/-- A conjunction with disjunctions, none of them empty, is multiplied out precisely if the
alternates that are there and one for every choice are no more than the limit.  Its other operands
become rows of the core, and their conjunction has none if there are no others.  Beyond the limit it
adds no alternate and fails. -/
theorem addCondition_multiplies_out {s : Span} {es : List Expr} {core : Group}
    (hors : es.any isOr = true) (hoperands : ∀ e ∈ es, e.isOr = true → e.operands ≠ [])
    (hexpand : scope.settings.expandNestedOr = true ∨ (es.filter isOr).length = 1)
    (hcore : group scope (conjunction (es.filter (!·.isOr))) = .ok core)
    (hgroups : ∀ c, IsChoice (es.filter isOr) c →
      ∃ g, group scope (conjunction (c.map Prod.fst)) = .ok g) (t : Trigger) :
    let needed := t.alternates.length + ((es.filter isOr).map (·.operands.length)).prod
    (needed ≤ scope.settings.alternateLimit →
      ∃ choices groups,
        choices.Pairwise (List.Lex fun b b' => b.2 < b'.2) ∧
        (∀ c, c ∈ choices ↔ IsChoice (es.filter isOr) c) ∧
        List.Forall₂ (fun c g => group scope (conjunction (c.map Prod.fst)) = .ok g)
          choices groups ∧
        t.alternates.length + groups.length = needed ∧
        (addCondition scope (.join s .all es)).run t =
          .ok () ⟨t.core ++ core, t.alternates ++ groups⟩) ∧
    (scope.settings.alternateLimit < needed →
      ∃ d, (addCondition scope (.join s .all es)).run t =
          .error d ⟨t.core ++ core, t.alternates⟩ ∧ d.kind = .usage) := by
  intro needed
  have hnonempty : ∀ e ∈ es.filter isOr, e.operands ≠ [] := fun e he =>
    hoperands e (List.mem_filter.1 he).1 (List.mem_filter.1 he).2
  have hseveral : 1 < (es.filter isOr).length → scope.settings.expandNestedOr = true := fun h =>
    hexpand.resolve_right (Nat.ne_of_gt h)
  -- The checks on the way come down to one, of the number of all choices.
  have hfits : FitsWithin scope.settings.alternateLimit t.alternates.length (es.filter isOr) ↔
      needed ≤ scope.settings.alternateLimit :=
    fitsWithin_iff_prod_le (filter_isOr_ne_nil hors) hnonempty
  have hadded : (addGroups scope (.join s .all es)).run t =
      (addDistributed scope (es.filter isOr)).run ⟨t.core ++ core, t.alternates⟩ :=
    run_addGroups_all_of_group hors hcore t
  refine ⟨fun hle => ?_, fun hlt => ?_⟩
  · obtain ⟨groups, hlowered, hrun⟩ := run_addDistributed_of_fitsWithin
      (t := ⟨t.core ++ core, t.alternates⟩) hseveral (hfits.2 hle) hgroups
    have hlength : t.alternates.length + groups.length = needed := by
      rw [← hlowered.length_eq, length_numberedChoices]
    have hlimit : (t.alternates ++ groups).length ≤ scope.settings.alternateLimit := by
      rw [List.length_append, hlength]
      exact hle
    refine ⟨numberedChoices (es.filter isOr), groups, pairwise_numberedChoices _,
      fun c => mem_numberedChoices_iff, hlowered, hlength, ?_⟩
    exact run_addCondition_eq_ok_iff.2 ⟨hadded.trans hrun, hlimit⟩
  · obtain ⟨d, hrun, hkind⟩ := run_addDistributed_of_not_fitsWithin
      (t := ⟨t.core ++ core, t.alternates⟩) hseveral fun h => Nat.not_lt_of_le (hfits.1 h) hlt
    refine ⟨d, ?_, hkind⟩
    rw [addCondition, Building.run_bind_of_error (hadded.trans hrun)]

/-- `is 1 && (is 2 || is 3) && (is 4 || is 5 || is 6)`, where `is n` is `byte(n) == n`, adds six
alternates where seven are allowed and there is one.  None is added where six are allowed. -/
theorem addCondition_multiplies_out_two_by_three :
    let is (n : UInt32) : Expr := .compare .unknown .equal (.read .unknown (.direct .byte n))
      (.literal .unknown (.int (.ofWord n)))
    let any (es : List Expr) : Expr := .join .unknown .any es
    let e : Expr := .join .unknown .all [is 1, any [is 2, is 3], any [is 4, is 5, is 6]]
    let scope (limit : Nat) : Scope := Scope.root { alternateLimit := limit }
    let row (n : UInt32) : Row := .compare (.read .byte n) .equal (.word n)
    let t : Trigger := ⟨[row 7], [[row 8]]⟩
    (∃ groups, groups.length = 6 ∧ (addCondition (scope 7) e).run t =
      .ok () ⟨[row 7, row 1], [row 8] :: groups⟩) ∧
    ∃ d, (addCondition (scope 6) e).run t = .error d ⟨[row 7, row 1], [[row 8]]⟩ ∧
      d.kind = .usage := by
  intro is any e scope row t
  let es := [is 1, any [is 2, is 3], any [is 4, is 5, is 6]]
  have hoperands : ∀ o ∈ es, o.isOr = true → o.operands ≠ [] := by
    simp [es, is, any, isOr, operands]
  have hgroups (limit : Nat) (c : List (Expr × Nat)) (hc : IsChoice (es.filter isOr) c) :
      ∃ g, group (scope limit) (conjunction (c.map Prod.fst)) = .ok g := by
    have hall : (numberedChoices (es.filter isOr)).all
        (fun c => (group (scope limit) (conjunction (c.map Prod.fst))).isOk) = true := rfl
    have hok := List.all_eq_true.1 hall c (mem_numberedChoices_iff.2 hc)
    cases hgroup : group (scope limit) (conjunction (c.map Prod.fst)) with
    | ok g => exact ⟨g, rfl⟩
    | error d => simp [hgroup, Except.isOk, Except.toBool] at hok
  have h (limit : Nat) := @addCondition_multiplies_out (scope limit) .unknown es [row 1] rfl
    hoperands (.inl rfl) rfl (hgroups limit) t
  obtain ⟨choices, groups, -, -, -, hlength, hrun⟩ := (h 7).1 (by decide)
  have hsix : groups.length = 6 := Nat.add_left_cancel hlength
  exact ⟨⟨groups, hsix, hrun⟩, (h 6).2 (by decide)⟩

end Trigger

end TriggerLang
