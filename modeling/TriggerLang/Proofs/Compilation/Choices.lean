import Mathlib.Algebra.Group.Nat.Defs
import TriggerLang.Compilation
import TriggerLang.Proofs.Success
/-!
# Choices of operands

Disjunctions under a conjunction are multiplied out: there is one alternate for every way of taking
an operand from each of them.  `selections` is the cross product that this amounts to, with the last
list varying fastest.  `Expr.distribute_eq_ok_iff` says that compilation computes it as long as the
choices that are made on the way fit under the limit on alternates.

A conjunction of disjunctions is true exactly when one of the selections is true throughout.

In a trigger under construction the choices become alternates, after the other operands of the
conjunction have become rows of the core (`Trigger.addGroups_all`).
-/

namespace TriggerLang

/-- Every way of taking one element from each list, in lexicographic order. -/
def selections {α : Type} : List (List α) → List (List α)
  | [] => [[]]
  | xs :: rest => xs.flatMap fun x => (selections rest).map (x :: ·)

section

variable {α : Type}

/-- The selections are all ways of taking one element from each list. -/
theorem mem_selections_iff {xss : List (List α)} {c : List α} :
    c ∈ selections xss ↔ List.Forall₂ (· ∈ ·) c xss := by
  induction xss generalizing c with
  | nil => rw [selections, List.mem_singleton, List.forall₂_nil_right_iff]
  | cons xs xss ih =>
    rw [selections, List.mem_flatMap]
    constructor
    · rintro ⟨x, hx, hc⟩
      obtain ⟨c', hc', rfl⟩ := List.mem_map.1 hc
      exact .cons hx (ih.1 hc')
    · rintro (_ | ⟨hx, hc⟩)
      exact ⟨_, hx, List.mem_map_of_mem (ih.2 hc)⟩

/-- If every list ascends, the selections ascend in lexicographic order, and none of them occurs
twice. -/
theorem pairwise_selections {r : α → α → Prop} {xss : List (List α)}
    (h : ∀ xs ∈ xss, xs.Pairwise r) : (selections xss).Pairwise (List.Lex r) := by
  induction xss with
  | nil => exact List.pairwise_singleton _ _
  | cons xs xss ih =>
    have hxs : xs.Pairwise r := h xs List.mem_cons_self
    have hxss : (selections xss).Pairwise (List.Lex r) :=
      ih fun xs' hxs' => h xs' (List.mem_cons_of_mem _ hxs')
    rw [selections, List.pairwise_flatMap]
    refine ⟨fun x _ => List.pairwise_map.2 (hxss.imp .cons), hxs.imp fun hr c hc c' hc' => ?_⟩
    obtain ⟨_, -, rfl⟩ := List.mem_map.1 hc
    obtain ⟨_, -, rfl⟩ := List.mem_map.1 hc'
    exact .rel hr

/-- A selection of changed elements is a changed selection. -/
theorem selections_map {β : Type} (f : α → β) (xss : List (List α)) :
    selections (xss.map (List.map f)) = (selections xss).map (List.map f) := by
  induction xss with
  | nil => rfl
  | cons xs xss ih =>
    rw [List.map_cons, selections, ih, selections, List.flatMap_map, List.map_flatMap]
    simp only [List.map_map, Function.comp_def, List.map_cons]

/-- A selection has one element from each list. -/
theorem length_of_mem_selections {xss : List (List α)} {c : List α} (h : c ∈ selections xss) :
    c.length = xss.length :=
  (mem_selections_iff.1 h).length_eq

/-- An element of a selection is an element of one of the lists. -/
theorem mem_of_mem_selections {xss : List (List α)} {c : List α} (h : c ∈ selections xss) {x : α}
    (hx : x ∈ c) : ∃ xs ∈ xss, x ∈ xs := by
  have hall : ∀ x ∈ c, ∃ xs ∈ xss, x ∈ xs :=
    forall_of_forall₂ (mem_selections_iff.1 h).flip fun xs hxs _ hx => ⟨xs, hxs, hx⟩
  exact hall x hx

/-- From no lists there is one selection, the empty one. -/
theorem length_selections_nil : (selections ([] : List (List α))).length = 1 := rfl

/-- One more list multiplies the number of selections by its length. -/
theorem length_selections_cons (xs : List α) (xss : List (List α)) :
    (selections (xs :: xss)).length = xs.length * (selections xss).length := by
  simp [selections, List.length_flatMap]

/-- The selections from two runs of lists multiply. -/
theorem length_selections_append (xss yss : List (List α)) :
    (selections (xss ++ yss)).length = (selections xss).length * (selections yss).length := by
  induction xss with
  | nil => rw [List.nil_append, length_selections_nil, Nat.one_mul]
  | cons xs xss ih =>
    rw [List.cons_append, length_selections_cons, length_selections_cons, ih, Nat.mul_assoc]

/-- There are as many selections as the lengths of the lists multiply to. -/
theorem length_selections (xss : List (List α)) :
    (selections xss).length = (xss.map List.length).prod := by
  induction xss with
  | nil => rfl
  | cons xs xss ih => rw [length_selections_cons, ih, List.map_cons, List.prod_cons]

/-- If every list has an element, there is a selection. -/
theorem selections_ne_nil {xss : List (List α)} (h : ∀ xs ∈ xss, xs ≠ []) :
    selections xss ≠ [] := by
  have heach : ∀ xs ∈ xss, ∃ x, x ∈ xs := fun xs hxs => List.exists_mem_of_ne_nil xs (h xs hxs)
  obtain ⟨c, hc⟩ := exists_iff_forall₂.1 heach
  exact List.ne_nil_of_mem (mem_selections_iff.2 hc.flip)

/-- If every list has an element, every element of a list is in some selection. -/
theorem exists_mem_selections {xss : List (List α)} (h : ∀ xs ∈ xss, xs ≠ []) {xs : List α}
    (hxs : xs ∈ xss) {x : α} (hx : x ∈ xs) : ∃ c ∈ selections xss, x ∈ c := by
  induction xss with
  | nil => cases hxs
  | cons ys xss ih =>
    obtain ⟨hys, hxss⟩ := List.forall_mem_cons.1 h
    obtain rfl | hxs := List.mem_cons.1 hxs
    · obtain ⟨c, hc⟩ := List.exists_mem_of_ne_nil _ (selections_ne_nil hxss)
      exact ⟨x :: c, mem_selections_iff.2 (.cons hx (mem_selections_iff.1 hc)), List.mem_cons_self⟩
    · obtain ⟨c, hc, hxc⟩ := ih hxss hxs
      obtain ⟨y, hy⟩ := List.exists_mem_of_ne_nil _ hys
      exact ⟨y :: c, mem_selections_iff.2 (.cons hy (mem_selections_iff.1 hc)),
        List.mem_cons_of_mem _ hxc⟩

/-- Some selection has a property throughout exactly when every list has an element with it. -/
theorem any_all_selections (p : α → Bool) (xss : List (List α)) :
    (selections xss).any (·.all p) = xss.all (·.any p) := by
  induction xss with
  | nil => rfl
  | cons xs xss ih =>
    have hcons (x : α) : ((selections xss).map (x :: ·)).any (·.all p) =
        (p x && xss.all (·.any p)) := by
      rw [List.any_map, ← ih]
      cases hx : p x <;> simp [Function.comp_def, hx]
    rw [selections, List.any_flatMap, List.all_cons]
    simp only [hcons]
    cases xss.all (·.any p) <;> simp

/-- What holds of the nonempty prefixes of a list, by its first element. -/
theorem forall_prefix_cons_iff {P : List α → Prop} {a : α} {as : List α} :
    (∀ taken, taken <+: a :: as → taken ≠ [] → P taken) ↔
      P [a] ∧ ∀ taken, taken <+: as → taken ≠ [] → P (a :: taken) := by
  constructor
  · intro h
    exact ⟨h [a] (List.prefix_cons_inj a |>.2 List.nil_prefix) (List.cons_ne_nil _ _),
      fun taken htaken _ =>
        h (a :: taken) ((List.prefix_cons_inj a).2 htaken) (List.cons_ne_nil _ _)⟩
  · rintro ⟨hsingle, hcons⟩ taken htaken hne
    obtain rfl | ⟨taken, rfl, htail⟩ := List.prefix_cons_iff.1 htaken
    · exact absurd rfl hne
    · cases taken with
      | nil => exact hsingle
      | cons b bs => exact hcons _ htail (List.cons_ne_nil _ _)

end

namespace Expr

/-- Where some operand is a disjunction, there are disjunctions to multiply out. -/
theorem filter_isOr_ne_nil {es : List Expr} (h : es.any isOr = true) : es.filter isOr ≠ [] := by
  obtain ⟨e, he, hisOr⟩ := List.any_eq_true.1 h
  exact List.ne_nil_of_mem (List.mem_filter.2 ⟨he, hisOr⟩)

/-- What is selected from disjunctions are operands of theirs. -/
theorem exists_mem_operands {ors c : List Expr} (hc : c ∈ selections (ors.map operands)) {e : Expr}
    (he : e ∈ c) : ∃ o ∈ ors, e ∈ o.operands := by
  obtain ⟨xs, hxs, he⟩ := mem_of_mem_selections hc he
  obtain ⟨o, ho, rfl⟩ := List.mem_map.1 hxs
  exact ⟨o, ho, he⟩

/-- The choices are those of the cross product, after what was chosen, if they fit under the limit
at every disjunction. -/
theorem choices_eq_ok_iff {limit used : Nat} {chosen : List (List Expr)} {disjunctions : List Expr}
    {cs : List (List Expr)} :
    choices limit used chosen disjunctions = .ok cs ↔
      (∀ taken, taken <+: disjunctions → taken ≠ [] →
        used + chosen.length * (selections (taken.map operands)).length ≤ limit) ∧
      cs = chosen.flatMap fun c => (selections (disjunctions.map operands)).map (c ++ ·) := by
  induction disjunctions generalizing chosen with
  | nil =>
    rw [choices, Except.ok.injEq]
    constructor
    · rintro rfl
      refine ⟨fun taken htaken hne => absurd (List.prefix_nil.1 htaken) hne, ?_⟩
      simp [selections]
    · rintro ⟨-, rfl⟩
      simp [selections]
  | cons disjunction rest ih =>
    -- One disjunction lengthens every choice by each of its operands.
    have hchosen : (chosen.flatMap fun c => disjunction.operands.map fun e => c ++ [e]).length =
        chosen.length * disjunction.operands.length := by
      simp [List.length_flatMap]
    have hcs :
        ((chosen.flatMap fun c => disjunction.operands.map fun e => c ++ [e]).flatMap fun c =>
          (selections (rest.map operands)).map (c ++ ·)) =
        chosen.flatMap fun c => (selections ((disjunction :: rest).map operands)).map (c ++ ·) := by
      rw [List.map_cons, selections, List.flatMap_assoc]
      congr 1
      funext c
      rw [List.flatMap_map, List.map_flatMap]
      congr 1
      funext e
      simp [Function.comp_def]
    rw [forall_prefix_cons_iff, choices]
    simp only [List.map_cons, List.map_nil, length_selections_cons, length_selections_nil,
      Nat.mul_one, ← Nat.mul_assoc]
    split
    · rename_i hlimit
      constructor
      · exact fun h => absurd h Outcome.fail_ne_ok
      · rintro ⟨⟨hle, -⟩, -⟩
        omega
    · rename_i hlimit
      rw [ih, hchosen, hcs]
      constructor
      · rintro ⟨hrest, rfl⟩
        exact ⟨⟨Nat.le_of_not_lt hlimit, hrest⟩, rfl⟩
      · rintro ⟨⟨-, hrest⟩, rfl⟩
        exact ⟨hrest, rfl⟩

/-- Where choices cannot be made, there would be more of them than the limit allows. -/
theorem cause_of_choices_eq_error {limit used : Nat} {chosen : List (List Expr)}
    {disjunctions : List Expr} {d : Diagnostic}
    (h : choices limit used chosen disjunctions = .error d) :
    ∃ count, limit < count ∧ d.cause = .tooManyAlternates count limit := by
  induction disjunctions generalizing chosen with
  | nil => cases h
  | cons disjunction rest ih =>
    rw [choices] at h
    split at h
    · rename_i hcount
      cases h
      exact ⟨_, hcount, rfl⟩
    · exact ih h

/-- Where disjunctions are multiplied out one after another, there are never more choices than a
limit allows, of which a part is already used. -/
def FitsWithin (limit used : Nat) (disjunctions : List Expr) : Prop :=
  ∀ taken, taken <+: disjunctions → taken ≠ [] →
    used + (selections (taken.map operands)).length ≤ limit

/-- Without disjunctions nothing has to fit. -/
theorem fitsWithin_nil {limit used : Nat} : FitsWithin limit used [] :=
  fun _ htaken hne => absurd (List.prefix_nil.1 htaken) hne

/-- What fits within a limit fits within a higher one. -/
theorem FitsWithin.mono {limit limit' used : Nat} {disjunctions : List Expr}
    (h : FitsWithin limit used disjunctions) (hle : limit ≤ limit') :
    FitsWithin limit' used disjunctions :=
  fun taken htaken hne => Nat.le_trans (h taken htaken hne) hle

/-- Where every disjunction has operands, the choices on the way are no more than those at the end.
-/
theorem FitsWithin.of_length_le {limit used : Nat} {ors : List Expr}
    (hors : ∀ e ∈ ors, e.operands ≠ [])
    (hlength : used + (selections (ors.map operands)).length ≤ limit) :
    FitsWithin limit used ors := by
  rintro taken ⟨rest, rfl⟩ -
  have hrest : selections (rest.map operands) ≠ [] := selections_ne_nil fun xs hxs => by
    obtain ⟨e, he, rfl⟩ := List.mem_map.1 hxs
    exact hors e (List.mem_append_right _ he)
  rw [List.map_append, length_selections_append] at hlength
  have hpos := Nat.le_mul_of_pos_right (selections (taken.map operands)).length
    (List.length_pos_iff.2 hrest)
  omega

/-- Where every disjunction has operands, only the number of all choices has to fit. -/
theorem fitsWithin_iff_length_le {limit used : Nat} {ors : List Expr} (hne : ors ≠ [])
    (hors : ∀ e ∈ ors, e.operands ≠ []) :
    FitsWithin limit used ors ↔ used + (selections (ors.map operands)).length ≤ limit :=
  ⟨fun h => h ors List.prefix_rfl hne, .of_length_le hors⟩

/-- The conjunctions that disjunctions are multiplied out to, if that is allowed and they fit. -/
theorem distribute_eq_ok_iff {settings : Settings} {used : Nat} {disjunctions es : List Expr} :
    distribute settings used disjunctions = .ok es ↔
      (1 < disjunctions.length → settings.expandNestedOr = true) ∧
        FitsWithin settings.alternateLimit used disjunctions ∧
        es = (selections (disjunctions.map operands)).map conjunction := by
  unfold distribute
  split
  · rename_i hseveral
    constructor
    · exact fun h => absurd h Outcome.fail_ne_ok
    · rintro ⟨hexpand, -⟩
      exact absurd (hexpand hseveral.1) (hseveral.2 ▸ Bool.false_ne_true)
  · rename_i hsingle
    have hexpand : 1 < disjunctions.length → settings.expandNestedOr = true :=
      fun hlength => Bool.of_not_eq_false fun h => hsingle ⟨hlength, h⟩
    have hchoices (cs : List (List Expr)) :
        choices settings.alternateLimit used [[]] disjunctions = .ok cs ↔
          FitsWithin settings.alternateLimit used disjunctions ∧
            cs = selections (disjunctions.map operands) := by
      rw [choices_eq_ok_iff]
      simp [FitsWithin]
    rw [Outcome.map_eq_ok_iff]
    simp only [hchoices]
    constructor
    · rintro ⟨_, ⟨hfits, rfl⟩, rfl⟩
      exact ⟨hexpand, hfits, rfl⟩
    · rintro ⟨-, hfits, rfl⟩
      exact ⟨_, ⟨hfits, rfl⟩, rfl⟩

/-- Disjunctions with operands are multiplied out to at least one condition, and each condition is
the conjunction of some of the operands. -/
theorem exists_conjunction_of_distribute {settings : Settings} {used : Nat} {ors es : List Expr}
    (hne : ors ≠ []) (hors : ∀ o ∈ ors, o.operands ≠ [])
    (h : distribute settings used ors = .ok es) :
    es ≠ [] ∧ ∀ e ∈ es, ∃ c, e = conjunction c ∧ c ≠ [] ∧ ∀ e' ∈ c, ∃ o ∈ ors, e' ∈ o.operands := by
  rw [(distribute_eq_ok_iff.1 h).2.2]
  constructor
  · rw [Ne, List.map_eq_nil_iff]
    exact selections_ne_nil (List.forall_mem_map.2 hors)
  · intro e he
    obtain ⟨c, hc, rfl⟩ := List.mem_map.1 he
    have hlength : c.length = ors.length := by
      rw [length_of_mem_selections hc, List.length_map]
    refine ⟨c, rfl, List.ne_nil_of_length_pos ?_, fun e' he' => exists_mem_operands hc he'⟩
    rw [hlength]
    exact List.length_pos_iff.2 hne

/-- Where disjunctions may be multiplied out and are not, there would be too many choices. -/
theorem cause_of_distribute_eq_error {settings : Settings} {used : Nat} {disjunctions : List Expr}
    (hexpand : 1 < disjunctions.length → settings.expandNestedOr = true) {d : Diagnostic}
    (h : distribute settings used disjunctions = .error d) :
    ∃ count, settings.alternateLimit < count ∧
      d.cause = .tooManyAlternates count settings.alternateLimit := by
  unfold distribute at h
  split at h
  · rename_i hseveral
    exact absurd (hexpand hseveral.1) (hseveral.2 ▸ Bool.false_ne_true)
  · cases hchoices : choices settings.alternateLimit used [[]] disjunctions with
    | ok cs =>
      rw [hchoices] at h
      cases h
    | error d' =>
      rw [hchoices] at h
      cases h
      exact cause_of_choices_eq_error hchoices

end Expr

/-! ### Building -/

namespace Trigger

open TriggerLang.Expr

variable {scope : Scope}

/-- Adds one alternate for every way of taking an operand from each disjunction. -/
def addDistributed (scope : Scope) (ors : List Expr) : Building Trigger Unit := do
  let used := (← get).alternates.length
  let conditions ← Building.ofOutcome (distribute scope.settings used ors)
  addAlternates scope conditions

/-- The choices are made with regard to the alternates that are there already. -/
theorem run_addDistributed (ors : List Expr) (t : Trigger) :
    (addDistributed scope ors).run t =
      (Building.ofOutcome (distribute scope.settings t.alternates.length ors) >>=
        addAlternates scope).run t := rfl

/-- An empty conjunction has no rows. -/
theorem group_conjunction_nil : group scope (conjunction []) = .ok [] := rfl

/-- A conjunction with disjunctions adds the other operands to the core, if there are any, and
multiplies out the disjunctions. -/
theorem addGroups_all {s : Span} {es : List Expr} (hors : es.any isOr = true) :
    addGroups scope (.join s .all es) = (do
      extendCore (← Building.ofOutcome (group scope (conjunction (es.filter (!·.isOr)))))
      addDistributed scope (es.filter isOr)) := by
  funext t
  rw [addGroups, if_pos hors]
  by_cases hrest : es.filter (!·.isOr) = []
  · rw [hrest, group_conjunction_nil]
    have ht : t = ⟨t.core ++ [], t.alternates⟩ := by rw [List.append_nil]
    show addDistributed scope (es.filter isOr) t =
      addDistributed scope (es.filter isOr) ⟨t.core ++ [], t.alternates⟩
    rw [← ht]
  · have hbeside : (!(es.filter (!·.isOr)).isEmpty) = true := by
      rwa [Bool.not_eq_true', List.isEmpty_eq_false_iff]
    dsimp only
    rw [if_pos hbeside]
    rfl

/-- If the other operands have a group, the disjunctions are multiplied out after it. -/
theorem run_addGroups_all_of_group {s : Span} {es : List Expr} {g : Group}
    (hors : es.any isOr = true) (hg : group scope (conjunction (es.filter (!·.isOr))) = .ok g)
    (t : Trigger) :
    (addGroups scope (.join s .all es)).run t =
      (addDistributed scope (es.filter isOr)).run ⟨t.core ++ g, t.alternates⟩ := by
  rw [addGroups_all hors, hg]
  rfl

end Trigger

end TriggerLang
