import TriggerLang.Proofs.Lowering.Calls
/-!
# Relations between runs

Two conditions may be lowered side by side, each in its scope.  A relation between computations
passes from parts of the conditions to the whole if sequences keep it (`Building.IsRelation`): where
the operands of a connective, the branches of a count or the argument of a call are lowered in
related ways, the rows before them and after them make no difference.

This module carries such a relation through the rules of lowering, one after another.  In most of
them the second condition is the image of the first one under a function that keeps connectives
(`Expr.KeepsConnectives`).

The steps that do not depend on conditions are the same for both, and every such step that can fail
refuses the shape of a condition (`Building.FailsInLowering`).
-/

namespace TriggerLang

/-! ### Failures -/

/-- Whether lowering an evaluated condition may fail for a cause. -/
def Cause.arisesInLowering : Cause → Bool
  | .incompleteCondition _ | .unrelatedPaths | .notComparable _ | .nestedOr | .orUnderModifier _
  | .alreadyModified _ | .modifierInRepeated | .severalOrs | .tooManyAlternates _ _ => true
  | _ => false

namespace Building

/-- Every failure of the computation has a cause that may arise in lowering. -/
def FailsInLowering {σ α : Type} (x : Building σ α) : Prop :=
  ∀ s d t, x.run s = .error d t → d.cause.arisesInLowering = true

namespace FailsInLowering

variable {σ α : Type}

/-- A computation that only returns a value never fails. -/
theorem pure (a : α) : FailsInLowering (Pure.pure a : Building σ α) :=
  fun _ _ _ h => by cases h

/-- To read the state never fails. -/
theorem get : FailsInLowering (MonadState.get : Building σ σ) :=
  fun _ _ _ h => by cases h

/-- To change the state never fails. -/
theorem modify (f : σ → σ) : FailsInLowering (MonadState.modifyGet fun s => ((), f s)) :=
  fun _ _ _ h => by cases h

/-- A diagnostic whose cause may arise in lowering is such a failure. -/
theorem throw {d : Diagnostic} (h : d.cause.arisesInLowering = true) :
    FailsInLowering (throwThe Diagnostic d : Building σ α) := by
  rintro s d' t hrun
  cases hrun
  exact h

/-- A failure for a cause that may arise in lowering is one of them. -/
theorem fail {cause : Cause} (h : cause.arisesInLowering = true) :
    FailsInLowering (Building.fail cause : Building σ α) :=
  .throw h

end FailsInLowering

/-! ### Relations -/

/-- A computation over a part of the state. -/
def zoom {σ τ α : Type} (part : σ → τ) (put : σ → τ → σ) (x : Building τ α) : Building σ α :=
  fun s =>
    match x.run (part s) with
    | .ok a t => .ok a (put s t)
    | .error d t => .error d (put s t)

/-- A computation over a part of the state succeeds as it does over the part alone, and writes the
part back. -/
theorem run_zoom_eq_ok_iff {σ τ α : Type} {part : σ → τ} {put : σ → τ → σ} {x : Building τ α}
    {s s' : σ} {a : α} :
    (x.zoom part put).run s = .ok a s' ↔ ∃ t, x.run (part s) = .ok a t ∧ s' = put s t := by
  show zoom part put x s = .ok a s' ↔ _
  rw [zoom]
  cases x.run (part s) with
  | ok b t =>
    constructor
    · intro h
      cases h
      exact ⟨t, rfl, rfl⟩
    · rintro ⟨t', ht, rfl⟩
      cases ht
      rfl
  | error d t => exact ⟨nofun, nofun⟩

/-- A computation over a part of the state fails as it does over the part alone, and writes the part
back. -/
theorem run_zoom_eq_error_iff {σ τ α : Type} {part : σ → τ} {put : σ → τ → σ} {x : Building τ α}
    {s s' : σ} {d : Diagnostic} :
    (x.zoom part put).run s = .error d s' ↔ ∃ t, x.run (part s) = .error d t ∧ s' = put s t := by
  show zoom part put x s = .error d s' ↔ _
  rw [zoom]
  cases x.run (part s) with
  | ok b t => exact ⟨nofun, nofun⟩
  | error d' t =>
    constructor
    · rintro ⟨⟩
      exact ⟨t, rfl, rfl⟩
    · rintro ⟨_, ⟨⟩, rfl⟩
      rfl

/-- A relation between computations that passes to what is made of them: to sequences, to
computations within a span or over a larger state, and to those that use the state another one
leaves.  A step that both sides share is related to itself. -/
structure IsRelation (R : (σ α : Type) → Building σ α → Building σ α → Prop) : Prop where
  refl {σ α : Type} {x : Building σ α} (h : FailsInLowering x) : R σ α x x
  within {σ α : Type} {x y : Building σ α} (h : R σ α x y) (s s' : Span) :
    R σ α (x.within s) (y.within s')
  bind {σ α β : Type} {x y : Building σ α} {k k' : α → Building σ β} (h : R σ α x y)
    (hk : ∀ a, R σ β (k a) (k' a)) : R σ β (x >>= k) (y >>= k')
  build {σ τ β : Type} {x y : Building σ Unit} {k k' : σ → Building τ β} (h : R σ Unit x y) (s : σ)
    (hk : ∀ t, R τ β (k t) (k' t)) :
    R τ β (ofOutcome (x.build s) >>= k) (ofOutcome (y.build s) >>= k')
  zoom {σ τ α : Type} {x y : Building τ α} (h : R τ α x y) (part : σ → τ) (put : σ → τ → σ) :
    R σ α (x.zoom part put) (y.zoom part put)

end Building

/-- A function of expressions that maps the operands of a connective and makes no other one. -/
structure Expr.KeepsConnectives (f : Expr → Expr) : Prop where
  join (s : Span) (c : Connective) (es : List Expr) :
    ∃ s', f (.join s c es) = .join s' c (es.map f)
  other {e : Expr} {c : Connective} : (∀ s es, e ≠ .join s c es) → ∀ s es, f e ≠ .join s c es

namespace Expr

open Building Emission

/-- A condition that is no disjunction counts the hits of its last row. -/
theorem lowerCounted_of_ne {scope : Scope} {e : Expr} (h : ∀ s es, e ≠ .join s .any es)
    (hits : UInt16) :
    lowerCounted scope hits e = (do
      lower scope e
      stampLast hits) := by
  unfold lowerCounted
  split
  · exact absurd rfl (h _ _)
  · rfl

/-- A condition that is no disjunction guards its group with its last row. -/
theorem lowerGuarded_of_ne {scope : Scope} {e : Expr} (h : ∀ s es, e ≠ .join s .any es)
    (g : Guard) :
    lowerGuarded scope g e = (do
      lower scope e
      guardLast g e.span) := by
  unfold lowerGuarded
  split
  · exact absurd rfl (h _ _)
  · rfl

section

variable {R : (σ α : Type) → Building σ α → Building σ α → Prop} (hR : IsRelation R)
  {f : Expr → Expr} {scope scope' : Scope}

include hR

/-! ### Steps -/

/-- Under the same settings the limit of alternate groups is checked in related ways. -/
theorem related_requireAlternates {σ : Type} (hsettings : scope'.settings = scope.settings)
    (s s' : Span) (count : Nat) :
    R σ Unit (scope.requireAlternates s count) (scope'.requireAlternates s' count) := by
  unfold Scope.requireAlternates
  rw [hsettings]
  split
  · exact hR.within (hR.refl (.fail rfl)) s s'
  · exact hR.refl (.pure _)

/-- Groups that count together emit their rows in related ways, wherever a failure is placed. -/
theorem related_emitCounted (s s' : Span) (groups : List Group) :
    R _ _ (emitCounted s groups) (emitCounted s' groups) := by
  unfold emitCounted
  split
  · exact hR.refl (.modify _)
  · exact hR.within (hR.refl (.fail rfl)) s s'

/-- The last row becomes a guard in related ways, wherever a failure is placed. -/
theorem related_guardLast (g : Guard) (s s' : Span) : R _ _ (guardLast g s) (guardLast g s') := by
  refine hR.bind (hR.refl .get) fun rows => ?_
  split
  · split
    · exact hR.refl (.modify _)
    · exact hR.within (hR.refl (.fail rfl)) s s'
  · exact hR.within (hR.refl (.fail rfl)) s s'

/-! ### Lists of conditions -/

/-- Conjoined conditions are related if they are one by one. -/
theorem related_lowerAll {es es' : List Expr}
    (h : List.Forall₂ (fun e e' => R _ _ (lower scope e) (lower scope' e')) es es') :
    R _ _ (lowerAll scope es) (lowerAll scope' es') := by
  induction h with
  | nil => exact hR.refl (.pure _)
  | cons he hes ih =>
    cases hes with
    | nil => exact he
    | cons he' hes => exact hR.bind he fun _ => hR.bind (hR.refl (.modify _)) fun _ => ih

/-- Conditions with a group each are related if they are one by one. -/
theorem related_lowerEach {es es' : List Expr}
    (h : List.Forall₂ (fun e e' => R _ _ (lower scope e) (lower scope' e')) es es') :
    R _ _ (lowerEach scope es) (lowerEach scope' es') := by
  induction h with
  | nil => exact hR.refl (.pure _)
  | cons he hes ih =>
    rw [lowerEach, lowerEach]
    exact hR.build he [] fun g => hR.bind (hR.refl (.modify _)) fun _ => ih

/-- Branches that count together are related if they are one by one. -/
theorem related_countedBranches (hsettings : scope'.settings = scope.settings) {es es' : List Expr}
    (h : List.Forall₂ (fun e e' => R _ _ (lower scope e) (lower scope' e')) es es') (s s' : Span)
    (hits : UInt16) :
    R _ _ (countedBranches scope s es hits) (countedBranches scope' s' es' hits) := by
  unfold countedBranches
  refine hR.build (related_lowerEach hR h) [] fun groups => ?_
  refine hR.bind (related_requireAlternates hR hsettings s s' _) fun _ => ?_
  exact hR.bind (related_emitCounted hR s s' groups) fun _ => hR.refl (.modify _)

/-! ### Calls -/

variable (hf : KeepsConnectives f)
include hf

/-- A condition that counts its hits is related if it is by itself and if its operands are. -/
theorem related_lowerCounted (hsettings : scope'.settings = scope.settings) {condition : Expr}
    (hcondition : R _ _ (lower scope condition) (lower scope' (f condition)))
    (hoperands : ∀ e ∈ condition.children, R _ _ (lower scope e) (lower scope' (f e)))
    (hits : UInt16) :
    R _ _ (lowerCounted scope hits condition) (lowerCounted scope' hits (f condition)) := by
  by_cases hor : ∃ s es, condition = .join s .any es
  · obtain ⟨s, es, rfl⟩ := hor
    obtain ⟨s', hjoin⟩ := hf.join s .any es
    rw [hjoin]
    exact related_countedBranches hR hsettings (forall₂_map_of_mem hoperands) s s' hits
  · have hother : ∀ s es, condition ≠ .join s .any es := fun s es h => hor ⟨s, es, h⟩
    rw [lowerCounted_of_ne hother, lowerCounted_of_ne (hf.other hother)]
    exact hR.bind hcondition fun _ => hR.refl (.modify _)

/-- A condition that guards its group is related if it is by itself. -/
theorem related_lowerGuarded (g : Guard) {condition : Expr}
    (hcondition : R _ _ (lower scope condition) (lower scope' (f condition))) :
    R _ _ (lowerGuarded scope g condition) (lowerGuarded scope' g (f condition)) := by
  by_cases hor : ∃ s es, condition = .join s .any es
  · obtain ⟨s, es, rfl⟩ := hor
    obtain ⟨s', hjoin⟩ := hf.join s .any es
    rw [hjoin, lowerGuarded, lowerGuarded]
    exact hR.within (hR.refl (.fail rfl)) s s'
  · have hother : ∀ s es, condition ≠ .join s .any es := fun s es h => hor ⟨s, es, h⟩
    rw [lowerGuarded_of_ne hother, lowerGuarded_of_ne (hf.other hother)]
    exact hR.bind hcondition fun _ => related_guardLast hR g _ _

/-- A call of a built-in function is related if its arguments and their operands are, and if the
numbers of hits are.  It may be a call that cannot be lowered, for any cause. -/
theorem related_lowerBuiltin (hsettings : scope'.settings = scope.settings)
    (hfail : ∀ cause : Cause, R (List Row) Unit (fail cause) (fail cause))
    (hcount : ∀ (count : Expr) {k k' : UInt16 → Emission Unit}, (∀ hits, R _ _ (k hits) (k' hits)) →
      R _ _ (ofOutcome (evaluate scope count >>= repeatCount) >>= k)
        (ofOutcome (evaluate scope' (f count) >>= repeatCount) >>= k'))
    (name : String) (b : Builtin) {es : List Expr}
    (hes : ∀ e ∈ es, R _ _ (lower scope e) (lower scope' (f e)))
    (hoperands : ∀ e ∈ es, ∀ c ∈ e.children, R _ _ (lower scope c) (lower scope' (f c))) :
    R _ _ (lowerBuiltin scope name b es) (lowerBuiltin scope' name b (es.map f)) := by
  cases b with
  | repeated =>
    rcases es with _ | ⟨count, _ | ⟨condition, rest⟩⟩
    · exact hfail _
    · exact hcount count fun _ => hfail _
    · rw [List.map_cons, List.map_cons, lowerBuiltin_repeated, lowerBuiltin_repeated]
      have hmem : condition ∈ count :: condition :: rest :=
        List.mem_cons_of_mem _ List.mem_cons_self
      exact hcount count fun hits =>
        related_lowerCounted hR hf hsettings (hes condition hmem) (hoperands condition hmem) hits
  | once =>
    cases es with
    | nil => exact hfail _
    | cons condition rest =>
      rw [List.map_cons, lowerBuiltin_once, lowerBuiltin_once]
      exact related_lowerCounted hR hf hsettings (hes condition List.mem_cons_self)
        (hoperands condition List.mem_cons_self) 1
  | guard g =>
    cases es with
    | nil => exact hfail _
    | cons condition rest =>
      rw [List.map_cons, lowerBuiltin_guarding, lowerBuiltin_guarding]
      exact related_lowerGuarded hR hf g (hes condition List.mem_cons_self)
  | read size =>
    rw [lowerBuiltin, lowerBuiltin]
    exact hfail _
  | always value =>
    rw [lowerBuiltin, lowerBuiltin]
    exact hfail _

end

end Expr

end TriggerLang
