import TriggerLang.Proofs.Evaluation.Depth
import TriggerLang.Proofs.Lowering.Calls
/-!
# Lowering under other limits

Lowering asks the settings two questions.  The number of hits of a call is evaluated, within the
limit of nested calls, and the branches that count their hits together are held as groups for a
while, of which there may be as many as a trigger may have alternates.

`Counts` says which branches these are.  Where a condition can be lowered, no such branches are more
than the limit (`Counts.length_le`), and no other limit matters: the condition emits the same rows
in every scope with the same names and enough room (`succeedsAs_lower`).
-/

namespace TriggerLang

/-! ### Computations that succeed alike -/

namespace Building

variable {σ α β : Type}

/-- Wherever the first computation succeeds, the second one succeeds with the same result. -/
def SucceedsAs (x y : Building σ α) : Prop :=
  ∀ s a t, x.run s = .ok a t → y.run s = .ok a t

/-- Every computation succeeds as itself. -/
theorem SucceedsAs.refl (x : Building σ α) : SucceedsAs x x :=
  fun _ _ _ h => h

/-- A computation that fails at once has no success that another one could miss. -/
theorem succeedsAs_fail (cause : Cause) (y : Building σ α) : SucceedsAs (fail cause) y :=
  fun _ _ _ h => absurd h run_fail_ne_ok

/-- The place that a failure is reported at plays no part in success. -/
theorem SucceedsAs.within {x y : Building σ α} (h : SucceedsAs x y) (place place' : Span) :
    SucceedsAs (Building.within place x) (Building.within place' y) :=
  fun s a t hrun => run_within_eq_ok_iff.2 (h s a t (run_within_eq_ok_iff.1 hrun))

/-- Computations in sequence succeed alike when the first ones do and all continuations do. -/
theorem SucceedsAs.bind {x y : Building σ α} {f g : α → Building σ β} (hx : SucceedsAs x y)
    (hf : ∀ a, SucceedsAs (f a) (g a)) : SucceedsAs (x >>= f) (y >>= g) := by
  intro s b t hrun
  obtain ⟨a, s', ha, hb⟩ := run_bind_eq_ok_iff.1 hrun
  exact run_bind_eq_ok_iff.2 ⟨a, s', hx s a s' ha, hf a s' b t hb⟩

end Building

namespace Expr

open Building Emission

/-! ### Branches that are counted together -/

/-- The function counts the hits of a condition among its arguments. -/
inductive CountsHits : Builtin → List Expr → Expr → Prop
  | repeated (count condition : Expr) (rest : List Expr) :
      CountsHits .repeated (count :: condition :: rest) condition
  | once (condition : Expr) (rest : List Expr) : CountsHits .once (condition :: rest) condition

/-- Lowering a condition counts the hits of some branches together. -/
inductive Counts (functions : String → Option Function) : Expr → List Expr → Prop
  | operand {s : Span} {es : List Expr} {e : Expr} {branches : List Expr} (he : e ∈ es)
      (h : Counts functions e branches) : Counts functions (.join s .all es) branches
  | guarded {s : Span} {name : String} {g : Guard} {condition : Expr} {rest branches : List Expr}
      (hname : functions name = some (.builtin (.guard g)))
      (h : Counts functions condition branches) :
      Counts functions (.call s name (condition :: rest)) branches
  | counted {s : Span} {name : String} {b : Builtin} {arguments : List Expr} {condition : Expr}
      {branches : List Expr} (hname : functions name = some (.builtin b))
      (hhits : CountsHits b arguments condition) (h : Counts functions condition branches) :
      Counts functions (.call s name arguments) branches
  /-- The condition of a counting function is a disjunction. -/
  | disjunction {s s' : Span} {name : String} {b : Builtin} {arguments branches : List Expr}
      (hname : functions name = some (.builtin b))
      (hhits : CountsHits b arguments (.join s' .any branches)) :
      Counts functions (.call s name arguments) branches
  | branch {s s' : Span} {name : String} {b : Builtin} {arguments es : List Expr} {e : Expr}
      {branches : List Expr} (hname : functions name = some (.builtin b))
      (hhits : CountsHits b arguments (.join s' .any es)) (he : e ∈ es)
      (h : Counts functions e branches) : Counts functions (.call s name arguments) branches

/-- No more than a number of branches are counted together. -/
def CountsAtMost (functions : String → Option Function) (limit : Nat) (e : Expr) : Prop :=
  ∀ branches, Counts functions e branches → branches.length ≤ limit

variable {scope scope' : Scope}

/-- A call that counts toward a target counts the hits of that condition. -/
theorem CountsToward.countsHits {b : Builtin} {arguments : List Expr} {condition : Expr}
    {hits : UInt16} (h : CountsToward scope b arguments condition hits) :
    CountsHits b arguments condition := by
  cases h with
  | repeated => exact .repeated _ _ _
  | once => exact .once _ _

/-! ### Successful lowering keeps to the limit -/

/-- What counts its hits in a condition that can be lowered. -/
theorem CountsHits.exists_run_lowerCounted {b : Builtin} {arguments : List Expr} {condition : Expr}
    (hhits : CountsHits b arguments condition) {name : String} {before after : List Row}
    (h : (lowerBuiltin scope name b arguments).run before = .ok () after) :
    ∃ hits, (lowerCounted scope hits condition).run before = .ok () after := by
  obtain ⟨condition', hits, hcounts, h⟩ | ⟨g, condition', rest, rfl, -, -⟩ :=
    run_lowerBuiltin_eq_ok_iff.1 h
  · cases hhits with
    | repeated count condition rest =>
      cases hcounts with
      | repeated => exact ⟨hits, h⟩
    | once condition rest =>
      cases hcounts with
      | once => exact ⟨1, h⟩
  · cases hhits

/-- Where a condition can be lowered, no more branches are counted together than a trigger may have
alternates. -/
theorem Counts.length_le {e : Expr} {branches : List Expr}
    (h : Counts scope.function? e branches) {before after : List Row}
    (hrun : (lower scope e).run before = .ok () after) :
    branches.length ≤ scope.settings.alternateLimit := by
  induction h generalizing before after with
  | operand he _ ih =>
    rw [lower, run_within_eq_ok_iff] at hrun
    obtain ⟨rows, rows', hrun⟩ := exists_run_lower_of_mem hrun _ he
    exact ih hrun
  | guarded hname h ih =>
    obtain ⟨b, hb, hrun⟩ := run_lower_call_eq_ok_iff.1 hrun
    cases hname.symm.trans hb
    rw [lowerBuiltin_guarding, run_lowerGuarded_eq_ok_iff] at hrun
    obtain ⟨rows, hrows, -⟩ := hrun
    exact ih hrows
  | counted hname hhits h ih =>
    obtain ⟨b, hb, hrun⟩ := run_lower_call_eq_ok_iff.1 hrun
    cases hname.symm.trans hb
    obtain ⟨hits, hrun⟩ := hhits.exists_run_lowerCounted hrun
    obtain ⟨s, branches, rfl, -⟩ | ⟨rows, hrows, -⟩ := run_lowerCounted_eq_ok_iff.1 hrun
    · cases h
    · exact ih hrows
  | disjunction hname hhits =>
    obtain ⟨b, hb, hrun⟩ := run_lower_call_eq_ok_iff.1 hrun
    cases hname.symm.trans hb
    obtain ⟨hits, hrun⟩ := hhits.exists_run_lowerCounted hrun
    obtain ⟨groups, rows, -, hlimit, -⟩ := run_countedBranches_eq_ok_iff.1 hrun
    exact hlimit
  | branch hname hhits he h ih =>
    obtain ⟨b, hb, hrun⟩ := run_lower_call_eq_ok_iff.1 hrun
    cases hname.symm.trans hb
    obtain ⟨hits, hrun⟩ := hhits.exists_run_lowerCounted hrun
    obtain ⟨groups, rows, hgroups, -⟩ := run_countedBranches_eq_ok_iff.1 hrun
    obtain ⟨g, hg⟩ := exists_of_forall₂ hgroups _ he
    exact ih (build_eq_ok_iff.1 hg)

/-- A condition with a group counts no more branches together than there may be alternates. -/
theorem countsAtMost_of_group {e : Expr} {g : Group} (h : group scope e = .ok g) :
    e.CountsAtMost scope.function? scope.settings.alternateLimit :=
  fun _ hcounts => hcounts.length_le (build_eq_ok_iff.1 h)

/-! ### Other limits -/

/-- Conjoined conditions emit the same rows in both scopes when each of them does. -/
theorem succeedsAs_lowerAll {es : List Expr}
    (hes : ∀ e ∈ es, SucceedsAs (lower scope e) (lower scope' e)) :
    SucceedsAs (lowerAll scope es) (lowerAll scope' es) := by
  induction es with
  | nil => exact .refl _
  | cons e es ih =>
    obtain ⟨he, hes⟩ := List.forall_mem_cons.1 hes
    cases es with
    | nil => exact he
    | cons e' es => exact he.bind fun _ => (SucceedsAs.refl joinNext).bind fun _ => ih hes

/-- A condition that emits the same rows in both scopes has the same group in both. -/
theorem group_of_succeedsAs {e : Expr} (he : SucceedsAs (lower scope e) (lower scope' e))
    {g : Group} (h : group scope e = .ok g) : group scope' e = .ok g :=
  build_eq_ok_iff.2 (he _ _ _ (build_eq_ok_iff.1 h))

/-- Branches are counted alike in both scopes when they lower alike and are within the limit of the
second one. -/
theorem succeedsAs_countedBranches {branches : List Expr}
    (hbranches : ∀ e ∈ branches, SucceedsAs (lower scope e) (lower scope' e))
    (hlimit : branches.length ≤ scope'.settings.alternateLimit) (s : Span) (hits : UInt16) :
    SucceedsAs (countedBranches scope s branches hits)
      (countedBranches scope' s branches hits) := by
  intro before u after h
  obtain ⟨groups, rows, hgroups, -, hrows, rfl⟩ := run_countedBranches_eq_ok_iff.1 h
  have hgroups := forall₂_imp_of_mem hgroups fun e he g => group_of_succeedsAs (hbranches e he)
  exact run_countedBranches_eq_ok_iff.2 ⟨groups, rows, hgroups, hlimit, hrows, rfl⟩

/-- A condition that counts its hits emits the same rows if it does so by itself and as a
disjunction. -/
theorem succeedsAs_lowerCounted {condition : Expr}
    (hcondition : SucceedsAs (lower scope condition) (lower scope' condition))
    (hbranches : ∀ s branches, condition = .join s .any branches →
      branches.length ≤ scope'.settings.alternateLimit ∧
        ∀ e ∈ branches, SucceedsAs (lower scope e) (lower scope' e)) (hits : UInt16) :
    SucceedsAs (lowerCounted scope hits condition) (lowerCounted scope' hits condition) := by
  intro before u after h
  rw [run_lowerCounted_eq_ok_iff] at h ⊢
  obtain ⟨s, branches, rfl, h⟩ | ⟨rows, hrows, h⟩ := h
  · obtain ⟨hlimit, hes⟩ := hbranches s branches rfl
    exact .inl ⟨s, branches, rfl, succeedsAs_countedBranches hes hlimit s hits _ _ _ h⟩
  · exact .inr ⟨rows, hcondition _ _ _ hrows, h⟩

/-- A guard emits the same rows in both scopes when its condition does. -/
theorem succeedsAs_lowerGuarded {condition : Expr}
    (hcondition : SucceedsAs (lower scope condition) (lower scope' condition)) (g : Guard) :
    SucceedsAs (lowerGuarded scope g condition) (lowerGuarded scope' g condition) := by
  intro before u after h
  rw [run_lowerGuarded_eq_ok_iff] at h ⊢
  obtain ⟨rows, hrows, h⟩ := h
  exact ⟨rows, hcondition _ _ _ hrows, h⟩

/-- The target of a call is the same wherever counts have the same value. -/
theorem CountsToward.of_isDeepenedBy (hscope : scope.IsDeepenedBy scope') {b : Builtin}
    {arguments : List Expr} {condition : Expr} {hits : UInt16}
    (h : CountsToward scope b arguments condition hits) :
    CountsToward scope' b arguments condition hits := by
  cases h with
  | repeated hhits =>
    obtain ⟨value, hvalue, hhits⟩ := Outcome.bind_eq_ok_iff.1 hhits
    exact .repeated (Outcome.bind_eq_ok_iff.2
      ⟨value, evaluate_of_isDeepenedBy hscope hvalue, hhits⟩)
  | once => exact .once

/-- A condition that can be lowered emits the same rows in every deeper scope with the same names,
as long as all branches that are counted together fit under its limit. -/
theorem succeedsAs_lower (hscope : scope.IsDeepenedBy scope') {e : Expr}
    (hcounts : e.CountsAtMost scope.function? scope'.settings.alternateLimit) :
    SucceedsAs (lower scope e) (lower scope' e) := by
  -- By two levels, since the branches of a count stand below the condition that is counted.
  induction e using induction_two_levels with
  | h e ih ih' =>
    cases e with
    | join s c es =>
      cases c with
      | all =>
        rw [lower, lower]
        refine (succeedsAs_lowerAll fun e he => ih e he ?_).within s s
        exact fun branches h => hcounts branches (.operand he h)
      | any =>
        rw [lower, lower]
        exact (succeedsAs_fail _ _).within s s
    | call s name arguments =>
      intro before u after h
      rw [run_lower_call_eq_ok_iff] at h ⊢
      obtain ⟨b, hname, h⟩ := h
      refine ⟨b, (congrFun hscope.function? name).trans hname, ?_⟩
      rw [run_lowerBuiltin_eq_ok_iff] at h ⊢
      obtain ⟨condition, hits, hhits, h⟩ | ⟨g, condition, rest, rfl, rfl, h⟩ := h
      · have hmem : condition ∈ arguments := by
          cases hhits with
          | repeated => exact List.mem_cons_of_mem _ List.mem_cons_self
          | once => exact List.mem_cons_self
        have hcondition := ih condition hmem
          fun branches h => hcounts branches (.counted hname hhits.countsHits h)
        refine .inl ⟨condition, hits, hhits.of_isDeepenedBy hscope,
          succeedsAs_lowerCounted hcondition ?_ hits _ _ _ h⟩
        rintro s' branches rfl
        refine ⟨hcounts branches (.disjunction hname hhits.countsHits), fun e he => ?_⟩
        exact ih' _ hmem e he
          fun branches h => hcounts branches (.branch hname hhits.countsHits he h)
      · have hcondition := ih condition List.mem_cons_self
          fun branches h => hcounts branches (.guarded hname h)
        exact .inr ⟨g, condition, rest, rfl, rfl, succeedsAs_lowerGuarded hcondition g _ _ _ h⟩
    | literal s value => cases value <;> exact .refl _
    | _ => exact .refl _

/-- The group of a condition is the same in every deeper scope with enough room. -/
theorem group_of_isDeepenedBy (hscope : scope.IsDeepenedBy scope') {e : Expr} {g : Group}
    (hcounts : e.CountsAtMost scope.function? scope'.settings.alternateLimit)
    (h : group scope e = .ok g) : group scope' e = .ok g :=
  group_of_succeedsAs (succeedsAs_lower hscope hcounts) h

end Expr

end TriggerLang
