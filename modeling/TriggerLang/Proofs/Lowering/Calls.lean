import TriggerLang.Proofs.Lowering.Local
/-!
# Lowering of calls

Of the built-in functions, those that count hits and those that guard a condition emit rows.  Both
treat a disjunction in a way of its own: a counting function counts the hits of its branches
together, and a guarding function refuses it.  Any other condition emits its rows first, and then
the last of them is changed.

`lowerCounted` and `lowerGuarded` say this once for all functions of a kind, and the laws after them
say which calls they are.  No other call can be lowered
(`run_lowerBuiltin_eq_ok_iff`).
-/

namespace TriggerLang.Expr

open Emission

variable {scope : Scope}

/-- Emits the rows of a condition that counts its hits toward a target. -/
def lowerCounted (scope : Scope) (hits : UInt16) : Expr → Emission Unit
  | .join s .any branches => countedBranches scope s branches hits
  | condition => do
      lower scope condition
      stampLast hits

/-- Emits the rows of a condition that guards its group. -/
def lowerGuarded (scope : Scope) (g : Guard) : Expr → Emission Unit
  | .join s .any _ => Building.within s (Building.fail (.orUnderModifier g.name))
  | condition => do
      lower scope condition
      guardLast g condition.span

/-- What a counting function counts: the condition among its arguments, and the target. -/
inductive CountsToward (scope : Scope) : Builtin → List Expr → Expr → UInt16 → Prop
  | repeated {count condition : Expr} {rest : List Expr} {hits : UInt16}
      (hhits : (evaluate scope count >>= repeatCount) = .ok hits) :
      CountsToward scope .repeated (count :: condition :: rest) condition hits
  | once {condition : Expr} {rest : List Expr} :
      CountsToward scope .once (condition :: rest) condition 1

/-- A call of `repeated` counts the hits of its condition toward its evaluated count. -/
theorem lowerBuiltin_repeated (name : String) (count condition : Expr) (rest : List Expr) :
    lowerBuiltin scope name .repeated (count :: condition :: rest) = (do
      let hits ← Building.ofOutcome (evaluate scope count >>= repeatCount)
      lowerCounted scope hits condition) := by
  cases condition with
  | join s c branches => cases c <;> rfl
  | _ => rfl

/-- A call of `once` counts one hit of its condition. -/
theorem lowerBuiltin_once (name : String) (condition : Expr) (rest : List Expr) :
    lowerBuiltin scope name .once (condition :: rest) = lowerCounted scope 1 condition := by
  cases condition with
  | join s c branches => cases c <;> rfl
  | _ => rfl

/-- A call of a guarding function guards the group by its condition. -/
theorem lowerBuiltin_guarding (name : String) (g : Guard) (condition : Expr) (rest : List Expr) :
    lowerBuiltin scope name (.guard g) (condition :: rest) = lowerGuarded scope g condition := by
  cases condition with
  | join s c branches => cases c <;> rfl
  | _ => rfl

/-- Only a call of a built-in function can be lowered. -/
theorem run_lower_call_eq_ok_iff {s : Span} {name : String} {arguments : List Expr}
    {before after : List Row} :
    (lower scope (.call s name arguments)).run before = .ok () after ↔
      ∃ b, scope.function? name = some (.builtin b) ∧
        (lowerBuiltin scope name b arguments).run before = .ok () after := by
  rw [lower, Building.run_within_eq_ok_iff]
  cases hname : scope.function? name with
  | none =>
    constructor
    · exact fun h => absurd h Building.run_fail_ne_ok
    · rintro ⟨b, hb, -⟩
      cases hb
  | some f =>
    cases f with
    | builtin b =>
      constructor
      · exact fun h => ⟨b, rfl, h⟩
      · rintro ⟨_, ⟨⟩, h⟩
        exact h
    | script name' parameters body =>
      constructor
      · exact fun h => absurd h Building.run_fail_ne_ok
      · rintro ⟨b, hb, -⟩
        cases hb

/-- A call that lowers counts or guards the hits of a condition. -/
theorem run_lowerBuiltin_eq_ok_iff {name : String} {b : Builtin} {arguments : List Expr}
    {before after : List Row} :
    (lowerBuiltin scope name b arguments).run before = .ok () after ↔
      (∃ condition hits, CountsToward scope b arguments condition hits ∧
        (lowerCounted scope hits condition).run before = .ok () after) ∨
      ∃ g condition rest, b = .guard g ∧ arguments = condition :: rest ∧
        (lowerGuarded scope g condition).run before = .ok () after := by
  constructor
  · intro h
    cases b with
    | repeated =>
      rcases arguments with _ | ⟨count, _ | ⟨condition, rest⟩⟩
      · cases h
      · obtain ⟨hits, rows, -, hfail⟩ := Building.run_bind_eq_ok_iff.1 h
        exact absurd hfail Building.run_fail_ne_ok
      · rw [lowerBuiltin_repeated] at h
        obtain ⟨hits, rows, hcount, hcounted⟩ := Building.run_bind_eq_ok_iff.1 h
        obtain ⟨hhits, rfl⟩ := Building.run_ofOutcome_eq_ok_iff.1 hcount
        exact .inl ⟨condition, hits, .repeated hhits, hcounted⟩
    | once =>
      cases arguments with
      | nil => cases h
      | cons condition rest =>
        rw [lowerBuiltin_once] at h
        exact .inl ⟨condition, 1, .once, h⟩
    | guard g =>
      cases arguments with
      | nil => cases h
      | cons condition rest =>
        rw [lowerBuiltin_guarding] at h
        exact .inr ⟨g, condition, rest, rfl, rfl, h⟩
    | read size =>
      rw [lowerBuiltin] at h
      exact absurd h Building.run_fail_ne_ok
    | always value =>
      rw [lowerBuiltin] at h
      exact absurd h Building.run_fail_ne_ok
  · rintro (⟨condition, hits, hcounts, h⟩ | ⟨g, condition, rest, rfl, rfl, h⟩)
    · cases hcounts with
      | repeated hhits =>
        rw [lowerBuiltin_repeated]
        exact Building.run_bind_eq_ok_iff.2
          ⟨hits, before, Building.run_ofOutcome_eq_ok_iff.2 ⟨hhits, rfl⟩, h⟩
      | once => rwa [lowerBuiltin_once]
    · rwa [lowerBuiltin_guarding]

/-- A condition that counts its hits is a disjunction, or it is lowered by itself. -/
theorem run_lowerCounted_eq_ok_iff {hits : UInt16} {condition : Expr} {before after : List Row} :
    (lowerCounted scope hits condition).run before = .ok () after ↔
      (∃ s branches, condition = .join s .any branches ∧
        (countedBranches scope s branches hits).run before = .ok () after) ∨
      ∃ rows, (lower scope condition).run before = .ok () rows ∧
        after = LastElement.update (·.withHits hits) rows := by
  have hstamp : (∃ rows, (lower scope condition).run before = .ok () rows ∧
      after = LastElement.update (·.withHits hits) rows) ↔
        (do lower scope condition; stampLast hits).run before = .ok () after := by
    rw [Building.run_bind_eq_ok_iff]
    constructor
    · rintro ⟨rows, hrows, rfl⟩
      exact ⟨(), rows, hrows, rfl⟩
    · rintro ⟨⟨⟩, rows, hrows, h⟩
      cases h
      exact ⟨rows, hrows, rfl⟩
  rw [hstamp]
  unfold lowerCounted
  split
  · rename_i s branches
    constructor
    · exact fun h => .inl ⟨s, branches, rfl, h⟩
    · rintro (⟨_, _, ⟨⟩, h⟩ | h)
      · exact h
      · obtain ⟨⟨⟩, rows, hrows, -⟩ := Building.run_bind_eq_ok_iff.1 h
        rw [lower, Building.run_within_eq_ok_iff] at hrows
        exact absurd hrows Building.run_fail_ne_ok
  · rename_i hor
    constructor
    · exact .inr
    · rintro (⟨s, branches, rfl, -⟩ | h)
      · exact absurd rfl (hor s branches)
      · exact h

/-- A condition that guards its group is lowered by itself. -/
theorem run_lowerGuarded_eq_ok_iff {g : Guard} {condition : Expr} {before after : List Row} :
    (lowerGuarded scope g condition).run before = .ok () after ↔
      ∃ rows, (lower scope condition).run before = .ok () rows ∧
        (guardLast g condition.span).run rows = .ok () after := by
  have hguard : (∃ rows, (lower scope condition).run before = .ok () rows ∧
      (guardLast g condition.span).run rows = .ok () after) ↔
        (do lower scope condition; guardLast g condition.span).run before = .ok () after := by
    rw [Building.run_bind_eq_ok_iff]
    constructor
    · rintro ⟨rows, hrows, h⟩
      exact ⟨(), rows, hrows, h⟩
    · rintro ⟨⟨⟩, rows, hrows, h⟩
      exact ⟨rows, hrows, h⟩
  rw [hguard]
  unfold lowerGuarded
  split
  · constructor
    · intro h
      rw [Building.run_within_eq_ok_iff] at h
      exact absurd h Building.run_fail_ne_ok
    · intro h
      obtain ⟨⟨⟩, rows, hrows, -⟩ := Building.run_bind_eq_ok_iff.1 h
      rw [lower, Building.run_within_eq_ok_iff] at hrows
      exact absurd hrows Building.run_fail_ne_ok
  · exact Iff.rfl

end TriggerLang.Expr
