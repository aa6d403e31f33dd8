import TriggerLang.Proofs.Evaluation.Invariant
import TriggerLang.Proofs.Lowering.Local
/-!
# Repeated disjunctions

A repeated disjunction counts the hits of its branches together.  Its branches are lowered one by
one, away from the rows that are there, and their rows are emitted all at once: the rows that add
their hits, and then the rows of the branch that collects them, whose last row has the target.

The main statement is `run_lower_repeated_any`.  It says when a repeated disjunction can be lowered,
which rows it emits, and that it emits none when it fails.
-/

namespace TriggerLang

/-! ### Failures that leave the state as it is -/

namespace Building

variable {σ α β : Type}

/-- A failure of the computation leaves the state that it started from. -/
def FailsInPlace (x : Building σ α) (s : σ) : Prop :=
  ∀ d t, x.run s = .error d t → t = s

/-- A failure leaves the state as it is. -/
theorem failsInPlace_fail (cause : Cause) (s : σ) :
    FailsInPlace (fail cause : Building σ α) s := by
  intro d t h
  cases h
  rfl

/-- The outcome of an evaluation leaves the state as it is. -/
theorem failsInPlace_ofOutcome (x : Outcome α) (s : σ) : FailsInPlace (ofOutcome x) s := by
  intro d t h
  cases x with
  | ok a => cases h
  | error d' =>
    cases h
    rfl

/-- A place for a failure does not touch the state. -/
theorem FailsInPlace.within {x : Building σ α} {s : σ} (h : FailsInPlace x s) (place : Span) :
    FailsInPlace (Building.within place x) s := by
  intro d t hrun
  replace hrun : Building.within place x s = .error d t := hrun
  rw [Building.within] at hrun
  cases hx : x.run s with
  | ok a t' =>
    rw [hx] at hrun
    cases hrun
  | error d' t' =>
    rw [hx] at hrun
    cases hrun
    exact h d' t hx

/-- After a computation that changes nothing, what fails in place fails in place. -/
theorem FailsInPlace.bind {x : Building σ α} {f : α → Building σ β} {s : σ}
    (hx : FailsInPlace x s) (hf : ∀ a t, x.run s = .ok a t → t = s ∧ FailsInPlace (f a) s) :
    FailsInPlace (x >>= f) s := by
  intro d t hrun
  cases hxrun : x.run s with
  | ok a s' =>
    obtain ⟨rfl, hfail⟩ := hf a s' hxrun
    rw [run_bind_of_ok hxrun] at hrun
    exact hfail d t hrun
  | error d' t' =>
    rw [run_bind_of_error hxrun] at hrun
    cases hrun
    exact hx d t hxrun

end Building

/-- A check of the limit of alternate groups leaves the state as it is. -/
theorem Scope.failsInPlace_requireAlternates {σ : Type} (scope : Scope) (place : Span)
    (count : Nat) (s : σ) : Building.FailsInPlace (scope.requireAlternates place count) s := by
  unfold requireAlternates
  split
  · exact (Building.failsInPlace_fail _ s).within place
  · intro d t h
    cases h

namespace Expr

open Building Emission

variable {scope : Scope}

/-- Groups that cannot count together emit nothing, and the target for rows that were emitted cannot
fail. -/
theorem failsInPlace_emitCounted_stampLast (s : Span) (groups : List Group) (hits : UInt16)
    (before : List Row) :
    FailsInPlace (do emitCounted s groups; stampLast hits) before := by
  unfold emitCounted
  split
  · intro d t h
    cases h
  · refine ((failsInPlace_fail _ before).within s).bind fun a t h => ?_
    exact absurd (run_within_eq_ok_iff.1 h) run_fail_ne_ok

/-- A disjunction whose branches cannot be counted together leaves the rows as they are. -/
theorem failsInPlace_countedBranches (s : Span) (branches : List Expr) (hits : UInt16)
    (before : List Row) : FailsInPlace (countedBranches scope s branches hits) before := by
  refine (failsInPlace_ofOutcome _ before).bind fun groups t hbuild => ?_
  obtain ⟨-, rfl⟩ := run_ofOutcome_eq_ok_iff.1 hbuild
  refine ⟨rfl, (scope.failsInPlace_requireAlternates s _ t).bind fun a t' hcheck => ?_⟩
  obtain ⟨-, rfl⟩ := Scope.run_requireAlternates_eq_ok_iff.1 hcheck
  exact ⟨rfl, failsInPlace_emitCounted_stampLast s groups hits t'⟩

end Expr

/-! ### Rows with a target -/

namespace Group

/-- The rows that count toward a target: those of the addends, each ended by a row that adds its
hits, and those of the collector, ended by a plain row with the target. -/
def rowsToward (hits : UInt16) (addends : List Group) (collector : Group) : List Row :=
  (addends.map (chained (·.withRole .addHits))).flatten ++
    chained (fun row => (row.withRole .plain).withHits hits) collector

/-- Counted rows that get a target. -/
theorem update_countedRows? {groups : List Group} (hne : groups ≠ [])
    (hgroups : ∀ g ∈ groups, g ≠ []) {rows : List Row} (h : countedRows? groups = some rows)
    (hits : UInt16) (before : List Row) :
    ∃ addends collector, CollectorLast groups addends collector ∧
      LastElement.update (·.withHits hits) (before ++ rows) =
        before ++ rowsToward hits addends collector := by
  obtain ⟨addends, collector, hcollector, rfl⟩ := countedRows?_eq_some hne hgroups h
  have hlast : chained (·.withRole .plain) collector ≠ [] :=
    chained_ne_nil _ (hcollector.forall_of_forall hgroups (List.cons_ne_nil _ _)).1
  refine ⟨addends, collector, hcollector, ?_⟩
  rw [← List.append_assoc, LastElement.update_append _ _ hlast, update_chained, List.append_assoc]
  rfl

end Group

namespace Expr

open Building Emission

variable {scope : Scope}

/-- A repeated disjunction with a valid count is lowered by counting its branches together. -/
theorem lower_repeated_any {name : String}
    (hname : scope.function? name = some (.builtin .repeated)) {count : Expr} {hits : UInt16}
    (hcount : (evaluate scope count >>= repeatCount) = .ok hits) (s place : Span)
    (branches : List Expr) :
    lower scope (.call place name [count, .join s .any branches]) =
      Building.within place (countedBranches scope s branches hits) := by
  rw [lower, hname]
  dsimp only
  rw [lowerBuiltin_repeated_any, hcount]
  rfl

/-- A repeated disjunction in which every connective has operands, as in every value of evaluation
(`hasOperands_evaluate`).

It can be lowered exactly when each branch lowers to a group that is a branch.  Then it emits the
rows of all groups, in an order that lets the last group without a hit count collect the hits; its
last row gets the target.  When it fails, it emits nothing. -/
theorem run_lower_repeated_any {name : String}
    (hname : scope.function? name = some (.builtin .repeated)) {count : Expr} {hits : UInt16}
    (hcount : (evaluate scope count >>= repeatCount) = .ok hits) {s : Span} {branches : List Expr}
    (hbranches : (Expr.join s .any branches).HasOperands)
    (hlimit : branches.length ≤ scope.settings.alternateLimit) (place : Span)
    (before : List Row) :
    ((∃ after, (lower scope (.call place name [count, .join s .any branches])).run before =
        .ok () after) ↔
      ∀ e ∈ branches, ∃ g, group scope e = .ok g ∧ Group.IsBranch g) ∧
    (∀ after, (lower scope (.call place name [count, .join s .any branches])).run before =
        .ok () after →
      ∃ groups addends collector, List.Forall₂ (fun e g => group scope e = .ok g) branches groups ∧
        Group.CollectorLast groups addends collector ∧ (∀ g ∈ addends, Group.IsBranch g) ∧
        Group.IsBranch collector ∧ Group.countsHits collector = false ∧
        after = before ++ Group.rowsToward hits addends collector) ∧
    ∀ d after, (lower scope (.call place name [count, .join s .any branches])).run before =
        .error d after → after = before := by
  have hne : branches ≠ [] := fun hnil => hbranches.node s .any (by rw [hnil])
  have hlocal : ∀ e ∈ branches, IsLocal (lower scope e) :=
    fun e he => HasOperands.isLocal_lower (hbranches.children e he)
  -- All three statements are about the branches once the count is known.
  rw [lower_repeated_any hname hcount]
  simp only [run_within_eq_ok_iff, run_countedBranches_eq_ok_iff]
  refine ⟨?_, ?_, (failsInPlace_countedBranches s branches hits before).within place⟩
  · rw [forall_exists_iff_forall₂]
    constructor
    · rintro ⟨_, groups, rows, hgroups, -, hrows, -⟩
      have hnonempty := (groups_ne_nil hne hlocal hgroups).2
      exact ⟨groups, hgroups, (Group.countedRows?_isSome_iff hnonempty).1 ⟨rows, hrows⟩⟩
    · rintro ⟨groups, hgroups, hbranch⟩
      have hnonempty := (groups_ne_nil hne hlocal hgroups).2
      obtain ⟨rows, hrows⟩ := (Group.countedRows?_isSome_iff hnonempty).2 hbranch
      exact ⟨_, groups, rows, hgroups, hlimit, hrows, rfl⟩
  · rintro _ ⟨groups, rows, hgroups, -, hrows, rfl⟩
    obtain ⟨hnonempty, hnonempties⟩ := groups_ne_nil hne hlocal hgroups
    have hbranch := (Group.countedRows?_isSome_iff hnonempties).1 ⟨rows, hrows⟩
    obtain ⟨addends, collector, hcollector, hupdate⟩ :=
      Group.update_countedRows? hnonempty hnonempties hrows hits before
    obtain ⟨hcollectorBranch, haddends⟩ :=
      hcollector.forall_of_forall hbranch (Group.isBranch_singleton_iff.2 rfl)
    exact ⟨groups, addends, collector, hgroups, hcollector, haddends, hcollectorBranch,
      hcollector.countsHits_collector, hupdate⟩

/-- `repeated(5, byte(1) == 1 || byte(2) == 2 && byte(3) == 3 || once(byte(4) == 4))`, evaluated in
a trigger clause and lowered after another row: the conjunction collects the hits. -/
theorem run_lower_repeated_moved_branch :
    let byte (address : Int32) : Expr := .call .unknown "byte" [.int address]
    let is (n : Int32) : Expr := .compare .unknown .equal (byte n) (.int n)
    let row (n : UInt32) : Row := .compare (.read .byte n) .equal (.word n)
    let scope := (Scope.root {}).clause
    let e : Expr := .join .unknown .any
      [is 1, .join .unknown .all [is 2, is 3], .call .unknown "once" [is 4]]
    ∃ branches, evaluate scope e = .ok (.join .unknown .any branches) ∧
      (Expr.join .unknown .any branches).HasOperands ∧
      branches.length ≤ scope.settings.alternateLimit ∧
      (∀ e ∈ branches, ∃ g, group scope e = .ok g ∧ Group.IsBranch g) ∧
      ∃ after, (lower scope (.call .unknown "repeated" [.int 5, .join .unknown .any branches])).run
          [Row.alwaysTrue] = .ok () after ∧
        after = [.alwaysTrue, (row 1).withRole .addHits, ((row 4).withRole .addHits).withHits 1,
          (row 2).withRole .andNext, (row 3).withHits 5] := by
  intro byte is row scope e
  have hvalue : evaluate scope e = .ok (.join .unknown .any _) := rfl
  have hnone (name : String) : scope.lookup? name = none := rfl
  have hoperands :=
    hasOperands_evaluate (fun name value h => nomatch (hnone name).symm.trans h) hvalue
  have hcount : (evaluate scope (.int 5) >>= repeatCount) = .ok 5 := rfl
  have hrepeated : scope.function? "repeated" = some (.builtin .repeated) :=
    (Scope.hasBuiltins_root {}).clause .repeated
  obtain ⟨hsuccess, -, -⟩ := run_lower_repeated_any hrepeated hcount hoperands (by decide) .unknown
    [Row.alwaysTrue]
  exact ⟨_, hvalue, hoperands, by decide, hsuccess.1 ⟨_, rfl⟩, _, rfl, rfl⟩

end Expr

end TriggerLang
