import TriggerLang.Proofs.Lowering.Counting
import TriggerLang.Proofs.Success
import TriggerLang.Proofs.Tree
/-!
# Lowering is local

Lowering emits rows after rows that are there already, and it changes the row that came last.  The
last row is always one of its own: every lowering that succeeds has emitted a row before it changes
one.  So the rows that were there before stay as they are, and they have no influence on what
happens after them, failures included.

The main statements are `HasOperands.isLocal_lower` and, of outcomes, `HasOperands.outcome_lower`.
A connective without operands is excluded: it emits nothing, and a hit count or a role for it would
go to a row that it did not emit.
-/

namespace TriggerLang

namespace Emission

variable {α β : Type}

/-! ### Computations that keep to their own rows -/

/-- The result of a computation, with rows before all rows that it leaves. -/
def prefixed (before : List Row) :
    EStateM.Result Diagnostic (List Row) α → EStateM.Result Diagnostic (List Row) α
  | .ok a rows => .ok a (before ++ rows)
  | .error d rows => .error d (before ++ rows)

/-- The computation, run after some rows, neither reads nor changes anything before them. -/
def FramesAt (x : Emission α) (rows : List Row) : Prop :=
  ∀ before, x.run (before ++ rows) = prefixed before (x.run rows)

/-- A computation that only returns a value touches no row. -/
theorem framesAt_pure (a : α) (rows : List Row) : FramesAt (pure a) rows :=
  fun _ => rfl

/-- A failure touches no row. -/
theorem framesAt_fail (cause : Cause) (rows : List Row) :
    FramesAt (Building.fail cause : Emission α) rows :=
  fun _ => rfl

/-- Emitted rows come after all others and change none of them. -/
theorem framesAt_emit (emitted rows : List Row) : FramesAt (emit emitted) rows := by
  intro before
  rw [run_emit, run_emit, List.append_assoc]
  rfl

/-- The outcome of an evaluation touches no row. -/
theorem framesAt_ofOutcome (x : Outcome α) (rows : List Row) :
    FramesAt (Building.ofOutcome x) rows := by
  cases x <;> exact fun _ => rfl

/-- A change of the last row keeps to own rows once there is one.  Without own rows it would change
a row that was there before. -/
theorem framesAt_updateLast (f : Row → Row) {rows : List Row} (h : rows ≠ []) :
    FramesAt (updateLast f) rows := by
  intro before
  rw [run_updateLast, run_updateLast, LastElement.update_append f before h]
  rfl

/-- A place for failures does not reach any rows. -/
theorem FramesAt.within {x : Emission α} {rows : List Row} (h : FramesAt x rows) (s : Span) :
    FramesAt (Building.within s x) rows := by
  intro before
  show Building.within s x (before ++ rows) = prefixed before (Building.within s x rows)
  rw [Building.within, Building.within, h before]
  cases x.run rows <;> rfl

/-- A sequence keeps to its own rows if its first part does and its second part does so after the
rows of the first. -/
theorem FramesAt.bind {x : Emission α} {f : α → Emission β} {rows : List Row}
    (hx : FramesAt x rows) (hf : ∀ a rows', x.run rows = .ok a rows' → FramesAt (f a) rows') :
    FramesAt (x >>= f) rows := by
  intro before
  have hbefore := hx before
  cases hrun : x.run rows with
  | ok a rows' =>
    rw [hrun] at hbefore
    rw [Building.run_bind_of_ok hrun, Building.run_bind_of_ok hbefore]
    exact hf a rows' hrun before
  | error d rows' =>
    rw [hrun] at hbefore
    rw [Building.run_bind_of_error hrun, Building.run_bind_of_error hbefore]
    rfl

/-- A guard changes a plain row that came last, and fails on any other. -/
theorem run_guardLast (g : Guard) (s : Span) (before : List Row) (last : Row) :
    (guardLast g s).run (before ++ [last]) =
      if last.role = .plain then .ok () (before ++ [last.withRole g.role])
      else .error ({ cause := .alreadyModified g.name : Diagnostic }.within s)
        (before ++ [last]) := by
  have hget : (get : Emission (List Row)).run (before ++ [last]) =
      .ok (before ++ [last]) (before ++ [last]) := rfl
  rw [guardLast, Building.run_bind_of_ok hget, List.getLast?_concat]
  dsimp only
  split
  · rw [run_updateLast, LastElement.update_concat]
  · rfl

/-- A guard reads and changes an own row once there is one. -/
theorem framesAt_guardLast (g : Guard) (s : Span) {rows : List Row} (h : rows ≠ []) :
    FramesAt (guardLast g s) rows := by
  intro before
  obtain ⟨rows, last, rfl⟩ := (List.eq_nil_or_concat' rows).resolve_left h
  rw [← List.append_assoc, run_guardLast, run_guardLast]
  split <;> exact congrArg _ (List.append_assoc before rows _)

end Emission

/-- The limit of alternate groups is checked without a look at the rows. -/
theorem Scope.framesAt_requireAlternates (scope : Scope) (place : Span) (count : Nat)
    (rows : List Row) : Emission.FramesAt (scope.requireAlternates place count) rows := by
  unfold requireAlternates
  split
  · exact (Emission.framesAt_fail _ rows).within place
  · exact Emission.framesAt_pure () rows

namespace Emission

/-- A local computation emits rows of its own, whatever is there before. -/
structure IsLocal (x : Emission Unit) : Prop where
  framesAt (rows : List Row) : FramesAt x rows
  ne_nil {rows rows' : List Row} : x.run rows = .ok () rows' → rows' ≠ []

/-- A failure is local, as it leaves nothing behind. -/
theorem isLocal_fail (cause : Cause) : IsLocal (Building.fail cause) :=
  ⟨framesAt_fail cause, fun h => absurd h Building.run_fail_ne_ok⟩

/-- At least one row, emitted, is a local computation. -/
theorem isLocal_emit {rows : List Row} (h : rows ≠ []) : IsLocal (emit rows) := by
  refine ⟨framesAt_emit rows, fun {before after} hrun => ?_⟩
  cases hrun
  exact List.append_ne_nil_of_right_ne_nil before h

namespace IsLocal

variable {x : Emission Unit}

/-- A local computation stays local when its failures get a place. -/
theorem within (hx : IsLocal x) (s : Span) : IsLocal (Building.within s x) :=
  ⟨fun rows => (hx.framesAt rows).within s, fun h => hx.ne_nil (Building.run_within_eq_ok_iff.1 h)⟩

/-- What a local computation leaves after other rows. -/
theorem run_eq (hx : IsLocal x) (before : List Row) :
    x.run before = prefixed before (x.run []) := by
  have h := hx.framesAt [] before
  rwa [List.append_nil] at h

/-- The outcome of a local computation does not depend on the rows before it. -/
theorem outcome_eq (hx : IsLocal x) (before : List Row) :
    x.outcome before = ((x.outcome []).1, before ++ (x.outcome []).2) := by
  rw [Building.outcome, Building.outcome, hx.run_eq]
  cases x.run [] <;> rfl

/-- A local computation that succeeds has left a row, whatever was there before. -/
theorem outcome_ne_nil (hx : IsLocal x) {before : List Row} (h : (x.outcome before).1 = .ok ()) :
    (x.outcome before).2 ≠ [] := by
  rw [Building.outcome] at h ⊢
  cases hrun : x.run before with
  | ok u rows => exact hx.ne_nil hrun
  | error d rows =>
    rw [hrun] at h
    cases h

/-- A local computation may come after anything that keeps to its own rows. -/
theorem of_bind {y : Emission α} {f : α → Emission Unit} (hy : ∀ rows, FramesAt y rows)
    (hf : ∀ a rows rows', y.run rows = .ok a rows' → IsLocal (f a)) : IsLocal (y >>= f) := by
  constructor
  · exact fun rows => (hy rows).bind fun a rows' h => (hf a rows rows' h).framesAt rows'
  · intro rows rows'' h
    obtain ⟨a, rows', hrun, h⟩ := Building.run_bind_eq_ok_iff.1 h
    exact (hf a rows rows' hrun).ne_nil h

/-- After a local computation the last row may be read and changed. -/
theorem bind (hx : IsLocal x) {f : Unit → Emission Unit}
    (hf : ∀ rows, rows ≠ [] → FramesAt (f ()) rows)
    (hne : ∀ {rows rows'}, rows ≠ [] → (f ()).run rows = .ok () rows' → rows' ≠ []) :
    IsLocal (x >>= f) := by
  constructor
  · exact fun rows => (hx.framesAt rows).bind fun _ rows' h => hf rows' (hx.ne_nil h)
  · intro rows rows'' h
    obtain ⟨⟨⟩, rows', hrun, h⟩ := Building.run_bind_eq_ok_iff.1 h
    exact hne (hx.ne_nil hrun) h

end IsLocal

/-! ### Operations after a local computation -/

namespace IsLocal

variable {x y : Emission Unit}

/-- A local computation stays local when its last row is changed afterwards. -/
theorem bind_updateLast (hx : IsLocal x) (f : Row → Row) :
    IsLocal (do x; updateLast f) := by
  refine hx.bind (fun rows h => framesAt_updateLast f h) fun {rows rows'} h hrun => ?_
  cases hrun
  exact List.ne_nil_of_length_pos (by rw [LastElement.length_update]; exact List.length_pos_iff.2 h)

/-- A local computation stays local when its last row becomes a guard. -/
theorem bind_guardLast (hx : IsLocal x) (g : Guard) (s : Span) :
    IsLocal (do x; guardLast g s) := by
  refine hx.bind (fun rows h => framesAt_guardLast g s h) fun {rows rows'} h hrun => ?_
  obtain ⟨rows, last, rfl⟩ := (List.eq_nil_or_concat' rows).resolve_left h
  rw [run_guardLast] at hrun
  split at hrun
  · cases hrun
    exact List.concat_ne_nil _ _
  · cases hrun

/-- Two local computations stay local when the first is joined to the second. -/
theorem bind_joinNext (hx : IsLocal x) (hy : IsLocal y) : IsLocal (do x; joinNext; y) :=
  hx.bind (fun rows h => (framesAt_updateLast _ h).bind fun _ rows' _ => hy.framesAt rows')
    fun _ h => by
      obtain ⟨⟨⟩, rows', -, h⟩ := Building.run_bind_eq_ok_iff.1 h
      exact hy.ne_nil h

end IsLocal

/-- Groups that count together emit rows of their own. -/
theorem isLocal_emitCounted (s : Span) {groups : List Group} (hne : groups ≠ [])
    (hgroups : ∀ g ∈ groups, g ≠ []) : IsLocal (emitCounted s groups) := by
  unfold emitCounted
  split
  · rename_i rows hrows
    obtain ⟨addends, collector, hcollector, rfl⟩ := Group.countedRows?_eq_some hne hgroups hrows
    have hne := (hcollector.forall_of_forall hgroups (List.cons_ne_nil _ _)).1
    exact isLocal_emit (List.append_ne_nil_of_right_ne_nil _ (Group.chained_ne_nil _ hne))
  · exact (isLocal_fail _).within s

end Emission

/-! ### Conditions -/

namespace Expr

variable {scope : Scope}

open Emission

/-- A comparison emits its own rows, the comparing one at least. -/
theorem isLocal_lowerComparison (left : Expr) (relation : Relation) (right : Expr) :
    IsLocal (lowerComparison left relation right) := by
  unfold lowerComparison
  split
  · exact (isLocal_fail _).within _
  · rename_i side _
    exact .of_bind (framesAt_emit side.rows) fun _ _ _ _ =>
      .of_bind (framesAt_ofOutcome _) fun _ _ _ _ => isLocal_emit (List.cons_ne_nil _ _)

/-- Conjoined conditions are local when each of them is and there is at least one. -/
theorem isLocal_lowerAll {es : List Expr} (hne : es ≠ [])
    (hes : ∀ e ∈ es, IsLocal (lower scope e)) : IsLocal (lowerAll scope es) := by
  induction es with
  | nil => exact absurd rfl hne
  | cons e es ih =>
    cases es with
    | nil => exact hes e List.mem_cons_self
    | cons e' es =>
      exact (hes e List.mem_cons_self).bind_joinNext
        (ih (List.cons_ne_nil _ _) fun e'' he'' => hes e'' (List.mem_cons_of_mem _ he''))

/-- Conjoined conditions are lowered one after another, each joined to the next one. -/
theorem run_lowerAll_cons {e : Expr} {es : List Expr} {before after : List Row}
    (h : (lowerAll scope (e :: es)).run before = .ok () after) :
    ∃ head, (lower scope e).run before = .ok () head ∧
      (es = [] ∧ after = head ∨
        es ≠ [] ∧ (lowerAll scope es).run (LastElement.update
          (fun row => if row.role = .plain then row.withRole .andNext else row) head) =
            .ok () after) := by
  cases es with
  | nil => exact ⟨after, h, .inl ⟨rfl, rfl⟩⟩
  | cons e' es =>
    rw [lowerAll] at h
    obtain ⟨⟨⟩, head, hhead, hrest⟩ := Building.run_bind_eq_ok_iff.1 h
    obtain ⟨⟨⟩, joined, hjoin, htail⟩ := Building.run_bind_eq_ok_iff.1 hrest
    cases hjoin
    exact ⟨head, hhead, .inr ⟨List.cons_ne_nil _ _, htail⟩⟩

/-- Of conjoined conditions that can be lowered, each can be lowered. -/
theorem exists_run_lower_of_mem {es : List Expr} {before after : List Row}
    (h : (lowerAll scope es).run before = .ok () after) :
    ∀ e ∈ es, ∃ rows rows', (lower scope e).run rows = .ok () rows' := by
  induction es generalizing before with
  | nil => exact List.forall_mem_nil _
  | cons e es ih =>
    obtain ⟨head, hhead, ⟨rfl, -⟩ | ⟨-, htail⟩⟩ := run_lowerAll_cons h
    · exact List.forall_mem_singleton.2 ⟨before, head, hhead⟩
    · exact List.forall_mem_cons.2 ⟨⟨before, head, hhead⟩, ih htail⟩

/-- Conditions add their groups one after another. -/
theorem run_lowerEach_eq_ok_iff {es : List Expr} {before after : List Group} :
    (lowerEach scope es).run before = .ok () after ↔
      ∃ groups, List.Forall₂ (fun e g => group scope e = .ok g) es groups ∧
        after = before ++ groups := by
  induction es generalizing before with
  | nil =>
    constructor
    · intro h
      cases h
      exact ⟨[], .nil, (List.append_nil _).symm⟩
    · rintro ⟨_, ⟨⟩, rfl⟩
      rw [List.append_nil]
      rfl
  | cons e es ih =>
    rw [lowerEach, Building.run_bind_eq_ok_iff]
    constructor
    · rintro ⟨g, _, hrun, h⟩
      obtain ⟨hg, rfl⟩ := Building.run_ofOutcome_eq_ok_iff.1 hrun
      obtain ⟨⟨⟩, _, hmodify, h⟩ := Building.run_bind_eq_ok_iff.1 h
      cases hmodify
      obtain ⟨groups, hgroups, rfl⟩ := ih.1 h
      exact ⟨g :: groups, .cons hg hgroups, List.append_assoc _ _ _⟩
    · rintro ⟨_, _ | ⟨hg, hgroups⟩, rfl⟩
      refine ⟨_, before, Building.run_ofOutcome_eq_ok_iff.2 ⟨hg, rfl⟩,
        Building.run_bind_eq_ok_iff.2 ⟨(), _, rfl, ih.2 ⟨_, hgroups, ?_⟩⟩⟩
      exact (List.append_assoc _ [_] _).symm

/-- The groups of conditions by themselves. -/
theorem build_lowerEach_eq_ok_iff {es : List Expr} {groups : List Group} :
    (lowerEach scope es).build [] = .ok groups ↔
      List.Forall₂ (fun e g => group scope e = .ok g) es groups := by
  rw [Building.build_eq_ok_iff, run_lowerEach_eq_ok_iff]
  constructor
  · rintro ⟨_, h, rfl⟩
    exact h
  · exact fun h => ⟨groups, h, rfl⟩

/-- A condition that lowers locally has a group with a row. -/
theorem ne_nil_of_group {e : Expr} (he : IsLocal (lower scope e)) {g : Group}
    (h : group scope e = .ok g) : g ≠ [] :=
  he.ne_nil (Building.build_eq_ok_iff.1 h)

/-- The groups of conditions that lower locally: there is one for each, and each has a row. -/
theorem groups_ne_nil {es : List Expr} {groups : List Group} (hne : es ≠ [])
    (hes : ∀ e ∈ es, IsLocal (lower scope e))
    (h : List.Forall₂ (fun e g => group scope e = .ok g) es groups) :
    groups ≠ [] ∧ ∀ g ∈ groups, g ≠ [] := by
  constructor
  · rintro rfl
    cases h
    exact hne rfl
  · exact forall_of_forall₂ h fun e he _ hg => ne_nil_of_group (hes e he) hg

/-- Emits the rows of branches that count their hits together toward a target. -/
def countedBranches (scope : Scope) (s : Span) (branches : List Expr) (hits : UInt16) :
    Emission Unit := do
  let groups ← Building.ofOutcome ((lowerEach scope branches).build [])
  scope.requireAlternates s groups.length
  emitCounted s groups
  stampLast hits

/-- A repeated disjunction counts its branches together. -/
theorem lowerBuiltin_repeated_any (name : String) (count : Expr) (s : Span)
    (branches rest : List Expr) :
    lowerBuiltin scope name .repeated (count :: .join s .any branches :: rest) = (do
      let hits ← Building.ofOutcome (evaluate scope count >>= repeatCount)
      countedBranches scope s branches hits) := rfl

/-- Groups that count together emit exactly their counted rows. -/
theorem run_emitCounted_eq_ok_iff {s : Span} {groups : List Group} {before after : List Row} :
    (emitCounted s groups).run before = .ok () after ↔
      ∃ rows, Group.countedRows? groups = some rows ∧ after = before ++ rows := by
  unfold emitCounted
  split
  · rename_i rows hrows
    rw [run_emit]
    constructor
    · intro h
      cases h
      exact ⟨rows, hrows, rfl⟩
    · rintro ⟨rows', hrows', rfl⟩
      rw [hrows] at hrows'
      cases hrows'
      rfl
  · rename_i hrows
    rw [Building.run_within_eq_ok_iff]
    constructor
    · exact fun h => absurd h Building.run_fail_ne_ok
    · rintro ⟨rows, hrows', -⟩
      rw [hrows] at hrows'
      cases hrows'

/-- Branches count together when all of them lower, are not too many and can be counted. -/
theorem run_countedBranches_eq_ok_iff {s : Span} {branches : List Expr} {hits : UInt16}
    {before after : List Row} :
    (countedBranches scope s branches hits).run before = .ok () after ↔
      ∃ groups rows, List.Forall₂ (fun e g => group scope e = .ok g) branches groups ∧
        branches.length ≤ scope.settings.alternateLimit ∧
        Group.countedRows? groups = some rows ∧
        after = LastElement.update (·.withHits hits) (before ++ rows) := by
  rw [countedBranches, Building.run_bind_eq_ok_iff]
  constructor
  · rintro ⟨groups, _, hbuild, hrest⟩
    obtain ⟨hgroups, rfl⟩ := Building.run_ofOutcome_eq_ok_iff.1 hbuild
    obtain ⟨⟨⟩, _, hcheck, hcounted⟩ := Building.run_bind_eq_ok_iff.1 hrest
    obtain ⟨hlimit, rfl⟩ := Scope.run_requireAlternates_eq_ok_iff.1 hcheck
    obtain ⟨⟨⟩, _, hemit, hstamp⟩ := Building.run_bind_eq_ok_iff.1 hcounted
    obtain ⟨rows, hrows, rfl⟩ := run_emitCounted_eq_ok_iff.1 hemit
    cases hstamp
    rw [build_lowerEach_eq_ok_iff] at hgroups
    exact ⟨groups, rows, hgroups, hgroups.length_eq ▸ hlimit, hrows, rfl⟩
  · rintro ⟨groups, rows, hgroups, hlimit, hrows, rfl⟩
    rw [hgroups.length_eq] at hlimit
    exact ⟨groups, before, Building.run_ofOutcome_eq_ok_iff.2
        ⟨build_lowerEach_eq_ok_iff.2 hgroups, rfl⟩,
      Building.run_bind_eq_ok_iff.2 ⟨(), before,
        Scope.run_requireAlternates_eq_ok_iff.2 ⟨hlimit, rfl⟩,
        Building.run_bind_eq_ok_iff.2 ⟨(), _, run_emitCounted_eq_ok_iff.2 ⟨rows, hrows, rfl⟩,
          rfl⟩⟩⟩

/-- Branches that count together are local when each of them is and there is at least one. -/
theorem isLocal_countedBranches (s : Span) {branches : List Expr} (hne : branches ≠ [])
    (hbranches : ∀ e ∈ branches, IsLocal (lower scope e)) (hits : UInt16) :
    IsLocal (countedBranches scope s branches hits) := by
  refine .of_bind (framesAt_ofOutcome _) fun groups _ _ hgroups => ?_
  have hgroups := build_lowerEach_eq_ok_iff.1 (Building.run_ofOutcome_eq_ok_iff.1 hgroups).1
  obtain ⟨hnonempty, hrows⟩ := groups_ne_nil hne hbranches hgroups
  exact .of_bind (scope.framesAt_requireAlternates s _) fun _ _ _ _ =>
    (isLocal_emitCounted s hnonempty hrows).bind_updateLast _

/-- A call is local if its arguments are, and the branches of an argument that is a disjunction. -/
theorem isLocal_lowerBuiltin (name : String) (b : Builtin) {arguments : List Expr}
    (harguments : ∀ e ∈ arguments, IsLocal (lower scope e))
    (hbranches : ∀ s branches, .join s .any branches ∈ arguments →
      branches ≠ [] ∧ ∀ e ∈ branches, IsLocal (lower scope e)) :
    IsLocal (lowerBuiltin scope name b arguments) := by
  unfold lowerBuiltin
  split
  · rename_i count s branches rest
    obtain ⟨hne, hes⟩ := hbranches s branches (List.mem_cons_of_mem _ List.mem_cons_self)
    exact .of_bind (framesAt_ofOutcome _) fun hits _ _ _ => isLocal_countedBranches s hne hes hits
  · rename_i count condition rest _
    have hcondition := harguments condition (List.mem_cons_of_mem _ List.mem_cons_self)
    exact .of_bind (framesAt_ofOutcome _) fun hits _ _ _ => hcondition.bind_updateLast _
  · exact .of_bind (framesAt_ofOutcome _) fun _ _ _ _ => isLocal_fail _
  · exact isLocal_fail _
  · rename_i s branches rest
    obtain ⟨hne, hes⟩ := hbranches s branches List.mem_cons_self
    exact isLocal_countedBranches s hne hes 1
  · exact (harguments _ List.mem_cons_self).bind_updateLast _
  · exact isLocal_fail _
  · exact (isLocal_fail _).within _
  · exact (harguments _ List.mem_cons_self).bind_guardLast _ _
  · exact isLocal_fail _
  · exact isLocal_fail _
  · exact isLocal_fail _

/-- Lowering keeps to its own rows, and it emits at least one when it succeeds. -/
theorem HasOperands.isLocal_lower {e : Expr} (he : e.HasOperands) : IsLocal (lower scope e) := by
  induction e using induction_two_levels with
  | h e ih ih' =>
    have hchild : ∀ c ∈ e.children, IsLocal (lower scope c) :=
      fun c hc => ih c hc (he.children c hc)
    unfold lower
    split
    · exact (isLocal_lowerComparison _ _ _).within _
    · exact isLocal_emit (List.cons_ne_nil _ _)
    · exact isLocal_emit (List.cons_ne_nil _ _)
    · rename_i s es
      have hne : es ≠ [] := fun hnil => he.node s .all (by rw [hnil])
      exact (isLocal_lowerAll hne hchild).within s
    · exact ((isLocal_fail _).within _)
    · rename_i s name arguments
      refine IsLocal.within ?_ s
      split
      · exact isLocal_fail _
      · exact isLocal_fail _
      · rename_i b _
        refine isLocal_lowerBuiltin name b hchild fun s' branches hmem => ?_
        have hor := he.children _ hmem
        have hne : branches ≠ [] := fun hnil => hor.node s' .any (by rw [hnil])
        exact ⟨hne, fun c hc => ih' _ hmem c hc (hor.children c hc)⟩
    · exact (isLocal_fail _).within _

/-- After other rows a condition ends as it does by itself, with the same failure if it fails.  It
leaves the other rows as they are and its own rows behind them, also those that came before a
failure.  If it succeeds it has emitted a row, and what changes the last row afterwards changes its
own. -/
theorem HasOperands.outcome_lower {e : Expr} (he : e.HasOperands) (scope : Scope)
    (before : List Row) :
    (lower scope e).outcome before =
        (((lower scope e).outcome []).1, before ++ ((lower scope e).outcome []).2) ∧
      (((lower scope e).outcome []).1 = .ok () →
        ∃ emitted last, ((lower scope e).outcome []).2 = emitted ++ [last] ∧
          ((lower scope e).outcome before).2.getLast? = some last ∧
          ∀ change, LastElement.update change ((lower scope e).outcome before).2 =
            before ++ (emitted ++ [change last])) := by
  have hlocal : IsLocal (lower scope e) := he.isLocal_lower
  have houtcome := hlocal.outcome_eq before
  refine ⟨houtcome, fun hok => ?_⟩
  obtain ⟨emitted, last, hrows⟩ :=
    (List.eq_nil_or_concat' _).resolve_left (hlocal.outcome_ne_nil hok)
  have hafter : ((lower scope e).outcome before).2 = before ++ emitted ++ [last] := by
    rw [houtcome, hrows, List.append_assoc]
  refine ⟨emitted, last, hrows, ?_, fun change => ?_⟩
  · rw [hafter, List.getLast?_concat]
  · rw [hafter, LastElement.update_concat, List.append_assoc]

/-- `once(byte(1) == 1 && byte(2) == 2)` after a row that counts hits and is joined to the next:
the target goes to the comparison that is emitted last.  A second modifier fails after both
comparisons are there. -/
theorem outcome_lower_once_after_rows :
    let is (n : UInt32) : Expr :=
      .compare .unknown .equal (.read .unknown (.direct .byte n)) (.int n.toInt32)
    let row (n : UInt32) : Row := .compare (.read .byte n) .equal (.word n)
    let once : Expr := .call .unknown "once" [.join .unknown .all [is 1, is 2]]
    let place : Span := ⟨⟨3, 7⟩, ⟨3, 48⟩⟩
    let modified : Expr := .call .unknown "never" [.call place "unless" [once]]
    let before : List Row := [(row 7).withHits 5, (row 8).withRole .andNext]
    (once.HasOperands ∧ modified.HasOperands) ∧
      (lower (Scope.root {}) once).outcome before =
        (.ok (), before ++ [(row 1).withRole .andNext, (row 2).withHits 1]) ∧
      (lower (Scope.root {}) modified).outcome before =
        (.error { cause := .alreadyModified "never", span := some place }, before ++
          [(row 1).withRole .andNext, ((row 2).withHits 1).withRole .pauseIf]) := by
  intro is row once place modified before
  have honce : once.HasOperands := hasOperands_of_allNodes rfl
  have hmodified : modified.HasOperands := hasOperands_of_allNodes rfl
  refine ⟨⟨honce, hmodified⟩, ?_, ?_⟩
  · rw [(honce.outcome_lower (Scope.root {}) before).1]
    rfl
  · rw [(hmodified.outcome_lower (Scope.root {}) before).1]
    rfl

end Expr

end TriggerLang
