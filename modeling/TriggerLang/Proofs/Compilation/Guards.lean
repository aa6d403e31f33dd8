import TriggerLang.Proofs.Compilation.Assembly
import TriggerLang.Proofs.Evaluation.Flat
import TriggerLang.Proofs.Evaluation.Idempotence
import TriggerLang.Proofs.Lowering.Calls
import TriggerLang.Proofs.Lowering.Condition
/-!
# Guards in a conjunction

A guard resets or pauses while its own condition holds.  In the rows of a conjunction it does so
only if no comparison stands right before it: each operand is joined to the next one, so that the
comparisons before a guard, back to the guard before that, become a part of its condition.

`hasGuard_compile_iff` says which guards the core of a compiled conjunction has, and
`keepsGuards_compile_iff` when each guard keeps the condition that was written in it.
-/

namespace TriggerLang

/-- Guards are told apart by the roles of their rows. -/
theorem Guard.role_inj {g g' : Guard} : g.role = g'.role ↔ g = g' := by
  cases g <;> cases g' <;> decide

/-! ### Guarding rows -/

namespace Group

variable {guard : Guard} {c : Memory → Bool}

/-- After what is pending, the rows have a row in the role of the guard which, together with the
rows that are joined to it, holds in the states of memory of a condition. -/
def HasGuardAfter (p : Memory → Pending) (rows : List Row) (guard : Guard) (c : Memory → Bool) :
    Prop :=
  ∃ before row after, rows = before ++ row :: after ∧ row.role = guard.role ∧
    ∀ m, row.holdsAfter m ((p m).run m before) = c m

/-- The group has a row in the role of the guard which, together with the rows that are joined to
it, holds in the states of memory of a condition. -/
def HasGuard (g : Group) (guard : Guard) (c : Memory → Bool) : Prop :=
  HasGuardAfter (fun _ => {}) g guard c

variable {p : Memory → Pending}

/-- No rows guard nothing. -/
theorem not_hasGuardAfter_nil : ¬ HasGuardAfter p [] guard c := by
  rintro ⟨before, row, after, h, -⟩
  exact absurd h.symm (List.append_ne_nil_of_right_ne_nil before (List.cons_ne_nil row after))

/-- The first row guards with what is pending, or a later one does with what the first row leaves.
-/
theorem hasGuardAfter_cons_iff {row : Row} {rows : List Row} :
    HasGuardAfter p (row :: rows) guard c ↔
      (row.role = guard.role ∧ ∀ m, row.holdsAfter m (p m) = c m) ∨
        HasGuardAfter (fun m => (p m).next m row) rows guard c := by
  constructor
  · rintro ⟨_ | ⟨row', before⟩, row'', after, h, hrole, hholds⟩
    · rw [List.nil_append, List.cons.injEq] at h
      obtain ⟨rfl, rfl⟩ := h
      exact .inl ⟨hrole, hholds⟩
    · rw [List.cons_append, List.cons.injEq] at h
      obtain ⟨rfl, rfl⟩ := h
      exact .inr ⟨before, row'', after, rfl, hrole, hholds⟩
  · rintro (⟨hrole, hholds⟩ | ⟨before, row', after, rfl, hrole, hholds⟩)
    · exact ⟨[], row, rows, rfl, hrole, hholds⟩
    · exact ⟨row :: before, row', after, rfl, hrole, hholds⟩

/-- Of two runs of rows, one has the guard, the second one after what the first leaves pending. -/
theorem hasGuardAfter_append_iff {rows rows' : List Row} :
    HasGuardAfter p (rows ++ rows') guard c ↔
      HasGuardAfter p rows guard c ∨ HasGuardAfter (fun m => (p m).run m rows) rows' guard c := by
  induction rows generalizing p with
  | nil => exact (or_iff_right not_hasGuardAfter_nil).symm
  | cons row rows ih =>
    rw [List.cons_append, hasGuardAfter_cons_iff, ih, hasGuardAfter_cons_iff, or_assoc]
    rfl

/-- Rows that are joined to a later one, or that bring it a value, guard nothing. -/
theorem not_hasGuardAfter_of_endsChain {rows : List Row}
    (h : ∀ row ∈ rows, row.role.endsChain = false) : ¬ HasGuardAfter p rows guard c := by
  rintro ⟨before, row, after, rfl, hrole, -⟩
  have hends := h row (List.mem_append_right before List.mem_cons_self)
  rw [hrole] at hends
  cases guard <;> cases hends

/-! ### Chains with a last row in another role -/

/-- The rows of a chain that decides a truth value, taken apart. -/
theorem Decides.concat {m : Memory} {rows : List Row} {last : Row} {b : Bool}
    (h : Decides m (rows ++ [last]) b) :
    last.role = .plain ∧ (∀ row ∈ rows, row.role.endsChain = false) ∧
      ∀ joined, last.holdsAfter m (Pending.run m ⟨0, 0, joined⟩ rows) = (joined && b) := by
  obtain ⟨rows', last', heq, hlast, hrows, hholds⟩ := h
  obtain ⟨rfl, hlasts⟩ := List.append_inj' heq rfl
  cases hlasts
  exact ⟨hlast, hrows, hholds⟩

variable {rows : List Row} {last : Row} {b joined : Memory → Bool}

/-- A chain guards at its last row only, and with it everything that was joined to the chain. -/
theorem hasGuardAfter_chain_iff (h : ∀ m, Decides m (rows ++ [last]) (b m))
    (hp : ∀ m, p m = ⟨0, 0, joined m⟩) (role : Role) :
    HasGuardAfter p (rows ++ [last.withRole role]) guard c ↔
      role = guard.role ∧ ∀ m, (joined m && b m) = c m := by
  have hholds (m : Memory) : (last.withRole role).holdsAfter m ((p m).run m rows) =
      (joined m && b m) := by
    rw [hp m]
    exact (h m).concat.2.2 (joined m)
  have hrows : ¬ HasGuardAfter p rows guard c :=
    not_hasGuardAfter_of_endsChain (h default).concat.2.1
  rw [hasGuardAfter_append_iff, or_iff_right hrows, hasGuardAfter_cons_iff,
    or_iff_left not_hasGuardAfter_nil, Row.role_withRole]
  simp only [hholds]

/-- A chain that ends in a guard guards by its truth, together with what was joined to it. -/
theorem hasGuardAfter_guard_iff (h : ∀ m, Decides m (rows ++ [last]) (b m))
    (hp : ∀ m, p m = ⟨0, 0, joined m⟩) (g : Guard) :
    HasGuardAfter p (rows ++ [last.withRole g.role]) guard c ↔
      g = guard ∧ ∀ m, (joined m && b m) = c m := by
  rw [hasGuardAfter_chain_iff h hp, Guard.role_inj]

/-- A comparison guards nothing, whether it is joined to the next row or not. -/
theorem not_hasGuardAfter_comparison (h : ∀ m, Decides m (rows ++ [last]) (b m))
    (hp : ∀ m, p m = ⟨0, 0, joined m⟩) {role : Role} (hrole : role = .plain ∨ role = .andNext) :
    ¬ HasGuardAfter p (rows ++ [last.withRole role]) guard c := by
  rw [hasGuardAfter_chain_iff h hp]
  rintro ⟨rfl, -⟩
  cases guard <;> obtain hrole | hrole := hrole <;> cases hrole

/-- A chain that is joined to the next row leaves its truth, with what was joined to it. -/
theorem run_chain_andNext (h : ∀ m, Decides m (rows ++ [last]) (b m))
    (hp : ∀ m, p m = ⟨0, 0, joined m⟩) (m : Memory) :
    (p m).run m (rows ++ [last.withRole .andNext]) = ⟨0, 0, joined m && b m⟩ := by
  rw [Pending.run_append, Pending.run_cons, Pending.run_nil, Pending.next_of_andNext m _ rfl, hp m,
    ← (h m).concat.2.2 (joined m)]
  rfl

/-- A guard leaves nothing pending. -/
theorem run_chain_guard (m : Memory) (p : Pending) (rows : List Row) (last : Row) (guard : Guard) :
    p.run m (rows ++ [last.withRole guard.role]) = {} := by
  rw [Pending.run_append, Pending.run_cons, Pending.run_nil, Pending.next, Row.role_withRole]
  cases guard <;> rfl

end Group

namespace Expr

/-! ### Guards of a source conjunction -/

/-- The guard that an operand is, with its own condition. -/
def guard? : Expr → Option (Guard × Expr)
  | .call _ name [condition] =>
      if name = Guard.reset.name then some (.reset, condition)
      else if name = Guard.pause.name then some (.pause, condition)
      else none
  | _ => none

/-- A call of a guarding function is that guard of its argument. -/
theorem guard?_call (s : Span) (g : Guard) (condition : Expr) :
    (Expr.call s g.name [condition]).guard? = some (g, condition) := by
  cases g <;> rfl

/-- The guards of operands after pending ones, each with the conditions that it waits for in the
rows: the operands before it, back to the guard before that, and its own condition. -/
def guardedConditions : List Expr → List Expr → List (Guard × List Expr)
  | _, [] => []
  | pending, e :: es =>
      match e.guard? with
      | some (guard, condition) =>
          (guard, pending ++ [condition]) :: guardedConditions [] es
      | none => guardedConditions (pending ++ [e]) es

/-- After pending operands, there is a guard among the operands which waits for conditions that
together hold in the states of memory of a condition. -/
def HasGuardAfter (pending es : List Expr) (guard : Guard) (c : Memory → Bool) : Prop :=
  ∃ conditions, (guard, conditions) ∈ guardedConditions pending es ∧
    ∀ m, conditions.all (truthIn m) = c m

/-- Each guard has a guard of its kind whose conditions together are its own. -/
def KeepsGuards (es : List Expr) : Prop :=
  ∀ e ∈ es, ∀ guard condition, e.guard? = some (guard, condition) →
    HasGuardAfter [] es guard (condition.truthIn ·)

variable {e condition : Expr} {pending es : List Expr} {g guard : Guard} {c : Memory → Bool}

/-- No operands guard nothing. -/
theorem not_hasGuardAfter_nil : ¬ HasGuardAfter pending [] guard c := by
  rintro ⟨conditions, hmem, -⟩
  cases hmem

/-- A comparison becomes pending for the guards after it. -/
theorem hasGuardAfter_cons_of_comparison (he : e.guard? = none) :
    HasGuardAfter pending (e :: es) guard c ↔ HasGuardAfter (pending ++ [e]) es guard c := by
  rw [HasGuardAfter, guardedConditions, he]
  rfl

/-- A guard waits for the conditions that are pending, and the guards after it for later ones. -/
theorem hasGuardAfter_cons_of_guard (he : e.guard? = some (g, condition)) :
    HasGuardAfter pending (e :: es) guard c ↔
      (g = guard ∧ ∀ m, (pending.all (truthIn m) && condition.truthIn m) = c m) ∨
        HasGuardAfter [] es guard c := by
  have hall (m : Memory) : (pending ++ [condition]).all (truthIn m) =
      (pending.all (truthIn m) && condition.truthIn m) := by
    rw [List.all_append, List.all_cons, List.all_nil, Bool.and_true]
  rw [HasGuardAfter, guardedConditions, he]
  constructor
  · rintro ⟨conditions, hmem, hc⟩
    obtain heq | hmem := List.mem_cons.1 hmem
    · cases heq
      exact .inl ⟨rfl, fun m => (hall m).symm.trans (hc m)⟩
    · exact .inr ⟨conditions, hmem, hc⟩
  · rintro (⟨rfl, hc⟩ | ⟨conditions, hmem, hc⟩)
    · exact ⟨_, List.mem_cons_self, fun m => (hall m).trans (hc m)⟩
    · exact ⟨conditions, List.mem_cons_of_mem _ hmem, hc⟩

/-- An operand of a conjunction with guards: a comparison of direct reads and integers, or a guard
of a condition that is read off memory directly. -/
inductive IsGuardOperand : Expr → Prop
  | comparison {s : Span} {relation : Relation} {left right : Expr}
      (h : (Expr.compare s relation left right).IsCondition) :
      IsGuardOperand (.compare s relation left right)
  | guard (s : Span) (g : Guard) {condition : Expr} (h : condition.IsCondition) :
      IsGuardOperand (.call s g.name [condition])

/-- Guards that come before all comparisons keep their conditions. -/
theorem keepsGuards_of_guards_first {guards rest : List Expr}
    (hguards : ∀ e ∈ guards, e.guard? ≠ none) (hrest : ∀ e ∈ rest, e.guard? = none) :
    KeepsGuards (guards ++ rest) := by
  intro e he guard condition h
  have hmem : e ∈ guards := by
    refine (List.mem_append.1 he).resolve_right fun hmem => ?_
    rw [hrest e hmem] at h
    cases h
  clear he
  induction guards with
  | nil => cases hmem
  | cons e' guards ih =>
    obtain ⟨hhead, hguards⟩ := List.forall_mem_cons.1 hguards
    obtain ⟨⟨g, d⟩, hhead⟩ := Option.ne_none_iff_exists'.1 hhead
    rw [List.cons_append, hasGuardAfter_cons_of_guard hhead]
    obtain rfl | hmem := List.mem_cons.1 hmem
    · rw [hhead] at h
      cases h
      exact .inl ⟨rfl, fun m => rfl⟩
    · exact .inr (ih hguards hmem)

/-! ### Rows of operands -/

variable {scope : Scope}

/-- The rows of an evaluated operand: a chain that decides a condition, with its last row in a role.
-/
def EmitsChain (scope : Scope) (v : Expr) (role : Role) (b : Memory → Bool) : Prop :=
  ∀ {before after : List Row}, (lower scope v).run before = .ok () after →
    ∃ rows last, after = before ++ (rows ++ [last.withRole role]) ∧
      ∀ m, Group.Decides m (rows ++ [last]) (b m)

/-- What an operand becomes: a comparison becomes a chain that decides it, and a guard becomes a
chain that decides its condition and ends in the role of the guard. -/
inductive IsLoweredAs (scope : Scope) (e v : Expr) : Prop
  | comparison (hguard : e.guard? = none) (hchain : EmitsChain scope v .plain (e.truthIn ·))
  | guard {g : Guard} {condition : Expr} (hguard : e.guard? = some (g, condition))
      (hchain : EmitsChain scope v g.role (condition.truthIn ·))

/-- To join the rows of a chain to the next one changes the role of its last row, if that row is
plain. -/
theorem update_joinNext (before rows : List Row) (last : Row) (role : Role) :
    LastElement.update (fun row => if row.role = .plain then row.withRole .andNext else row)
        (before ++ (rows ++ [last.withRole role])) =
      before ++ (rows ++ [last.withRole (if role = .plain then .andNext else role)]) := by
  rw [← List.append_assoc, LastElement.update_concat, List.append_assoc, Row.role_withRole]
  split <;> rfl

/-- The guards among the rows of a conjunction are those of its operands, and each waits for the
conditions that the operands before it leave pending. -/
theorem hasGuardAfter_lowerAll {es vs : List Expr} (h : List.Forall₂ (IsLoweredAs scope) es vs)
    {pending : List Expr} {p : Memory → Pending}
    (hp : ∀ m, p m = ⟨0, 0, pending.all (truthIn m)⟩) {before after : List Row}
    (hrun : (lowerAll scope vs).run before = .ok () after) :
    ∃ rows, after = before ++ rows ∧ ∀ guard c,
      Group.HasGuardAfter p rows guard c ↔ HasGuardAfter pending es guard c := by
  -- By induction on the operands.  What is pending before an operand is the conjunction of the
  -- comparisons since the last guard, on both sides.
  induction h generalizing pending p before with
  | nil =>
    cases hrun
    exact ⟨[], (List.append_nil _).symm, fun guard c =>
      iff_of_false Group.not_hasGuardAfter_nil not_hasGuardAfter_nil⟩
  | @cons e v es vs hhead htail ih =>
    obtain ⟨head, hlower, hrest⟩ := run_lowerAll_cons hrun
    cases hhead with
    | comparison hguard hchain =>
      obtain ⟨rows, last, rfl, hdecides⟩ := hchain hlower
      obtain ⟨rfl, rfl⟩ | ⟨-, hrest⟩ := hrest
      · cases htail
        refine ⟨_, rfl, fun guard c => ?_⟩
        rw [hasGuardAfter_cons_of_comparison hguard]
        exact iff_of_false (Group.not_hasGuardAfter_comparison hdecides hp (.inl rfl))
          not_hasGuardAfter_nil
      · rw [update_joinNext, if_pos rfl] at hrest
        -- The comparison is joined to the next operand, so that it becomes pending.
        have hp' (m : Memory) : (p m).run m (rows ++ [last.withRole .andNext]) =
            ⟨0, 0, (pending ++ [e]).all (truthIn m)⟩ := by
          rw [Group.run_chain_andNext hdecides hp m, List.all_append, List.all_cons, List.all_nil,
            Bool.and_true]
        obtain ⟨rest, rfl, hguards⟩ := ih hp' hrest
        refine ⟨_, List.append_assoc _ _ _, fun guard c => ?_⟩
        rw [Group.hasGuardAfter_append_iff, hguards, hasGuardAfter_cons_of_comparison hguard]
        exact or_iff_right (Group.not_hasGuardAfter_comparison hdecides hp (.inr rfl))
    | @guard g condition hguard hchain =>
      obtain ⟨rows, last, rfl, hdecides⟩ := hchain hlower
      obtain ⟨rfl, rfl⟩ | ⟨-, hrest⟩ := hrest
      · cases htail
        refine ⟨_, rfl, fun guard c => ?_⟩
        rw [Group.hasGuardAfter_guard_iff hdecides hp, hasGuardAfter_cons_of_guard hguard,
          or_iff_left not_hasGuardAfter_nil]
      · -- The role of a guard is kept where others are joined, so that nothing is pending after it.
        have hplain : g.role ≠ .plain := by cases g <;> decide
        rw [update_joinNext, if_neg hplain] at hrest
        have hp' (m : Memory) : (p m).run m (rows ++ [last.withRole g.role]) =
            ⟨0, 0, ([] : List Expr).all (truthIn m)⟩ := Group.run_chain_guard m (p m) rows last g
        obtain ⟨rest, rfl, hguards⟩ := ih hp' hrest
        refine ⟨_, List.append_assoc _ _ _, fun guard c => ?_⟩
        rw [Group.hasGuardAfter_append_iff, hguards, Group.hasGuardAfter_guard_iff hdecides hp,
          hasGuardAfter_cons_of_guard hguard]

/-! ### Values of operands -/

/-- A folded condition becomes a chain that decides it. -/
theorem emitsChain_of_isFolded {v : Expr} (hv : v.IsFolded) :
    EmitsChain scope v .plain (v.truthIn ·) := by
  intro before after h
  obtain ⟨g, rfl, hdecides⟩ := hv.lowersFaithfully before after h
  obtain ⟨rows, last, rfl, hlast, -⟩ := hdecides default
  refine ⟨rows, last, ?_, hdecides⟩
  rw [← hlast]
  rfl

/-- A guard of a folded condition becomes the chain of the condition, ended in the role of the
guard. -/
theorem emitsChain_guard (hscope : scope.HasBuiltins) (s : Span) (g : Guard) {v : Expr}
    (hv : v.IsFolded) : EmitsChain scope (.call s g.name [v]) g.role (v.truthIn ·) := by
  intro before after h
  have hname : scope.function? g.name = some (.builtin (.guard g)) := hscope (.guard g)
  rw [lower, hname, Building.run_within_eq_ok_iff] at h
  dsimp only at h
  rw [lowerBuiltin_guarding, run_lowerGuarded_eq_ok_iff] at h
  obtain ⟨head, hlower, hguard⟩ := h
  obtain ⟨rows, last, rfl, hdecides⟩ := emitsChain_of_isFolded hv hlower
  rw [← List.append_assoc, Emission.run_guardLast, Row.role_withRole, if_pos rfl] at hguard
  cases hguard
  exact ⟨rows, last, List.append_assoc _ _ _, hdecides⟩

/-- A value that stands by itself under a conjunction. -/
structure IsSingleOperand (v : Expr) : Prop where
  operandsUnder_eq : operandsUnder .all v = [v]
  isBool_eq : v.isBool false = false
  isOr_eq : v.isOr = false

/-- Every operand has a value, which stands by itself and becomes a chain. -/
theorem IsGuardOperand.exists_value (run : BodyRule) (hscope : scope.HasBuiltins)
    (hclause : scope.inClause = true) {e : Expr} (he : e.IsGuardOperand) :
    ∃ v, evaluateWith run scope e = .ok v ∧ v.IsSingleOperand ∧ IsLoweredAs scope e v := by
  cases he with
  | @comparison s relation left right h =>
    obtain ⟨relation', left', right', hv, -⟩ := h.evaluateWith_compare run hscope
    obtain ⟨v, hv', hfolded, htruth⟩ := h.hasFoldedValue run hscope
    cases hv.symm.trans hv'
    refine ⟨_, hv, ⟨rfl, rfl, rfl⟩, .comparison rfl ?_⟩
    rw [← funext htruth]
    exact emitsChain_of_isFolded hfolded
  | @guard s g condition h =>
    obtain ⟨v, hv, hfolded, htruth⟩ := h.hasFoldedValue run hscope
    refine ⟨.call s g.name [v], ?_, ⟨rfl, rfl, rfl⟩, .guard (guard?_call s g condition) ?_⟩
    · exact evaluateWith_call_eq_ok_iff.2
        (.inl ⟨.guard g, _, hscope (.guard g), rfl, .guard g hclause hv, rfl⟩)
    · rw [← funext htruth]
      exact emitsChain_guard hscope s g hfolded

/-- Every operand of a conjunction with guards has a value that stands by itself and becomes the
chain of the operand. -/
theorem exists_values {run : BodyRule} (hscope : scope.HasBuiltins)
    (hclause : scope.inClause = true) {es : List Expr} (hes : ∀ e ∈ es, e.IsGuardOperand) :
    ∃ vs, List.Forall₂ (fun e v => evaluateWith run scope e = .ok v) es vs ∧
      List.Forall₂ (IsLoweredAs scope) es vs ∧ ∀ v ∈ vs, v.IsSingleOperand := by
  induction es with
  | nil => exact ⟨[], .nil, .nil, List.forall_mem_nil _⟩
  | cons e es ih =>
    obtain ⟨he, hes⟩ := List.forall_mem_cons.1 hes
    obtain ⟨v, hv, hsingle, hlowered⟩ := he.exists_value run hscope hclause
    obtain ⟨vs, hvs, hlowereds, hsingles⟩ := ih hes
    exact ⟨v :: vs, .cons hv hvs, .cons hlowered hlowereds,
      List.forall_mem_cons.2 ⟨hsingle, hsingles⟩⟩

/-- The value of a conjunction of operands that stand by themselves. -/
theorem evaluate_join_all {s : Span} {es vs : List Expr} (hlength : 2 ≤ es.length)
    (hvs : List.Forall₂ (fun e v => evaluate scope e = .ok v) es vs)
    (hsingle : ∀ v ∈ vs, v.IsSingleOperand) :
    evaluate scope (.join s .all es) = .ok (.join s .all vs) := by
  have hnormal : (Expr.join s .all vs).IsNormal scope.names :=
    ⟨hvs.length_eq ▸ hlength,
      fun v hv => ⟨(hsingle v hv).operandsUnder_eq, (hsingle v hv).isBool_eq⟩⟩
  refine evaluateWith_join_eq_ok_iff.2 ⟨vs, hvs, ?_⟩
  rw [joinAll_of_isNormal hnormal]
  rfl

end Expr

/-! ### Guards of a compiled conjunction -/

variable {scope : Scope}

/-- The guards of the core of a compiled conjunction: those of its operands, each with the
conditions that it waits for. -/
theorem hasGuard_compile_iff (hscope : scope.HasBuiltins) {s : Span} {es : List Expr}
    (hlength : 2 ≤ es.length) (hes : ∀ e ∈ es, e.IsGuardOperand) {t : Trigger}
    (h : compile scope (.join s .all es) = .ok t) (guard : Guard) (c : Memory → Bool) :
    Group.HasGuard t.core guard c ↔ Expr.HasGuardAfter [] es guard c := by
  obtain ⟨v, hv, hgroups, -⟩ := compile_eq_ok_iff.1 h
  obtain ⟨vs, hvs, hlowered, hsingle⟩ :=
    Expr.exists_values hscope.clause scope.inClause_clause hes
  cases (Expr.evaluate_join_all hlength hvs hsingle).symm.trans hv
  have hnor : vs.any Expr.isOr = false :=
    List.any_eq_false.2 fun v hv => Bool.eq_false_iff.1 (hsingle v hv).isOr_eq
  cases Trigger.assembly_of_addGroups hgroups with
  | core hcore =>
    rw [Expr.group, Building.build_eq_ok_iff, Expr.lower, Building.run_within_eq_ok_iff] at hcore
    have hempty (m : Memory) : ({} : Pending) = ⟨0, 0, [].all (Expr.truthIn m)⟩ := rfl
    obtain ⟨rows, rfl, hguards⟩ := Expr.hasGuardAfter_lowerAll hlowered hempty hcore
    exact hguards guard c
  | distributed hors =>
    rw [hnor] at hors
    cases hors
  | distributedBeside hors =>
    rw [hnor] at hors
    cases hors

/-- Each guard of a compiled conjunction keeps its own condition exactly when, among the operands,
it has a guard of its kind whose conditions together are its own. -/
theorem keepsGuards_compile_iff (hscope : scope.HasBuiltins) {s : Span} {es : List Expr}
    (hlength : 2 ≤ es.length) (hes : ∀ e ∈ es, e.IsGuardOperand) {t : Trigger}
    (h : compile scope (.join s .all es) = .ok t) :
    (∀ e ∈ es, ∀ guard condition, e.guard? = some (guard, condition) →
      Group.HasGuard t.core guard (condition.truthIn ·)) ↔ Expr.KeepsGuards es := by
  have hguard (guard : Guard) (c : Memory → Bool) :=
    hasGuard_compile_iff hscope hlength hes h guard c
  constructor
  · intro hrows e he guard condition hcondition
    exact (hguard guard _).1 (hrows e he guard condition hcondition)
  · intro hkeeps e he guard condition hcondition
    exact (hguard guard _).2 (hkeeps e he guard condition hcondition)

/-- `never(byte(2) == 2 && byte(3) == 3) && unless(4 > byte(4)) && byte(1) == 1`: the guards come
first and keep their conditions. -/
theorem keepsGuards_compile_guards_first :
    let is (n : Int32) : Expr := .compare .unknown .equal (.call .unknown "byte" [.int n]) (.int n)
    let es : List Expr := [.call .unknown "never" [.join .unknown .all [is 2, is 3]],
      .call .unknown "unless"
        [.compare .unknown .greater (.int 4) (.call .unknown "byte" [.int 4])], is 1]
    (Scope.root {}).HasBuiltins ∧ 2 ≤ es.length ∧ (∀ e ∈ es, e.IsGuardOperand) ∧
      ∃ t, compile (.root {}) (.join .unknown .all es) = .ok t ∧ t.core.length = 4 ∧
        ∀ e ∈ es, ∀ guard condition, e.guard? = some (guard, condition) →
          Group.HasGuard t.core guard (condition.truthIn ·) := by
  intro is es
  have hbyte (n : Int32) : (Expr.call .unknown "byte" [.int n]).IsDirectRead := ⟨_, rfl⟩
  have his (n : Int32) : (is n).IsCondition := .compareInt _ _ _ _ (hbyte n)
  have hes : ∀ e ∈ es, e.IsGuardOperand := List.forall_mem_cons.2
    ⟨.guard _ .reset (.join _ _ (List.forall_mem_cons.2
        ⟨his 2, List.forall_mem_singleton.2 (his 3)⟩)),
      List.forall_mem_cons.2 ⟨.guard _ .pause (.intCompare _ _ _ _ (hbyte 4)),
        List.forall_mem_singleton.2 (.comparison (his 1))⟩⟩
  have hguards : ∀ e ∈ [es[0], es[1]], e.guard? ≠ none := List.forall_mem_cons.2
    ⟨Option.some_ne_none _, List.forall_mem_singleton.2 (Option.some_ne_none _)⟩
  have hkeeps : Expr.KeepsGuards ([es[0], es[1]] ++ [es[2]]) :=
    Expr.keepsGuards_of_guards_first hguards (List.forall_mem_singleton.2 rfl)
  have hcompile : compile (.root {}) (.join .unknown .all es) = .ok _ := rfl
  have hscope := Scope.hasBuiltins_root {}
  have hlength : 2 ≤ es.length := by decide
  exact ⟨hscope, hlength, hes, _, hcompile, rfl,
    (keepsGuards_compile_iff hscope hlength hes hcompile).2 hkeeps⟩

/-- `byte(1) == 1 && never(byte(2) == 2)`: the reset waits for the comparison before it, so that it
does not happen where `byte(2)` is 2 and `byte(1)` is 0. -/
theorem not_keepsGuards_compile_comparison_first :
    let is (n : Int32) : Expr := .compare .unknown .equal (.call .unknown "byte" [.int n]) (.int n)
    let es : List Expr := [is 1, .call .unknown "never" [is 2]]
    (Scope.root {}).HasBuiltins ∧ 2 ≤ es.length ∧ (∀ e ∈ es, e.IsGuardOperand) ∧
      ∃ t, compile (.root {}) (.join .unknown .all es) = .ok t ∧
        ¬ ∀ e ∈ es, ∀ guard condition, e.guard? = some (guard, condition) →
          Group.HasGuard t.core guard (condition.truthIn ·) := by
  intro is es
  have his (n : Int32) : (is n).IsCondition := .compareInt _ _ _ _ ⟨_, rfl⟩
  have hes : ∀ e ∈ es, e.IsGuardOperand := List.forall_mem_cons.2
    ⟨.comparison (his 1), List.forall_mem_singleton.2 (.guard _ .reset (his 2))⟩
  have hcompile : compile (.root {}) (.join .unknown .all es) = .ok _ := rfl
  have hscope := Scope.hasBuiltins_root {}
  have hlength : 2 ≤ es.length := by decide
  refine ⟨hscope, hlength, hes, _, hcompile, fun h => ?_⟩
  have hreset := h _ (List.mem_cons_of_mem _ List.mem_cons_self) .reset (is 2) rfl
  obtain ⟨conditions, hmem, htruth⟩ :=
    (hasGuard_compile_iff hscope hlength hes hcompile .reset _).1 hreset
  have hconditions : (Guard.reset, conditions) ∈ [(Guard.reset, [is 1, is 2])] := hmem
  rw [List.mem_singleton, Prod.mk.injEq] at hconditions
  have hzero := htruth ⟨fun _ _ address => if address = 1 then 0 else 2⟩
  rw [hconditions.2] at hzero
  revert hzero
  decide +kernel

end TriggerLang
