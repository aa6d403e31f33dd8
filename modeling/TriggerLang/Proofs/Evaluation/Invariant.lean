import TriggerLang.Proofs.Builtins
import TriggerLang.Proofs.Evaluation.Inversion
import TriggerLang.Proofs.Evaluation.Settling
import TriggerLang.Proofs.Tree
/-!
# Invariants of evaluation

A property of nodes is an *invariant* of evaluation when every rule that makes a node makes one with
the property.  The rules are those of `IsInvariant`; none of them looks at the expression that is
evaluated, so that an invariant can be checked rule by rule.

The main statement is `Scope.Keeps.everywhere_evaluate`: if the variables of a scope have an
invariant everywhere, and so have the reads that are written in an expression and in the bodies of
script functions, then every value has it everywhere.  The induction is on the number of calls that
may still be nested, and below it on the expression.
-/

namespace TriggerLang

/-- What evaluation asks a scope about functions: which function a name means, and whether calls may
be deferred. -/
structure Names where
  function? : String → Option Function
  inClause : Bool

/-- The names of functions of a scope. -/
def Scope.names (scope : Scope) : Names :=
  ⟨scope.function?, scope.inClause⟩

/-! ### Scopes of calls -/

namespace Frame

/-- Variables that are set add no function to a frame. -/
theorem functions_setVariables (f : Frame) (values : List (String × Expr)) :
    (f.setVariables values).functions = f.functions := by
  induction values generalizing f with
  | nil => rfl
  | cons b values ih => exact ih (f.setVariable b.1 b.2)

/-- Variables that are set open no trigger clause. -/
theorem opensClause_setVariables (f : Frame) (values : List (String × Expr)) :
    (f.setVariables values).opensClause = f.opensClause := by
  induction values generalizing f with
  | nil => rfl
  | cons b values ih => exact ih (f.setVariable b.1 b.2)

/-- Of variables that are set in order, the last one of a name holds. -/
theorem lookup?_setVariables_eq (f : Frame) (values : List (String × Expr)) (name : String) :
    (f.setVariables values).lookup? name = (values.reverse.lookup name).or (f.lookup? name) := by
  induction values generalizing f with
  | nil => rfl
  | cons b values ih =>
    have hset : (f.setVariable b.1 b.2).lookup? name =
        ([b].lookup name).or (f.lookup? name) := by
      by_cases hname : name = b.1
      · rw [hname, lookup?_setVariable_self, List.lookup_cons, beq_self_eq_true]
        rfl
      · rw [lookup?_setVariable_of_ne f hname, List.lookup_cons, beq_false_of_ne hname]
        rfl
    rw [List.reverse_cons, List.lookup_append, Option.or_assoc, ← hset]
    exact ih (f.setVariable b.1 b.2)

end Frame

namespace Scope

/-- A variable that is set in a scope hides none under another name. -/
theorem lookup?_setVariable_of_ne (scope : Scope) {m n : String} (h : m ≠ n) (value : Expr) :
    (scope.setVariable n value).lookup? m = scope.lookup? m := by
  simp only [lookup?, setVariable, frames, List.findSome?_cons, Frame.lookup?_setVariable_of_ne _ h]

/-- After a variable is set, what is found is that variable or one that was there before. -/
theorem lookup?_setVariable_eq_some {scope : Scope} {m n : String} {value v : Expr}
    (h : (scope.setVariable n value).lookup? m = some v) :
    (m = n ∧ v = value) ∨ scope.lookup? m = some v := by
  by_cases hname : m = n
  · have hself : (scope.setVariable n value).lookup? n = some value := by
      simp only [lookup?, setVariable, frames, List.findSome?_cons, Frame.lookup?_setVariable_self]
    rw [hname, hself, Option.some_inj] at h
    exact .inl ⟨hname, h.symm⟩
  · rw [lookup?_setVariable_of_ne scope hname] at h
    exact .inr h

/-- The body of a call sees the functions of its caller. -/
theorem names_inCall (scope : Scope) (values : List (String × Expr)) :
    (scope.inCall values).names = scope.names := by
  have hfunction : (scope.inCall values).function? = scope.function? :=
    funext (scope.function?_push (Frame.functions_setVariables _ values))
  have hclause : (scope.inCall values).inClause = scope.inClause := by
    simp only [inClause, inCall, frames_push, List.any_cons, Frame.opensClause_setVariables,
      Bool.false_or]
  rw [names, hfunction, hclause]
  rfl

/-- The body of a call finds the functions of its caller. -/
theorem function?_inCall (scope : Scope) (values : List (String × Expr)) :
    (scope.inCall values).function? = scope.function? :=
  congrArg Names.function? (scope.names_inCall values)

/-- The body of a call is within the trigger clauses of its caller. -/
theorem inClause_inCall (scope : Scope) (values : List (String × Expr)) :
    (scope.inCall values).inClause = scope.inClause :=
  congrArg Names.inClause (scope.names_inCall values)

/-- A trigger clause keeps the functions. -/
theorem function?_clause (scope : Scope) : scope.clause.function? = scope.function? :=
  funext (scope.function?_push rfl)

/-- A trigger clause keeps the functions and allows deferred calls. -/
theorem names_clause (scope : Scope) : scope.clause.names = ⟨scope.function?, true⟩ := by
  rw [names, function?_clause, inClause_clause]

/-- A trigger clause keeps the variables. -/
theorem lookup?_clause (scope : Scope) (name : String) :
    scope.clause.lookup? name = scope.lookup? name := rfl

/-- In the body of a call, the last binding of a name holds, and then the caller's. -/
theorem lookup?_inCall_eq (scope : Scope) (values : List (String × Expr)) (name : String) :
    (scope.inCall values).lookup? name =
      (values.reverse.lookup name).or (scope.lookup? name) := by
  rw [lookup?, inCall, frames_push, List.findSome?_cons, Frame.lookup?_setVariables_eq]
  cases values.reverse.lookup name with
  | none => rfl
  | some v => rfl

/-- A variable of the body of a call is bound to an argument, or it is one of the caller. -/
theorem lookup?_inCall {scope : Scope} {values : List (String × Expr)} {name : String} {v : Expr}
    (h : (scope.inCall values).lookup? name = some v) :
    (∃ b ∈ values, b.2 = v) ∨ scope.lookup? name = some v := by
  rw [lookup?_inCall_eq] at h
  obtain hbound | ⟨-, h⟩ := Option.or_eq_some_iff.1 h
  · obtain ⟨before, after, hvalues, -⟩ := List.lookup_eq_some_iff.1 hbound
    have hmem : (name, v) ∈ values.reverse := by
      rw [hvalues]
      exact List.mem_append_right _ List.mem_cons_self
    exact .inl ⟨_, List.mem_reverse.1 hmem, rfl⟩
  · exact .inr h

end Scope

namespace Expr

/-! ### Rules -/

/-- The arguments of a call that evaluation leaves in place. -/
inductive DeferredArguments : Builtin → List Expr → Prop
  | repeated (hits : UInt16) (condition : Expr) :
      DeferredArguments .repeated [ofCount hits, condition]
  | once (condition : Expr) : DeferredArguments .once [condition]
  | guard (g : Guard) (condition : Expr) : DeferredArguments (.guard g) [condition]

/-- Every rule of evaluation that makes a node makes one with the property. -/
structure IsInvariant (names : Names) (P : Expr → Prop) : Prop where
  moveTo (s : Span) {e : Expr} : P e → P (e.moveTo s)
  literal (s : Span) (v : Literal) : P (.literal s v)
  always (s : Span) (b : Bool) : P (.always s b)
  address {size : ReadSize} {a : Expr} {m : MemoryRead} :
    P a → MemoryRead.atAddress size a = .ok m → P (.read .unknown m)
  memory {op : Arith} {left right e : Expr} :
    P left → P right → MemoryResult op left right e → P e
  withoutOffset {s : Span} {v : ReadSum} : P (.sum s v) → P (ReadSum.mk v.terms 0).toExpr
  arith {s : Span} {op : Arith} {left right : Expr} :
    combine s op left right = .ok (.arith s op left right) → P (.arith s op left right)
  compare {s : Span} {relation : Relation} {left right : Expr} :
    simplerComparison? true left relation right = none → P (.compare s relation left right)
  negation {s : Span} {relation : Relation} {left right : Expr} :
    P (.compare s relation left right) → P (.compare s relation.negation left right)
  join (c : Connective) {es : List Expr} :
    (∀ e ∈ es, P e) → (∀ e ∈ es, e.isBool c.absorbing = false) →
      2 ≤ (es.flatMap (operandsUnder c)).length →
        P (.join .unknown c (es.flatMap (operandsUnder c)))
  deferred {name : String} {b : Builtin} {arguments : List Expr} :
    names.inClause = true → names.function? name = some (.builtin b) →
      DeferredArguments b arguments → P (.call .unknown name arguments)
  returned (s : Span) (e : Expr) : P (.returned s e)

/-- Every read of memory that is written in an expression has the property. -/
def ReadsSatisfy (P : Expr → Prop) (e : Expr) : Prop :=
  e.Everywhere fun e => e.isMemory = true → P e

/-! ### Nodes without operands -/

/-- The expression of a sum has nothing below it. -/
theorem children_toExpr (v : ReadSum) : v.toExpr.children = [] :=
  v.toExpr_induction (P := fun e => e.children = []) (fun _ => rfl) (fun _ => rfl) (fun _ => rfl)
    fun _ => rfl

/-- An operation on memory results in an integer, a read, a modified read or a sum. -/
theorem MemoryResult.induction {op : Arith} {left right e : Expr} {P : Expr → Prop}
    (h : MemoryResult op left right e) (hint : ∀ n, P (.int n)) (hread : ∀ s m, P (.read s m))
    (hmodified : ∀ r, P (.modified .unknown r)) (hsum : ∀ v, P (.sum .unknown v)) : P e := by
  cases h with
  | sum => exact ReadSum.toExpr_induction _ hint (hread _) hmodified hsum
  | difference => exact ReadSum.toExpr_induction _ hint (hread _) hmodified hsum
  | unchanged => exact hread _ _
  | modified => exact hmodified _

/-- The result of an operation on memory has nothing below it. -/
theorem MemoryResult.children_eq_nil {op : Arith} {left right e : Expr}
    (h : MemoryResult op left right e) : e.children = [] :=
  h.induction (P := fun e => e.children = []) (fun _ => rfl) (fun _ _ => rfl) (fun _ => rfl)
    fun _ => rfl

/-! ### Operators -/

namespace IsInvariant

variable {names : Names} {P : Expr → Prop}

/-- A literal has an invariant everywhere. -/
theorem everywhere_literal (hP : IsInvariant names P) (s : Span) (v : Literal) :
    (Expr.literal s v).Everywhere P :=
  .of_leaf rfl (hP.literal s v)

/-- A constant condition has an invariant everywhere. -/
theorem everywhere_always (hP : IsInvariant names P) (s : Span) (b : Bool) :
    (Expr.always s b).Everywhere P :=
  .of_leaf rfl (hP.always s b)

/-- An operation on operands that have an invariant everywhere has it everywhere. -/
theorem everywhere_combine (hP : IsInvariant names P) {s : Span} {op : Arith}
    {left right v : Expr} (hleft : left.Everywhere P) (hright : right.Everywhere P)
    (h : combine s op left right = .ok v) : v.Everywhere P := by
  obtain ⟨w, rfl⟩ | ⟨e, he, rfl⟩ | rfl := combine_eq_ok h
  · exact hP.everywhere_literal s w
  · have hform := memoryResult_of_onMemory? he
    exact (Everywhere.of_leaf hform.children_eq_nil
      (hP.memory hleft.node hright.node hform)).moveTo hP.moveTo s
  · exact ⟨hP.arith h, List.forall_mem_cons.2 ⟨hleft, List.forall_mem_singleton.2 hright⟩⟩

/-- The comparison of operands that have an invariant everywhere has it everywhere in normal form.
-/
theorem everywhere_normalize (hP : IsInvariant names P) (s : Span) (relation : Relation)
    {left right : Expr} (hleft : left.Everywhere P) (hright : right.Everywhere P) :
    (normalize s relation left right).Everywhere P := by
  have hstep : ∀ {left right left' right' : Expr} {relation relation' : Relation},
      left.Everywhere P ∧ right.Everywhere P →
      simplerComparison? true left relation right = some (.comparison left' relation' right') →
      left'.Everywhere P ∧ right'.Everywhere P := by
    rintro left right left' right' relation relation' ⟨hleft, hright⟩ h
    obtain ⟨s, v, rfl, -, rfl, rfl⟩ | ⟨s, v, place, n, n', rfl, -, rfl, rfl, rfl⟩ :=
      simplerComparison?_eq_comparison h
    · exact ⟨hright, hP.everywhere_literal _ v⟩
    · exact ⟨.of_leaf (children_toExpr _) (hP.withoutOffset hleft.node),
        hP.everywhere_literal _ _⟩
  obtain ⟨b, h⟩ | ⟨left', relation', right', h, hsettled, hleft', hright'⟩ :=
    normalize_cases hstep s relation ⟨hleft, hright⟩
  · rw [h]
    exact hP.everywhere_literal s _
  · rw [h]
    exact ⟨hP.compare hsettled,
      List.forall_mem_cons.2 ⟨hleft', List.forall_mem_singleton.2 hright'⟩⟩

/-! ### Logic -/

/-- What an operand contributes to a connective has every property that holds everywhere in the
operand. -/
theorem everywhere_operandsUnder (c : Connective) {e : Expr} (he : e.Everywhere P) :
    ∀ e' ∈ operandsUnder c e, e'.Everywhere P := by
  intro e' he'
  unfold operandsUnder at he'
  split at he'
  · cases he'
  · split at he'
    · exact he.children e' he'
    · rw [List.mem_singleton.1 he']
      exact he
  · rw [List.mem_singleton.1 he']
    exact he

/-- Operands that have an invariant everywhere are flattened to a connective that has it. -/
theorem everywhere_joinAll (hP : IsInvariant names P) (c : Connective) {es : List Expr}
    (hes : ∀ e ∈ es, e.Everywhere P) : (joinAll c es).Everywhere P := by
  have hflat : ∀ e ∈ es.flatMap (operandsUnder c), e.Everywhere P := by
    intro e he
    obtain ⟨e', he', he⟩ := List.mem_flatMap.1 he
    exact everywhere_operandsUnder c (hes e' he') e he
  unfold joinAll
  split
  · exact hP.everywhere_literal _ _
  · rename_i hany
    have hbool : ∀ e ∈ es, e.isBool c.absorbing = false := fun e he =>
      Bool.eq_false_iff.2 fun h => hany (List.any_eq_true.2 ⟨e, he, h⟩)
    split
    · exact hP.everywhere_literal _ _
    · rename_i e hsingle
      exact hflat e (by rw [hsingle]; exact List.mem_singleton_self e)
    · rename_i hnil hsingle
      refine ⟨hP.join c (fun e he => (hes e he).node) hbool ?_, hflat⟩
      rcases hlist : es.flatMap (operandsUnder c) with _ | ⟨e, _ | ⟨e', es'⟩⟩
      · exact absurd hlist hnil
      · exact absurd hlist (hsingle e)
      · exact Nat.le_add_left 2 _

/-- The negation of an expression that has an invariant everywhere has it everywhere. -/
theorem everywhere_negated (hP : IsInvariant names P) {e v : Expr} (he : e.Everywhere P)
    (h : negated e = .ok v) : v.Everywhere P := by
  induction he generalizing v with
  | @intro e hnode hchildren ih =>
    unfold negated at h
    split at h
    · cases h
      exact hP.everywhere_literal _ _
    · cases h
      exact hP.everywhere_always _ _
    · cases h
      exact ⟨hP.negation hnode, hchildren⟩
    · cases h
      exact (hchildren _ (List.mem_singleton_self _)).moveTo hP.moveTo _
    · obtain ⟨vs, hvs, h⟩ := Outcome.bind_eq_ok_iff.1 h
      cases h
      have hall := forall_of_forall₂ (negatedAll_eq_ok_iff.1 hvs) fun e he v hv => ih e he hv
      exact (hP.everywhere_joinAll _ hall).moveTo hP.moveTo _
    · rw [Outcome.within_eq_ok_iff] at h
      exact absurd h Outcome.fail_ne_ok

/-! ### Nodes -/

/-- A span that takes the place of an unknown one leaves an invariant as it is. -/
theorem everywhere_moveIfUnknown (hP : IsInvariant names P) (s : Span) {v : Expr}
    (h : v.Everywhere P) : (v.moveIfUnknown s).Everywhere P := by
  unfold moveIfUnknown
  split
  · exact h.moveTo hP.moveTo s
  · exact h

/-- A node has a value with an invariant if its operands have such values; what a name and a call
mean is up to the scope. -/
theorem everywhere_of_operands (hP : IsInvariant names P) {run : BodyRule} {scope : Scope}
    {e v : Expr} (hread : e.isMemory = true → P e)
    (hoperand : ∀ c ∈ e.children, ∀ w, evaluateWith run scope c = .ok w → w.Everywhere P)
    (hvariable : ∀ s name, e = .var s name → v.Everywhere P)
    (hcall : ∀ s name arguments, e = .call s name arguments → v.Everywhere P)
    (h : evaluateWith run scope e = .ok v) : v.Everywhere P := by
  -- Raw reads are their own values, and every other value is made of the values of operands.
  cases e with
  | literal s value =>
    cases h
    exact hP.everywhere_literal s value
  | read s m =>
    cases h
    exact .of_leaf rfl (hread rfl)
  | modified s m =>
    cases h
    exact .of_leaf rfl (hread rfl)
  | sum s t =>
    cases h
    exact .of_leaf rfl (hread rfl)
  | always s b =>
    cases h
    exact hP.everywhere_always s b
  | error s text => cases h
  | var s name => exact hvariable s name rfl
  | arith s op left right =>
    obtain ⟨l, r, hl, hr, h⟩ := evaluateWith_arith_eq_ok_iff.1 h
    exact hP.everywhere_combine (hoperand left List.mem_cons_self l hl)
      (hoperand right (List.mem_cons_of_mem _ List.mem_cons_self) r hr) h
  | compare s relation left right =>
    obtain ⟨l, r, hl, hr, rfl⟩ := evaluateWith_compare_eq_ok_iff.1 h
    exact hP.everywhere_normalize s relation (hoperand left List.mem_cons_self l hl)
      (hoperand right (List.mem_cons_of_mem _ List.mem_cons_self) r hr)
  | negate s es =>
    obtain ⟨e, l, n, rfl, hl, hn, rfl⟩ := evaluateWith_negate_eq_ok_iff.1 h
    exact (hP.everywhere_negated (hoperand e (List.mem_singleton_self e) l hl) hn).moveTo
      hP.moveTo s
  | join s c es =>
    obtain ⟨vs, hvs, rfl⟩ := evaluateWith_join_eq_ok_iff.1 h
    have hall := forall_of_forall₂ hvs hoperand
    exact (hP.everywhere_joinAll c hall).moveTo hP.moveTo s
  | returned s e =>
    obtain ⟨value, hvalue, rfl⟩ := evaluateWith_returned_eq_ok_iff.1 h
    exact ⟨hP.returned _ value,
      List.forall_mem_singleton.2 (hoperand e (List.mem_singleton_self e) value hvalue)⟩
  | call s name arguments => exact hcall s name arguments rfl

end IsInvariant

end Expr

/-! ### Evaluation -/

/-- A scope keeps a property of nodes when it is an invariant that the values of all variables have
everywhere, and the reads that are written in the bodies of script functions. -/
structure Scope.Keeps (scope : Scope) (P : Expr → Prop) : Prop where
  invariant : Expr.IsInvariant scope.names P
  bodies {name name' : String} {parameters : List String} {body : Expr} :
    scope.function? name = some (.script name' parameters body) → body.ReadsSatisfy P
  values {name : String} {v : Expr} : scope.lookup? name = some v → v.Everywhere P

namespace Scope.Keeps

variable {scope : Scope} {P : Expr → Prop}

/-- The scope of a body keeps what its caller keeps, if the values of the arguments have it. -/
theorem inCall (hscope : scope.Keeps P) {values : List (String × Expr)}
    (hvalues : ∀ b ∈ values, b.2.Everywhere P) : (scope.inCall values).Keeps P := by
  have hnames := scope.names_inCall values
  have hfunction : (scope.inCall values).function? = scope.function? :=
    congrArg Names.function? hnames
  refine ⟨?_, fun h => hscope.bodies (hfunction ▸ h), fun h => ?_⟩
  · rw [hnames]
    exact hscope.invariant
  · obtain ⟨b, hb, rfl⟩ | h := lookup?_inCall h
    · exact hvalues b hb
    · exact hscope.values h

end Scope.Keeps

namespace Expr

variable {scope : Scope} {P : Expr → Prop}

/-- The bodies of script functions, run from a scope, have values with a property everywhere. -/
def RunsKeep (run : BodyRule) (scope : Scope) (P : Expr → Prop) : Prop :=
  ∀ {values body v}, body.ReadsSatisfy P → (∀ b ∈ values, b.2.Everywhere P) →
    run scope values body = .ok v → v.Everywhere P

/-- What a call makes of a returned value has every property that holds everywhere in the value. -/
theorem everywhere_unwrapReturned {v : Expr} (h : v.Everywhere P) :
    v.unwrapReturned.Everywhere P := by
  unfold unwrapReturned
  split
  · exact h.children _ (List.mem_singleton_self _)
  · exact h

/-- A built-in function has a value with an invariant everywhere if its arguments have such values.
-/
theorem BuiltinValue.everywhere {run : BodyRule} {name : String} {b : Builtin}
    {arguments : List Expr} {v : Expr} (hscope : scope.Keeps P)
    (hname : scope.function? name = some (.builtin b))
    (harguments : ∀ e ∈ arguments, ∀ v, evaluateWith run scope e = .ok v → v.Everywhere P)
    (h : BuiltinValue run scope name b arguments v) : v.Everywhere P := by
  have hP := hscope.invariant
  cases h with
  | read haddress hread =>
    have ha := harguments _ List.mem_cons_self _ haddress
    exact .of_leaf rfl (hP.address ha.node hread)
  | always b => exact hP.everywhere_always _ b
  | @repeated count n condition value rest hits hclause hcount hhits hvalue =>
    have hv := harguments condition (List.mem_cons_of_mem _ List.mem_cons_self) _ hvalue
    exact ⟨hP.deferred hclause hname (.repeated hits value), List.forall_mem_cons.2
      ⟨hP.everywhere_literal _ _, List.forall_mem_singleton.2 hv⟩⟩
  | once hclause hvalue =>
    have hv := harguments _ List.mem_cons_self _ hvalue
    exact ⟨hP.deferred hclause hname (.once _), List.forall_mem_singleton.2 hv⟩
  | guard g hclause hvalue =>
    have hv := harguments _ List.mem_cons_self _ hvalue
    exact ⟨hP.deferred hclause hname (.guard g _), List.forall_mem_singleton.2 hv⟩

/-- Evaluation keeps what the scope keeps, if the bodies that it runs do. -/
theorem everywhere_evaluateWith {run : BodyRule} (hscope : scope.Keeps P)
    (hrun : RunsKeep run scope P) {e v : Expr} (he : e.ReadsSatisfy P)
    (h : evaluateWith run scope e = .ok v) : v.Everywhere P := by
  have hP := hscope.invariant
  induction he generalizing v with
  | @intro e hnode hchildren ih =>
    have hchild : ∀ c ∈ e.children, ∀ w, evaluateWith run scope c = .ok w → w.Everywhere P :=
      fun c hc w hw => ih c hc hw
    refine hP.everywhere_of_operands hnode hchild ?_ ?_ h
    · rintro s name rfl
      exact hscope.values (evaluateWith_var_eq_ok_iff.1 h)
    · rintro s name arguments rfl
      obtain ⟨b, value, hname, -, hvalue, rfl⟩ |
        ⟨name', parameters, body, values, value, hname, -, hvalues, hvalue, rfl⟩ :=
        evaluateWith_call_eq_ok_iff.1 h
      · exact hP.everywhere_moveIfUnknown s (hvalue.everywhere hscope hname hchild)
      · have hall := forall_of_forall₂ hvalues hchild
        have hbound : ∀ b ∈ parameters.zip values, b.2.Everywhere P :=
          fun b hb => hall b.2 (List.of_mem_zip hb).2
        exact hP.everywhere_moveIfUnknown s
          (everywhere_unwrapReturned (hrun (hscope.bodies hname) hbound hvalue))

/-- Bodies keep what the scope keeps, with any number of calls left. -/
theorem runsKeep_runBody (n : Nat) (hscope : scope.Keeps P) : RunsKeep (runBody n) scope P := by
  induction n generalizing scope with
  | zero =>
    intro values body v hbody hvalues h
    exact absurd h Outcome.fail_ne_ok
  | succ n ih =>
    intro values body v hbody hvalues h
    have hinner := hscope.inCall hvalues
    exact everywhere_evaluateWith hinner (ih hinner) hbody h

end Expr

/-- What a scope keeps holds everywhere in every value. -/
theorem Scope.Keeps.everywhere_evaluate {scope : Scope} {P : Expr → Prop} (hscope : scope.Keeps P)
    {e v : Expr} (he : e.ReadsSatisfy P) (h : Expr.evaluate scope e = .ok v) : v.Everywhere P :=
  Expr.everywhere_evaluateWith hscope (Expr.runsKeep_runBody _ hscope) he h

/-! ### Connectives with operands -/

namespace Expr

/-- Evaluation makes no connective without operands. -/
theorem isInvariant_hasOperands (names : Names) :
    IsInvariant names fun e => ∀ s c, e ≠ .join s c [] where
  moveTo t e h s c := by
    cases e with
    | join s' c' es =>
      rintro ⟨⟩
      exact h s' c rfl
    | _ => exact nofun
  literal _ _ _ _ := nofun
  always _ _ _ _ := nofun
  address _ _ _ _ := nofun
  memory _ _ h := h.induction (P := fun e => ∀ s c, e ≠ .join s c []) (fun _ _ _ => nofun)
    (fun _ _ _ _ => nofun) (fun _ _ _ => nofun) fun _ _ _ => nofun
  withoutOffset _ := ReadSum.toExpr_induction (P := fun e => ∀ s c, e ≠ .join s c []) _
    (fun _ _ _ => nofun) (fun _ _ _ => nofun) (fun _ _ _ => nofun) fun _ _ _ => nofun
  arith _ _ _ := nofun
  compare _ _ _ := nofun
  negation _ _ _ := nofun
  join c es _ _ hlength s c' h := by
    rw [join.injEq] at h
    rw [h.2.2] at hlength
    exact absurd hlength (by decide)
  deferred _ _ _ _ _ := nofun
  returned _ _ _ _ := nofun

/-- Every connective of a value has operands, if those in the values of variables have. -/
theorem hasOperands_evaluate {scope : Scope}
    (hvariables : ∀ name value, scope.lookup? name = some value → value.HasOperands)
    {e v : Expr} (h : evaluate scope e = .ok v) : v.HasOperands := by
  have hreads (e : Expr) : e.ReadsSatisfy fun e => ∀ s c, e ≠ .join s c [] :=
    everywhere_of_forall (fun e he s c h => by rw [h] at he; cases he) e
  have hkeeps : scope.Keeps fun e => ∀ s c, e ≠ .join s c [] :=
    ⟨isInvariant_hasOperands scope.names, fun _ => hreads _, fun h => hvariables _ _ h⟩
  exact hkeeps.everywhere_evaluate (hreads e) h

end Expr

end TriggerLang
