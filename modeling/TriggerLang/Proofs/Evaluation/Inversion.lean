import TriggerLang.Proofs.Success
/-!
# Successful evaluations

This module says once what a successful evaluation has done, node by node: which operands it
evaluated, in which order, and which rule made the value from theirs.  Every statement about all
values of the evaluator is an induction over the expression that takes its cases apart with these
laws.

Lists of operands are evaluated element by element, so that the values stand in the relation
`List.Forall₂` to the operands.
-/

namespace TriggerLang.Expr

variable {run : BodyRule} {scope : Scope} {v : Expr}

/-! ### Lists -/

/-- A list of expressions has the values of its members, and it has them if each member has one. -/
theorem evaluateAllWith_eq_ok_iff {es vs : List Expr} :
    evaluateAllWith run scope es = .ok vs ↔
      List.Forall₂ (fun e v => evaluateWith run scope e = .ok v) es vs := by
  induction es generalizing vs with
  | nil =>
    rw [evaluateAllWith, List.forall₂_nil_left_iff]
    exact ⟨fun h => by cases h; rfl, fun h => by rw [h]⟩
  | cons e es ih =>
    rw [evaluateAllWith, Outcome.bind_eq_ok_iff]
    constructor
    · rintro ⟨v, hv, h⟩
      obtain ⟨vs', hvs, h⟩ := Outcome.bind_eq_ok_iff.1 h
      cases h
      exact .cons hv (ih.1 hvs)
    · rintro (_ | ⟨hv, hvs⟩)
      exact ⟨_, hv, Outcome.bind_eq_ok_iff.2 ⟨_, ih.2 hvs, rfl⟩⟩

/-- A list of values has the negations of its members, and it has them if each member has one. -/
theorem negatedAll_eq_ok_iff {es vs : List Expr} :
    negatedAll es = .ok vs ↔ List.Forall₂ (fun e v => negated e = .ok v) es vs := by
  induction es generalizing vs with
  | nil =>
    rw [negatedAll, List.forall₂_nil_left_iff]
    exact ⟨fun h => by cases h; rfl, fun h => by rw [h]⟩
  | cons e es ih =>
    rw [negatedAll, Outcome.bind_eq_ok_iff]
    constructor
    · rintro ⟨v, hv, h⟩
      obtain ⟨vs', hvs, h⟩ := Outcome.bind_eq_ok_iff.1 h
      cases h
      exact .cons hv (ih.1 hvs)
    · rintro (_ | ⟨hv, hvs⟩)
      exact ⟨_, hv, Outcome.bind_eq_ok_iff.2 ⟨_, ih.2 hvs, rfl⟩⟩

/-! ### Names and operators -/

/-- A variable has the value that is looked up. -/
theorem evaluateWith_var_eq_ok_iff {s : Span} {name : String} :
    evaluateWith run scope (.var s name) = .ok v ↔ scope.lookup? name = some v := by
  rw [evaluateWith]
  cases h : scope.lookup? name with
  | none => exact ⟨nofun, nofun⟩
  | some value => exact ⟨fun h => by cases h; rfl, fun h => by cases h; rfl⟩

/-- An operation has what the values of its operands combine to. -/
theorem evaluateWith_arith_eq_ok_iff {s : Span} {op : Arith} {left right : Expr} :
    evaluateWith run scope (.arith s op left right) = .ok v ↔
      ∃ l r, evaluateWith run scope left = .ok l ∧ evaluateWith run scope right = .ok r ∧
        combine s op l r = .ok v := by
  rw [evaluateWith, Outcome.within_eq_ok_iff, Outcome.bind_eq_ok_iff]
  refine exists_congr fun l => ?_
  rw [Outcome.bind_eq_ok_iff, exists_and_left]

/-- A comparison has the normal form of the comparison of the values of its operands. -/
theorem evaluateWith_compare_eq_ok_iff {s : Span} {relation : Relation} {left right : Expr} :
    evaluateWith run scope (.compare s relation left right) = .ok v ↔
      ∃ l r, evaluateWith run scope left = .ok l ∧ evaluateWith run scope right = .ok r ∧
        v = normalize s relation l r := by
  rw [evaluateWith, Outcome.within_eq_ok_iff, Outcome.bind_eq_ok_iff]
  refine exists_congr fun l => ?_
  rw [Outcome.bind_eq_ok_iff, exists_and_left]
  refine and_congr_right fun _ => exists_congr fun r => and_congr_right fun _ => ?_
  exact Outcome.pure_eq_ok_iff

/-- A negation has one operand, and the negation of its value as its own. -/
theorem evaluateWith_negate_eq_ok_iff {s : Span} {es : List Expr} :
    evaluateWith run scope (.negate s es) = .ok v ↔
      ∃ e l n, es = [e] ∧ evaluateWith run scope e = .ok l ∧ negated l = .ok n ∧
        v = n.moveTo s := by
  rcases es with _ | ⟨e, _ | ⟨e', es⟩⟩
  · exact ⟨nofun, nofun⟩
  · rw [evaluateWith, Outcome.within_eq_ok_iff]
    constructor
    · intro h
      obtain ⟨l, hl, h⟩ := Outcome.bind_eq_ok_iff.1 h
      obtain ⟨n, hn, h⟩ := Outcome.bind_eq_ok_iff.1 h
      exact ⟨e, l, n, rfl, hl, hn, Outcome.pure_eq_ok_iff.1 h⟩
    · rintro ⟨_, l, n, ⟨⟩, hl, hn, rfl⟩
      exact Outcome.bind_eq_ok_iff.2 ⟨l, hl, Outcome.bind_eq_ok_iff.2 ⟨n, hn, rfl⟩⟩
  · exact ⟨nofun, nofun⟩

/-- A connective has the values of its operands, flattened, as its value. -/
theorem evaluateWith_join_eq_ok_iff {s : Span} {c : Connective} {es : List Expr} :
    evaluateWith run scope (.join s c es) = .ok v ↔
      ∃ vs, List.Forall₂ (fun e v => evaluateWith run scope e = .ok v) es vs ∧
        v = (joinAll c vs).moveTo s := by
  rw [evaluateWith, Outcome.within_eq_ok_iff, Outcome.bind_eq_ok_iff]
  refine exists_congr fun vs => ?_
  rw [evaluateAllWith_eq_ok_iff]
  exact and_congr_right fun _ => Outcome.pure_eq_ok_iff

/-- A returned expression has its value, marked as returned. -/
theorem evaluateWith_returned_eq_ok_iff {s : Span} {e : Expr} :
    evaluateWith run scope (.returned s e) = .ok v ↔
      ∃ value, evaluateWith run scope e = .ok value ∧ v = returning value := by
  rw [evaluateWith, Outcome.within_eq_ok_iff, Outcome.bind_eq_ok_iff]
  exact exists_congr fun value => and_congr_right fun _ => Outcome.pure_eq_ok_iff

/-! ### Arithmetic -/

/-- The result of an operation on two operands of which one reads memory. -/
inductive MemoryResult : Arith → Expr → Expr → Expr → Prop
  | sum {left right : Expr} {v w : ReadSum} (hleft : ReadSum.ofExpr? left = some v)
      (hright : ReadSum.ofExpr? right = some w) :
      MemoryResult .add left right (v.add w).toExpr
  | difference {left right : Expr} {v w : ReadSum} (hleft : ReadSum.ofExpr? left = some v)
      (hright : ReadSum.ofExpr? right = some w) :
      MemoryResult .subtract left right (v.subtract w).toExpr
  | unchanged {op : Arith} {left right : Expr} {s : Span} {m : MemoryRead}
      (hread : left = .read s m ∨ right = .read s m) :
      MemoryResult op left right (.read s m)
  | modified {op : Arith} {left right : Expr} {s : Span} {m : MemoryRead}
      (hread : left = .read s m ∨ right = .read s m) (o : Operand) :
      MemoryResult op left right (ofModified m op o)

/-- A read under an operation is left as it is, or it becomes a modified read. -/
theorem modifyBy_eq_ok_some {left right e : Expr} {m : MemoryRead} {op : Arith}
    (h : modifyBy left m op right = .ok (some e)) : e = left ∨ ∃ o, e = ofModified m op o := by
  unfold modifyBy at h
  split at h
  · rename_i s n
    split at h
    · cases h
    · split at h
      · cases h
        exact .inl rfl
      · cases h
        exact .inr ⟨_, rfl⟩
  · split at h
    · cases h
      exact .inr ⟨_, rfl⟩
    · cases h
  · cases h

/-- An operation other than sums and differences leaves a read as it is or modifies it. -/
theorem modified?_eq_ok_some {op : Arith} {left right e : Expr}
    (h : modified? op left right = .ok (some e)) :
    ∃ s m, (left = .read s m ∨ right = .read s m) ∧
      (e = .read s m ∨ ∃ o, e = ofModified m op o) := by
  unfold modified? at h
  split at h
  · rename_i s m
    exact ⟨s, m, .inl rfl, modifyBy_eq_ok_some h⟩
  · rename_i s m
    split at h
    · exact ⟨s, m, .inr rfl, modifyBy_eq_ok_some h⟩
    · cases h
  · cases h

/-- What such an operation makes of a read is the result of an operation on memory. -/
theorem memoryResult_of_modified? {op : Arith} {left right e : Expr}
    (h : modified? op left right = .ok (some e)) : MemoryResult op left right e := by
  obtain ⟨s, m, hread, rfl | ⟨o, rfl⟩⟩ := modified?_eq_ok_some h
  · exact .unchanged hread
  · exact .modified hread o

/-- What is found for an operation on memory is its result. -/
theorem memoryResult_of_onMemory? {op : Arith} {left right e : Expr}
    (h : onMemory? op left right = .ok (some e)) : MemoryResult op left right e := by
  unfold onMemory? at h
  split at h
  · cases h
  · split at h
    · split at h
      · rename_i hleft hright
        cases h
        exact .sum hleft hright
      · cases h
    · split at h
      · rename_i hleft hright
        cases h
        exact .difference hleft hright
      · cases h
    · exact memoryResult_of_modified? h

/-- An operation folds to a literal, becomes an expression of memory, or stays. -/
theorem combine_eq_ok {s : Span} {op : Arith} {left right e : Expr}
    (h : combine s op left right = .ok e) :
    (∃ v, e = .literal s v) ∨
    (∃ e', onMemory? op left right = .ok (some e') ∧ e = e'.moveTo s) ∨
    e = .arith s op left right := by
  unfold combine at h
  split at h
  · cases h
    exact .inl ⟨_, rfl⟩
  · rw [Outcome.within_eq_ok_iff] at h
    exact absurd h Outcome.fail_ne_ok
  · split at h
    · rename_i e' he'
      cases h
      exact .inr (.inl ⟨e', he', rfl⟩)
    · cases h
      exact .inr (.inr rfl)
    · cases h

/-! ### Calls -/

/-- The value of a call of a built-in function under a name. -/
inductive BuiltinValue (run : BodyRule) (scope : Scope) (name : String) :
    Builtin → List Expr → Expr → Prop
  | read {size : ReadSize} {address a : Expr} {rest : List Expr} {m : MemoryRead}
      (haddress : evaluateWith run scope address = .ok a)
      (hread : MemoryRead.atAddress size a = .ok m) :
      BuiltinValue run scope name (.read size) (address :: rest) (.read .unknown m)
  | always (b : Bool) (rest : List Expr) :
      BuiltinValue run scope name (.always b) rest (.always .unknown b)
  | repeated {count n condition value : Expr} {rest : List Expr} {hits : UInt16}
      (hclause : scope.inClause = true) (hcount : evaluateWith run scope count = .ok n)
      (hhits : repeatCount n = .ok hits) (hvalue : evaluateWith run scope condition = .ok value) :
      BuiltinValue run scope name .repeated (count :: condition :: rest)
        (.call .unknown name [ofCount hits, value])
  | once {condition value : Expr} {rest : List Expr} (hclause : scope.inClause = true)
      (hvalue : evaluateWith run scope condition = .ok value) :
      BuiltinValue run scope name .once (condition :: rest) (.call .unknown name [value])
  | guard (g : Guard) {condition value : Expr} {rest : List Expr}
      (hclause : scope.inClause = true) (hvalue : evaluateWith run scope condition = .ok value) :
      BuiltinValue run scope name (.guard g) (condition :: rest) (.call .unknown name [value])

/-- A deferred call needs a trigger clause and a value for its condition. -/
private theorem deferred_eq_ok_iff {name : String} {condition : Expr} :
    (do scope.requireClause name
        let value ← evaluateWith run scope condition
        pure (.call .unknown name [value]) : Outcome Expr) = .ok v ↔
      ∃ value, scope.inClause = true ∧ evaluateWith run scope condition = .ok value ∧
        v = .call .unknown name [value] := by
  rw [Outcome.bind_eq_ok_iff]
  constructor
  · rintro ⟨⟨⟩, hclause, h⟩
    obtain ⟨value, hvalue, h⟩ := Outcome.bind_eq_ok_iff.1 h
    exact ⟨value, Scope.requireClause_eq_ok_iff.1 hclause, hvalue, Outcome.pure_eq_ok_iff.1 h⟩
  · rintro ⟨value, hclause, hvalue, rfl⟩
    exact ⟨(), Scope.requireClause_eq_ok_iff.2 hclause,
      Outcome.bind_eq_ok_iff.2 ⟨value, hvalue, rfl⟩⟩

/-- A successful call of a built-in function has one of the values that such calls have. -/
theorem builtinValue_of_applyBuiltinWith {name : String} {b : Builtin} {arguments : List Expr}
    (h : applyBuiltinWith run scope name b arguments = .ok v) :
    BuiltinValue run scope name b arguments v := by
  cases b with
  | read size =>
    cases arguments with
    | nil => cases h
    | cons address rest =>
      rw [applyBuiltinWith] at h
      obtain ⟨a, ha, h⟩ := Outcome.bind_eq_ok_iff.1 h
      obtain ⟨m, hm, h⟩ := Outcome.bind_eq_ok_iff.1 h
      cases h
      exact .read ha hm
  | always b =>
    rw [applyBuiltinWith] at h
    cases h
    exact .always b arguments
  | repeated =>
    rcases arguments with _ | ⟨count, _ | ⟨condition, rest⟩⟩
    · rw [applyBuiltinWith] at h
      obtain ⟨⟨⟩, -, h⟩ := Outcome.bind_eq_ok_iff.1 h
      cases h
    · rw [applyBuiltinWith] at h
      obtain ⟨⟨⟩, -, h⟩ := Outcome.bind_eq_ok_iff.1 h
      obtain ⟨n, -, h⟩ := Outcome.bind_eq_ok_iff.1 h
      obtain ⟨hits, -, h⟩ := Outcome.bind_eq_ok_iff.1 h
      cases h
    · rw [applyBuiltinWith] at h
      obtain ⟨⟨⟩, hclause, h⟩ := Outcome.bind_eq_ok_iff.1 h
      obtain ⟨n, hcount, h⟩ := Outcome.bind_eq_ok_iff.1 h
      obtain ⟨hits, hhits, h⟩ := Outcome.bind_eq_ok_iff.1 h
      obtain ⟨value, hvalue, h⟩ := Outcome.bind_eq_ok_iff.1 h
      cases h
      exact .repeated (Scope.requireClause_eq_ok_iff.1 hclause) hcount hhits hvalue
  | once =>
    cases arguments with
    | nil =>
      rw [applyBuiltinWith] at h
      obtain ⟨⟨⟩, -, h⟩ := Outcome.bind_eq_ok_iff.1 h
      cases h
    | cons condition rest =>
      rw [applyBuiltinWith] at h
      obtain ⟨value, hclause, hvalue, rfl⟩ := deferred_eq_ok_iff.1 h
      exact .once hclause hvalue
  | guard g =>
    cases arguments with
    | nil =>
      rw [applyBuiltinWith] at h
      obtain ⟨⟨⟩, -, h⟩ := Outcome.bind_eq_ok_iff.1 h
      cases h
    | cons condition rest =>
      rw [applyBuiltinWith] at h
      obtain ⟨value, hclause, hvalue, rfl⟩ := deferred_eq_ok_iff.1 h
      exact .guard g hclause hvalue

/-- A value that a call of a built-in function may have is the value that it has. -/
theorem BuiltinValue.applyBuiltinWith_eq_ok {name : String} {b : Builtin} {arguments : List Expr}
    (h : BuiltinValue run scope name b arguments v) :
    applyBuiltinWith run scope name b arguments = .ok v := by
  cases h with
  | read haddress hread =>
    rw [applyBuiltinWith]
    exact Outcome.bind_eq_ok_iff.2 ⟨_, haddress, Outcome.bind_eq_ok_iff.2 ⟨_, hread, rfl⟩⟩
  | always b => rw [applyBuiltinWith]
  | repeated hclause hcount hhits hvalue =>
    rw [applyBuiltinWith]
    exact Outcome.bind_eq_ok_iff.2 ⟨(), Scope.requireClause_eq_ok_iff.2 hclause,
      Outcome.bind_eq_ok_iff.2 ⟨_, hcount, Outcome.bind_eq_ok_iff.2 ⟨_, hhits,
        Outcome.bind_eq_ok_iff.2 ⟨_, hvalue, rfl⟩⟩⟩⟩
  | once hclause hvalue =>
    rw [applyBuiltinWith]
    exact deferred_eq_ok_iff.2 ⟨_, hclause, hvalue, rfl⟩
  | guard g hclause hvalue =>
    rw [applyBuiltinWith]
    exact deferred_eq_ok_iff.2 ⟨_, hclause, hvalue, rfl⟩

/-- A call has the value of its built-in function, or what the body of its script function returns
for the values of the arguments. -/
theorem evaluateWith_call_eq_ok_iff {s : Span} {name : String} {arguments : List Expr} :
    evaluateWith run scope (.call s name arguments) = .ok v ↔
      (∃ b value, scope.function? name = some (.builtin b) ∧
        arguments.length = b.parameters.length ∧
        BuiltinValue run scope name b arguments value ∧ v = value.moveIfUnknown s) ∨
      ∃ name' parameters body values value,
        scope.function? name = some (.script name' parameters body) ∧
        arguments.length = parameters.length ∧
        List.Forall₂ (fun e v => evaluateWith run scope e = .ok v) arguments values ∧
        run scope (parameters.zip values) body = .ok value ∧
        v = value.unwrapReturned.moveIfUnknown s := by
  rw [evaluateWith, Outcome.within_eq_ok_iff]
  cases hf : scope.function? name with
  | none =>
    constructor
    · nofun
    · rintro (⟨b, value, hb, -⟩ | ⟨name', parameters, body, values, value, hb, -⟩) <;> cases hb
  | some f =>
    dsimp only
    rw [Outcome.bind_eq_ok_iff]
    constructor
    · rintro ⟨⟨⟩, harity, h⟩
      rw [requireArity_eq_ok_iff] at harity
      cases f with
      | builtin b =>
        obtain ⟨value, hvalue, h⟩ := Outcome.bind_eq_ok_iff.1 h
        exact .inl ⟨b, value, rfl, harity, builtinValue_of_applyBuiltinWith hvalue,
          Outcome.pure_eq_ok_iff.1 h⟩
      | script name' parameters body =>
        obtain ⟨values, hvalues, h⟩ := Outcome.bind_eq_ok_iff.1 h
        obtain ⟨returned, hcall, h⟩ := Outcome.bind_eq_ok_iff.1 h
        obtain ⟨value, hrun, hreturned⟩ := Outcome.bind_eq_ok_iff.1 hcall
        cases hreturned
        exact .inr ⟨name', parameters, body, values, value, rfl, harity,
          evaluateAllWith_eq_ok_iff.1 hvalues, hrun, Outcome.pure_eq_ok_iff.1 h⟩
    · rintro (⟨b, value, hb, harity, hvalue, rfl⟩ |
        ⟨name', parameters, body, values, value, hb, harity, hvalues, hrun, rfl⟩)
      · cases hb
        exact ⟨(), requireArity_eq_ok_iff.2 harity,
          Outcome.bind_eq_ok_iff.2 ⟨value, hvalue.applyBuiltinWith_eq_ok, rfl⟩⟩
      · cases hb
        have hcall : callScript run scope parameters values body = .ok value.unwrapReturned :=
          Outcome.bind_eq_ok_iff.2 ⟨value, hrun, rfl⟩
        exact ⟨(), requireArity_eq_ok_iff.2 harity, Outcome.bind_eq_ok_iff.2
          ⟨values, evaluateAllWith_eq_ok_iff.2 hvalues,
            Outcome.bind_eq_ok_iff.2 ⟨value.unwrapReturned, hcall, rfl⟩⟩⟩

end TriggerLang.Expr
