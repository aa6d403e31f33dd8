import TriggerLang.Expr.Address
import TriggerLang.Expr.Comparison
import TriggerLang.Expr.Logic
import TriggerLang.Scope.Basic
/-!
# Evaluation

Evaluation resolves names, inlines calls and brings every node into its simplest form.  Operands and
arguments are evaluated from left to right, and the first failure is the failure of the whole.

The body of a script function is evaluated one call deeper than its caller.  `runBody n` runs bodies
with at most `n` calls nested inside one another, and `evaluate` starts with as many calls as the
settings leave at the depth of the scope; the recursion is on that number first and on the
expression second.
-/

namespace TriggerLang

/-- How the body of a script function is run: from the scope of the call, with values for the
parameters. -/
abbrev BodyRule := Scope → List (String × Expr) → Expr → Outcome Expr

/-- The number of hits that an evaluated expression stands for. -/
def repeatCount (value : Expr) : Outcome UInt16 :=
  Outcome.within value.span <|
    match value.int? with
    | none => .fail (.countNotInteger value.text)
    | some n =>
        if n.isNegative || 65535 < n.word then .fail (.countOutOfRange value.text)
        else .ok n.word.toUInt16

namespace Expr

/-- A number of hits as an expression. -/
def ofCount (n : UInt16) : Expr :=
  .int (Int32.ofNat n.toNat)

/-- A returned value is the value of the call. -/
def unwrapReturned : Expr → Expr
  | .returned _ e => e
  | e => e

/-- The failure of a call with a wrong number of arguments. -/
def requireArity (name : String) (parameters : List String) (arguments : List Expr) :
    Outcome Unit :=
  if arguments.length = parameters.length then .ok ()
  else .fail (.arity name parameters.length arguments.length)

/-- The value of a call of a script function with evaluated arguments. -/
def callScript (run : BodyRule) (scope : Scope) (parameters : List String) (values : List Expr)
    (body : Expr) : Outcome Expr := do
  let value ← run scope (parameters.zip values) body
  pure value.unwrapReturned

/-! ### Nodes -/

mutual

/-- The value of an expression, given how bodies are run. -/
def evaluateWith (run : BodyRule) (scope : Scope) : Expr → Outcome Expr
  | .literal s v => .ok (.literal s v)
  | .read s m => .ok (.read s m)
  | .modified s m => .ok (.modified s m)
  | .sum s t => .ok (.sum s t)
  | .always s b => .ok (.always s b)
  | .error s text => (Outcome.fail (.reported .fold text)).within s
  | .var s name =>
      match scope.lookup? name with
      | some value => .ok value
      | none => (Outcome.fail (.unknownVariable name)).within s
  | .arith s op left right => Outcome.within s do
      let l ← evaluateWith run scope left
      let r ← evaluateWith run scope right
      combine s op l r
  | .compare s relation left right => Outcome.within s do
      let l ← evaluateWith run scope left
      let r ← evaluateWith run scope right
      pure (normalize s relation l r)
  | .negate s [operand] => Outcome.within s do
      let value ← evaluateWith run scope operand
      let value ← negated value
      pure (value.moveTo s)
  | .negate s _ => (Outcome.fail .negationArity).within s
  | .join s c operands => Outcome.within s do
      let values ← evaluateAllWith run scope operands
      pure ((joinAll c values).moveTo s)
  | .call s name arguments => Outcome.within s <|
      match scope.function? name with
      | none => .fail (.unknownFunction name)
      | some f => do
          requireArity name f.parameters arguments
          let value ←
            match f with
            | .builtin b => applyBuiltinWith run scope name b arguments
            | .script _ parameters body => do
                let values ← evaluateAllWith run scope arguments
                callScript run scope parameters values body
          pure (value.moveIfUnknown s)
  | .returned s value => Outcome.within s do
      let value ← evaluateWith run scope value
      pure (returning value)
termination_by structural e => e

/-- The values of a list of expressions, or the first failure. -/
def evaluateAllWith (run : BodyRule) (scope : Scope) : List Expr → Outcome (List Expr)
  | [] => .ok []
  | e :: es => do
      let value ← evaluateWith run scope e
      let values ← evaluateAllWith run scope es
      pure (value :: values)
termination_by structural es => es

/-- The value of a call of a built-in function under a name.  Counting and guarding functions keep
their call. -/
def applyBuiltinWith (run : BodyRule) (scope : Scope) (name : String) :
    Builtin → List Expr → Outcome Expr
  | .read size, address :: _ => do
      let address ← evaluateWith run scope address
      let read ← MemoryRead.atAddress size address
      pure (.read .unknown read)
  | .read _, [] => .fail (.missingParameter name 1)
  | .always b, _ => .ok (.always .unknown b)
  | .repeated, [] => do
      scope.requireClause name
      .fail (.missingParameter name 1)
  | .repeated, [count] => do
      scope.requireClause name
      let value ← evaluateWith run scope count
      let _ ← repeatCount value
      .fail (.missingParameter name 2)
  | .repeated, count :: condition :: _ => do
      scope.requireClause name
      let value ← evaluateWith run scope count
      let count ← repeatCount value
      let condition ← evaluateWith run scope condition
      pure (.call .unknown name [ofCount count, condition])
  | .once, condition :: _ => do
      scope.requireClause name
      let condition ← evaluateWith run scope condition
      pure (.call .unknown name [condition])
  | .once, [] => do
      scope.requireClause name
      .fail (.missingParameter name 1)
  | .guard _, condition :: _ => do
      scope.requireClause name
      let condition ← evaluateWith run scope condition
      pure (.call .unknown name [condition])
  | .guard _, [] => do
      scope.requireClause name
      .fail (.missingParameter name 1)
termination_by structural _ es => es

end

/-! ### Calls -/

/-- Runs the body of a script function with at most the given number of calls nested inside one
another, its own call included. -/
def runBody : Nat → BodyRule
  | 0 => fun scope _ _ => .fail (.callDepthExceeded scope.settings.callDepthLimit)
  | n + 1 => fun scope bindings body => evaluateWith (runBody n) (scope.inCall bindings) body

/-- The value of an expression in a scope. -/
def evaluate (scope : Scope) (e : Expr) : Outcome Expr :=
  evaluateWith (runBody scope.remainingCalls) scope e

/-- The values of a list of expressions in a scope, or the first failure. -/
def evaluateAll (scope : Scope) (es : List Expr) : Outcome (List Expr) :=
  evaluateAllWith (runBody scope.remainingCalls) scope es

/-- The value of a call of a function under a name. -/
def apply (scope : Scope) (name : String) (f : Function) (arguments : List Expr) : Outcome Expr :=
  match f with
  | .builtin b => applyBuiltinWith (runBody scope.remainingCalls) scope name b arguments
  | .script _ parameters body => do
      requireArity name parameters arguments
      let values ← evaluateAll scope arguments
      callScript (runBody scope.remainingCalls) scope parameters values body

/-! ### Small laws -/

/-- A body runs as it is evaluated in the scope of its call; the calls that are left never run out
before the scope refuses a deeper one. -/
theorem runBody_remainingCalls (scope : Scope) (values : List (String × Expr)) (body : Expr) :
    runBody scope.remainingCalls scope values body =
      scope.enterCall values >>= fun inner => evaluate inner body := by
  by_cases h : scope.depth < scope.settings.callDepthLimit
  · obtain ⟨n, hn⟩ : ∃ n, scope.remainingCalls = n + 1 :=
      ⟨scope.remainingCalls - 1, by unfold Scope.remainingCalls; omega⟩
    have hr : (scope.inCall values).remainingCalls = n := by
      rw [Scope.remainingCalls_inCall, hn]; rfl
    simp only [hn, runBody, Scope.enterCall, if_pos h]
    show _ = evaluate (scope.inCall values) body
    rw [evaluate, hr]
  · have hn : scope.remainingCalls = 0 := by unfold Scope.remainingCalls; omega
    simp only [hn, runBody, Scope.enterCall, if_neg h]
    rfl

/-- A call has the right number of arguments when there is one for every parameter. -/
theorem requireArity_eq_ok_iff {name : String} {parameters : List String} {arguments : List Expr} :
    requireArity name parameters arguments = .ok () ↔ arguments.length = parameters.length := by
  unfold requireArity
  split <;> simp_all [Outcome.fail]

end Expr

/-- The scope of the body of a call under a name, with the parameters bound to the evaluated
arguments. -/
def Scope.bindCall (scope : Scope) (name : String) (parameters : List String)
    (arguments : List Expr) : Outcome Scope := do
  Expr.requireArity name parameters arguments
  let values ← Expr.evaluateAll scope arguments
  scope.enterCall (parameters.zip values)

end TriggerLang
