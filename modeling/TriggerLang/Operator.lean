/-!
# Operators of scripts and rows

Three families of operators: arithmetic, comparison and logical connectives.  Arithmetic and
comparison operators occur both in expressions and in the rows that expressions compile to.

A `Relation` has a `converse`, for operands that trade places, and a `negation`, which holds exactly
when the relation does not; both are involutions.
-/

namespace TriggerLang

/-- The arithmetic operators. -/
inductive Arith where
  | add
  | subtract
  | multiply
  | divide
  | modulus
  | bitAnd
  | bitXor
  deriving DecidableEq, Inhabited

namespace Arith

/-- Every arithmetic operator, in the order of the reference table. -/
def all : List Arith :=
  [.add, .subtract, .multiply, .divide, .modulus, .bitAnd, .bitXor]

/-- The written form of an operator. -/
def symbol : Arith → String
  | add => "+"
  | subtract => "-"
  | multiply => "*"
  | divide => "/"
  | modulus => "%"
  | bitAnd => "&"
  | bitXor => "^"

/-- The operators whose operands may trade places. -/
def isCommutative : Arith → Bool
  | add | multiply | bitAnd | bitXor => true
  | subtract | divide | modulus => false

/-- The operators that need a nonzero right operand. -/
def isDivision : Arith → Bool
  | divide | modulus => true
  | add | subtract | multiply | bitAnd | bitXor => false

end Arith

/-- The comparison operators. -/
inductive Relation where
  | equal
  | notEqual
  | greater
  | greaterOrEqual
  | less
  | lessOrEqual
  deriving DecidableEq, Inhabited

namespace Relation

/-- Every comparison operator, in the order of the reference table. -/
def all : List Relation :=
  [.equal, .notEqual, .greater, .greaterOrEqual, .less, .lessOrEqual]

/-- The written form of an operator. -/
def symbol : Relation → String
  | equal => "=="
  | notEqual => "!="
  | greater => ">"
  | greaterOrEqual => ">="
  | less => "<"
  | lessOrEqual => "<="

/-- Whether the relation holds between two values; over floating point no order holds with a NaN. -/
def holds {α : Type} [BEq α] [LT α] [LE α] [DecidableLT α] [DecidableLE α] :
    Relation → α → α → Bool
  | equal, a, b => a == b
  | notEqual, a, b => !(a == b)
  | greater, a, b => decide (b < a)
  | greaterOrEqual, a, b => decide (b ≤ a)
  | less, a, b => decide (a < b)
  | lessOrEqual, a, b => decide (a ≤ b)

/-- The relation that holds of the operands in the other order. -/
def converse : Relation → Relation
  | equal => equal
  | notEqual => notEqual
  | greater => less
  | greaterOrEqual => lessOrEqual
  | less => greater
  | lessOrEqual => greaterOrEqual

/-- The relation that holds exactly when this one does not, on ordered values. -/
def negation : Relation → Relation
  | equal => notEqual
  | notEqual => equal
  | greater => lessOrEqual
  | greaterOrEqual => less
  | less => greaterOrEqual
  | lessOrEqual => greater

/-- Operands that trade places twice are back in place. -/
@[simp] theorem converse_converse (r : Relation) : r.converse.converse = r := by
  cases r <;> rfl

/-- A relation is the negation of its negation. -/
@[simp] theorem negation_negation (r : Relation) : r.negation.negation = r := by
  cases r <;> rfl

/-- Negation and the exchange of operands do not disturb each other. -/
@[simp] theorem negation_converse (r : Relation) : r.converse.negation = r.negation.converse := by
  cases r <;> rfl

end Relation

/-- The connectives that join any number of operands. -/
inductive Connective where
  | all
  | any
  deriving DecidableEq, Inhabited

namespace Connective

/-- The written form of a connective. -/
def symbol : Connective → String
  | all => "&&"
  | any => "||"

/-- The connective that negation turns this one into. -/
def dual : Connective → Connective
  | all => any
  | any => all

/-- The truth value that decides a connective by itself: falsehood for `all`, truth for `any`. -/
def absorbing : Connective → Bool
  | all => false
  | any => true

/-- Each connective is the dual of its dual. -/
@[simp] theorem dual_dual (c : Connective) : c.dual.dual = c := by
  cases c <;> rfl

/-- Dual connectives are decided by opposite truth values. -/
@[simp] theorem absorbing_dual (c : Connective) : c.dual.absorbing = !c.absorbing := by
  cases c <;> rfl

end Connective

/-- The written form of logical negation. -/
def negationSymbol : String := "!"

end TriggerLang
