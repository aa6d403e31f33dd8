import TriggerLang.Expr.Basic
/-!
# Functions

The functions that a script may call: one read function for every read size, the constant
conditions, the functions that count or guard a condition, and the functions that the script
defines.

The counting and guarding functions have a meaning only inside a trigger.  Evaluation leaves their
calls in place, and lowering emits their rows.
-/

namespace TriggerLang

/-- The functions that give the last row of a condition a guarding role. -/
inductive Guard where
  /-- Progress is lost while the condition holds. -/
  | reset
  /-- The group waits while the condition holds. -/
  | pause
  deriving DecidableEq, Inhabited

namespace Guard

/-- The name of a guarding function. -/
def name : Guard → String
  | reset => "never"
  | pause => "unless"

/-- The role that a guarding function gives. -/
def role : Guard → Role
  | reset => .resetIf
  | pause => .pauseIf

end Guard

/-- The functions that are there without a script. -/
inductive Builtin where
  /-- Reads memory. -/
  | read (size : ReadSize)
  /-- A constant condition. -/
  | always (value : Bool)
  /-- Asks for a number of hits. -/
  | repeated
  /-- Asks for one hit. -/
  | once
  | guard (g : Guard)
  deriving DecidableEq, Inhabited

namespace Builtin

/-- The name that a function is called by. -/
def name : Builtin → String
  | read size => size.functionName
  | always true => "always_true"
  | always false => "always_false"
  | repeated => "repeated"
  | once => "once"
  | guard g => g.name

/-- The names of the parameters, in the order of a call. -/
def parameters : Builtin → List String
  | read _ => ["address"]
  | always _ => []
  | repeated => ["count", "comparison"]
  | once => ["comparison"]
  | guard _ => ["comparison"]

/-- Every built-in function, in the order of registration. -/
def all : List Builtin :=
  ReadSize.all.map read ++
    [always true, always false, repeated, once, guard .reset, guard .pause]

end Builtin

/-- A function that a script may call. -/
inductive Function where
  | builtin (b : Builtin)
  /-- A function that the script defines. -/
  | script (name : String) (parameters : List String) (body : Expr)
  deriving Inhabited

namespace Function

/-- The name that a function is called by. -/
def name : Function → String
  | builtin b => b.name
  | script name _ _ => name

/-- The names of the parameters, in the order of a call. -/
def parameters : Function → List String
  | builtin b => b.parameters
  | script _ parameters _ => parameters

end Function

end TriggerLang
