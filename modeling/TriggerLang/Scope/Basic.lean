import TriggerLang.Diagnostic
import TriggerLang.Scope.Function
import TriggerLang.Settings.Basic
/-!
# Scopes

A `Scope` is a stack of frames, each with its own variables and functions, under one group of
settings.  A name means what the innermost frame that knows it says.

A call of a script function opens a frame above the frame of its caller, so that a body sees the
names of its callers.  A frame may open a trigger clause, and every frame above it is within that
clause.
-/

namespace TriggerLang

/-- The names of one level of a scope. -/
structure Frame where
  bindings : List (String × Expr) := []
  functions : List Function := []
  /-- Whether the frame opens a trigger clause. -/
  opensClause : Bool := false
  /-- The number of calls between this frame and the root. -/
  depth : Nat := 0
  deriving Inhabited

namespace Frame

/-- The value of a variable of this frame. -/
def lookup? (f : Frame) (name : String) : Option Expr :=
  f.bindings.lookup name

/-- The function of this frame with a name. -/
def function? (f : Frame) (name : String) : Option Function :=
  f.functions.find? fun g => g.name == name

/-- The frame with a variable set to a value. -/
def setVariable (f : Frame) (name : String) (value : Expr) : Frame :=
  { f with bindings := (name, value) :: f.bindings.filter fun b => b.1 != name }

/-- The frame with a function under its name. -/
def setFunction (f : Frame) (g : Function) : Frame :=
  { f with functions := g :: f.functions.filter fun h => h.name != g.name }

/-- The frame with several variables set in order, so that of equal names the last one holds. -/
def setVariables (f : Frame) (values : List (String × Expr)) : Frame :=
  values.foldl (fun f v => f.setVariable v.1 v.2) f

/-- The frame with several functions under their names. -/
def setFunctions (f : Frame) (functions : List Function) : Frame :=
  functions.foldl setFunction f

end Frame

/-- A stack of frames under common settings; the innermost frame is always there. -/
structure Scope where
  settings : Settings
  frame : Frame := {}
  /-- The frames around the innermost one, the nearest first. -/
  outer : List Frame := []
  deriving Inhabited

namespace Scope

/-! ### Roots -/

/-- A root scope without names. -/
def empty (settings : Settings) : Scope :=
  { settings }

/-- A root scope with the built-in functions. -/
def root (settings : Settings) : Scope :=
  { settings, frame := ({} : Frame).setFunctions (Builtin.all.map .builtin) }

/-! ### Names -/

/-- Every frame, the innermost first. -/
def frames (s : Scope) : List Frame :=
  s.frame :: s.outer

/-- The value of a variable. -/
def lookup? (s : Scope) (name : String) : Option Expr :=
  s.frames.findSome? (·.lookup? name)

/-- The function with a name. -/
def function? (s : Scope) (name : String) : Option Function :=
  s.frames.findSome? (·.function? name)

/-- The scope with a variable of the innermost frame set to a value. -/
def setVariable (s : Scope) (name : String) (value : Expr) : Scope :=
  { s with frame := s.frame.setVariable name value }

/-- The scope with a function in the innermost frame. -/
def setFunction (s : Scope) (g : Function) : Scope :=
  { s with frame := s.frame.setFunction g }

/-- Whether a trigger clause is open. -/
def inClause (s : Scope) : Bool :=
  s.frames.any (·.opensClause)

/-- The number of calls between the innermost frame and the root. -/
def depth (s : Scope) : Nat :=
  s.frame.depth

/-- The number of calls that may still be nested. -/
def remainingCalls (s : Scope) : Nat :=
  s.settings.callDepthLimit - s.depth

/-! ### Inner scopes -/

/-- The scope with one more frame. -/
def push (s : Scope) (frame : Frame) : Scope :=
  { s with frame, outer := s.frames }

/-- A scope inside this one. -/
def child (s : Scope) : Scope :=
  s.push { depth := s.depth }

/-- A scope inside this one that opens a trigger clause. -/
def clause (s : Scope) : Scope :=
  s.push { opensClause := true, depth := s.depth }

/-- The scope of the body of a call with the given variables. -/
def inCall (s : Scope) (values : List (String × Expr)) : Scope :=
  s.push (({ depth := s.depth + 1 } : Frame).setVariables values)

/-- The scope of the body of a call, unless calls are nested too deep. -/
def enterCall (s : Scope) (values : List (String × Expr)) : Outcome Scope :=
  if s.depth < s.settings.callDepthLimit then .ok (s.inCall values)
  else .fail (.callDepthExceeded s.settings.callDepthLimit)

/-- The scope around this one, unless it is a root. -/
def parent? (s : Scope) : Option Scope :=
  match s.outer with
  | [] => none
  | frame :: outer => some { s with frame, outer }

/-- The failure of a function that has a meaning only inside a trigger clause. -/
def requireClause (s : Scope) (function : String) : Outcome Unit :=
  if s.inClause then .ok () else .fail (.outsideTriggerClause function)

/-! ### Small laws -/

@[simp] theorem settings_push (s : Scope) (f : Frame) : (s.push f).settings = s.settings := rfl

@[simp] theorem frames_push (s : Scope) (f : Frame) : (s.push f).frames = f :: s.frames := rfl

@[simp] theorem parent?_push (s : Scope) (f : Frame) : (s.push f).parent? = some s := rfl

/-- The scope of a trigger clause is in a clause. -/
@[simp] theorem inClause_clause (s : Scope) : s.clause.inClause = true := by
  simp [clause, inClause]

end Scope

namespace Frame

/-- A lookup outside a filtered key is not changed by the filter. -/
private theorem lookup_filter_ne {m n : String} (h : m ≠ n) (bindings : List (String × Expr)) :
    (bindings.filter fun b => b.1 != n).lookup m = bindings.lookup m := by
  induction bindings with
  | nil => rfl
  | cons b bs ih =>
    obtain ⟨k, v⟩ := b
    by_cases hk : k = n
    · subst hk
      have hm : (m == k) = false := by simpa using h
      simp [List.lookup_cons, hm, ih]
    · simp [List.lookup_cons, hk, ih]

/-- A variable that was set has the value it was set to. -/
@[simp] theorem lookup?_setVariable_self (f : Frame) (name : String) (value : Expr) :
    (f.setVariable name value).lookup? name = some value := by
  simp [lookup?, setVariable]

/-- To set a variable changes no other one. -/
theorem lookup?_setVariable_of_ne (f : Frame) {m n : String} (h : m ≠ n) (value : Expr) :
    (f.setVariable n value).lookup? m = f.lookup? m := by
  have hm : (m == n) = false := by simpa using h
  simp [lookup?, setVariable, List.lookup_cons, hm, lookup_filter_ne h]

/-- A function is found under its own name. -/
theorem name_eq_of_function? {f : Frame} {name : String} {g : Function}
    (h : f.function? name = some g) : g.name = name := by
  simpa using List.find?_some h

/-- The depth of a frame does not depend on its variables. -/
theorem depth_setVariables (f : Frame) (values : List (String × Expr)) :
    (f.setVariables values).depth = f.depth := by
  induction values generalizing f with
  | nil => rfl
  | cons b bs ih => exact ih (f.setVariable b.1 b.2)

end Frame

namespace Scope

/-- The body of a call is one call deeper than its caller. -/
@[simp] theorem depth_inCall (s : Scope) (values : List (String × Expr)) :
    (s.inCall values).depth = s.depth + 1 :=
  Frame.depth_setVariables _ values

@[simp] theorem settings_inCall (s : Scope) (values : List (String × Expr)) :
    (s.inCall values).settings = s.settings := rfl

/-- A call uses up one of the calls that may still be nested. -/
theorem remainingCalls_inCall (s : Scope) (values : List (String × Expr)) :
    (s.inCall values).remainingCalls = s.remainingCalls - 1 := by
  simp only [remainingCalls, settings_inCall, depth_inCall]
  omega

/-- A function is found under its own name. -/
theorem name_eq_of_function? {s : Scope} {name : String} {g : Function}
    (h : s.function? name = some g) : g.name = name := by
  obtain ⟨f, _, hf⟩ := List.exists_of_findSome?_eq_some h
  exact Frame.name_eq_of_function? hf

end Scope

end TriggerLang
