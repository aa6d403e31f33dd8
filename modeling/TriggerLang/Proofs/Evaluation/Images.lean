import TriggerLang.Proofs.Evaluation.Agreement
/-!
# Scopes with changed expressions

A function of expressions maps a scope to another one: the values of variables and the bodies of
script functions change, and names, settings and frames stay (`Scope.mapExprs`).  `Scope.MapsTo` is
what a statement about evaluation needs to know about two such scopes; it passes to trigger clauses
and to the bodies of calls.
-/

namespace TriggerLang

variable {f : Expr → Expr}

/-- A function with a changed body. -/
def Function.mapBody (f : Expr → Expr) : Function → Function
  | .builtin b => .builtin b
  | .script name parameters body => .script name parameters (f body)

/-- A frame with changed values and bodies. -/
def Frame.mapExprs (f : Expr → Expr) (frame : Frame) : Frame :=
  { frame with
    bindings := frame.bindings.map (Prod.map id f)
    functions := frame.functions.map (Function.mapBody f) }

/-- A scope with changed values and bodies. -/
def Scope.mapExprs (f : Expr → Expr) (scope : Scope) : Scope :=
  { scope with frame := scope.frame.mapExprs f, outer := scope.outer.map (Frame.mapExprs f) }

@[simp] theorem Function.name_mapBody (g : Function) : (g.mapBody f).name = g.name := by
  cases g <;> rfl

namespace Frame

/-- A variable of a changed frame has the image of its value. -/
theorem lookup?_mapExprs (frame : Frame) (name : String) :
    (frame.mapExprs f).lookup? name = (frame.lookup? name).map f :=
  lookup_map_snd f frame.bindings name

/-- A function of a changed frame has the image of its body. -/
theorem function?_mapExprs (frame : Frame) (name : String) :
    (frame.mapExprs f).function? name = (frame.function? name).map (Function.mapBody f) := by
  have hname : ((fun g : Function => g.name == name) ∘ Function.mapBody f) =
      fun g : Function => g.name == name :=
    funext fun g => congrArg (· == name) g.name_mapBody
  rw [function?, function?, mapExprs, List.find?_map, hname]

end Frame

namespace Scope

/-- A changed scope has the changed frames, in the same order. -/
theorem frames_mapExprs (scope : Scope) :
    (scope.mapExprs f).frames = scope.frames.map (Frame.mapExprs f) := rfl

/-- A variable of a changed scope has the image of its value. -/
theorem lookup?_mapExprs (scope : Scope) (name : String) :
    (scope.mapExprs f).lookup? name = (scope.lookup? name).map f := by
  rw [lookup?, lookup?, frames_mapExprs, List.findSome?_map, List.map_findSome?]
  exact congrArg (scope.frames.findSome? ·) (funext fun frame => frame.lookup?_mapExprs name)

/-- A function of a changed scope has the image of its body. -/
theorem function?_mapExprs (scope : Scope) (name : String) :
    (scope.mapExprs f).function? name = (scope.function? name).map (Function.mapBody f) := by
  rw [function?, function?, frames_mapExprs, List.findSome?_map, List.map_findSome?]
  exact congrArg (scope.frames.findSome? ·) (funext fun frame => frame.function?_mapExprs name)

/-- A changed scope is within the trigger clauses of the scope. -/
theorem inClause_mapExprs (scope : Scope) : (scope.mapExprs f).inClause = scope.inClause := by
  rw [inClause, inClause, frames_mapExprs, List.any_map]
  rfl

/-- A scope differs from another one in values and bodies only, and there it has the images. -/
structure MapsTo (f : Expr → Expr) (scope scope' : Scope) : Prop where
  settings : scope'.settings = scope.settings
  depth : scope'.depth = scope.depth
  inClause : scope'.inClause = scope.inClause
  lookup? (name : String) : scope'.lookup? name = (scope.lookup? name).map f
  function? (name : String) :
    scope'.function? name = (scope.function? name).map (Function.mapBody f)

/-- A changed scope has the images of all values and bodies. -/
theorem mapsTo_mapExprs (f : Expr → Expr) (scope : Scope) : scope.MapsTo f (scope.mapExprs f) :=
  ⟨rfl, rfl, scope.inClause_mapExprs, scope.lookup?_mapExprs, scope.function?_mapExprs⟩

namespace MapsTo

variable {scope scope' : Scope}

/-- As many calls may be nested in the image of a scope as in the scope. -/
theorem remainingCalls (h : scope.MapsTo f scope') :
    scope'.remainingCalls = scope.remainingCalls := by
  rw [Scope.remainingCalls, Scope.remainingCalls, h.settings, h.depth]

/-- The trigger clauses of a scope and of its image have values and their images. -/
theorem clause (h : scope.MapsTo f scope') : scope.clause.MapsTo f scope'.clause := by
  refine ⟨h.settings, h.depth, ?_, fun name => ?_, fun name => ?_⟩
  · rw [inClause_clause, inClause_clause]
  · rw [lookup?_clause, lookup?_clause, h.lookup?]
  · rw [function?_clause, function?_clause, h.function?]

/-- The bodies of a call and of its image see values and their images. -/
theorem inCall (h : scope.MapsTo f scope') (values : List (String × Expr)) :
    (scope.inCall values).MapsTo f (scope'.inCall (values.map (Prod.map id f))) := by
  refine ⟨h.settings, ?_, ?_, fun name => ?_, fun name => ?_⟩
  · rw [depth_inCall, depth_inCall, h.depth]
  · rw [inClause_inCall, inClause_inCall, h.inClause]
  · rw [lookup?_inCall_eq, lookup?_inCall_eq, ← List.map_reverse, lookup_map_snd, h.lookup?,
      Option.map_or]
  · rw [function?_inCall, function?_inCall, h.function?]

end MapsTo

end Scope

end TriggerLang
