import TriggerLang.Proofs.Evaluation.Images
/-!
# Scopes that differ in spans

Two scopes are the same up to spans when they differ at most in the spans of the values of variables
and of the bodies of functions (`Scope.SameUpToSpans`).  This is so if they have one erasure
(`Scope.sameUpToSpans_of_erase_eq`), and then expressions that differ in spans have values that
differ in spans (`Scope.SameUpToSpans.upTo_evaluate`).
-/

namespace TriggerLang

/-! ### Erasures of scopes -/

/-- A frame without the spans of its values and bodies. -/
def Frame.erase (f : Frame) : Frame :=
  { f with
    bindings := f.bindings.map (Prod.map id Expr.erase)
    functions := f.functions.map Function.erase }

/-- A scope without the spans of its values and bodies. -/
def Scope.erase (scope : Scope) : Scope :=
  { scope with frame := scope.frame.erase, outer := scope.outer.map Frame.erase }

/-- A function loses its spans in its body. -/
theorem Function.erase_eq_mapBody (f : Function) : f.erase = f.mapBody Expr.erase := by
  cases f <;> rfl

/-- A frame loses its spans in its values and bodies. -/
theorem Frame.erase_eq_mapExprs (f : Frame) : f.erase = f.mapExprs Expr.erase := by
  rw [erase, mapExprs, funext Function.erase_eq_mapBody]

namespace Scope

/-- A scope loses its spans in its values and bodies. -/
theorem erase_eq_mapExprs (scope : Scope) : scope.erase = scope.mapExprs Expr.erase := by
  rw [erase, mapExprs, Frame.erase_eq_mapExprs, funext Frame.erase_eq_mapExprs]

/-! ### Scopes that are the same up to spans -/

/-- Two scopes are the same up to spans when they have the same variables and functions, except for
the spans of values and bodies, under the same settings, at the same depth of calls and within the
same trigger clauses. -/
structure SameUpToSpans (scope scope' : Scope) : Prop where
  settings : scope.settings = scope'.settings
  depth : scope.depth = scope'.depth
  inClause : scope.inClause = scope'.inClause
  lookup? (name : String) :
    (scope.lookup? name).map Expr.erase = (scope'.lookup? name).map Expr.erase
  function? (name : String) :
    (scope.function? name).map Function.erase = (scope'.function? name).map Function.erase

variable {scope scope' : Scope}

/-- Scopes with one erasure are the same up to spans. -/
theorem sameUpToSpans_of_erase_eq (h : scope.erase = scope'.erase) :
    scope.SameUpToSpans scope' := by
  have hsettings : scope.erase.settings = scope'.erase.settings := congrArg Scope.settings h
  have hdepth : scope.erase.depth = scope'.erase.depth := congrArg Scope.depth h
  have hmap : scope.mapExprs Expr.erase = scope'.mapExprs Expr.erase := by
    rw [← erase_eq_mapExprs, h, erase_eq_mapExprs]
  refine ⟨hsettings, hdepth, ?_, fun name => ?_, fun name => ?_⟩
  · rw [← inClause_mapExprs, hmap, inClause_mapExprs]
  · rw [← lookup?_mapExprs, hmap, lookup?_mapExprs]
  · rw [funext Function.erase_eq_mapBody, ← function?_mapExprs, hmap, function?_mapExprs]

namespace SameUpToSpans

/-- Every scope is the same as itself up to spans. -/
theorem refl (scope : Scope) : scope.SameUpToSpans scope :=
  sameUpToSpans_of_erase_eq rfl

/-- Scopes that are the same up to spans agree. -/
theorem agrees (h : scope.SameUpToSpans scope') : scope.Agrees scope' :=
  ⟨congrArg Settings.callDepthLimit h.settings, h.inClause, h.function?, fun _ =>
    Expr.variablesIn_of_forall (fun name => .inr (h.lookup? name)) _⟩

/-- Scopes that are the same up to spans are so in trigger clauses. -/
theorem clause (h : scope.SameUpToSpans scope') : scope.clause.SameUpToSpans scope'.clause := by
  refine ⟨h.settings, h.depth, ?_, fun name => ?_, fun name => ?_⟩
  · rw [inClause_clause, inClause_clause]
  · rw [lookup?_clause, lookup?_clause, h.lookup?]
  · rw [function?_clause, function?_clause, h.function?]

/-- Expressions that differ in spans have the same value up to spans. -/
theorem upTo_evaluate (h : scope.SameUpToSpans scope') {e e' : Expr} (he : e.erase = e'.erase) :
    (Expr.evaluate scope e).upTo Expr.erase = (Expr.evaluate scope' e').upTo Expr.erase := by
  have hcalls : scope.remainingCalls = scope'.remainingCalls := by
    rw [remainingCalls, remainingCalls, h.settings, h.depth]
  have hvariables : e.VariablesIn (scope.AgreesAt scope') :=
    Expr.variablesIn_of_forall h.lookup? e
  rw [Expr.evaluate, Expr.evaluate, hcalls]
  exact Expr.upTo_evaluateWith_congr (h.agrees.callsAgree _) ((Agrees.refl scope').callsAgree _)
    hvariables he

end SameUpToSpans

end Scope

end TriggerLang
