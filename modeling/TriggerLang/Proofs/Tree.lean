import Mathlib.Data.List.Forall2
import Mathlib.Logic.Relation
import TriggerLang.Expr.Basic
/-!
# Properties of whole trees

An expression is a tree, and many facts about it are facts about each of its nodes.  `children` are
the expressions right below a node, and `Everywhere P` says that `P` holds of an expression and of
everything below it.

`Everywhere` is also the induction over trees that later proofs use: its one constructor gives the
property of the node and, for every child, the induction hypothesis.

Where one part of an expression is replaced (`Rewrites`), a relation between the old and the new
part passes to the whole expressions if it is a congruence (`IsCongruence.of_rewrites`).
-/

namespace TriggerLang.Expr

/-- The expressions right below an expression. -/
def children : Expr → List Expr
  | .arith _ _ left right | .compare _ _ left right => [left, right]
  | .join _ _ es | .negate _ es | .call _ _ es => es
  | .returned _ e => [e]
  | .literal _ _ | .var _ _ | .read _ _ | .modified _ _ | .sum _ _ | .always _ _ | .error _ _ => []

/-- Another span on a node leaves what is below it. -/
@[simp] theorem children_moveTo (s : Span) (e : Expr) : (e.moveTo s).children = e.children := by
  cases e <;> rfl

/-- A property of an expression and of everything below it. -/
inductive Everywhere (P : Expr → Prop) : Expr → Prop
  | intro {e : Expr} (hnode : P e) (hchildren : ∀ c ∈ e.children, Everywhere P c) : Everywhere P e

namespace Everywhere

variable {P Q : Expr → Prop} {e : Expr}

/-- What holds everywhere holds of the outermost node. -/
theorem node (h : Everywhere P e) : P e := by
  obtain ⟨h, -⟩ := h
  exact h

/-- What holds everywhere holds everywhere below each child. -/
theorem children (h : Everywhere P e) : ∀ c ∈ e.children, Everywhere P c := by
  obtain ⟨-, h⟩ := h
  exact h

/-- On a leaf there is only the node itself. -/
theorem of_leaf (hleaf : e.children = []) (h : P e) : Everywhere P e := by
  refine ⟨h, fun c hc => ?_⟩
  rw [hleaf] at hc
  cases hc

/-- What follows from a property at every node follows from it everywhere. -/
theorem imp (hPQ : ∀ e, P e → Q e) (h : Everywhere P e) : Everywhere Q e := by
  induction h with
  | intro hnode _ ih => exact ⟨hPQ _ hnode, ih⟩

/-- The span of the outermost node plays no part in a property that ignores the span of a node. -/
theorem moveTo (hP : ∀ (s : Span) {e : Expr}, P e → P (e.moveTo s)) (h : Everywhere P e)
    (s : Span) : Everywhere P (e.moveTo s) := by
  refine ⟨hP s h.node, fun c hc => h.children c ?_⟩
  rwa [children_moveTo] at hc

end Everywhere

mutual

/-- What holds of every expression holds everywhere. -/
theorem everywhere_of_forall {P : Expr → Prop} (h : ∀ e, P e) : (e : Expr) → Everywhere P e
  | .arith _ _ left right | .compare _ _ left right =>
    ⟨h _, List.forall_mem_cons.2 ⟨everywhere_of_forall h left,
      List.forall_mem_singleton.2 (everywhere_of_forall h right)⟩⟩
  | .join _ _ es | .negate _ es | .call _ _ es => ⟨h _, forall_everywhere_of_forall h es⟩
  | .returned _ e => ⟨h _, List.forall_mem_singleton.2 (everywhere_of_forall h e)⟩
  | .literal _ _ | .var _ _ | .read _ _ | .modified _ _ | .sum _ _ | .always _ _ | .error _ _ =>
    .of_leaf rfl (h _)

/-- What holds of every expression holds everywhere in the members of a list. -/
theorem forall_everywhere_of_forall {P : Expr → Prop} (h : ∀ e, P e) :
    (es : List Expr) → ∀ e ∈ es, Everywhere P e
  | [] => List.forall_mem_nil _
  | e :: es => List.forall_mem_cons.2 ⟨everywhere_of_forall h e, forall_everywhere_of_forall h es⟩

end

/-- Induction over expressions in which a property is there for the children of a node and for their
children too, as for a call and the operands of a disjunction that it is given. -/
theorem induction_two_levels {P : Expr → Prop}
    (h : ∀ e : Expr, (∀ c ∈ e.children, P c) → (∀ c ∈ e.children, ∀ c' ∈ c.children, P c') → P e)
    (e : Expr) : P e := by
  have he : e.Everywhere fun _ => True := everywhere_of_forall (fun _ => trivial) e
  have hboth : P e ∧ ∀ c ∈ e.children, P c := by
    induction he with
    | @intro e _ _ ih => exact ⟨h e (fun c hc => (ih c hc).1) fun c hc => (ih c hc).2,
        fun c hc => (ih c hc).1⟩
  exact hboth.1

/-! ### Parts -/

/-- An expression is a part of another one: it is the expression itself, or it stands below it. -/
def IsPartOf (part e : Expr) : Prop :=
  Relation.ReflTransGen (fun e c => c ∈ e.children) e part

/-- A part that is not the expression itself is a part of one of its children. -/
theorem isPartOf_iff {part e : Expr} :
    part.IsPartOf e ↔ part = e ∨ ∃ c ∈ e.children, part.IsPartOf c := by
  rw [IsPartOf, Relation.ReflTransGen.cases_head_iff, eq_comm]
  exact Iff.rfl

/-- An expression is a part of itself. -/
theorem IsPartOf.refl (e : Expr) : e.IsPartOf e :=
  Relation.ReflTransGen.refl

/-- A part of a child is a part. -/
theorem IsPartOf.of_mem_children {part c e : Expr} (hc : c ∈ e.children) (h : part.IsPartOf c) :
    part.IsPartOf e :=
  Relation.ReflTransGen.head hc h

/-- A part of a part is a part. -/
theorem IsPartOf.trans {part middle e : Expr} (h : part.IsPartOf middle)
    (hmiddle : middle.IsPartOf e) : part.IsPartOf e :=
  Relation.ReflTransGen.trans hmiddle h

/-- What holds everywhere holds of every part. -/
theorem Everywhere.of_isPartOf {P : Expr → Prop} {part e : Expr} (h : Everywhere P e)
    (hpart : part.IsPartOf e) : P part := by
  induction h with
  | intro hnode _ ih =>
    obtain rfl | ⟨c, hc, hpart⟩ := isPartOf_iff.1 hpart
    · exact hnode
    · exact ih c hc hpart

/-- A leaf has no other part than itself. -/
theorem isPartOf_leaf_iff {part e : Expr} (hleaf : e.children = []) :
    part.IsPartOf e ↔ part = e := by
  rw [isPartOf_iff, hleaf]
  simp

/-! ### Replaced parts -/

/-- The same node above other children, if their number is right. -/
def withChildren : Expr → List Expr → Expr
  | .arith s op _ _, [left, right] => .arith s op left right
  | .compare s relation _ _, [left, right] => .compare s relation left right
  | .join s c _, es => .join s c es
  | .negate s _, es => .negate s es
  | .call s name _, es => .call s name es
  | .returned s _, [e] => .returned s e
  | e, _ => e

/-- A node above its own children is the node. -/
@[simp] theorem withChildren_children (e : Expr) : e.withChildren e.children = e := by
  cases e <;> rfl

/-- One part of an expression, the whole of it or a part below, is replaced by a related one. -/
inductive Rewrites (R : Expr → Expr → Prop) : Expr → Expr → Prop
  | whole {e e' : Expr} (h : R e e') : Rewrites R e e'
  | part {e c c' : Expr} {before after : List Expr} (hc : e.children = before ++ c :: after)
      (h : Rewrites R c c') : Rewrites R e (e.withChildren (before ++ c' :: after))

/-- The relation holds between a node and the same node above related children. -/
def IsCongruence (S : Expr → Expr → Prop) : Prop :=
  ∀ {e : Expr} {cs : List Expr}, List.Forall₂ S e.children cs → S e (e.withChildren cs)

namespace IsCongruence

variable {R S : Expr → Expr → Prop}

/-- A congruence relates every expression to itself. -/
theorem refl (hS : IsCongruence S) (e : Expr) : S e e := by
  have he : e.Everywhere fun _ => True := everywhere_of_forall (fun _ => trivial) e
  induction he with
  | @intro e _ _ ih =>
    have hsame : S e (e.withChildren e.children) := hS (List.forall₂_same.2 ih)
    rwa [withChildren_children] at hsame

/-- What is replaced by a related part makes a related whole. -/
theorem of_rewrites (hS : IsCongruence S) (hRS : ∀ e e', R e e' → S e e') {e e' : Expr}
    (h : Rewrites R e e') : S e e' := by
  induction h with
  | whole h => exact hRS _ _ h
  | part hc _ ih =>
    refine hS ?_
    rw [hc]
    exact List.rel_append (List.forall₂_same.2 fun e _ => hS.refl e)
      (.cons ih (List.forall₂_same.2 fun e _ => hS.refl e))

end IsCongruence

/-! ### Testing every node -/

mutual

/-- Whether every node of an expression passes a test. -/
def allNodes (p : Expr → Bool) : Expr → Bool
  | .arith s op left right => p (.arith s op left right) && (allNodes p left && allNodes p right)
  | .compare s relation left right =>
      p (.compare s relation left right) && (allNodes p left && allNodes p right)
  | .join s c es => p (.join s c es) && allNodesAll p es
  | .negate s es => p (.negate s es) && allNodesAll p es
  | .call s name es => p (.call s name es) && allNodesAll p es
  | .returned s e => p (.returned s e) && allNodes p e
  | .literal s v => p (.literal s v)
  | .var s name => p (.var s name)
  | .read s m => p (.read s m)
  | .modified s m => p (.modified s m)
  | .sum s v => p (.sum s v)
  | .always s b => p (.always s b)
  | .error s text => p (.error s text)

/-- Whether every node of a list of expressions passes a test. -/
def allNodesAll (p : Expr → Bool) : List Expr → Bool
  | [] => true
  | e :: es => allNodes p e && allNodesAll p es

end

mutual

/-- A test that every node passes holds everywhere. -/
theorem everywhere_of_allNodes {p : Expr → Bool} :
    (e : Expr) → allNodes p e = true → e.Everywhere fun e => p e = true
  | .arith _ _ left right, h | .compare _ _ left right, h => by
    rw [allNodes, Bool.and_eq_true, Bool.and_eq_true] at h
    exact ⟨h.1, List.forall_mem_cons.2 ⟨everywhere_of_allNodes left h.2.1,
      List.forall_mem_singleton.2 (everywhere_of_allNodes right h.2.2)⟩⟩
  | .join _ _ es, h | .negate _ es, h | .call _ _ es, h => by
    rw [allNodes, Bool.and_eq_true] at h
    exact ⟨h.1, everywhere_of_allNodesAll es h.2⟩
  | .returned _ e, h => by
    rw [allNodes, Bool.and_eq_true] at h
    exact ⟨h.1, List.forall_mem_singleton.2 (everywhere_of_allNodes e h.2)⟩
  | .literal _ _, h | .var _ _, h | .read _ _, h | .modified _ _, h | .sum _ _, h
  | .always _ _, h | .error _ _, h => .of_leaf rfl h

/-- A test that every node of a list passes holds everywhere in its members. -/
theorem everywhere_of_allNodesAll {p : Expr → Bool} :
    (es : List Expr) → allNodesAll p es = true →
      ∀ e ∈ es, e.Everywhere fun e => p e = true
  | [], _ => List.forall_mem_nil _
  | e :: es, h => by
    rw [allNodesAll, Bool.and_eq_true] at h
    exact List.forall_mem_cons.2
      ⟨everywhere_of_allNodes e h.1, everywhere_of_allNodesAll es h.2⟩

end

/-! ### Connectives with operands -/

/-- No connective of the expression is without operands. -/
def HasOperands (e : Expr) : Prop :=
  e.Everywhere fun e => ∀ s c, e ≠ .join s c []

/-- Whether an expression is a connective without operands. -/
def isEmptyJoin : Expr → Bool
  | .join _ _ es => es.isEmpty
  | _ => false

/-- To find operands under every connective it is enough to test the nodes. -/
theorem hasOperands_of_allNodes {e : Expr} (h : e.allNodes (!·.isEmptyJoin) = true) :
    e.HasOperands := by
  refine (everywhere_of_allNodes e h).imp fun e hnode s c he => ?_
  rw [he] at hnode
  cases hnode

end TriggerLang.Expr
