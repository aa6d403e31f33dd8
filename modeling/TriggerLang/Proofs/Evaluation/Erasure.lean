import TriggerLang.Evaluation
import TriggerLang.Expr.Equality
/-!
# Evaluation and spans

The rules of evaluation read no spans: which rule applies to evaluated operands, and what it makes
of them, depends on their erasures alone.  A law of this module moves the erasure through one
function of a rule.

An erasure is not equal to its expression, and so these laws are stated up to erasure where a rule
gives back an operand.  A rule that may fail is compared with `Outcome.upTo`, which keeps of a
failure its cause and forgets its place.
-/

namespace TriggerLang

namespace Outcome

variable {α α' β β' γ δ : Type}

/-- The outcome up to a function of its result: of a failure, only the cause counts. -/
def upTo (f : α → γ) : Outcome α → Except Cause γ
  | .ok a => .ok (f a)
  | .error d => .error d.cause

@[simp] theorem upTo_ok (f : α → γ) (a : α) : upTo f (.ok a) = .ok (f a) := rfl

@[simp] theorem upTo_pure (f : α → γ) (a : α) : upTo f (pure a) = .ok (f a) := rfl

@[simp] theorem upTo_fail (f : α → γ) (cause : Cause) :
    upTo f (fail cause) = .error cause := rfl

/-- A span that is offered plays no part in what counts of an outcome. -/
@[simp] theorem upTo_within (f : α → γ) (s : Span) (x : Outcome α) :
    upTo f (within s x) = upTo f x := by
  cases x with
  | ok a => rfl
  | error d => exact congrArg Except.error (d.cause_within s)

/-- Up to a function of its result, an outcome succeeds with the image of a result. -/
theorem upTo_eq_ok_iff {f : α → γ} {x : Outcome α} {c : γ} :
    upTo f x = .ok c ↔ ∃ a, x = .ok a ∧ f a = c := by
  cases x with
  | ok a => simp
  | error d => exact ⟨nofun, nofun⟩

/-- Computations that agree one after the other agree as a whole. -/
theorem upTo_bind_congr_of_eq_ok {f : α → γ} {f' : α' → γ} {g : β → δ} {g' : β' → δ}
    {x : Outcome α} {x' : Outcome α'} {k : α → Outcome β} {k' : α' → Outcome β'}
    (hx : upTo f x = upTo f' x')
    (hk : ∀ a a', x = .ok a → x' = .ok a' → f a = f' a' → upTo g (k a) = upTo g' (k' a')) :
    upTo g (x >>= k) = upTo g' (x' >>= k') := by
  cases x with
  | error d =>
    cases x' with
    | error d' => exact congrArg Except.error (Except.error.inj hx)
    | ok a' => cases hx
  | ok a =>
    cases x' with
    | error d' => cases hx
    | ok a' => exact hk a a' rfl rfl (Except.ok.inj hx)

/-- Sequences agree when their first parts do and when their second parts agree on results with one
image. -/
theorem upTo_bind_congr {f : α → γ} {f' : α' → γ} {g : β → δ} {g' : β' → δ} {x : Outcome α}
    {x' : Outcome α'} {k : α → Outcome β} {k' : α' → Outcome β'} (hx : upTo f x = upTo f' x')
    (hk : ∀ a a', f a = f' a' → upTo g (k a) = upTo g' (k' a')) :
    upTo g (x >>= k) = upTo g' (x' >>= k') :=
  upTo_bind_congr_of_eq_ok hx fun a a' _ _ h => hk a a' h

end Outcome

/-- A simpler form without its spans. -/
def Verdict.erase : Verdict → Verdict
  | .decided truth => .decided truth
  | .comparison left relation right => .comparison left.erase relation right.erase

/-- An offset moves in the same way wherever the integer stands. -/
theorem ReadSum.takeOffset_erase (v : ReadSum) (relation : Relation) (place place' : Span)
    (n : IntLiteral) :
    (v.takeOffset relation place n).map Verdict.erase =
      (v.takeOffset relation place' n).map Verdict.erase := by
  dsimp only [takeOffset]
  split
  · rfl
  · split
    · rfl
    · split <;> rfl

namespace Expr

/-! ### Erasures -/

mutual

/-- An expression without spans has none to lose. -/
@[simp] theorem erase_erase : (e : Expr) → e.erase.erase = e.erase
  | .literal _ _ | .var _ _ | .read _ _ | .modified _ _ | .sum _ _ | .always _ _ | .error _ _ => rfl
  | .arith _ op left right => by
    rw [erase, erase, erase_erase left, erase_erase right]
  | .compare _ relation left right => by
    rw [erase, erase, erase_erase left, erase_erase right]
  | .join _ c es => by
    rw [erase, erase, eraseAll_eraseAll es]
  | .negate _ es => by
    rw [erase, erase, eraseAll_eraseAll es]
  | .call _ name es => by
    rw [erase, erase, eraseAll_eraseAll es]
  | .returned _ e => by
    rw [erase, erase, erase_erase e]

/-- A list of expressions without spans has none to lose. -/
theorem eraseAll_eraseAll : (es : List Expr) → eraseAll (eraseAll es) = eraseAll es
  | [] => rfl
  | e :: es => by
    rw [eraseAll, eraseAll, erase_erase e, eraseAll_eraseAll es]

end

/-- A span that takes the place of an unknown one plays no part once spans are erased. -/
@[simp] theorem erase_moveIfUnknown (s : Span) (e : Expr) :
    (e.moveIfUnknown s).erase = e.erase := by
  unfold moveIfUnknown
  split
  · exact erase_moveTo s e
  · rfl

/-- What a call makes of a returned value does not depend on spans. -/
theorem erase_unwrapReturned (e : Expr) : e.erase.unwrapReturned = e.unwrapReturned.erase := by
  cases e <;> rfl

/-! ### Texts -/

/-- Whether an operand is written in parentheses does not depend on spans. -/
theorem enclose_erase (e : Expr) (text : String) : e.erase.enclose text = e.enclose text := by
  cases e <;> rfl

mutual

/-- Diagnostics name an expression without its spans. -/
@[simp] theorem text_erase : (e : Expr) → e.erase.text = e.text
  | .literal _ _ | .var _ _ | .read _ _ | .modified _ _ | .sum _ _ | .always _ _ | .error _ _ => rfl
  | .arith _ _ left right | .compare _ _ left right => by
    rw [erase, text, text, text_erase left, text_erase right, enclose_erase, enclose_erase]
  | .join _ c es => by
    rw [erase, text, text, operandTexts_eraseAll es]
  | .negate _ es => by
    rw [erase, text, text, operandTexts_eraseAll es]
  | .call _ name es => by
    rw [erase, text, text, texts_eraseAll es]
  | .returned _ e => by
    rw [erase, text, text, text_erase e]

/-- The texts of a list of expressions do not depend on spans. -/
theorem texts_eraseAll : (es : List Expr) → texts (eraseAll es) = texts es
  | [] => rfl
  | e :: es => by
    rw [eraseAll, texts, texts, text_erase e, texts_eraseAll es]

/-- The texts of operands, with their parentheses, do not depend on spans. -/
theorem operandTexts_eraseAll : (es : List Expr) → operandTexts (eraseAll es) = operandTexts es
  | [] => rfl
  | e :: es => by
    rw [eraseAll, operandTexts, operandTexts, enclose_erase, text_erase e,
      operandTexts_eraseAll es]

end

/-- A failure that names an expression is the same without spans. -/
theorem error_text_erase {α : Type} (cause : String → Cause) (e : Expr) :
    (.error (cause e.erase.text) : Except Cause α) = .error (cause e.text) := by
  rw [text_erase]

/-! ### Kinds of nodes -/

@[simp] theorem isMemory_erase (e : Expr) : e.erase.isMemory = e.isMemory := by
  cases e <;> rfl

@[simp] theorem isBool_erase (b : Bool) (e : Expr) : e.erase.isBool b = e.isBool b := by
  cases e with
  | literal s v => cases v <;> rfl
  | _ => rfl

/-- Which sum an expression is taken for does not depend on spans. -/
@[simp] theorem ofExpr?_erase (e : Expr) : ReadSum.ofExpr? e.erase = ReadSum.ofExpr? e := by
  cases e with
  | literal s v => cases v <;> rfl
  | _ => rfl

/-! ### Arithmetic -/

/-- What literals fold to does not depend on spans. -/
@[simp] theorem onLiterals?_erase (op : Arith) (left right : Expr) :
    onLiterals? op left.erase right.erase = onLiterals? op left right := by
  cases left with
  | literal s v => cases right <;> rfl
  | _ => rfl

/-- What becomes of a read under an operation does not depend on spans. -/
theorem upTo_modifyBy_erase (op : Arith) (left : Expr) (m : MemoryRead) (right : Expr) :
    (modifyBy left.erase m op right.erase).upTo (·.map erase) =
      (modifyBy left m op right).upTo (·.map erase) := by
  cases right with
  | literal s v =>
    cases v with
    | int n =>
      rw [erase, modifyBy, modifyBy]
      split
      · rw [Outcome.upTo_within, Outcome.upTo_within]
      · split
        · exact congrArg (Except.ok ∘ some) (erase_erase left)
        · rfl
    | _ => rfl
  | _ => rfl

/-- The form of an operation other than sums and differences does not depend on spans. -/
theorem upTo_modified?_erase (op : Arith) (left right : Expr) :
    (modified? op left.erase right.erase).upTo (·.map erase) =
      (modified? op left right).upTo (·.map erase) := by
  cases left with
  | read s m => exact upTo_modifyBy_erase op (.read s m) m right
  | literal s v =>
    cases v with
    | int n =>
      cases right with
      | read s' m =>
        rw [erase, erase, modified?, modified?]
        split
        · exact upTo_modifyBy_erase op (.read s' m) m (.literal s (.int n))
        · rfl
      | _ => rfl
    | _ => cases right <;> rfl
  | _ => rfl

/-- What operands that read memory become under an operation does not depend on spans. -/
theorem upTo_onMemory?_erase (op : Arith) (left right : Expr) :
    (onMemory? op left.erase right.erase).upTo (·.map erase) =
      (onMemory? op left right).upTo (·.map erase) := by
  unfold onMemory?
  rw [isMemory_erase, isMemory_erase]
  split
  · rfl
  · split
    · rw [ofExpr?_erase, ofExpr?_erase]
    · rw [ofExpr?_erase, ofExpr?_erase]
    · exact upTo_modified?_erase _ left right

/-- Whether operands that read memory have a form under an operation does not depend on spans. -/
theorem onMemory?_erase_eq_none_iff (op : Arith) (left right : Expr) :
    onMemory? op left.erase right.erase = .ok none ↔ onMemory? op left right = .ok none := by
  have hnone (x : Outcome (Option Expr)) :
      x = .ok none ↔ x.upTo (·.map erase) = .ok none := by
    rw [Outcome.upTo_eq_ok_iff]
    simp
  rw [hnone, hnone, upTo_onMemory?_erase]

/-- An operation that folds no literals takes its form on memory, if there is one. -/
theorem combine_of_onLiterals?_eq_none {s : Span} {op : Arith} {left right : Expr}
    (h : onLiterals? op left right = none) :
    combine s op left right =
      onMemory? op left right >>= fun e? => .ok (e?.elim (.arith s op left right) (moveTo s)) := by
  rw [combine, h]
  rcases onMemory? op left right with d | _ | e <;> rfl

/-- An operation on evaluated operands does not depend on spans. -/
theorem upTo_combine_erase (s s' : Span) (op : Arith) (left right : Expr) :
    (combine s op left.erase right.erase).upTo erase = (combine s' op left right).upTo erase := by
  cases hliterals : onLiterals? op left right with
  | some folded =>
    rw [combine, combine, onLiterals?_erase, hliterals]
    cases folded with
    | ok v => rfl
    | error cause => rw [Outcome.upTo_within, Outcome.upTo_within]
  | none =>
    rw [combine_of_onLiterals?_eq_none hliterals,
      combine_of_onLiterals?_eq_none ((onLiterals?_erase op left right).trans hliterals)]
    refine Outcome.upTo_bind_congr (upTo_onMemory?_erase op left right) fun e? e?' he => ?_
    cases e? with
    | none =>
      obtain rfl := Option.map_eq_none_iff.1 he.symm
      simp [erase]
    | some e =>
      obtain ⟨e', rfl, he'⟩ := Option.map_eq_some_iff.1 he.symm
      simp [he']

/-- Operands with the same erasures give an operation the same result up to spans. -/
theorem upTo_combine_congr {left left' right right' : Expr} (hleft : left.erase = left'.erase)
    (hright : right.erase = right'.erase) (s s' : Span) (op : Arith) :
    (combine s op left right).upTo erase = (combine s' op left' right').upTo erase := by
  rw [← upTo_combine_erase s s, hleft, hright, upTo_combine_erase s s']

/-! ### Comparisons -/

/-- The simpler form of a comparison does not depend on spans. -/
theorem simplerComparison?_erase (relation : Relation) (left right : Expr) :
    (simplerComparison? true left.erase relation right.erase).map Verdict.erase =
      (simplerComparison? true left relation right).map Verdict.erase := by
  cases left with
  | literal s v =>
    cases right with
    | literal place w => rfl
    | _ =>
      refine congrArg (fun right => some (Verdict.comparison right relation.converse _)) ?_
      exact erase_erase _
  | sum s v =>
    cases right with
    | literal place w =>
      cases w with
      | int n => exact v.takeOffset_erase relation .unknown place n
      | _ => rfl
    | _ => rfl
  | _ => rfl

/-- Whether a comparison is settled does not depend on spans. -/
theorem simplerComparison?_erase_eq_none_iff (relation : Relation) (left right : Expr) :
    simplerComparison? true left.erase relation right.erase = none ↔
      simplerComparison? true left relation right = none := by
  rw [← Option.map_eq_none_iff (f := Verdict.erase), simplerComparison?_erase,
    Option.map_eq_none_iff]

/-- Operands that differ in spans settle in the same way. -/
theorem erase_settle {left left' right right' : Expr} (hleft : left.erase = left'.erase)
    (hright : right.erase = right'.erase) (s s' : Span) (steps : Nat) (relation : Relation) :
    (settle s steps left relation right).erase = (settle s' steps left' relation right').erase := by
  induction steps generalizing left left' relation right right' with
  | zero => rw [settle, settle, erase, erase, hleft, hright]
  | succ steps ih =>
    have hstep : (simplerComparison? true left relation right).map Verdict.erase =
        (simplerComparison? true left' relation right').map Verdict.erase := by
      rw [← simplerComparison?_erase, hleft, hright, simplerComparison?_erase]
    rw [settle, settle]
    cases h : simplerComparison? true left relation right with
    | none =>
      rw [h, Option.map_none, eq_comm, Option.map_eq_none_iff] at hstep
      rw [hstep]
      dsimp only
      rw [erase, erase, hleft, hright]
    | some verdict =>
      rw [h, eq_comm] at hstep
      obtain ⟨verdict', h', herase⟩ := Option.map_eq_some_iff.1 hstep
      rw [h']
      cases verdict with
      | decided b =>
        cases verdict' with
        | decided b' =>
          cases herase
          rfl
        | comparison l' r' e' => cases herase
      | comparison l r e =>
        cases verdict' with
        | decided b' => cases herase
        | comparison l' r' e' =>
          rw [Verdict.erase, Verdict.erase, Verdict.comparison.injEq] at herase
          obtain ⟨hl, rfl, he⟩ := herase
          exact ih hl.symm he.symm r'

/-- The normal form of a comparison does not depend on spans. -/
theorem erase_normalize {left left' right right' : Expr} (hleft : left.erase = left'.erase)
    (hright : right.erase = right'.erase) (s s' : Span) (relation : Relation) :
    (normalize s relation left right).erase = (normalize s' relation left' right').erase :=
  erase_settle hleft hright s s' settlingSteps relation

/-! ### Connectives -/

/-- What an operand contributes to a connective does not depend on spans. -/
theorem operandsUnder_erase (c : Connective) (e : Expr) :
    operandsUnder c e.erase = (operandsUnder c e).map erase := by
  cases e with
  | literal s v => cases v <;> rfl
  | join s c' es =>
    rw [erase, operandsUnder, operandsUnder]
    split
    · exact eraseAll_eq_map es
    · rfl
  | _ => rfl

/-- What a list of operands contributes to a connective does not depend on spans. -/
theorem flatMap_operandsUnder_erase (c : Connective) (es : List Expr) :
    (es.map erase).flatMap (operandsUnder c) = (es.flatMap (operandsUnder c)).map erase := by
  rw [List.flatMap_map, List.map_flatMap]
  exact congrArg (es.flatMap ·) (funext (operandsUnder_erase c))

/-- Flattening a connective commutes with the erasure. -/
theorem erase_joinAll (c : Connective) (es : List Expr) :
    (joinAll c es).erase = (joinAll c (es.map erase)).erase := by
  have hany : (es.map erase).any (·.isBool c.absorbing) = es.any (·.isBool c.absorbing) := by
    rw [List.any_map]
    exact congrArg (es.any ·) (funext (isBool_erase c.absorbing))
  rw [joinAll, joinAll, hany, flatMap_operandsUnder_erase]
  split
  · rfl
  · rcases es.flatMap (operandsUnder c) with _ | ⟨e, _ | ⟨e', es'⟩⟩
    · rfl
    · exact (erase_erase e).symm
    · show Expr.join .unknown c (eraseAll (e :: e' :: es')) =
        Expr.join .unknown c (eraseAll ((e :: e' :: es').map erase))
      rw [← eraseAll_eq_map, eraseAll_eraseAll]

/-- Operands with the same erasures are flattened to the same connective up to spans. -/
theorem erase_joinAll_congr (c : Connective) {es es' : List Expr}
    (h : es.map erase = es'.map erase) : (joinAll c es).erase = (joinAll c es').erase := by
  rw [erase_joinAll, h, ← erase_joinAll]

mutual

/-- The negation of an expression does not depend on spans. -/
theorem upTo_negated_erase : (e : Expr) → (negated e.erase).upTo erase = (negated e).upTo erase
  | .literal _ (.int _) | .literal _ (.real _) | .literal _ (.text _) | .literal _ (.bool _)
  | .always _ _ | .var _ _ | .read _ _ | .modified _ _ | .sum _ _ | .error _ _ => rfl
  | .arith s op left right => error_text_erase .cannotNegate (.arith s op left right)
  | .call s name es => error_text_erase .cannotNegate (.call s name es)
  | .returned s e => error_text_erase .cannotNegate (.returned s e)
  | .negate s [] => error_text_erase .cannotNegate (.negate s [])
  | .negate s (e :: e' :: es) => error_text_erase .cannotNegate (.negate s (e :: e' :: es))
  | .compare _ _ left right => by
    rw [erase, negated, negated, Outcome.upTo_ok, Outcome.upTo_ok, erase, erase, erase_erase,
      erase_erase]
  | .negate _ [e] => by
    show Outcome.upTo erase (.ok (e.erase.moveTo .unknown)) = Outcome.upTo erase (.ok (e.moveTo _))
    rw [Outcome.upTo_ok, Outcome.upTo_ok, erase_moveTo, erase_moveTo, erase_erase]
  | .join s c es => by
    rw [erase, negated, negated]
    refine Outcome.upTo_bind_congr (upTo_negatedAll_eraseAll es) fun vs vs' h => ?_
    rw [Outcome.upTo_pure, Outcome.upTo_pure, erase_moveTo, erase_moveTo, erase_joinAll_congr _ h]

/-- The negations of a list of expressions do not depend on spans. -/
theorem upTo_negatedAll_eraseAll : (es : List Expr) →
    (negatedAll (eraseAll es)).upTo (List.map erase) = (negatedAll es).upTo (List.map erase)
  | [] => rfl
  | e :: es => by
    rw [eraseAll, negatedAll, negatedAll]
    refine Outcome.upTo_bind_congr (upTo_negated_erase e) fun v v' hv => ?_
    refine Outcome.upTo_bind_congr (upTo_negatedAll_eraseAll es) fun vs vs' hvs => ?_
    rw [Outcome.upTo_pure, Outcome.upTo_pure, List.map_cons, List.map_cons, hv, hvs]

end

/-- Expressions with one erasure have one negation up to spans. -/
theorem upTo_negated_congr {e e' : Expr} (h : e.erase = e'.erase) :
    (negated e).upTo erase = (negated e').upTo erase := by
  rw [← upTo_negated_erase, h, upTo_negated_erase]

/-! ### Addresses and counts -/

/-- Which read is at an address does not depend on the spans of the address. -/
theorem upTo_atAddress_erase (size : ReadSize) (address : Expr) :
    (MemoryRead.atAddress size address.erase).upTo id =
      (MemoryRead.atAddress size address).upTo id := by
  have hfail : (.error (.notAnAddress address.erase.text) : Except Cause MemoryRead) = _ :=
    error_text_erase .notAnAddress address
  unfold MemoryRead.atAddress
  rw [Outcome.upTo_within, Outcome.upTo_within]
  cases address with
  | literal s v => cases v <;> rfl
  | read s m => rfl
  | modified s m => rfl
  | sum s v => rfl
  | _ => exact hfail

/-- Which number of hits an expression stands for does not depend on its spans. -/
theorem upTo_repeatCount_erase (value : Expr) :
    (repeatCount value.erase).upTo id = (repeatCount value).upTo id := by
  have hint : value.erase.int? = value.int? := by
    cases value with
    | literal s v => cases v <;> rfl
    | _ => rfl
  rw [repeatCount, repeatCount, hint, text_erase, Outcome.upTo_within, Outcome.upTo_within]

/-- Addresses with one erasure give one read. -/
theorem upTo_atAddress_congr {address address' : Expr} (h : address.erase = address'.erase)
    (size : ReadSize) :
    (MemoryRead.atAddress size address).upTo id = (MemoryRead.atAddress size address').upTo id := by
  rw [← upTo_atAddress_erase, h, upTo_atAddress_erase]

/-- Expressions with one erasure stand for one number of hits. -/
theorem upTo_repeatCount_congr {value value' : Expr} (h : value.erase = value'.erase) :
    (repeatCount value).upTo id = (repeatCount value').upTo id := by
  rw [← upTo_repeatCount_erase, h, upTo_repeatCount_erase]

end Expr

end TriggerLang
