import Mathlib.Data.List.Forall2
import TriggerLang.Lowering.Condition
/-!
# Successful computations

Evaluation and lowering are written with outcomes and with computations over a state.  This module
takes a success apart: a sequence succeeds exactly when its parts do, one after another, and a span
that is offered to a failure changes no success.  The failures of computations over a state are
taken apart in the same way.
-/

namespace TriggerLang

namespace Outcome

variable {α β : Type}

/-- A sequence succeeds when its first part does and then, on its result, the second one. -/
theorem bind_eq_ok_iff {x : Outcome α} {f : α → Outcome β} {b : β} :
    (x >>= f) = .ok b ↔ ∃ a, x = .ok a ∧ f a = .ok b := by
  cases x with
  | error d =>
    constructor
    · intro h
      cases h
    · rintro ⟨a, h, -⟩
      cases h
  | ok a =>
    constructor
    · intro h
      exact ⟨a, rfl, h⟩
    · rintro ⟨a', h, hf⟩
      cases h
      exact hf

/-- An image is the result exactly when it is the image of the result. -/
theorem map_eq_ok_iff {f : α → β} {x : Outcome α} {b : β} :
    x.map f = .ok b ↔ ∃ a, x = .ok a ∧ b = f a := by
  cases x with
  | error d =>
    constructor
    · intro h
      cases h
    · rintro ⟨a, h, -⟩
      cases h
  | ok a =>
    constructor
    · intro h
      cases h
      exact ⟨a, rfl, rfl⟩
    · rintro ⟨a', h, rfl⟩
      cases h
      rfl

/-- What is given as the result is the result. -/
theorem pure_eq_ok_iff {a b : α} : (pure a : Outcome α) = .ok b ↔ b = a := by
  constructor
  · intro h
    cases h
    rfl
  · rintro rfl
    rfl

@[simp] theorem fail_ne_ok {cause : Cause} {a : α} : (fail cause : Outcome α) ≠ .ok a := by
  intro h
  cases h

/-- Two outcomes are a result and its image under a function, or both are failures. -/
inductive MapsTo (f : α → β) : Outcome α → Outcome β → Prop
  | ok (a : α) : MapsTo f (.ok a) (.ok (f a))
  | error (d d' : Diagnostic) : MapsTo f (.error d) (.error d')

namespace MapsTo

variable {γ δ : Type} {f : α → β} {g : γ → δ} {x : Outcome α} {y : Outcome β}

/-- Every outcome is its own image when nothing changes results. -/
theorem refl (x : Outcome α) : MapsTo id x x := by
  cases x with
  | ok a => exact .ok a
  | error d => exact .error d d

/-- An outcome and its image have the same results if nothing changes them. -/
theorem id_iff {x y : Outcome α} : MapsTo id x y ↔ ∀ a, x = .ok a ↔ y = .ok a := by
  constructor
  · rintro h a
    cases h <;> simp
  · intro h
    cases x with
    | ok a =>
      rw [(h a).1 rfl]
      exact .ok a
    | error d =>
      cases y with
      | ok b => cases (h b).2 rfl
      | error d' => exact .error d d'

/-- Spans that are offered on the two sides change no result. -/
theorem within (h : MapsTo f x y) (s s' : Span) : MapsTo f (x.within s) (y.within s') := by
  cases h with
  | ok a => exact .ok a
  | error d d' => exact .error _ _

/-- A sequence has the image of a result if its first part has one and if the second one respects
it. -/
theorem bind {k : α → Outcome γ} {k' : β → Outcome δ} (h : MapsTo f x y)
    (hk : ∀ a, x = .ok a → MapsTo g (k a) (k' (f a))) : MapsTo g (x >>= k) (y >>= k') := by
  cases h with
  | ok a => exact hk a rfl
  | error d d' => exact .error d d'

end MapsTo

end Outcome

/-- What needs a trigger clause is allowed exactly in one. -/
theorem Scope.requireClause_eq_ok_iff {scope : Scope} {name : String} :
    scope.requireClause name = .ok () ↔ scope.inClause = true := by
  unfold requireClause
  split <;> simp_all

/-- What holds of every result of an element holds of all results of a list. -/
theorem forall_of_forall₂ {α β : Type} {R : α → β → Prop} {P : β → Prop} {as : List α}
    {bs : List β} (h : List.Forall₂ R as bs) (hP : ∀ a ∈ as, ∀ b, R a b → P b) : ∀ b ∈ bs, P b := by
  induction h with
  | nil => exact List.forall_mem_nil _
  | cons hhead htail ih =>
    exact List.forall_mem_cons.2 ⟨hP _ List.mem_cons_self _ hhead,
      ih fun a ha => hP a (List.mem_cons_of_mem _ ha)⟩

/-- A relation between the elements of lists may be weakened where the first list has them. -/
theorem forall₂_imp_of_mem {α β : Type} {R S : α → β → Prop} {as : List α} {bs : List β}
    (h : List.Forall₂ R as bs) (hRS : ∀ a ∈ as, ∀ b, R a b → S a b) : List.Forall₂ S as bs := by
  induction h with
  | nil => exact .nil
  | cons hhead _ ih =>
    exact .cons (hRS _ List.mem_cons_self _ hhead)
      (ih fun a ha => hRS a (List.mem_cons_of_mem _ ha))

/-- Elements that are related to their images make a list that is related to the list of the images.
-/
theorem forall₂_map_of_mem {α β : Type} {R : α → β → Prop} {f : α → β} {as : List α}
    (h : ∀ a ∈ as, R a (f a)) : List.Forall₂ R as (as.map f) :=
  List.forall₂_map_right_iff.2 (List.forall₂_same.2 h)

/-- Values with a property can be chosen one by one. -/
theorem forall_exists_iff_forall₂ {α β : Type} {R : α → β → Prop} {P : β → Prop} {as : List α} :
    (∀ a ∈ as, ∃ b, R a b ∧ P b) ↔ ∃ bs, List.Forall₂ R as bs ∧ ∀ b ∈ bs, P b := by
  induction as with
  | nil => exact ⟨fun _ => ⟨[], .nil, List.forall_mem_nil _⟩, fun _ => List.forall_mem_nil _⟩
  | cons a as ih =>
    rw [List.forall_mem_cons, ih]
    constructor
    · rintro ⟨⟨b, hab, hb⟩, bs, hbs, hP⟩
      exact ⟨b :: bs, .cons hab hbs, List.forall_mem_cons.2 ⟨hb, hP⟩⟩
    · rintro ⟨_, _ | ⟨hab, hbs⟩, hP⟩
      obtain ⟨hb, hP⟩ := List.forall_mem_cons.1 hP
      exact ⟨⟨_, hab, hb⟩, _, hbs, hP⟩

/-- Values in a relation can be chosen one by one. -/
theorem exists_iff_forall₂ {α β : Type} {R : α → β → Prop} {as : List α} :
    (∀ a ∈ as, ∃ b, R a b) ↔ ∃ bs, List.Forall₂ R as bs := by
  simpa using forall_exists_iff_forall₂ (R := R) (P := fun _ => True)

/-- In related lists every element of the first has a partner. -/
theorem exists_of_forall₂ {α β : Type} {R : α → β → Prop} {as : List α} {bs : List β}
    (h : List.Forall₂ R as bs) : ∀ a ∈ as, ∃ b, R a b :=
  exists_iff_forall₂.2 ⟨bs, h⟩

namespace Building

variable {σ α β : Type}

/-- After a success a sequence goes on from the result and the state of its first part. -/
theorem run_bind_of_ok {x : Building σ α} {f : α → Building σ β} {s t : σ} {a : α}
    (h : x.run s = .ok a t) : (x >>= f).run s = (f a).run t := by
  have hx : x s = .ok a t := h
  show EStateM.bind x f s = f a t
  rw [EStateM.bind, hx]

/-- After a failure of its first part a sequence does nothing more. -/
theorem run_bind_of_error {x : Building σ α} {f : α → Building σ β} {s t : σ} {d : Diagnostic}
    (h : x.run s = .error d t) : (x >>= f).run s = .error d t := by
  have hx : x s = .error d t := h
  show EStateM.bind x f s = .error d t
  rw [EStateM.bind, hx]

/-- A sequence succeeds when its first part does and then, from the state it leaves, the second one.
-/
theorem run_bind_eq_ok_iff {x : Building σ α} {f : α → Building σ β} {s s' : σ} {b : β} :
    (x >>= f).run s = .ok b s' ↔ ∃ a t, x.run s = .ok a t ∧ (f a).run t = .ok b s' := by
  constructor
  · intro h
    cases hx : x.run s with
    | error d t =>
      rw [run_bind_of_error hx] at h
      cases h
    | ok a t =>
      rw [run_bind_of_ok hx] at h
      exact ⟨a, t, rfl, h⟩
  · rintro ⟨a, t, hx, hf⟩
    rw [run_bind_of_ok hx, hf]

/-- A sequence fails in its first part, or in the second one after a success of the first. -/
theorem run_bind_eq_error_iff {x : Building σ α} {f : α → Building σ β} {s s' : σ}
    {d : Diagnostic} :
    (x >>= f).run s = .error d s' ↔
      x.run s = .error d s' ∨ ∃ a t, x.run s = .ok a t ∧ (f a).run t = .error d s' := by
  cases hx : x.run s with
  | error d' t =>
    rw [run_bind_of_error hx]
    constructor
    · rintro ⟨⟩
      exact .inl rfl
    · rintro (⟨⟨⟩⟩ | ⟨_, _, ⟨⟩, -⟩)
      rfl
  | ok a t =>
    rw [run_bind_of_ok hx]
    constructor
    · exact fun h => .inr ⟨a, t, rfl, h⟩
    · rintro (⟨⟨⟩⟩ | ⟨_, _, ⟨⟩, h⟩)
      exact h

/-- A span that is offered changes no success. -/
theorem run_within_eq_ok_iff {x : Building σ α} {place : Span} {s s' : σ} {a : α} :
    (x.within place).run s = .ok a s' ↔ x.run s = .ok a s' := by
  show within place x s = .ok a s' ↔ _
  rw [within]
  cases x.run s with
  | error d t =>
    constructor <;> intro h <;> cases h
  | ok a t => exact Iff.rfl

/-- A failure within a span is a failure to which the span is offered. -/
theorem run_within_eq_error_iff {x : Building σ α} {place : Span} {s s' : σ} {d : Diagnostic} :
    (x.within place).run s = .error d s' ↔
      ∃ d', x.run s = .error d' s' ∧ d = d'.within place := by
  show within place x s = .error d s' ↔ _
  rw [within]
  cases x.run s with
  | error d' t =>
    constructor
    · rintro ⟨⟩
      exact ⟨d', rfl, rfl⟩
    · rintro ⟨_, ⟨⟩, rfl⟩
      rfl
  | ok a t => exact ⟨nofun, nofun⟩

/-- An outcome gives its result and leaves the state as it is. -/
theorem run_ofOutcome_eq_ok_iff {x : Outcome α} {s s' : σ} {a : α} :
    (ofOutcome x : Building σ α).run s = .ok a s' ↔ x = .ok a ∧ s' = s := by
  cases x with
  | error d =>
    constructor
    · intro h
      cases h
    · rintro ⟨h, -⟩
      cases h
  | ok a' =>
    constructor
    · intro h
      cases h
      exact ⟨rfl, rfl⟩
    · rintro ⟨h, rfl⟩
      cases h
      rfl

@[simp] theorem run_fail_ne_ok {cause : Cause} {s s' : σ} {a : α} :
    (fail cause : Building σ α).run s ≠ .ok a s' := by
  intro h
  cases h

/-- A build succeeds with the state that the run leaves. -/
theorem build_eq_ok_iff {x : Building σ Unit} {s s' : σ} :
    x.build s = .ok s' ↔ x.run s = .ok () s' := by
  unfold build
  cases x.run s with
  | error d t =>
    constructor <;> intro h <;> cases h
  | ok a t =>
    constructor <;> intro h <;> cases h <;> rfl

/-- A build fails like its run, and the state that is left then is given up. -/
theorem build_eq_error_iff {x : Building σ Unit} {s : σ} {d : Diagnostic} :
    x.build s = .error d ↔ ∃ t, x.run s = .error d t := by
  unfold build
  cases x.run s with
  | error d' t =>
    constructor
    · rintro ⟨⟩
      exact ⟨t, rfl⟩
    · rintro ⟨_, ⟨⟩⟩
      rfl
  | ok a t => exact ⟨nofun, nofun⟩

end Building

/-- The check of the number of alternates leaves the state as it is. -/
theorem Scope.run_requireAlternates_eq_ok_iff {σ : Type} {scope : Scope} {place : Span}
    {count : Nat} {s s' : σ} :
    (scope.requireAlternates place count : Building σ Unit).run s = .ok () s' ↔
      count ≤ scope.settings.alternateLimit ∧ s' = s := by
  unfold requireAlternates
  split
  · rename_i h
    rw [Building.run_within_eq_ok_iff]
    constructor
    · intro hfail
      exact absurd hfail Building.run_fail_ne_ok
    · rintro ⟨hle, -⟩
      omega
  · rename_i h
    constructor
    · intro hpure
      cases hpure
      exact ⟨by omega, rfl⟩
    · rintro ⟨-, rfl⟩
      rfl

end TriggerLang
