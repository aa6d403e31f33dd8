/-!
# Last elements of lists

Rows are emitted in order, and a row that came last may still change its role.  This module holds
the two operations on lists that lowering needs: changing the last element, and taking the last
element that has a property.
-/

namespace TriggerLang.LastElement

variable {α : Type}

/-- The list with its last element changed. -/
def update (f : α → α) : List α → List α
  | [] => []
  | [a] => [f a]
  | a :: b :: rest => a :: update f (b :: rest)

/-- The last element with a property, and the other elements in order. -/
def take? (p : α → Bool) : List α → Option (α × List α)
  | [] => none
  | a :: rest =>
      match take? p rest with
      | some (b, others) => some (b, a :: others)
      | none => if p a then some (a, rest) else none

@[simp] theorem update_nil (f : α → α) : update f [] = [] := rfl

/-- An update changes the last element. -/
@[simp] theorem update_concat (f : α → α) (as : List α) (a : α) :
    update f (as ++ [a]) = as ++ [f a] := by
  induction as with
  | nil => rfl
  | cons b bs ih =>
    cases bs with
    | nil => rfl
    | cons c cs => simpa [update] using ih

/-- Elements before others are not the last one. -/
theorem update_append (f : α → α) (as : List α) {bs : List α} (h : bs ≠ []) :
    update f (as ++ bs) = as ++ update f bs := by
  rw [← List.dropLast_concat_getLast h, ← List.append_assoc, update_concat, update_concat,
    List.append_assoc]

@[simp] theorem length_update (f : α → α) (as : List α) :
    (update f as).length = as.length := by
  induction as with
  | nil => rfl
  | cons a as ih =>
    cases as with
    | nil => rfl
    | cons b bs => simpa [update] using ih

/-- Nothing is taken exactly when no element has the property. -/
theorem take?_eq_none_iff (p : α → Bool) (as : List α) :
    take? p as = none ↔ ∀ a ∈ as, p a = false := by
  induction as with
  | nil => simp [take?]
  | cons a as ih =>
    simp only [take?, List.mem_cons, forall_eq_or_imp, ← ih]
    cases h : take? p as with
    | none => cases hp : p a <;> simp
    | some r => simp

/-- What is taken splits the list, and no later element has the property. -/
theorem take?_eq_some {p : α → Bool} {as others : List α} {a : α}
    (h : take? p as = some (a, others)) :
    ∃ before after, as = before ++ a :: after ∧ others = before ++ after ∧ p a = true ∧
      ∀ b ∈ after, p b = false := by
  induction as generalizing others with
  | nil => simp [take?] at h
  | cons c cs ih =>
    simp only [take?] at h
    cases hr : take? p cs with
    | some r =>
      obtain ⟨b, rest⟩ := r
      simp only [hr, Option.some.injEq, Prod.mk.injEq] at h
      obtain ⟨rfl, rfl⟩ := h
      obtain ⟨before, after, rfl, rfl, hp, hafter⟩ := ih hr
      exact ⟨c :: before, after, rfl, rfl, hp, hafter⟩
    | none =>
      cases hp : p c with
      | false => simp [hr, hp] at h
      | true =>
        simp only [hr, hp, if_true, Option.some.injEq, Prod.mk.injEq] at h
        obtain ⟨rfl, rfl⟩ := h
        exact ⟨[], cs, rfl, rfl, hp, (take?_eq_none_iff p cs).1 hr⟩

end TriggerLang.LastElement
