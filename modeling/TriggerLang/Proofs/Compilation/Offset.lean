import TriggerLang.Proofs.Compilation.Condition
import TriggerLang.Proofs.Evaluation.Offset
/-!
# Compiled comparisons of a sum with an integer

Rows add up words, and the normal form of a comparison is computed with exact integers.  A
comparison of a sum with an integer is lowered faithfully as it stands, as long as the exact value
of the sum is a word.  Its normal form may compare the terms without the offset, and then the terms
by themselves have to make a word too, or the order of the two sides is lost.

`ReadSum.OffsetMoves` is the condition under which nothing is lost, and compilation is faithful
exactly under this condition.
-/

namespace TriggerLang

/-! ### When an offset may be moved -/

/-- The relations that ask for equality only. -/
def Relation.IsEquality (r : Relation) : Prop :=
  r = .equal ∨ r = .notEqual

instance (r : Relation) : Decidable r.IsEquality :=
  inferInstanceAs (Decidable (_ ∨ _))

/-- The truth of a comparison with an integer survives the removal of the offset.  If the rest on
the right side is a word, the terms have to make a word by themselves, and without terms the rest is
read with its sign; equality does not depend on either.  If the rest is not a word and no read is
subtracted, zero has to compare with it like the terms. -/
def ReadSum.OffsetMoves (m : Memory) (relation : Relation) (v : ReadSum) (n : IntLiteral) : Prop :=
  v.offset = 0 ∨
    if Word.InRange (v.rest n) then
      relation.IsEquality ∨
        Word.InRange (v.exactTermsIn m) ∧ (v.terms = [] → v.rest n < 2147483648)
    else
      v.terms.any (·.subtracted) = true ∨
        relation.holds 0 (v.rest n) = relation.holds (v.exactTermsIn m) (v.rest n)

instance (m : Memory) (relation : Relation) (v : ReadSum) (n : IntLiteral) :
    Decidable (v.OffsetMoves m relation n) :=
  inferInstanceAs (Decidable (_ ∨ _))

namespace Relation

/-- Let two integers become words when a signed word is added to both, and let the second one be a
word already.  Wrapping the first one keeps their relation exactly if it is a word too, or if only
equality is asked for. -/
theorem holds_emod_iff (r : Relation) {a b : Int} {c : Int32} (ha : Word.InRange (a + c.toInt))
    (hb : Word.InRange b) (hbc : Word.InRange (b + c.toInt)) :
    r.holds (a % 4294967296) b = r.holds a b ↔ r.IsEquality ∨ Word.InRange a := by
  unfold Word.InRange at *
  have hlower := c.le_toInt
  have hupper := c.toInt_lt
  cases r <;> simp [holds, IsEquality, Bool.beq_eq_decide_eq] <;> omega

/-- Reading a word with its sign keeps its relation to zero exactly if it is below `2 ^ 31`, or if
only equality is asked for. -/
theorem holds_zero_bmod_iff (r : Relation) {b : Int} (hb : Word.InRange b) :
    r.holds 0 (b.bmod 4294967296) = r.holds 0 b ↔ r.IsEquality ∨ b < 2147483648 := by
  unfold Word.InRange at hb
  rw [Int.bmod_def]
  split <;> cases r <;> simp [holds, IsEquality, Bool.beq_eq_decide_eq] <;> omega

end Relation

namespace ReadSum

variable {m : Memory} {relation : Relation} {v : ReadSum} {n : IntLiteral}

/-- If there are reads and together they make a word, the offset may be moved. -/
theorem offsetMoves_of_inRange (hterms : v.terms ≠ []) (h : Word.InRange (v.exactTermsIn m)) :
    v.OffsetMoves m relation n := by
  refine .inr ?_
  split
  · exact .inr ⟨h, fun hnil => absurd hnil hterms⟩
  · rename_i hrange
    exact .inr (relation.holds_of_not_inRange h hrange)

/-- A subtracted read can take the terms below zero. -/
example : ¬ (ReadSum.mk [.added (.plain (.direct .byte 1)), ⟨.plain (.direct .byte 2), true⟩]
    5).OffsetMoves ⟨fun _ _ address => if address = 2 then 3 else 0⟩ .less (.signed 7) := by
  decide +kernel

/-- The normal form of a comparison has the truth of the comparison exactly when the offset may be
moved. -/
theorem truthIn_normalize_iff (s s' place : Span) (hv : Word.InRange (v.exactIn m))
    (hn : Word.InRange n.toInt) :
    (Expr.normalize s relation (.sum s' v) (.literal place (.int n))).truthIn m =
      relation.holds (v.exactIn m) n.toInt ↔ v.OffsetMoves m relation n := by
  rw [Expr.truthIn_normalize_sum_int m s s' place relation hv hn.1, OffsetMoves]
  by_cases hzero : v.offset = 0
  · rw [if_pos hzero]
    exact ⟨fun _ => .inl hzero, fun _ => rfl⟩
  rw [if_neg hzero, or_iff_right hzero, ← holds_rest]
  by_cases hrange : Word.InRange (v.rest n)
  · rw [if_pos hrange, if_pos hrange]
    split
    -- Without terms both sides were integers, and these are compared as signed words.
    · rename_i hterms
      have hempty : v.exactTermsIn m = 0 := by rw [exactTermsIn, hterms]; rfl
      rw [hempty, relation.holds_zero_bmod_iff hrange]
      have hword : Word.InRange 0 := by decide
      simp [hterms, hword]
    · rename_i hterms
      have hsum : Word.InRange (v.rest n + v.offset.toInt) := by
        rwa [rest, Int.sub_add_cancel]
      rw [relation.holds_emod_iff hv hrange hsum]
      simp [hterms]
  · rw [if_neg hrange, if_neg hrange]
    cases v.terms.any (·.subtracted) <;> simp

end ReadSum

/-! ### Compilation -/

namespace Expr

/-- What a comparison with an integer settles to: a truth value, or a comparison that has rows. -/
inductive IsSettled : Expr → Prop
  | bool (s : Span) (b : Bool) : IsSettled (.literal s (.bool b))
  | compare (s place : Span) (relation : Relation) (n : IntLiteral) {left : Expr} {side : LeftSide}
      (hside : left.leftSide? = some side) (hreads : left.WellFormedReads) :
      IsSettled (.compare s relation left (.literal place (.int n)))

/-- A settled comparison is a folded condition. -/
theorem IsSettled.isFolded {e : Expr} (h : e.IsSettled) : e.IsFolded := by
  cases h with
  | bool s b => exact .bool s b
  | compare s place relation n hside hreads => exact .compare s relation hreads (.int place n)

/-- A settled comparison has a group of rows. -/
theorem IsSettled.group_eq_ok {e : Expr} (h : e.IsSettled) (scope : Scope) :
    ∃ g, Expr.group scope e = .ok g := by
  cases h with
  | bool s b => exact ⟨[constantRow b], rfl⟩
  | @compare s place relation n left side hside hreads =>
    refine ⟨[] ++ (side.rows ++ [.compare side.operand relation (.word n.word)]), ?_⟩
    rw [Expr.group, Building.build_eq_ok_iff]
    exact run_lower_compare_eq_ok_iff.2 ⟨side, .word n.word, hside, rfl, rfl⟩

/-- The group of a settled comparison is the core of its trigger. -/
theorem IsSettled.addCondition_eq_ok {e : Expr} (h : e.IsSettled) (scope : Scope) :
    ∃ t, (Trigger.addCondition scope e).build .empty = .ok t := by
  obtain ⟨g, hg⟩ := h.group_eq_ok scope
  exact ⟨⟨g, []⟩, Trigger.build_addCondition_eq_ok_iff.2 ⟨.core hg, Nat.zero_le _⟩⟩

/-- A sum with reads stands on the left side of a comparison in any form. -/
theorem leftSide?_toExpr {v : ReadSum} (hv : v.WellFormed) (hterms : v.terms ≠ []) :
    ∃ side, v.toExpr.leftSide? = some side ∧ v.toExpr.WellFormedReads := by
  obtain ⟨hnil, -⟩ | ⟨r, hr, -, h⟩ | ⟨-, h⟩ := v.toExpr_cases
  · exact absurd hnil hterms
  · have hread : r.read.WellFormed := hv (.added r) (by rw [hr]; exact List.mem_singleton_self _)
    rw [h, ModifiedRead.toExpr]
    split
    · exact ⟨_, rfl, hread⟩
    · exact ⟨_, rfl, hread⟩
  · rw [h]
    exact ⟨_, rfl, hv⟩

/-- The normal form of a comparison of a sum with an integer is settled. -/
theorem isSettled_normalize (s s' place : Span) (relation : Relation) {v : ReadSum}
    (hv : v.WellFormed) (n : IntLiteral) :
    (normalize s relation (.sum s' v) (.literal place (.int n))).IsSettled := by
  have hkept : (Expr.compare s relation (.sum s' v) (.literal place (.int n))).IsSettled :=
    .compare s place relation n rfl hv
  rw [normalize_sum_int]
  split
  · exact hkept
  split
  · split
    · exact .bool s _
    · rename_i hterms
      have hterms' : (ReadSum.mk v.terms 0).WellFormed := hv
      obtain ⟨side, hside, hreads⟩ := leftSide?_toExpr hterms' hterms
      exact .compare s place relation _ hside hreads
  split
  · exact hkept
  · exact .bool s _

end Expr

/-- A comparison of a sum with an integer compiles, and where the exact value of the sum is a word,
its trigger holds when the comparison of that value does, exactly if the offset may be moved.  The
rows of the comparison as it stands are always faithful. -/
theorem holds_compile_sum_iff (scope : Scope) (s s' place : Span) (relation : Relation)
    {v : ReadSum} (hv : v.WellFormed) {n : IntLiteral} (hn : Word.InRange n.toInt) :
    ∃ g t,
      Expr.group scope (.compare s relation (.sum s' v) (.literal place (.int n))) = .ok g ∧
      compile scope (.compare s relation (.sum s' v) (.literal place (.int n))) = .ok t ∧
      ∀ m, Word.InRange (v.exactIn m) →
        Group.holds m g = relation.holds (v.exactIn m) n.toInt ∧
        (t.holds m = relation.holds (v.exactIn m) n.toInt ↔ v.OffsetMoves m relation n) := by
  have hraw : (Expr.compare s relation (.sum s' v) (.literal place (.int n))).IsSettled :=
    .compare s place relation n rfl hv
  have hnormal := Expr.isSettled_normalize s s' place relation hv n
  obtain ⟨g, hg⟩ := hraw.group_eq_ok scope
  obtain ⟨t, ht⟩ := hnormal.addCondition_eq_ok scope.clause
  refine ⟨g, t, hg, ht, fun m hm => ⟨?_, ?_⟩⟩
  · rw [Expr.holds_of_group hraw.isFolded hg]
    exact Expr.truthIn_compare_sum m s s' place relation hm hn.1
  · rw [holds_of_addCondition hnormal.isFolded ht]
    exact ReadSum.truthIn_normalize_iff s s' place hm hn

/-- An offset that may be moved. -/
theorem holds_compile_added_reads :
    let m : Memory := ⟨fun _ _ address => address⟩
    let v : ReadSum :=
      ⟨[.added (.plain (.direct .byte 1)), .added (.plain (.direct .byte 2))], 2⟩
    let n : IntLiteral := .signed 4
    v.WellFormed ∧ Word.InRange n.toInt ∧ Word.InRange (v.exactIn m) ∧
      v.OffsetMoves m .greater n ∧
      ∃ t, compile (.root {}) (.compare .unknown .greater (.sum .unknown v) (.int 4)) = .ok t ∧
        t.holds m = true := by
  intro m v n
  have hv : v.WellFormed := by decide
  have hn : Word.InRange n.toInt := by decide
  have hm : Word.InRange (v.exactIn m) := by
    simp only [v, m]
    decide +kernel
  have hmoves : v.OffsetMoves m .greater n := by
    apply ReadSum.offsetMoves_of_inRange
    · exact List.cons_ne_nil _ _
    · simp only [v, m]
      decide +kernel
  obtain ⟨g, t, -, ht, h⟩ :=
    holds_compile_sum_iff (.root {}) .unknown .unknown .unknown .greater hv hn
  refine ⟨hv, hn, hm, hmoves, t, ht, ((h m hm).2.2 hmoves).trans ?_⟩
  simp only [v, m, n]
  decide +kernel

/-- Offsets that may not be moved: a subtracted read takes the terms below zero, and two added reads
reach a rest that is above all words. -/
theorem holds_compile_sum_ne :
    (let m : Memory := ⟨fun _ _ address => if address = 2 then 3 else 0⟩
      let v : ReadSum := ⟨[.added (.plain (.direct .byte 1)), ⟨.plain (.direct .byte 2), true⟩], 5⟩
      v.WellFormed ∧ v.exactIn m = 2 ∧
        ∃ t, compile (.root {}) (.compare .unknown .less (.sum .unknown v) (.int 7)) = .ok t ∧
          t.holds m = false ∧ Relation.less.holds (v.exactIn m) 7 = true) ∧
    (let m : Memory := ⟨fun _ _ address => if address = 0 then 4294967295 else 5⟩
      let v : ReadSum :=
        ⟨[.added (.plain (.direct .doubleWord 0)), .added (.plain (.direct .doubleWord 4))], -5⟩
      v.WellFormed ∧ v.exactIn m = 4294967295 ∧
        ∃ t, compile (.root {}) (.compare .unknown .equal (.sum .unknown v)
            (.ofLiteral (.int (.ofWord 4294967295)))) = .ok t ∧
          t.holds m = false ∧ Relation.equal.holds (v.exactIn m) 4294967295 = true) := by
  refine ⟨?_, ?_⟩
  · intro m v
    refine ⟨by decide, ?_, _, rfl, ?_, ?_⟩ <;>
    · simp only [v, m]
      decide +kernel
  · intro m v
    refine ⟨by decide, ?_, _, rfl, ?_, ?_⟩ <;>
    · simp only [v, m]
      decide +kernel

end TriggerLang
