import TriggerLang.Expr.Comparison
import TriggerLang.Proofs.Lowering.Comparison
/-!
# Comparisons of a sum with an integer

The offset of a sum on the left side of a comparison may be taken to the right side.  What remains
there is the `rest`, an exact integer.  If the rest is a word the offset moves, and otherwise the
comparison is kept or decided, depending on whether a read is subtracted (`normalize_sum_int`).

Each outcome has a truth value over words, which is what its rows compare, and one over exact
integers.  They are computed here for a given state of memory, and the question whether they are
those of the original comparison is left to arithmetic.

If added reads always make a word, that question has an answer for a single step: it keeps the exact
truth of the comparison, and the integer that it leaves on the right side is a word.
-/

namespace TriggerLang

namespace IntLiteral

variable {n : IntLiteral} {k : Int}

/-- An integer that is made from a number stands for it. -/
theorem toInt_relabel (h : Word.InRange k) : (n.relabel k).toInt = k := by
  obtain ⟨hnonneg, hlt⟩ := h
  unfold relabel
  split
  · rename_i hsigned
    rw [Bool.and_eq_true, decide_eq_true_eq] at hsigned
    rw [toInt_signed, Int32.toInt_ofInt_of_le (by omega) (by omega)]
  · rw [toInt_ofWord, UInt32.toNat_ofNat']
    omega

/-- The signed reading of an integer that is made from a number. -/
theorem toInt_value_relabel (h : Word.InRange k) :
    (n.relabel k).value.toInt = k.bmod 4294967296 := by
  have hword := (n.relabel k).toNat_word
  rw [toInt_relabel h, Int.emod_eq_of_lt h.1 h.2, word] at hword
  rw [Word.toInt_eq_bmod, hword]

end IntLiteral

namespace ReadSum

/-- The exact integer that the terms are compared with once the offset is taken to the right. -/
def rest (v : ReadSum) (n : IntLiteral) : Int :=
  n.toInt - v.offset.toInt

/-- The comparison with an integer is decided without the reads: their sum would have to leave the
range of words. -/
def IsDecided (v : ReadSum) (n : IntLiteral) : Prop :=
  v.offset ≠ 0 ∧ ¬ Word.InRange (v.rest n) ∧ v.terms.any (·.subtracted) = false

instance (v : ReadSum) (n : IntLiteral) : Decidable (v.IsDecided n) :=
  inferInstanceAs (Decidable (_ ∧ _ ∧ _))

/-- Without its offset a sum has the exact value of its terms. -/
theorem exactIn_terms (m : Memory) (v : ReadSum) :
    (mk v.terms 0).exactIn m = v.exactTermsIn m :=
  Int.add_zero _

/-- The comparison of a sum is the comparison of its terms with the rest. -/
theorem holds_rest (m : Memory) (relation : Relation) (v : ReadSum) (n : IntLiteral) :
    relation.holds (v.exactTermsIn m) (v.rest n) = relation.holds (v.exactIn m) n.toInt := by
  rw [← relation.holds_sub (v.exactIn m) n.toInt v.offset.toInt, exactIn, rest, Int.add_sub_cancel]

/-- The terms are compared with the rest as an integer like the sum with the given one. -/
theorem holds_terms_relabel (m : Memory) (relation : Relation) {v : ReadSum} {n : IntLiteral}
    (h : Word.InRange (v.rest n)) :
    relation.holds ((mk v.terms 0).toExpr.exactIn m) (n.relabel (v.rest n)).toInt =
      relation.holds (v.exactIn m) n.toInt := by
  rw [exactIn_toExpr, exactIn_terms, IntLiteral.toInt_relabel h, holds_rest]

/-- The outcomes of taking the offset to the right side. -/
theorem takeOffset_eq (v : ReadSum) (relation : Relation) (place : Span) (n : IntLiteral) :
    v.takeOffset relation place n =
      if v.offset = 0 then none
      else if Word.InRange (v.rest n) then
        some (.comparison (mk v.terms 0).toExpr relation
          (.literal place (.int (n.relabel (v.rest n)))))
      else if v.terms.any (·.subtracted) then none
      else some (.decided (relation.holds 0 (v.rest n))) := rfl

end ReadSum

namespace Expr

/-! ### The normal form -/

/-- Terms without an offset are compared further only if there are none. -/
theorem simplerComparison?_toExpr (terms : List Term) (relation : Relation) (place : Span)
    (n : IntLiteral) :
    simplerComparison? true (ReadSum.mk terms 0).toExpr relation (.literal place (.int n)) =
      if terms = [] then some (.decided (relation.holds (0 : Int32) n.value)) else none := by
  obtain ⟨hterms, h⟩ | ⟨r, hterms, -, h⟩ | ⟨hterms, h⟩ := (ReadSum.mk terms 0).toExpr_cases
  · rw [h, if_pos hterms]
    rfl
  · rw [h, if_neg (by rintro rfl; cases hterms), ModifiedRead.toExpr]
    split <;> rfl
  · rw [h, if_neg hterms]
    rfl

/-- The four things that become of a comparison of a sum with an integer. -/
theorem normalize_sum_int (s s' place : Span) (relation : Relation) (v : ReadSum)
    (n : IntLiteral) :
    normalize s relation (.sum s' v) (.literal place (.int n)) =
      if v.offset = 0 then .compare s relation (.sum s' v) (.literal place (.int n))
      else if Word.InRange (v.rest n) then
        if v.terms = [] then
          .literal s (.bool (relation.holds (0 : Int32) (n.relabel (v.rest n)).value))
        else
          .compare s relation (ReadSum.mk v.terms 0).toExpr
            (.literal place (.int (n.relabel (v.rest n))))
      else if v.terms.any (·.subtracted) then
        .compare s relation (.sum s' v) (.literal place (.int n))
      else .literal s (.bool (relation.holds 0 (v.rest n))) := by
  have hstep : simplerComparison? true (.sum s' v) relation (.literal place (.int n)) =
      v.takeOffset relation place n := rfl
  rw [normalize, settlingSteps, settle, hstep, v.takeOffset_eq]
  by_cases hzero : v.offset = 0
  · rw [if_pos hzero, if_pos hzero]
  rw [if_neg hzero, if_neg hzero]
  by_cases hrange : Word.InRange (v.rest n)
  · rw [if_pos hrange, if_pos hrange]
    dsimp only
    rw [settle, simplerComparison?_toExpr]
    by_cases hterms : v.terms = []
    · rw [if_pos hterms, if_pos hterms]
    · rw [if_neg hterms, if_neg hterms]
  · rw [if_neg hrange, if_neg hrange]
    by_cases hsubtracted : v.terms.any (·.subtracted) = true
    · rw [if_pos hsubtracted, if_pos hsubtracted]
    · rw [if_neg hsubtracted, if_neg hsubtracted]

/-! ### Truth over words -/

/-- A sum whose exact value is a word is compared as that value. -/
theorem truthIn_compare_sum (m : Memory) (s s' place : Span) (relation : Relation) {v : ReadSum}
    (hv : Word.InRange (v.exactIn m)) {n : IntLiteral} (hn : 0 ≤ n.toInt) :
    (Expr.compare s relation (.sum s' v) (.literal place (.int n))).truthIn m =
      relation.holds (v.exactIn m) n.toInt := by
  show relation.holds (v.valueIn m) n.word = _
  rw [Relation.holds_words, ReadSum.toNat_valueIn, Int.emod_eq_of_lt hv.1 hv.2,
    IntLiteral.toNat_word_of_nonneg hn]

/-- Without its offset a sum is compared as a word, whatever the exact value of its terms is. -/
theorem truthIn_compare_terms (m : Memory) (s place : Span) (relation : Relation) (v : ReadSum)
    {n : IntLiteral} {k : Int} (hk : Word.InRange k) :
    (Expr.compare s relation (ReadSum.mk v.terms 0).toExpr
        (.literal place (.int (n.relabel k)))).truthIn m =
      relation.holds (v.exactTermsIn m % 4294967296) k := by
  have hright : ((n.relabel k).word.toNat : Int) = k := by
    rw [IntLiteral.toNat_word, IntLiteral.toInt_relabel hk, Int.emod_eq_of_lt hk.1 hk.2]
  show relation.holds ((ReadSum.mk v.terms 0).toExpr.wordIn m) (n.relabel k).word = _
  rw [Relation.holds_words, ReadSum.wordIn_toExpr, ReadSum.toNat_valueIn, hright,
    ReadSum.exactIn_terms]

/-- The truth of a normal form over words. -/
theorem truthIn_normalize_sum_int (m : Memory) (s s' place : Span) (relation : Relation)
    {v : ReadSum} (hv : Word.InRange (v.exactIn m)) {n : IntLiteral} (hn : 0 ≤ n.toInt) :
    (normalize s relation (.sum s' v) (.literal place (.int n))).truthIn m =
      if v.offset = 0 then relation.holds (v.exactIn m) n.toInt
      else if Word.InRange (v.rest n) then
        if v.terms = [] then relation.holds 0 ((v.rest n).bmod 4294967296)
        else relation.holds (v.exactTermsIn m % 4294967296) (v.rest n)
      else if v.terms.any (·.subtracted) then relation.holds (v.exactIn m) n.toInt
      else relation.holds 0 (v.rest n) := by
  rw [normalize_sum_int]
  split
  · exact truthIn_compare_sum m s s' place relation hv hn
  split
  · rename_i hrange
    split
    · show relation.holds (0 : Int32) _ = _
      rw [Relation.holds_signed, IntLiteral.toInt_value_relabel hrange]
      rfl
    · exact truthIn_compare_terms m s place relation v hrange
  split
  · exact truthIn_compare_sum m s s' place relation hv hn
  · rfl

/-! ### Truth over exact integers -/

/-- The exact truth of a normal form; only a decision can change it. -/
theorem exactTruthIn_normalize_sum_int (m : Memory) (s s' place : Span) (relation : Relation)
    {v : ReadSum} (hterms : v.terms ≠ []) (n : IntLiteral) :
    (normalize s relation (.sum s' v) (.literal place (.int n))).exactTruthIn m =
      if v.IsDecided n then relation.holds 0 (v.rest n)
      else relation.holds (v.exactIn m) n.toInt := by
  rw [normalize_sum_int, if_neg hterms]
  by_cases hzero : v.offset = 0
  · rw [if_pos hzero, if_neg (fun h => h.1 hzero)]
    rfl
  rw [if_neg hzero]
  by_cases hrange : Word.InRange (v.rest n)
  · rw [if_pos hrange, if_neg (fun h => h.2.1 hrange)]
    exact ReadSum.holds_terms_relabel m relation hrange
  rw [if_neg hrange]
  by_cases hsubtracted : v.terms.any (·.subtracted) = true
  · rw [if_pos hsubtracted, if_neg fun h => Bool.false_ne_true (h.2.2.symm.trans hsubtracted)]
    rfl
  · rw [if_neg hsubtracted, if_pos ⟨hzero, hrange, Bool.eq_false_iff.2 hsubtracted⟩]
    rfl

end Expr

/-! ### One step over exact integers -/

/-- In a state of memory, a simpler form of a comparison has a truth value: it is decided, or its
sides compare like this as exact integers.  On the right side stands an integer of the range of
words. -/
def Verdict.IsExactIn (m : Memory) (truth : Bool) : Verdict → Prop
  | .decided b => b = truth
  | .comparison left relation right =>
      relation.holds (left.exactIn m) (right.exactIn m) = truth ∧
        ∃ place n, right = .literal place (.int n) ∧ Word.InRange n.toInt

namespace ReadSum

variable {relation : Relation} {v : ReadSum} {place : Span} {n : IntLiteral}

/-- An offset stays where it is if there is none, or if a read is subtracted and the rest is no
word. -/
theorem takeOffset_eq_none_iff :
    v.takeOffset relation place n = none ↔
      v.offset = 0 ∨ ¬ Word.InRange (v.rest n) ∧ v.terms.any (·.subtracted) = true := by
  rw [takeOffset_eq]
  by_cases hzero : v.offset = 0
  · simp [hzero]
  by_cases hrange : Word.InRange (v.rest n)
  · simp [hzero, hrange]
  · cases hsubtracted : v.terms.any (·.subtracted) <;> simp [hzero, hrange]

/-- With the offset on the right side the comparison has the same truth, if added reads make a
word. -/
theorem isExactIn_of_takeOffset {m : Memory}
    (hsum : v.terms.any (·.subtracted) = false → Word.InRange (v.exactTermsIn m))
    {verdict : Verdict} (h : v.takeOffset relation place n = some verdict) :
    verdict.IsExactIn m (relation.holds (v.exactIn m) n.toInt) := by
  rw [takeOffset_eq] at h
  split at h
  · cases h
  split at h
  · rename_i hrange
    obtain rfl := Option.some.inj h
    have hword : Word.InRange (n.relabel (v.rest n)).toInt := by
      rwa [IntLiteral.toInt_relabel hrange]
    exact ⟨holds_terms_relabel m relation hrange, place, _, rfl, hword⟩
  split at h
  · cases h
  · rename_i hrange hsubtracted
    obtain rfl := Option.some.inj h
    have hterms : Word.InRange (v.exactTermsIn m) := hsum (Bool.eq_false_iff.2 hsubtracted)
    show relation.holds 0 (v.rest n) = _
    rw [relation.holds_of_not_inRange hterms hrange, holds_rest]

end ReadSum

namespace Expr

/-- One step toward the normal form of a comparison of a sum with an integer keeps its exact truth
in every state of memory in which the reads make a word, if none of them is subtracted.  A step is
taken unless offsets may not move, or there is none, or it cannot move past a subtracted read. -/
theorem isExactIn_of_simplerComparison {m : Memory} {v : ReadSum}
    (hsum : v.terms.any (·.subtracted) = false → Word.InRange (v.exactTermsIn m))
    (moveOffsets : Bool) (s place : Span) (relation : Relation) (n : IntLiteral) :
    (simplerComparison? moveOffsets (.sum s v) relation (.literal place (.int n)) = none ↔
      moveOffsets = false ∨ v.offset = 0 ∨
        ¬ Word.InRange (v.rest n) ∧ v.terms.any (·.subtracted) = true) ∧
    ∀ verdict,
      simplerComparison? moveOffsets (.sum s v) relation (.literal place (.int n)) = some verdict →
        verdict.IsExactIn m (relation.holds (v.exactIn m) n.toInt) := by
  cases moveOffsets with
  | false =>
    have hnone : simplerComparison? false (.sum s v) relation (.literal place (.int n)) = none :=
      rfl
    refine ⟨?_, fun verdict h => ?_⟩
    · simp [hnone]
    · rw [hnone] at h
      cases h
  | true =>
    have hstep : simplerComparison? true (.sum s v) relation (.literal place (.int n)) =
        v.takeOffset relation place n := rfl
    refine ⟨?_, fun verdict h => ?_⟩
    · rw [hstep, ReadSum.takeOffset_eq_none_iff]
      simp
    · rw [hstep] at h
      exact ReadSum.isExactIn_of_takeOffset hsum h

/-- `byte(1) + byte(2) - 5 < n` at the upper end of the words: from the greatest `n` for which the
offset moves to the least one for which the comparison is decided. -/
theorem isExactIn_of_simplerComparison_greatest :
    let m : Memory := ⟨fun _ _ address => address⟩
    let terms : List Term := [.added (.plain (.direct .byte 1)), .added (.plain (.direct .byte 2))]
    let v : ReadSum := ⟨terms, -5⟩
    let step (n : UInt32) : Option Verdict :=
      simplerComparison? true (.sum .unknown v) .less (.literal .unknown (.int (.ofWord n)))
    let moved : Verdict := .comparison (.sum .unknown ⟨terms, 0⟩) .less
      (.literal .unknown (.int (.ofWord 4294967295)))
    Word.InRange (v.exactTermsIn m) ∧
      step 4294967290 = some moved ∧ moved.IsExactIn m true ∧
      step 4294967291 = some (.decided true) ∧ (Verdict.decided true).IsExactIn m true := by
  intro m terms v step moved
  have hword : Word.InRange (v.exactTermsIn m) := by
    simp only [v, terms, m]
    decide +kernel
  have hexact (n : UInt32) :=
    (isExactIn_of_simplerComparison (fun _ => hword) true .unknown .unknown .less (.ofWord n)).2
  have hmoved : step 4294967290 = some moved := rfl
  have hdecided : step 4294967291 = some (.decided true) := rfl
  have htruth (n : UInt32) (h : n = 4294967290 ∨ n = 4294967291) :
      Relation.less.holds (v.exactIn m) (IntLiteral.ofWord n).toInt = true := by
    simp only [v, terms, m]
    rcases h with rfl | rfl <;> decide +kernel
  have hfirst := hexact 4294967290 moved hmoved
  have hsecond := hexact 4294967291 (.decided true) hdecided
  rw [htruth _ (.inl rfl)] at hfirst
  rw [htruth _ (.inr rfl)] at hsecond
  exact ⟨hword, hmoved, hfirst, hdecided, hsecond⟩

end Expr

end TriggerLang
