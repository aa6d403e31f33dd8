import TriggerLang.Literal.Basic
import TriggerLang.Operator
/-!
# Words as integers

A word of 32 bits stands for an integer in two ways: as a natural number below `2 ^ 32`, or as a
signed number.  Both readings go back to the same word, so that sums of words can be computed with
exact integers and cut to 32 bits at the end (`ofInt_toNat`, `toNat_ofInt`).

A relation between words is the relation between the integers that they stand for.
-/

namespace TriggerLang

namespace Word

/-- The integers that a word stands for without a sign. -/
def InRange (z : Int) : Prop :=
  0 ≤ z ∧ z < 4294967296

instance (z : Int) : Decidable (InRange z) :=
  inferInstanceAs (Decidable (_ ∧ _))

/-- The word of a natural number that a word stands for. -/
theorem ofInt_toNat (w : UInt32) : UInt32.ofInt w.toNat = w := by
  apply UInt32.toNat.inj
  have h := w.toNat_lt
  rw [UInt32.ofInt, UInt32.toNat_ofNat']
  omega

/-- A natural number is cut to the same word as an integer and as itself. -/
theorem ofInt_natCast (n : Nat) : UInt32.ofInt n = UInt32.ofNat n := by
  apply UInt32.toNat.inj
  rw [UInt32.ofInt, UInt32.toNat_ofNat', UInt32.toNat_ofNat']
  omega

/-- The natural number of a word cut from an integer. -/
theorem toNat_ofInt (z : Int) : ((UInt32.ofInt z).toNat : Int) = z % 4294967296 := by
  rw [UInt32.ofInt, UInt32.toNat_ofNat']
  omega

/-- The signed number of a word. -/
theorem toInt_eq_bmod (v : Int32) : v.toInt = (v.toUInt32.toNat : Int).bmod 4294967296 := by
  rw [← Int32.toInt_toBitVec, BitVec.toInt_eq_toNat_bmod, Int32.toNat_toBitVec]

/-- A signed number and its word agree modulo `2 ^ 32`. -/
theorem toNat_toUInt32 (v : Int32) : (v.toUInt32.toNat : Int) = v.toInt % 4294967296 := by
  have h := toInt_eq_bmod v
  have hlt := v.toUInt32.toNat_lt
  rw [h, Int.bmod_def]
  split <;> omega

/-- The word of the signed number that a word stands for. -/
theorem ofInt_toInt (v : Int32) : UInt32.ofInt v.toInt = v.toUInt32 := by
  apply UInt32.toNat.inj
  have h := toNat_ofInt v.toInt
  rw [← toNat_toUInt32] at h
  exact_mod_cast h

end Word

namespace Relation

/-- A relation between words is the one between their natural numbers. -/
theorem holds_words (r : Relation) (a b : UInt32) :
    r.holds a b = r.holds (a.toNat : Int) (b.toNat : Int) := by
  have heq : a = b ↔ (a.toNat : Int) = b.toNat := by
    rw [Int.ofNat_inj, UInt32.toNat_inj]
  cases r <;>
    simp [holds, Bool.beq_eq_decide_eq, heq, UInt32.lt_iff_toNat_lt, UInt32.le_iff_toNat_le]

/-- A relation between signed words is the one between their signed numbers. -/
theorem holds_signed (r : Relation) (a b : Int32) : r.holds a b = r.holds a.toInt b.toInt := by
  have heq : a = b ↔ a.toInt = b.toInt := by rw [Int32.toInt_inj]
  cases r <;> simp [holds, Bool.beq_eq_decide_eq, heq, Int32.lt_iff_toInt_lt, Int32.le_iff_toInt_le]

/-- A relation between integers depends on their difference only. -/
theorem holds_sub (r : Relation) (a b c : Int) : r.holds (a - c) (b - c) = r.holds a b := by
  cases r <;> simp [holds, Bool.beq_eq_decide_eq]

/-- Zero is on the same side of an integer outside the words as every word is. -/
theorem holds_of_not_inRange (r : Relation) {a b : Int} (ha : Word.InRange a)
    (hb : ¬ Word.InRange b) : r.holds 0 b = r.holds a b := by
  unfold Word.InRange at ha hb
  cases r <;> simp [holds, Bool.beq_eq_decide_eq] <;> omega

/-- Values may trade places under every relation if equality is symmetric on them; nothing is asked
of their order. -/
theorem holds_converse_of_beq_comm {α : Type} [BEq α] [LT α] [LE α] [DecidableLT α] [DecidableLE α]
    (hbeq : ∀ a b : α, (a == b) = (b == a)) (r : Relation) (a b : α) :
    r.converse.holds a b = r.holds b a := by
  cases r with
  | equal => exact hbeq a b
  | notEqual => exact congrArg (!·) (hbeq a b)
  | greater | greaterOrEqual | less | lessOrEqual => rfl

/-- The converse relation holds of integers that trade places. -/
theorem holds_converse (r : Relation) (a b : Int) : r.converse.holds a b = r.holds b a :=
  holds_converse_of_beq_comm (fun _ _ => BEq.comm) r a b

/-- The negation of a relation holds of integers exactly where the relation does not. -/
theorem holds_negation (r : Relation) (a b : Int) : r.negation.holds a b = !r.holds a b := by
  cases r <;> simp only [holds, negation, Bool.not_not, ← decide_not, Int.not_lt, Int.not_le]

end Relation

namespace IntLiteral

/-- The word of an integer, whichever way its tag reads it. -/
theorem toNat_word (n : IntLiteral) : (n.word.toNat : Int) = n.toInt % 4294967296 := by
  unfold toInt
  split
  · have := n.word.toNat_lt
    omega
  · exact Word.toNat_toUInt32 n.value

/-- The signed reading of an integer goes back to it, whichever way its tag reads it. -/
theorem ofInt_toInt (n : IntLiteral) : Int32.ofInt n.toInt = n.value := by
  unfold toInt
  split
  · apply Int32.toInt_inj.1
    rw [Int32.toInt_ofInt]
    exact (Word.toInt_eq_bmod n.value).symm
  · exact Int32.ofInt_toInt n.value

/-- An integer that is not below zero is the number of its word. -/
theorem toNat_word_of_nonneg {n : IntLiteral} (h : 0 ≤ n.toInt) :
    (n.word.toNat : Int) = n.toInt := by
  have hw := n.toNat_word
  have hlt : n.toInt < 4294967296 := by
    unfold toInt
    split
    · have := n.word.toNat_lt
      omega
    · have := n.value.toInt_lt
      omega
  omega

end IntLiteral

end TriggerLang
