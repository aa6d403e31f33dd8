import Mathlib.Data.UInt
import TriggerLang.Expr.Arithmetic
import TriggerLang.Proofs.Builtins
import TriggerLang.Proofs.Runtime
import TriggerLang.Proofs.Word
/-!
# The meaning of expressions

This module says what expressions mean in a state of memory, without compiling them.  A read follows
its pointer path, a modified read applies its operator, and a sum of reads has two values: a word,
in which everything wraps at 32 bits, and an exact integer.  The word is the exact integer modulo
`2 ^ 32` (`ReadSum.valueIn_eq_ofInt`).

Operands have a value and conditions have a truth value.  Both are defined on scripts and on the
results of evaluation alike, so that evaluation can be compared with what it started from.
-/

namespace TriggerLang

/-! ### Reads -/

namespace MemoryRead

/-- Every row of the path adds to the addresses of the row after it. -/
def WellFormed (r : MemoryRead) : Prop :=
  ∀ row ∈ r.path, row.role = .addAddress

instance (r : MemoryRead) : Decidable r.WellFormed :=
  inferInstanceAs (Decidable (∀ row ∈ r.path, row.role = .addAddress))

/-- What the rows of the path yield one after another, each an offset for the next. -/
def baseIn (m : Memory) (r : MemoryRead) : UInt32 :=
  r.path.foldl (Row.valueIn m) 0

/-- The word at the end of the path. -/
def valueIn (m : Memory) (r : MemoryRead) : UInt32 :=
  r.operand.valueIn m (r.baseIn m)

end MemoryRead

namespace ModifiedRead

/-- The path of the read is well formed. -/
def WellFormed (r : ModifiedRead) : Prop :=
  r.read.WellFormed

instance (r : ModifiedRead) : Decidable r.WellFormed :=
  inferInstanceAs (Decidable r.read.WellFormed)

/-- The word under the operator; the further operand is read through the same path. -/
def valueIn (m : Memory) (r : ModifiedRead) : UInt32 :=
  match r.modifier with
  | none => r.read.valueIn m
  | some (op, right) => op.value (r.read.valueIn m) (right.valueIn m (r.read.baseIn m))

@[simp] theorem valueIn_plain (m : Memory) (r : MemoryRead) :
    (plain r).valueIn m = r.valueIn m := rfl

/-- Without an operator a modified read is the read by itself. -/
theorem eq_plain_of_isPlain {r : ModifiedRead} (h : r.isPlain = true) : r = plain r.read := by
  obtain ⟨r, modifier⟩ := r
  obtain rfl : modifier = none := Option.isNone_iff_eq_none.1 h
  rfl

/-- Without an operator the word is the one that is read. -/
theorem valueIn_of_isPlain (m : Memory) {r : ModifiedRead} (h : r.isPlain = true) :
    r.valueIn m = r.read.valueIn m := by
  rw [isPlain, Option.isNone_iff_eq_none] at h
  rw [valueIn, h]

/-- The row of a modified read computes its value, once the path is followed. -/
theorem valueIn_valueRow (m : Memory) (r : ModifiedRead) :
    r.valueRow.valueIn m (r.read.baseIn m) = r.valueIn m := by
  obtain ⟨r, _ | ⟨op, right⟩⟩ := r <;> rfl

end ModifiedRead

namespace Term

/-- The word that a term adds, modulo `2 ^ 32`. -/
def valueIn (m : Memory) (t : Term) : UInt32 :=
  if t.subtracted then -t.read.valueIn m else t.read.valueIn m

/-- The integer that a term adds. -/
def exactIn (m : Memory) (t : Term) : Int :=
  if t.subtracted then -((t.read.valueIn m).toNat : Int) else (t.read.valueIn m).toNat

@[simp] theorem exactIn_added (m : Memory) (r : ModifiedRead) :
    (added r).exactIn m = (r.valueIn m).toNat := rfl

/-- A term under the other sign adds the opposite integer. -/
@[simp] theorem exactIn_negate (m : Memory) (t : Term) : t.negate.exactIn m = -t.exactIn m := by
  obtain ⟨r, b⟩ := t
  cases b <;> simp [exactIn, negate]

/-- The word of a term is its exact value cut to 32 bits. -/
theorem valueIn_eq_ofInt (m : Memory) (t : Term) : t.valueIn m = UInt32.ofInt (t.exactIn m) := by
  unfold valueIn exactIn
  split
  · rw [UInt32.ofInt_neg, Word.ofInt_toNat]
  · rw [Word.ofInt_toNat]

end Term

namespace ReadSum

/-- The path of every term is well formed. -/
def WellFormed (s : ReadSum) : Prop :=
  ∀ t ∈ s.terms, t.read.WellFormed

instance (s : ReadSum) : Decidable s.WellFormed :=
  inferInstanceAs (Decidable (∀ t ∈ s.terms, t.read.WellFormed))

/-- The added terms minus the subtracted ones plus the offset, modulo `2 ^ 32`. -/
def valueIn (m : Memory) (s : ReadSum) : UInt32 :=
  (s.terms.map (Term.valueIn m)).sum + s.offset.toUInt32

/-- The added terms minus the subtracted ones. -/
def exactTermsIn (m : Memory) (s : ReadSum) : Int :=
  (s.terms.map (Term.exactIn m)).sum

/-- The added terms minus the subtracted ones plus the offset. -/
def exactIn (m : Memory) (s : ReadSum) : Int :=
  s.exactTermsIn m + s.offset.toInt

/-- The word of terms is their exact value cut to 32 bits. -/
theorem sum_valueIn_eq_ofInt (m : Memory) (terms : List Term) :
    (terms.map (Term.valueIn m)).sum = UInt32.ofInt (terms.map (Term.exactIn m)).sum := by
  induction terms with
  | nil => rfl
  | cons t terms ih =>
    rw [List.map_cons, List.map_cons, List.sum_cons, List.sum_cons, UInt32.ofInt_add, ih,
      Term.valueIn_eq_ofInt]

/-- The word of a sum is its exact value cut to 32 bits. -/
theorem valueIn_eq_ofInt (m : Memory) (s : ReadSum) :
    s.valueIn m = UInt32.ofInt (s.exactIn m) := by
  rw [valueIn, exactIn, exactTermsIn, UInt32.ofInt_add, sum_valueIn_eq_ofInt, Word.ofInt_toInt]

/-- The number of the word of a sum is the exact value modulo `2 ^ 32`. -/
theorem toNat_valueIn (m : Memory) (s : ReadSum) :
    ((s.valueIn m).toNat : Int) = s.exactIn m % 4294967296 := by
  rw [valueIn_eq_ofInt, Word.toNat_ofInt]

end ReadSum

/-! ### Operands -/

namespace Expr

/-- The read that an expression stands for by itself: a read of memory, or a call of a read function
with a constant address. -/
def read? : Expr → Option MemoryRead
  | .read _ r => some r
  | .call _ name [.literal _ (.int n)] =>
      match Builtin.ofName? name with
      | some (.read size) => some (.direct size n.word)
      | _ => none
  | _ => none

/-- The word of an operand; an integer is read without its sign. -/
def wordIn (m : Memory) : Expr → UInt32
  | .literal _ (.int n) => n.word
  | .modified _ r => r.valueIn m
  | .sum _ s => s.valueIn m
  | e => (e.read?.map (MemoryRead.valueIn m)).getD 0

/-- The exact value of an operand; an integer is read by its tag. -/
def exactIn (m : Memory) : Expr → Int
  | .literal _ (.int n) => n.toInt
  | .modified _ r => (r.valueIn m).toNat
  | .sum _ s => s.exactIn m
  | .arith _ .add left right => left.exactIn m + right.exactIn m
  | .arith _ .subtract left right => left.exactIn m - right.exactIn m
  | e => (e.read?.map fun r => ((r.valueIn m).toNat : Int)).getD 0

/-- An expression that stands for a read has the word that is read. -/
theorem wordIn_of_read? (m : Memory) {e : Expr} {r : MemoryRead} (h : e.read? = some r) :
    e.wordIn m = r.valueIn m := by
  unfold read? at h
  split at h
  · cases h
    rfl
  · simp [wordIn, read?, h]
  · cases h

/-- An expression that stands for a read has the number of the word that is read. -/
theorem exactIn_of_read? (m : Memory) {e : Expr} {r : MemoryRead} (h : e.read? = some r) :
    e.exactIn m = (r.valueIn m).toNat := by
  unfold read? at h
  split at h
  · cases h
    rfl
  · simp [exactIn, read?, h]
  · cases h

end Expr

namespace ModifiedRead

/-- The expression of a modified read has its word. -/
theorem wordIn_toExpr (m : Memory) (r : ModifiedRead) : r.toExpr.wordIn m = r.valueIn m := by
  unfold toExpr
  split
  · rename_i h
    exact (valueIn_of_isPlain m h).symm
  · rfl

/-- The expression of a modified read has the number of its word. -/
theorem exactIn_toExpr (m : Memory) (r : ModifiedRead) :
    r.toExpr.exactIn m = (r.valueIn m).toNat := by
  unfold toExpr
  split
  · rename_i h
    rw [valueIn_of_isPlain m h]
    rfl
  · rfl

end ModifiedRead

namespace ReadSum

/-- The only term of a sum is one that is added, and no other stands beside it. -/
theorem onlyTerm?_eq_some_iff {s : ReadSum} {r : ModifiedRead} :
    s.onlyTerm? = some r ↔ s.terms = [.added r] := by
  obtain ⟨terms, offset⟩ := s
  unfold onlyTerm?
  split
  · rename_i t ht
    obtain ⟨r', b⟩ := t
    cases b <;> simp_all [Term.added]
  · rename_i hne
    constructor
    · intro h
      cases h
    · intro h
      exact absurd h (hne _)

/-- A sum with one added term and no offset is that term. -/
theorem eq_single {s : ReadSum} {r : ModifiedRead} (hterms : s.terms = [.added r])
    (hoffset : s.offset = 0) : s = single r := by
  obtain ⟨terms, offset⟩ := s
  obtain rfl : terms = [.added r] := hterms
  obtain rfl : offset = 0 := hoffset
  rfl

/-- The three forms of the smallest expression of a sum. -/
theorem toExpr_cases (s : ReadSum) :
    (s.terms = [] ∧ s.toExpr = .int s.offset) ∨
    (∃ r, s.terms = [.added r] ∧ s.offset = 0 ∧ s.toExpr = r.toExpr) ∨
    (s.terms ≠ [] ∧ s.toExpr = .sum .unknown s) := by
  unfold toExpr
  split
  · rename_i h
    exact .inl ⟨List.isEmpty_iff.1 h, rfl⟩
  · rename_i hterms
    rw [List.isEmpty_iff] at hterms
    split
    · rename_i r hr
      split
      · rename_i hoffset
        exact .inr (.inl ⟨r, onlyTerm?_eq_some_iff.1 hr, hoffset, rfl⟩)
      · exact .inr (.inr ⟨hterms, rfl⟩)
    · exact .inr (.inr ⟨hterms, rfl⟩)

/-- What holds of integers, reads, modified reads and sums holds of the smallest expression of a
sum. -/
theorem toExpr_induction {P : Expr → Prop} (s : ReadSum) (hint : ∀ n, P (.int n))
    (hread : ∀ m, P (.read .unknown m)) (hmodified : ∀ r, P (.modified .unknown r))
    (hsum : ∀ v, P (.sum .unknown v)) : P s.toExpr := by
  obtain ⟨-, h⟩ | ⟨r, -, -, h⟩ | ⟨-, h⟩ := s.toExpr_cases
  · rw [h]
    exact hint _
  · rw [h, ModifiedRead.toExpr]
    split
    · exact hread _
    · exact hmodified _
  · rw [h]
    exact hsum _

/-- The smallest expression of a sum has the word of the sum. -/
theorem wordIn_toExpr (m : Memory) (s : ReadSum) : s.toExpr.wordIn m = s.valueIn m := by
  obtain ⟨hterms, h⟩ | ⟨r, hterms, hoffset, h⟩ | ⟨-, h⟩ := s.toExpr_cases
  · rw [h, valueIn, hterms]
    exact (UInt32.zero_add _).symm
  · rw [h, r.wordIn_toExpr, valueIn, hterms, hoffset, List.map_singleton, List.sum_singleton]
    exact (UInt32.add_zero _).symm
  · rw [h]
    rfl

/-- The smallest expression of a sum has the exact value of the sum. -/
theorem exactIn_toExpr (m : Memory) (s : ReadSum) : s.toExpr.exactIn m = s.exactIn m := by
  obtain ⟨hterms, h⟩ | ⟨r, hterms, hoffset, h⟩ | ⟨-, h⟩ := s.toExpr_cases
  · rw [h, exactIn, exactTermsIn, hterms]
    exact (Int.zero_add _).symm
  · rw [h, r.exactIn_toExpr, exactIn, exactTermsIn, hterms, hoffset]
    simp
  · rw [h]
    rfl

end ReadSum

/-! ### Conditions -/

/-- The truth of operands under a connective. -/
def Connective.truth : Connective → List Bool → Bool
  | all, bs => bs.all id
  | any, bs => bs.any id

namespace Expr

mutual

/-- The truth of a condition; operands of comparisons are compared as words. -/
def truthIn (m : Memory) : Expr → Bool
  | .literal _ (.bool b) => b
  | .always _ b => b
  | .call _ name [] =>
      match Builtin.ofName? name with
      | some (.always b) => b
      | _ => false
  | .compare _ relation left right => relation.holds (left.wordIn m) (right.wordIn m)
  | .join _ c operands => c.truth (truthsIn m operands)
  | .negate _ [operand] => !truthIn m operand
  | _ => false
termination_by structural e => e

/-- The truth values of conditions. -/
def truthsIn (m : Memory) : List Expr → List Bool
  | [] => []
  | e :: es => truthIn m e :: truthsIn m es
termination_by structural es => es

end

/-- Conditions have their truth values one by one. -/
theorem truthsIn_eq_map (m : Memory) (es : List Expr) : truthsIn m es = es.map (truthIn m) := by
  induction es with
  | nil => rfl
  | cons e es ih => rw [truthsIn, ih, List.map_cons]

/-- The truth of a connective is that of its operands under it. -/
@[simp] theorem truthIn_join (m : Memory) (s : Span) (c : Connective) (es : List Expr) :
    (Expr.join s c es).truthIn m = c.truth (es.map (truthIn m)) := by
  rw [truthIn, truthsIn_eq_map]

/-- A conjunction is true when every operand is. -/
theorem truthIn_join_all (m : Memory) (s : Span) (es : List Expr) :
    (Expr.join s .all es).truthIn m = es.all (truthIn m) := by
  rw [truthIn_join, Connective.truth, List.all_map]
  rfl

/-- A disjunction is true when some operand is. -/
theorem truthIn_join_any (m : Memory) (s : Span) (es : List Expr) :
    (Expr.join s .any es).truthIn m = es.any (truthIn m) := by
  rw [truthIn_join, Connective.truth, List.any_map]
  rfl

@[simp] theorem truthIn_moveTo (m : Memory) (s : Span) (e : Expr) :
    (e.moveTo s).truthIn m = e.truthIn m := by
  cases e with
  | literal s' v => cases v <;> rfl
  | call s' name arguments => cases arguments <;> rfl
  | negate s' operands =>
    rcases operands with _ | ⟨e, _ | ⟨e', es⟩⟩ <;> rfl
  | _ => rfl

/-- The truth of a settled comparison; its operands are compared as exact integers. -/
def exactTruthIn (m : Memory) : Expr → Bool
  | .literal _ (.bool b) => b
  | .compare _ relation left right => relation.holds (left.exactIn m) (right.exactIn m)
  | _ => false

end Expr

end TriggerLang
