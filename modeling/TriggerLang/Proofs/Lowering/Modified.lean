import TriggerLang.Proofs.Lowering.Comparison
/-!
# Meaning of modified reads

An operation on memory that is neither a sum nor a difference has one row for its value.  The left
operand of the row is a read, and the right one is an integer or a further read.  The path that
comes before the row moves the addresses of both operands, so that the further read has to share the
path of the first one.

The row computes the operation on the left operand and on the *word beside it*, which is what the
right operand yields behind the path of the left one (`wordIn_of_onMemory`).  That is the operation
on both operands if they share a path.  But a direct read is also accepted beside a read through a
pointer, and then it is read at another address (`not_yieldsIn_product_of_pointer_and_direct`).
-/

namespace TriggerLang

namespace Arith

/-- An operation that is marked as commutative commutes on words. -/
theorem onWords_comm {op : Arith} (h : op.isCommutative = true) (a b : UInt32) :
    op.onWords a b = op.onWords b a := by
  cases op with
  | add => exact UInt32.add_comm a b
  | multiply => exact UInt32.mul_comm a b
  | bitAnd => exact UInt32.and_comm a b
  | bitXor => exact UInt32.xor_comm a b
  | _ => cases h

end Arith

/-! ### What rows yield -/

namespace LeftSide.Reads

/-- A left side reads one word only. -/
theorem unique {m : Memory} {side : LeftSide} {w w' : UInt32} (h : side.Reads m w)
    (h' : side.Reads m w') : w = w' := by
  obtain ⟨-, sum, hrun, hvalue⟩ := h
  obtain ⟨-, sum', hrun', hvalue'⟩ := h'
  have hpending := (hrun true).symm.trans (hrun' true)
  have hsum : sum = sum' := congrArg Pending.sum hpending
  rw [← hvalue, ← hvalue', hsum]

end LeftSide.Reads

namespace Expr

/-- The rows of an expression on the left side of a comparison bring a word. -/
def YieldsIn (m : Memory) (e : Expr) (w : UInt32) : Prop :=
  ∃ side, e.leftSide? = some side ∧ side.Reads m w

/-- The rows of an expression that reads memory bring its word and no other. -/
theorem yieldsIn_iff {m : Memory} {e : Expr} {w : UInt32} (hmemory : e.isMemory = true)
    (hreads : e.WellFormedReads) : e.YieldsIn m w ↔ e.wordIn m = w := by
  obtain ⟨side, hside⟩ : ∃ side, e.leftSide? = some side := by
    cases e with
    | read s r => exact ⟨_, rfl⟩
    | modified s r => exact ⟨_, rfl⟩
    | sum s v => exact ⟨_, rfl⟩
    | _ => cases hmemory
  have hword : side.Reads m (e.wordIn m) := LeftSide.reads_of_leftSide? m hside hreads
  constructor
  · rintro ⟨side', hside', hw⟩
    obtain rfl := Option.some.inj (hside.symm.trans hside')
    exact hword.unique hw
  · rintro rfl
    exact ⟨side, hside, hword⟩

/-! ### Operations on reads -/

variable {op : Arith} {left right node : Expr} {r r' : MemoryRead} {n : IntLiteral} {s s' : Span}

/-- An operation with a neutral integer changes no word. -/
theorem onWords_of_isNeutral (h : isNeutral op n = true) (a : UInt32) :
    op.onWords a n.word = a := by
  have hone (hvalue : n.value = 1) : n.word = 1 := by
    rw [IntLiteral.word, hvalue]
    rfl
  cases op with
  | multiply =>
    rw [hone (beq_iff_eq.1 h)]
    exact UInt32.mul_one a
  | divide =>
    rw [hone (beq_iff_eq.1 h)]
    exact UInt32.div_one
  | _ => cases h

/-- An integer makes a modified read, unless it divides by zero; a neutral one makes none. -/
theorem modifyBy_int_eq_ok_iff :
    modifyBy left r op (.literal s (.int n)) = .ok (some node) ↔
      (op.isDivision && n.isZero) = false ∧
        node = if isNeutral op n then left else ofModified r op (.word n.word) := by
  rw [modifyBy]
  cases hzero : op.isDivision && n.isZero with
  | true => simp [Outcome.within_eq_ok_iff]
  | false => cases hneutral : isNeutral op n <;> simp [eq_comm]

/-- A further read makes a modified read, if it is direct or has the same path. -/
theorem modifyBy_read_eq_ok_iff :
    modifyBy left r op (.read s r') = .ok (some node) ↔
      (r'.path = [] ∨ r'.path = r.path) ∧ node = ofModified r op r'.operand := by
  have hreach : (!r'.isIndirect || r'.path == r.path) = true ↔ r'.path = [] ∨ r'.path = r.path := by
    simp [MemoryRead.isIndirect]
  rw [modifyBy, ← hreach]
  cases (!r'.isIndirect || r'.path == r.path) <;> simp [eq_comm]

/-- An operation on memory that is no sum has one of the forms of modified reads. -/
theorem onMemory?_eq_modified? (hop : ¬ (op = .add ∨ op = .subtract))
    (h : onMemory? op left right = .ok (some node)) :
    modified? op left right = .ok (some node) := by
  unfold onMemory? at h
  split at h
  · cases h
  · cases op with
    | add => exact absurd (.inl rfl) hop
    | subtract => exact absurd (.inr rfl) hop
    | _ => exact h

/-- The word of an operand in the row of another one: behind the path of a read, a further read is
read at the end of that path, whatever its own path is. -/
def wordBeside (m : Memory) : Expr → Expr → UInt32
  | .read _ r, .read _ r' => r'.operand.valueIn m (r.baseIn m)
  | _, e => e.wordIn m

/-- Of two reads, both follow the same path. -/
def SharePath : Expr → Expr → Prop
  | .read _ r, .read _ r' => r.path = r'.path
  | _, _ => True

/-- An operand has its own word beside one that shares its path. -/
theorem wordBeside_of_sharePath (m : Memory) (hright : right.IsComparand)
    (h : left.SharePath right) : wordBeside m left right = right.wordIn m := by
  cases hright with
  | int s n => cases left <;> rfl
  | read s r' =>
    cases left with
    | read s' r =>
      have hpath : r.path = r'.path := h
      show r'.operand.valueIn m (r.baseIn m) = r'.operand.valueIn m (r'.baseIn m)
      rw [MemoryRead.baseIn, MemoryRead.baseIn, hpath]
    | _ => rfl

/-- A read under an operation with an integer reads memory and has the word of the operation. -/
theorem wordIn_of_modifyBy_int (hr : r.WellFormed)
    (h : modifyBy (.read s r) r op (.literal s' (.int n)) = .ok (some node)) :
    node.isMemory = true ∧ node.WellFormedReads ∧
      ∀ m, node.wordIn m = op.onWords (r.valueIn m) n.word := by
  obtain ⟨-, rfl⟩ := modifyBy_int_eq_ok_iff.1 h
  by_cases hneutral : isNeutral op n = true
  · rw [if_pos hneutral]
    exact ⟨rfl, hr, fun m => (onWords_of_isNeutral hneutral (r.valueIn m)).symm⟩
  · rw [if_neg hneutral]
    exact ⟨rfl, hr, fun m => rfl⟩

/-- The form that an operation on reads and integers has for it reads memory.  Its word is that of
the operation on the left operand and the word beside it. -/
theorem wordIn_of_onMemory (hop : ¬ (op = .add ∨ op = .subtract)) (hleft : left.IsComparand)
    (hright : right.IsComparand) (hleftReads : left.WellFormedReads)
    (hrightReads : right.WellFormedReads) (h : onMemory? op left right = .ok (some node)) :
    node.isMemory = true ∧ node.WellFormedReads ∧
      ∀ m, node.wordIn m = op.onWords (left.wordIn m) (wordBeside m left right) := by
  have hmodified := onMemory?_eq_modified? hop h
  cases hleft with
  | int s n =>
    cases hright with
    | int s' n' => cases hmodified
    | read s' r' =>
      -- The read is on the right side, and the row has it on the left side.
      rw [modified?] at hmodified
      split at hmodified
      · rename_i hcomm
        obtain ⟨hmemory, hreads, hword⟩ := wordIn_of_modifyBy_int hrightReads hmodified
        exact ⟨hmemory, hreads, fun m => (hword m).trans (Arith.onWords_comm hcomm _ _)⟩
      · cases hmodified
  | read s r =>
    cases hright with
    | int s' n' => exact wordIn_of_modifyBy_int hleftReads hmodified
    | read s' r' =>
      have hmodify : modifyBy (.read s r) r op (.read s' r') = .ok (some node) := hmodified
      obtain ⟨-, rfl⟩ := modifyBy_read_eq_ok_iff.1 hmodify
      exact ⟨rfl, hleftReads, fun m => rfl⟩

/-- The rows of a product, a quotient, a remainder or a bitwise combination of reads and integers
yield the operation on the words of both operands exactly if the word beside the left operand gives
the same result as the word of the right one.  They do if both operands share a path. -/
theorem yieldsIn_onMemory_iff (hop : ¬ (op = .add ∨ op = .subtract)) (hleft : left.IsComparand)
    (hright : right.IsComparand) (hleftReads : left.WellFormedReads)
    (hrightReads : right.WellFormedReads) (h : onMemory? op left right = .ok (some node))
    (m : Memory) :
    (node.YieldsIn m (op.onWords (left.wordIn m) (right.wordIn m)) ↔
      op.onWords (left.wordIn m) (wordBeside m left right) =
        op.onWords (left.wordIn m) (right.wordIn m)) ∧
    (left.SharePath right → node.YieldsIn m (op.onWords (left.wordIn m) (right.wordIn m))) := by
  obtain ⟨hmemory, hreads, hword⟩ :=
    wordIn_of_onMemory hop hleft hright hleftReads hrightReads h
  have hyields := yieldsIn_iff (m := m) (w := op.onWords (left.wordIn m) (right.wordIn m))
    hmemory hreads
  rw [hword m] at hyields
  refine ⟨hyields, fun hpath => hyields.2 ?_⟩
  rw [wordBeside_of_sharePath m hright hpath]

/-- `byte(dword(16) + 4) % byte(dword(16) + 8)`, with both operands behind one pointer. -/
theorem yieldsIn_remainder_behind_pointer :
    let m : Memory := ⟨fun _ _ address => 100 - address⟩
    let pointer := (MemoryRead.direct .doubleWord 16).follow .byte
    let left := Expr.read .unknown (pointer.withOffset 4)
    let right := Expr.read .unknown (pointer.withOffset 8)
    left.IsComparand ∧ right.IsComparand ∧ left.WellFormedReads ∧ right.WellFormedReads ∧
      left.SharePath right ∧ ∃ node, onMemory? .modulus left right = .ok (some node) ∧
        left.wordIn m = 12 ∧ right.wordIn m = 8 ∧ node.YieldsIn m 4 := by
  intro m pointer left right
  have hop : ¬ (Arith.modulus = .add ∨ Arith.modulus = .subtract) := by decide
  have hleftReads : left.WellFormedReads := show MemoryRead.WellFormed _ by decide
  have hrightReads : right.WellFormedReads := show MemoryRead.WellFormed _ by decide
  have hnode : onMemory? .modulus left right =
      .ok (some (ofModified (pointer.withOffset 4) .modulus (.read .byte 8))) := rfl
  have hleft : left.wordIn m = 12 := by decide
  have hright : right.wordIn m = 8 := by decide
  have hyields :=
    (yieldsIn_onMemory_iff hop (.read _ _) (.read _ _) hleftReads hrightReads hnode m).2 rfl
  rw [hleft, hright] at hyields
  exact ⟨.read _ _, .read _ _, hleftReads, hrightReads, rfl, _, hnode, hleft, hright, hyields⟩

/-- `byte(dword(16)) * byte(2)` has a row, but the row reads `byte(dword(16) + 2)` for its right
operand. -/
theorem not_yieldsIn_product_of_pointer_and_direct :
    let m : Memory := ⟨fun _ _ address => address + 1⟩
    let left := Expr.read .unknown ((MemoryRead.direct .doubleWord 16).follow .byte)
    let right := Expr.read .unknown (.direct .byte 2)
    left.IsComparand ∧ right.IsComparand ∧ left.WellFormedReads ∧ right.WellFormedReads ∧
      ∃ node, onMemory? .multiply left right = .ok (some node) ∧
        left.wordIn m = 18 ∧ right.wordIn m = 3 ∧ node.YieldsIn m (18 * 20) ∧
        ¬ node.YieldsIn m (18 * 3) := by
  intro m left right
  have hpath : ((MemoryRead.direct .doubleWord 16).follow .byte).WellFormed := by decide
  have hdirect : (MemoryRead.direct .byte 2).WellFormed := by decide
  have hnode : onMemory? .multiply left right =
      .ok (some (ofModified _ .multiply (.read .byte 2))) := rfl
  have hyields (w : UInt32) := yieldsIn_iff (m := m) (w := w)
    (e := ofModified ((MemoryRead.direct .doubleWord 16).follow .byte) .multiply (.read .byte 2))
    rfl hpath
  refine ⟨.read _ _, .read _ _, hpath, hdirect, _, hnode, by decide, by decide,
    (hyields _).2 (by decide), fun h => ?_⟩
  have hwrong := (hyields _).1 h
  revert hwrong
  decide

end Expr

end TriggerLang
