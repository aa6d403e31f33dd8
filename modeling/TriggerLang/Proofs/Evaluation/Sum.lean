import TriggerLang.Proofs.Evaluation.Condition
import TriggerLang.Proofs.Evaluation.Offset
/-!
# Evaluation of sums

A *sum tree* is a tree of sums and differences over reads and integers.  Evaluation collects it into
one sum of reads: the reads in order, each with its sign, and one offset for all integers.  The
offset is a signed word, so that the integers of the tree are added up modulo `2 ^ 32`, whatever
their tags are.

A comparison of the tree with an integer is then brought into normal form.  `ComparesExactly` says
exactly when the result agrees with exact arithmetic: the wrapped offset has to compare like the
exact one, and where the comparison is decided zero has to compare like the tree.
-/

namespace TriggerLang

namespace Expr

/-! ### Sum trees -/

/-- A tree of sums and differences over reads and integers.  A read may be written as a call, if its
name means the built-in function in the scope. -/
inductive IsSumTree (scope : Scope) : Expr → Prop
  | int (s : Span) (n : IntLiteral) : IsSumTree scope (.literal s (.int n))
  | read (s : Span) (r : MemoryRead) : IsSumTree scope (.read s r)
  | call (s s' : Span) {size : ReadSize} (n : IntLiteral)
      (h : scope.function? (Builtin.read size).name = some (.builtin (.read size))) :
      IsSumTree scope (.call s (Builtin.read size).name [.literal s' (.int n)])
  | arith (s : Span) {op : Arith} (hop : op = .add ∨ op = .subtract) {left right : Expr}
      (hleft : IsSumTree scope left) (hright : IsSumTree scope right) :
      IsSumTree scope (.arith s op left right)

/-- The reads of a tree in order, each with its sign. -/
def signedReads : Expr → List Term
  | .arith _ .add left right => left.signedReads ++ right.signedReads
  | .arith _ .subtract left right => left.signedReads ++ right.signedReads.map Term.negate
  | e => (e.read?.map fun r => Term.added (.plain r)).toList

/-- The sum of the integers of a tree, each read by its tag and taken with its sign. -/
def constantPart : Expr → Int
  | .literal _ (.int n) => n.toInt
  | .arith _ .add left right => left.constantPart + right.constantPart
  | .arith _ .subtract left right => left.constantPart - right.constantPart
  | _ => 0

/-- What evaluation collects from a tree: its reads, and its integers as one signed word. -/
def collected (e : Expr) : ReadSum :=
  ⟨e.signedReads, Int32.ofInt e.constantPart⟩

/-- A tree and all trees below it. -/
def subtrees : Expr → List Expr
  | .arith s op left right => .arith s op left right :: (left.subtrees ++ right.subtrees)
  | e => [e]

/-- The exact value of every subtree is a word. -/
def InWordRange (m : Memory) (e : Expr) : Prop :=
  ∀ t ∈ e.subtrees, Word.InRange (t.exactIn m)

instance (m : Memory) (e : Expr) : Decidable (e.InWordRange m) :=
  inferInstanceAs (Decidable (∀ t ∈ e.subtrees, Word.InRange (t.exactIn m)))

/-- A leaf that is a read has one read, which is added. -/
theorem signedReads_of_read? {e : Expr} {r : MemoryRead} (h : e.read? = some r) :
    e.signedReads = [.added (.plain r)] := by
  unfold read? at h
  split at h
  · cases h
    rfl
  · simp [signedReads, read?, h]
  · cases h

/-- A leaf that is a read has no integer. -/
theorem constantPart_of_read? {e : Expr} {r : MemoryRead} (h : e.read? = some r) :
    e.constantPart = 0 := by
  unfold read? at h
  split at h
  · rfl
  · rfl
  · cases h

/-- A leaf that is a read is collected as one added term. -/
theorem collected_of_read? {e : Expr} {r : MemoryRead} (h : e.read? = some r) :
    e.collected = .single (.plain r) := by
  rw [collected, signedReads_of_read? h, constantPart_of_read? h]
  rfl

/-- A call of a read function with an integer stands for the direct read at that address. -/
theorem read?_call (s s' : Span) (size : ReadSize) (n : IntLiteral) :
    (Expr.call s (Builtin.read size).name [.literal s' (.int n)]).read? =
      some (.direct size n.word) := by
  rw [read?, Builtin.ofName?_name]

/-- A leaf that is a read has the exact value of its reads and integers. -/
theorem exactIn_eq_of_read? (m : Memory) {e : Expr} {r : MemoryRead} (h : e.read? = some r) :
    e.exactIn m = (e.signedReads.map (Term.exactIn m)).sum + e.constantPart := by
  rw [exactIn_of_read? m h, signedReads_of_read? h, constantPart_of_read? h]
  simp

/-- Terms under the other signs add up to the opposite integer. -/
theorem sum_exactIn_negate (m : Memory) (terms : List Term) :
    ((terms.map Term.negate).map (Term.exactIn m)).sum = -(terms.map (Term.exactIn m)).sum := by
  induction terms with
  | nil => rfl
  | cons t terms ih =>
    rw [List.map_cons, List.map_cons, List.sum_cons, ih, Term.exactIn_negate, List.map_cons,
      List.sum_cons, Int.neg_add]

/-- The exact value of a tree is that of its reads and its integers. -/
theorem IsSumTree.exactIn_eq (m : Memory) {scope : Scope} {e : Expr} (he : IsSumTree scope e) :
    e.exactIn m = (e.signedReads.map (Term.exactIn m)).sum + e.constantPart := by
  induction he with
  | int s n => exact (Int.zero_add _).symm
  | read s r => exact exactIn_eq_of_read? m rfl
  | call s s' n h => exact exactIn_eq_of_read? m (read?_call s s' _ n)
  | arith s hop hleft hright ihl ihr =>
    rcases hop with rfl | rfl
    · rw [exactIn, ihl, ihr, signedReads, constantPart, List.map_append, List.sum_append]
      omega
    · rw [exactIn, ihl, ihr, signedReads, constantPart, List.map_append, List.sum_append,
        sum_exactIn_negate]
      omega

/-- The collected offset is the sum of the integers, wrapped to a signed word. -/
theorem toInt_offset_collected (e : Expr) :
    e.collected.offset.toInt = e.constantPart.bmod 4294967296 :=
  Int32.toInt_ofInt

/-- What is collected differs from the tree by the wrapping of its integers. -/
theorem IsSumTree.exactIn_collected (m : Memory) {scope : Scope} {e : Expr}
    (he : IsSumTree scope e) :
    e.collected.exactIn m = e.exactIn m - e.constantPart + e.constantPart.bmod 4294967296 := by
  rw [ReadSum.exactIn, toInt_offset_collected, he.exactIn_eq m, Int.add_sub_cancel]
  rfl

/-- When a comparison of what is collected is decided without the reads, in terms of the tree. -/
theorem isDecided_collected_iff (e : Expr) (n : IntLiteral) :
    e.collected.IsDecided n ↔
      e.constantPart.bmod 4294967296 ≠ 0 ∧
        ¬ Word.InRange (n.toInt - e.constantPart.bmod 4294967296) ∧
        e.signedReads.any (·.subtracted) = false := by
  rw [ReadSum.IsDecided, ReadSum.rest, toInt_offset_collected, Ne, ← Int32.toInt_inj,
    toInt_offset_collected]
  rfl

/-! ### Evaluated sums -/

/-- An evaluated expression that stands for a sum. -/
inductive IsFormOf : Expr → ReadSum → Prop
  | int (s : Span) (n : IntLiteral) : IsFormOf (.literal s (.int n)) (.constant n.value)
  | read (s : Span) (r : MemoryRead) : IsFormOf (.read s r) (.single (.plain r))
  | modified (s : Span) (r : ModifiedRead) : IsFormOf (.modified s r) (.single r)
  | sum (s : Span) {v : ReadSum} (h : v.terms ≠ []) : IsFormOf (.sum s v) v

variable {v w : ReadSum} {left right : Expr}

/-- The smallest expression of a sum with reads stands for the sum. -/
theorem isFormOf_toExpr (h : v.terms ≠ []) (s : Span) : IsFormOf (v.toExpr.moveTo s) v := by
  obtain ⟨hterms, -⟩ | ⟨r, hterms, hoffset, hr⟩ | ⟨-, hsum⟩ := v.toExpr_cases
  · exact absurd hterms h
  · rw [hr, ReadSum.eq_single hterms hoffset, ModifiedRead.toExpr]
    split
    · rename_i hplain
      rw [ModifiedRead.eq_plain_of_isPlain hplain]
      exact .read s r.read
    · exact .modified s r
  · rw [hsum]
    exact .sum s h

/-- An expression that stands for a sum is taken for that sum. -/
theorem IsFormOf.ofExpr? (h : IsFormOf left v) : ReadSum.ofExpr? left = some v := by
  cases h <;> rfl

/-- An expression that stands for a sum with reads reads memory. -/
theorem IsFormOf.isMemory (h : IsFormOf left v) (hterms : v.terms ≠ []) :
    left.isMemory = true := by
  cases h with
  | int s n => exact absurd rfl hterms
  | _ => rfl

/-- An expression that stands for a sum without reads is an integer. -/
theorem IsFormOf.eq_int (h : IsFormOf left v) (hterms : v.terms = []) :
    ∃ s n, left = .literal s (.int n) ∧ v = .constant n.value := by
  cases h with
  | int s n => exact ⟨s, n, rfl, rfl⟩
  | sum s hne => exact absurd hterms hne
  | _ => cases hterms

/-- An operation on memory has the form that is found for it. -/
theorem combine_of_isMemory {op : Arith} {e : Expr}
    (hmemory : (left.isMemory || right.isMemory) = true)
    (h : onMemory? op left right = .ok (some e)) (s : Span) :
    combine s op left right = .ok (e.moveTo s) := by
  have hliterals : onLiterals? op left right = none := by
    cases left <;> cases right <;> first | rfl | cases hmemory
  rw [combine, hliterals, h]

/-- The sum or the difference of two sums. -/
def mergeSums (op : Arith) (v w : ReadSum) : ReadSum :=
  if op = .subtract then v.subtract w else v.add w

/-- Sums and differences of reads are collected into one sum. -/
theorem onMemory?_eq_mergeSums {op : Arith} (hop : op = .add ∨ op = .subtract)
    (hmemory : (left.isMemory || right.isMemory) = true)
    (hleft : ReadSum.ofExpr? left = some v) (hright : ReadSum.ofExpr? right = some w) :
    onMemory? op left right = .ok (some (mergeSums op v w).toExpr) := by
  have hneither : (!left.isMemory && !right.isMemory) = false := by
    rw [← Bool.not_or, hmemory]
    rfl
  rcases hop with rfl | rfl
  · rw [onMemory?, hneither, hleft, hright]
    rfl
  · rw [onMemory?, hneither, hleft, hright]
    rfl

/-- A sum or difference is without reads when both sides are. -/
theorem terms_mergeSums_eq_nil_iff (op : Arith) (v w : ReadSum) :
    (mergeSums op v w).terms = [] ↔ v.terms = [] ∧ w.terms = [] := by
  unfold mergeSums
  split
  · rw [ReadSum.terms_subtract, List.append_eq_nil_iff, List.map_eq_nil_iff]
  · rw [ReadSum.terms_add, List.append_eq_nil_iff]

/-- One of two sums that have reads reads memory. -/
theorem IsFormOf.isMemory_or (hleft : IsFormOf left v) (hright : IsFormOf right w)
    (h : ¬ (v.terms = [] ∧ w.terms = [])) : (left.isMemory || right.isMemory) = true := by
  rw [Bool.or_eq_true]
  by_cases hv : v.terms = []
  · exact .inr (hright.isMemory fun hw => h ⟨hv, hw⟩)
  · exact .inl (hleft.isMemory hv)

/-- Integers are folded into an integer, and with reads the sums are merged. -/
theorem IsFormOf.combine {op : Arith} (hop : op = .add ∨ op = .subtract) (hleft : IsFormOf left v)
    (hright : IsFormOf right w) (s : Span) :
    ∃ e, Expr.combine s op left right = .ok e ∧ IsFormOf e (mergeSums op v w) := by
  by_cases h : v.terms = [] ∧ w.terms = []
  -- Two integers fold before memory is looked at; the tag of the result plays no part.
  · obtain ⟨_, a, rfl, rfl⟩ := hleft.eq_int h.1
    obtain ⟨_, b, rfl, rfl⟩ := hright.eq_int h.2
    rcases hop with rfl | rfl
    · exact ⟨_, rfl, .int s ⟨a.value + b.value, a.unsigned || b.unsigned⟩⟩
    · exact ⟨_, rfl, .int s ⟨a.value - b.value, a.unsigned || b.unsigned⟩⟩
  · have hmemory := hleft.isMemory_or hright h
    have hmerged := onMemory?_eq_mergeSums hop hmemory hleft.ofExpr? hright.ofExpr?
    refine ⟨_, combine_of_isMemory hmemory hmerged s, isFormOf_toExpr ?_ s⟩
    rwa [Ne, terms_mergeSums_eq_nil_iff]

/-- What is collected from a sum or a difference is merged from both sides. -/
theorem collected_arith {op : Arith} (hop : op = .add ∨ op = .subtract) (s : Span)
    (left right : Expr) :
    (Expr.arith s op left right).collected = mergeSums op left.collected right.collected := by
  rcases hop with rfl | rfl
  · exact congrArg (ReadSum.mk _) (Int32.ofInt_add left.constantPart right.constantPart)
  · exact congrArg (ReadSum.mk _) (Int32.ofInt_sub left.constantPart right.constantPart)

/-- A sum tree evaluates to the sum that is collected from it. -/
theorem IsSumTree.evaluateWith_eq_ok (run : BodyRule) {scope : Scope} {e : Expr}
    (he : IsSumTree scope e) :
    ∃ e', evaluateWith run scope e = .ok e' ∧ IsFormOf e' e.collected := by
  induction he with
  | int s n =>
    have hvalue : (Expr.literal s (.int n)).collected = .constant n.value :=
      congrArg ReadSum.constant n.ofInt_toInt
    rw [hvalue]
    exact ⟨_, rfl, .int s n⟩
  | read s r => exact ⟨_, rfl, .read s r⟩
  | @call s s' size n h =>
    rw [collected_of_read? (read?_call s s' size n)]
    refine ⟨.read s (.direct size n.word), ?_, .read s _⟩
    rw [evaluateWith, h]
    rfl
  | @arith s op hop left right hleft hright ihl ihr =>
    obtain ⟨l, hl, hlform⟩ := ihl
    obtain ⟨r, hr, hrform⟩ := ihr
    obtain ⟨e', he', hform⟩ := hlform.combine hop hrform s
    rw [collected_arith hop]
    refine ⟨e', ?_, hform⟩
    rw [evaluateWith, hl, hr]
    exact Outcome.within_eq_ok_iff.2 he'

/-! ### Comparisons of sums -/

/-- The exact truth of the normal form of a comparison whose left side stands for a sum. -/
theorem IsFormOf.exactTruthIn_normalize (h : IsFormOf left v) (m : Memory) (s place : Span)
    (relation : Relation) (n : IntLiteral) :
    (normalize s relation left (.literal place (.int n))).exactTruthIn m =
      if v.terms = [] then relation.holds v.offset.toInt n.value.toInt
      else if v.IsDecided n then relation.holds 0 (v.rest n)
      else relation.holds (v.exactIn m) n.toInt := by
  have hterms (r : ModifiedRead) : (ReadSum.single r).terms ≠ [] := List.cons_ne_nil _ _
  have hkept (r : ModifiedRead) : ¬ (ReadSum.single r).IsDecided n := fun h => h.1 rfl
  have hvalue (r : ModifiedRead) : (ReadSum.single r).exactIn m = (r.valueIn m).toNat := by
    simp [ReadSum.exactIn, ReadSum.exactTermsIn, ReadSum.single]
  cases h with
  | int s' n' => exact relation.holds_signed n'.value n.value
  | read s' r =>
    rw [if_neg (hterms _), if_neg (hkept _), hvalue]
    rfl
  | modified s' r =>
    rw [if_neg (hterms _), if_neg (hkept _), hvalue]
    rfl
  | sum s' hne =>
    rw [if_neg hne]
    exact exactTruthIn_normalize_sum_int m s s' place relation hne n

/-- Evaluation compares a tree with an integer like exact arithmetic.  Only `kept` remains of the
integers of the tree, and it is a signed word.  Without reads it is compared with the signed reading
of the other side; with reads it is added to them.  But if all reads are added and would have to
leave the range of words, only their signs count, and zero is compared in their place. -/
def ComparesExactly (m : Memory) (relation : Relation) (e : Expr) (n : IntLiteral) : Prop :=
  let kept := e.constantPart.bmod 4294967296
  if e.signedReads = [] then
    relation.holds kept n.value.toInt = relation.holds (e.exactIn m) n.toInt
  else if kept ≠ 0 ∧ ¬ Word.InRange (n.toInt - kept) ∧ e.signedReads.any (·.subtracted) = false then
    relation.holds 0 (n.toInt - kept) = relation.holds (e.exactIn m) n.toInt
  else
    relation.holds (e.exactIn m - e.constantPart + kept) n.toInt =
      relation.holds (e.exactIn m) n.toInt

/-- If the integers of a tree add up to a signed word and its reads to a word, the comparison is
exact. -/
theorem comparesExactly_of_fits {m : Memory} {relation : Relation} {e : Expr} {n : IntLiteral}
    (hreads : e.signedReads ≠ []) (hlower : -2147483648 ≤ e.constantPart)
    (hupper : e.constantPart < 2147483648)
    (hsum : Word.InRange (e.exactIn m - e.constantPart)) : e.ComparesExactly m relation n := by
  have hkept : e.constantPart.bmod 4294967296 = e.constantPart :=
    Int.bmod_eq_of_le (by omega) (by omega)
  rw [ComparesExactly, hkept, if_neg hreads]
  split
  · rename_i h
    rw [relation.holds_of_not_inRange hsum h.2.1, relation.holds_sub]
  · rw [Int.sub_add_cancel]

/-- A comparison of a sum tree with an integer evaluates, and the result has the truth of the
comparison over exact integers precisely if the comparison is exact. -/
theorem exactTruthIn_evaluate_compare_iff {scope : Scope} {e : Expr} (he : IsSumTree scope e)
    (s place : Span) (relation : Relation) (n : IntLiteral) :
    ∃ v, evaluate scope (.compare s relation e (.literal place (.int n))) = .ok v ∧
      ∀ m, v.exactTruthIn m = relation.holds (e.exactIn m) n.toInt ↔
        e.ComparesExactly m relation n := by
  obtain ⟨e', he', hform⟩ := he.evaluateWith_eq_ok (runBody scope.remainingCalls)
  refine ⟨normalize s relation e' (.literal place (.int n)), ?_, fun m => ?_⟩
  · rw [evaluate, evaluateWith, he']
    rfl
  · rw [hform.exactTruthIn_normalize m s place relation n, ComparesExactly, he.exactIn_collected m,
      ReadSum.rest, toInt_offset_collected]
    simp only [isDecided_collected_iff]
    show (ite (e.signedReads = []) _ _ = _) ↔ _
    split
    · exact Iff.rfl
    · split <;> exact Iff.rfl

/-- A difference of reads with integers on both sides of it. -/
theorem exactTruthIn_evaluate_difference :
    let m : Memory := ⟨fun _ _ address => address⟩
    let byte (address : Int32) : Expr := .call .unknown "byte" [.int address]
    let e : Expr := .arith .unknown .subtract
      (.arith .unknown .add (.ofLiteral (.int (.ofWord 7))) (byte 5))
      (.arith .unknown .add (byte 3) (.int 2))
    IsSumTree (.root {}) e ∧
      ∃ v, evaluate (.root {}) (.compare .unknown .equal e (.int 7)) = .ok v ∧
        v.exactTruthIn m = true := by
  intro m byte e
  have hread (address : Int32) : IsSumTree (.root {}) (byte address) :=
    .call _ _ _ (Scope.hasBuiltins_root {} (.read .byte))
  have he : IsSumTree (.root {}) e := .arith _ (.inr rfl) (.arith _ (.inl rfl) (.int _ _) (hread 5))
    (.arith _ (.inl rfl) (hread 3) (.int _ _))
  have hreads : e.signedReads ≠ [] := List.cons_ne_nil _ _
  have hlower : -2147483648 ≤ e.constantPart := by
    simp only [e, byte]
    decide +kernel
  have hupper : e.constantPart < 2147483648 := by
    simp only [e, byte]
    decide +kernel
  have hsum : Word.InRange (e.exactIn m - e.constantPart) := by
    simp only [e, byte, m]
    decide +kernel
  have htruth : Relation.equal.holds (e.exactIn m) 7 = true := by
    simp only [e, byte, m]
    decide +kernel
  obtain ⟨v, hv, h⟩ :=
    exactTruthIn_evaluate_compare_iff he .unknown .unknown .equal (.signed 7)
  have hexact := (h m).2 (comparesExactly_of_fits hreads hlower hupper hsum)
  exact ⟨he, v, hv, hexact.trans htruth⟩

/-- Comparisons that are true and evaluate to false, although all subtrees are words: an integer
from `2 ^ 31` on wraps, and the sum of two reads is above all words before five is taken off. -/
theorem exactTruthIn_evaluate_compare_ne :
    (let m : Memory := ⟨fun _ _ _ => 1⟩
      let e : Expr := .arith .unknown .add (.call .unknown "byte" [.int 1])
        (.ofLiteral (.int (.ofWord 3000000000)))
      IsSumTree (.root {}) e ∧ e.InWordRange m ∧
        Relation.equal.holds (e.exactIn m) 3000000001 = true ∧
        ∃ v, evaluate (.root {}) (.compare .unknown .equal e
            (.ofLiteral (.int (.ofWord 3000000001)))) = .ok v ∧ v.exactTruthIn m = false) ∧
    (let m : Memory := ⟨fun _ _ address => if address = 0 then 4294967295 else 5⟩
      let e : Expr := .arith .unknown .add
        (.arith .unknown .subtract (.call .unknown "dword" [.int 0]) (.int 5))
        (.call .unknown "dword" [.int 4])
      IsSumTree (.root {}) e ∧ e.InWordRange m ∧
        Relation.equal.holds (e.exactIn m) 4294967295 = true ∧
        ∃ v, evaluate (.root {}) (.compare .unknown .equal e
            (.ofLiteral (.int (.ofWord 4294967295)))) = .ok v ∧ v.exactTruthIn m = false) := by
  refine ⟨?_, ?_⟩
  · intro m e
    have he : IsSumTree (.root {}) e := .arith _ (.inl rfl)
      (.call _ _ _ (Scope.hasBuiltins_root {} (.read .byte))) (.int _ _)
    refine ⟨he, ?_, ?_, _, rfl, ?_⟩ <;>
    · simp only [e, m]
      decide +kernel
  · intro m e
    have hread (address : Int32) :
        IsSumTree (.root {}) (.call .unknown "dword" [.int address]) :=
      .call _ _ _ (Scope.hasBuiltins_root {} (.read .doubleWord))
    have he : IsSumTree (.root {}) e :=
      .arith _ (.inl rfl) (.arith _ (.inr rfl) (hread 0) (.int _ _)) (hread 4)
    refine ⟨he, ?_, ?_, _, rfl, ?_⟩ <;>
    · simp only [e, m]
      decide +kernel

end Expr

end TriggerLang
