import TriggerLang.Proofs.Evaluation.Sum
/-!
# Sums are collected without loss

A sum tree has its reads and its integers at the leaves.  A leaf counts with a negative sign if it
stands on the right side of an odd number of differences, so that the number of these differences is
all that has to be known of its place in the tree.

Evaluation keeps every read, in order and with its sign, and adds up the integers with theirs.  The
tree and its value therefore have the same word in every state of memory.
-/

namespace TriggerLang

/-- A leaf of a tree of sums and differences. -/
structure Leaf where
  expr : Expr
  /-- The number of differences on whose right side the leaf stands. -/
  differences : Nat

namespace Leaf

/-- The same leaf on the right side of one more difference. -/
def deeper (l : Leaf) : Leaf :=
  ⟨l.expr, l.differences + 1⟩

/-- Whether the leaf stands on the right side of an odd number of differences. -/
def isSubtracted (l : Leaf) : Bool :=
  l.differences % 2 == 1

/-- The read that the leaf is, with its sign. -/
def term? (l : Leaf) : Option Term :=
  l.expr.read?.map fun r => ⟨.plain r, l.isSubtracted⟩

/-- The integer that the leaf is, with its sign; a read adds none. -/
def integer (l : Leaf) : Int :=
  let n := (l.expr.int?.map IntLiteral.toInt).getD 0
  if l.isSubtracted then -n else n

/-- One more difference gives a leaf the other sign. -/
theorem isSubtracted_deeper (l : Leaf) : l.deeper.isSubtracted = !l.isSubtracted := by
  unfold isSubtracted deeper
  rcases Nat.mod_two_eq_zero_or_one l.differences with h | h
  · simp [Nat.add_mod, h]
  · simp [Nat.add_mod, h]

/-- One more difference gives the read of a leaf the other sign. -/
theorem term?_deeper (l : Leaf) : l.deeper.term? = l.term?.map Term.negate := by
  unfold term?
  rw [isSubtracted_deeper, Option.map_map]
  rfl

/-- One more difference gives the integer of a leaf the other sign. -/
theorem integer_deeper (l : Leaf) : l.deeper.integer = -l.integer := by
  unfold integer
  rw [isSubtracted_deeper]
  cases l.isSubtracted with
  | false => rfl
  | true => exact (Int.neg_neg _).symm

/-- One more difference gives the sum of the integers the other sign. -/
theorem sum_integer_deeper (ls : List Leaf) :
    ((ls.map deeper).map integer).sum = -(ls.map integer).sum := by
  induction ls with
  | nil => rfl
  | cons l ls ih =>
    rw [List.map_cons, List.map_cons, List.sum_cons, ih, integer_deeper, List.map_cons,
      List.sum_cons, Int.neg_add]

end Leaf

namespace Expr

/-- The leaves of a tree from left to right. -/
def leaves : Expr → List Leaf
  | .arith _ .add left right => left.leaves ++ right.leaves
  | .arith _ .subtract left right => left.leaves ++ right.leaves.map Leaf.deeper
  | e => [⟨e, 0⟩]

/-- The reads of a tree are those of its leaves. -/
theorem signedReads_eq_leaves (e : Expr) : e.signedReads = e.leaves.filterMap Leaf.term? := by
  fun_induction leaves e with
  | case1 s left right ihl ihr => rw [signedReads, ihl, ihr, List.filterMap_append]
  | case2 s left right ihl ihr =>
    have hright : (right.leaves.map Leaf.deeper).filterMap Leaf.term? =
        (right.leaves.filterMap Leaf.term?).map Term.negate := by
      rw [List.filterMap_map, List.map_filterMap]
      exact congrArg (List.filterMap · _) (funext Leaf.term?_deeper)
    rw [signedReads, ihl, ihr, List.filterMap_append, hright]
  | case3 e hadd hsubtract =>
    rw [signedReads.eq_3 e hadd hsubtract, List.filterMap_cons]
    cases hread : e.read? <;> simp [Leaf.term?, Leaf.isSubtracted, Term.added, hread]

/-- The integers of a tree are those of its leaves. -/
theorem constantPart_eq_leaves (e : Expr) :
    e.constantPart = (e.leaves.map Leaf.integer).sum := by
  fun_induction leaves e with
  | case1 s left right ihl ihr =>
    rw [constantPart, ihl, ihr, List.map_append, List.sum_append]
  | case2 s left right ihl ihr =>
    rw [constantPart, ihl, ihr, List.map_append, List.sum_append, Leaf.sum_integer_deeper]
    exact Int.sub_eq_add_neg
  | case3 e hadd hsubtract =>
    have hinteger : (Leaf.mk e 0).integer = (e.int?.map IntLiteral.toInt).getD 0 := rfl
    rw [List.map_singleton, List.sum_singleton, hinteger]
    cases e with
    | literal s v => cases v <;> rfl
    | arith s op left right =>
      cases op with
      | add => exact absurd rfl (hadd s left right)
      | subtract => exact absurd rfl (hsubtract s left right)
      | _ => rfl
    | _ => rfl

/-! ### Evaluation -/

/-- A tree with a read evaluates to the smallest expression of what is collected from it. -/
theorem IsSumTree.evaluateWith_eq_toExpr (run : BodyRule) {scope : Scope} {e : Expr}
    (he : IsSumTree scope e) (hreads : e.signedReads ≠ []) :
    evaluateWith run scope e = .ok (e.collected.toExpr.moveTo e.span) := by
  cases he with
  | int s n => exact absurd rfl hreads
  | read s r => rfl
  | @call s s' size n h =>
    rw [collected_of_read? (read?_call s s' size n), evaluateWith, h]
    rfl
  | @arith s op hop left right hleft hright =>
    obtain ⟨l, hl, hlform⟩ := hleft.evaluateWith_eq_ok run
    obtain ⟨r, hr, hrform⟩ := hright.evaluateWith_eq_ok run
    have hmerged := collected_arith hop s left right
    have hne : ¬ (left.collected.terms = [] ∧ right.collected.terms = []) := by
      rw [← terms_mergeSums_eq_nil_iff op, ← hmerged]
      exact hreads
    have hmemory := hlform.isMemory_or hrform hne
    have hform := onMemory?_eq_mergeSums hop hmemory hlform.ofExpr? hrform.ofExpr?
    have hcombine := combine_of_isMemory hmemory hform s
    rw [evaluateWith, hl, hr, hmerged]
    exact Outcome.within_eq_ok_iff.2 hcombine

/-- The expression of a sum has the word of the sum at any span. -/
theorem wordIn_moveTo_toExpr (m : Memory) (v : ReadSum) (s : Span) :
    (v.toExpr.moveTo s).wordIn m = v.valueIn m := by
  rw [← v.wordIn_toExpr m]
  exact v.toExpr_induction (P := fun e => (e.moveTo s).wordIn m = e.wordIn m) (fun _ => rfl)
    (fun _ => rfl) (fun _ => rfl) fun _ => rfl

/-- What is collected from a tree has the word of its exact value. -/
theorem IsSumTree.valueIn_collected (m : Memory) {scope : Scope} {e : Expr}
    (he : IsSumTree scope e) : e.collected.valueIn m = UInt32.ofInt (e.exactIn m) := by
  rw [ReadSum.valueIn_eq_ofInt, he.exactIn_collected m]
  apply UInt32.toNat.inj
  have hcollected := Word.toNat_ofInt
    (e.exactIn m - e.constantPart + e.constantPart.bmod 4294967296)
  have hexact := Word.toNat_ofInt (e.exactIn m)
  have hwrapped := Int.bmod_emod (x := e.constantPart) (m := 4294967296)
  omega

/-- The only term of a sum tree is a read without an operator. -/
theorem isPlain_of_mem_signedReads {e : Expr} {t : Term} (h : t ∈ e.signedReads) :
    t.read.isPlain = true := by
  rw [signedReads_eq_leaves] at h
  obtain ⟨l, -, hl⟩ := List.mem_filterMap.1 h
  obtain ⟨r, -, rfl⟩ := Option.map_eq_some_iff.1 hl
  rfl

/-- A tree of sums and differences with a read evaluates to a read or a sum.  Its terms are the
reads of the tree from left to right, and its offset is the sum of the integers modulo `2 ^ 32`; a
leaf is subtracted exactly if it stands on the right side of an odd number of differences.  So the
word of the result is that of the tree. -/
theorem evaluate_collects_leaves {scope : Scope} {e : Expr} (he : IsSumTree scope e)
    (hread : ∃ l ∈ e.leaves, l.expr.read? ≠ none) :
    ∃ v t, evaluate scope e = .ok v ∧
      ((∃ s r, v = .read s r ∧ t = .single (.plain r)) ∨ ∃ s, v = .sum s t) ∧
      t.terms = e.leaves.filterMap Leaf.term? ∧
      t.offset = Int32.ofInt (e.leaves.map Leaf.integer).sum ∧
      ∀ m, v.wordIn m = UInt32.ofInt (e.exactIn m) := by
  have hreads : e.signedReads ≠ [] := by
    obtain ⟨l, hl, hlread⟩ := hread
    obtain ⟨r, hr⟩ := Option.ne_none_iff_exists'.1 hlread
    have hterm : l.term? = some ⟨.plain r, l.isSubtracted⟩ := by rw [Leaf.term?, hr]; rfl
    rw [signedReads_eq_leaves]
    exact List.ne_nil_of_mem (List.mem_filterMap.2 ⟨l, hl, hterm⟩)
  have hvalue := he.evaluateWith_eq_toExpr (runBody scope.remainingCalls) hreads
  refine ⟨_, e.collected, hvalue, ?_, signedReads_eq_leaves e,
    congrArg Int32.ofInt (constantPart_eq_leaves e), fun m => ?_⟩
  · obtain ⟨hterms, -⟩ | ⟨r, hterms, hoffset, htoExpr⟩ | ⟨-, htoExpr⟩ := e.collected.toExpr_cases
    · exact absurd hterms hreads
    · have hplain : r.isPlain = true :=
        isPlain_of_mem_signedReads (t := .added r) (hterms ▸ List.mem_singleton_self _)
      have hsingle : e.collected = .single (.plain r.read) := by
        rw [ReadSum.eq_single hterms hoffset, ← ModifiedRead.eq_plain_of_isPlain hplain]
      rw [htoExpr, ModifiedRead.toExpr, if_pos hplain, hsingle]
      exact .inl ⟨e.span, r.read, rfl, rfl⟩
    · rw [htoExpr]
      exact .inr ⟨e.span, rfl⟩
  · rw [wordIn_moveTo_toExpr, he.valueIn_collected m]

/-- `4294967295U - (byte(5) - (3 + word(2))) - byte(5)`, in which a read occurs twice and the
integers add up to more than a word. -/
theorem evaluate_collects_leaves_nested :
    let m : Memory := ⟨fun _ _ address => address⟩
    let call (name : String) (address : Int32) : Expr := .call .unknown name [.int address]
    let e : Expr := .arith .unknown .subtract
      (.arith .unknown .subtract (.ofLiteral (.int (.ofWord 4294967295)))
        (.arith .unknown .subtract (call "byte" 5)
          (.arith .unknown .add (.int 3) (call "word" 2))))
      (call "byte" 5)
    let term (size : ReadSize) (address : UInt32) (subtracted : Bool) : Term :=
      ⟨.plain (.direct size address), subtracted⟩
    let v : Expr := .sum .unknown ⟨[term .byte 5 true, term .word 2 false, term .byte 5 true], 2⟩
    IsSumTree (.root {}) e ∧ (∃ l ∈ e.leaves, l.expr.read? ≠ none) ∧
      evaluate (.root {}) e = .ok v ∧ v.wordIn m = 4294967290 := by
  intro m call e term v
  have hbyte : IsSumTree (.root {}) (call "byte" 5) :=
    .call _ _ _ (Scope.hasBuiltins_root {} (.read .byte))
  have hword : IsSumTree (.root {}) (call "word" 2) :=
    .call _ _ _ (Scope.hasBuiltins_root {} (.read .word))
  have he : IsSumTree (.root {}) e := .arith _ (.inr rfl) (.arith _ (.inr rfl) (.int _ _)
    (.arith _ (.inr rfl) hbyte (.arith _ (.inl rfl) (.int _ _) hword))) hbyte
  have hread : ∃ l ∈ e.leaves, l.expr.read? ≠ none :=
    ⟨⟨call "byte" 5, 1⟩, by simp [e, leaves, Leaf.deeper, call], nofun⟩
  obtain ⟨w, t, hw, -, -, -, hvalue⟩ := evaluate_collects_leaves he hread
  have hv : evaluate (.root {}) e = .ok v := rfl
  obtain rfl : v = w := Except.ok.inj (hv.symm.trans hw)
  refine ⟨he, hread, hv, ?_⟩
  rw [hvalue m]
  simp only [e, call, m]
  decide +kernel

end Expr

end TriggerLang
