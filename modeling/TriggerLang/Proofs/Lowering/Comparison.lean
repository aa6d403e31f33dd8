import TriggerLang.Proofs.Meaning
import TriggerLang.Proofs.Success
/-!
# Meaning of lowered comparisons

A comparison of reads is lowered to rows that end in one comparing row.  The rows before it follow
the path of each term and add its value to what is pending, so that the comparing row sees the value
of the whole left side; its right operand is read through the path that was followed last.

A group *decides* a truth value when it is one chain of rows whose verdict is that value.  The main
statement is that a lowered comparison decides the comparison of the values of its sides.
-/

namespace TriggerLang

/-! ### Rows that add up -/

namespace Pending

/-- A path leaves as offset what its rows yield one after another. -/
theorem run_path (m : Memory) {path : List Row} (h : ∀ row ∈ path, row.role = .addAddress)
    (p : Pending) : p.run m path = { p with offset := path.foldl (Row.valueIn m) p.offset } := by
  induction path generalizing p with
  | nil => rfl
  | cons row path ih =>
    have hpath : ∀ row ∈ path, row.role = .addAddress := fun r hr => h r (List.mem_cons_of_mem _ hr)
    rw [run_cons, next_of_addAddress m p (h row List.mem_cons_self), ih hpath, List.foldl_cons]

end Pending

/-- The path of a read leaves as offset the address that its operand is read behind. -/
theorem MemoryRead.run_path (m : Memory) {r : MemoryRead} (h : r.WellFormed) (sum : UInt32)
    (joined : Bool) : Pending.run m ⟨0, sum, joined⟩ r.path = ⟨r.baseIn m, sum, joined⟩ :=
  Pending.run_path m h ⟨0, sum, joined⟩

namespace Term

/-- The rows of a term add its value to the pending sum. -/
theorem run_rowsAs (m : Memory) {t : Term} (h : t.read.WellFormed) (sum : UInt32) (joined : Bool) :
    Pending.run m ⟨0, sum, joined⟩ (t.read.rowsAs t.role) = ⟨0, sum + t.valueIn m, joined⟩ := by
  have hvalue (role : Role) : (t.read.valueRow.withRole role).valueIn m (t.read.read.baseIn m) =
      t.read.valueIn m := t.read.valueIn_valueRow m
  rw [ModifiedRead.rowsAs, Pending.run_append, t.read.read.run_path m h, Pending.run_cons,
    Pending.run_nil]
  cases hsign : t.subtracted with
  | false =>
    rw [Pending.next_of_addSource m _ (by simp [role, hsign]), hvalue, valueIn, hsign]
    rfl
  | true =>
    rw [Pending.next_of_subSource m _ (by simp [role, hsign]), hvalue, valueIn, hsign,
      UInt32.sub_eq_add_neg]
    rfl

end Term

namespace ReadSum

/-- The rows of terms add the value of each to the pending sum. -/
theorem run_termRows (m : Memory) {terms : List Term} (h : ∀ t ∈ terms, t.read.WellFormed)
    (sum : UInt32) (joined : Bool) :
    Pending.run m ⟨0, sum, joined⟩ (termRows terms) =
      ⟨0, sum + (terms.map (Term.valueIn m)).sum, joined⟩ := by
  induction terms generalizing sum with
  | nil =>
    show (⟨0, sum, joined⟩ : Pending) = ⟨0, sum + 0, joined⟩
    rw [UInt32.add_zero]
  | cons t terms ih =>
    have hrows : termRows (t :: terms) = t.read.rowsAs t.role ++ termRows terms := rfl
    rw [hrows, Pending.run_append, Term.run_rowsAs m (h t List.mem_cons_self),
      ih fun t' ht' => h t' (List.mem_cons_of_mem _ ht'), List.map_cons, List.sum_cons,
      UInt32.add_assoc]

/-- The row of an offset adds it to the pending sum, also where it subtracts its size. -/
theorem run_offsetRows (m : Memory) (s : ReadSum) (sum : UInt32) (joined : Bool) :
    Pending.run m ⟨0, sum, joined⟩ s.offsetRows = ⟨0, sum + s.offset.toUInt32, joined⟩ := by
  have hword : s.offset.toUInt32 = UInt32.ofInt s.offset.toInt := (Word.ofInt_toInt s.offset).symm
  have hzero : (0 : Int32).toInt = 0 := rfl
  unfold offsetRows
  split
  · rename_i hoffset
    rw [hoffset, Pending.run_nil]
    show (⟨0, sum, joined⟩ : Pending) = ⟨0, sum + 0, joined⟩
    rw [UInt32.add_zero]
  · rw [Pending.run_cons, Pending.run_nil, hword, offsetSize]
    split
    · rename_i hneg
      have hsize : s.offset.toInt = -(s.offset.toInt.natAbs : Int) := by
        rw [Int32.lt_iff_toInt_lt] at hneg
        omega
      rw [Pending.next_of_subSource m _ rfl]
      conv => rhs; rw [hsize, UInt32.ofInt_neg, Word.ofInt_natCast, ← UInt32.sub_eq_add_neg]
      rfl
    · rename_i hnonneg
      have hsize : s.offset.toInt = (s.offset.toInt.natAbs : Int) := by
        rw [Int32.lt_iff_toInt_lt] at hnonneg
        omega
      rw [Pending.next_of_addSource m _ rfl]
      conv => rhs; rw [hsize, Word.ofInt_natCast]
      rfl

end ReadSum

/-! ### Rows that end no chain -/

/-- The rows of a path end no chain, since each offsets the address of the next row. -/
theorem MemoryRead.endsChain_path {r : MemoryRead} (h : r.WellFormed) :
    ∀ row ∈ r.path, row.role.endsChain = false := by
  intro row hrow
  rw [h row hrow]
  rfl

/-- The rows of a term end no chain, since the last one adds to or subtracts from what follows. -/
theorem Term.endsChain_rowsAs {t : Term} (h : t.read.WellFormed) :
    ∀ row ∈ t.read.rowsAs t.role, row.role.endsChain = false := by
  intro row hrow
  rw [ModifiedRead.rowsAs, List.mem_append, List.mem_singleton] at hrow
  obtain hrow | rfl := hrow
  · exact MemoryRead.endsChain_path h row hrow
  · rw [Row.role_withRole, role]
    split <;> rfl

/-- The rows of all terms end no chain. -/
theorem ReadSum.endsChain_termRows {terms : List Term} (h : ∀ t ∈ terms, t.read.WellFormed) :
    ∀ row ∈ termRows terms, row.role.endsChain = false := by
  intro row hrow
  obtain ⟨t, ht, hrow⟩ := List.mem_flatMap.1 hrow
  exact Term.endsChain_rowsAs (h t ht) row hrow

/-- The row of an offset ends no chain. -/
theorem ReadSum.endsChain_offsetRows (s : ReadSum) :
    ∀ row ∈ s.offsetRows, row.role.endsChain = false := by
  intro row hrow
  unfold offsetRows at hrow
  split at hrow
  · cases hrow
  · rw [List.mem_singleton] at hrow
    rw [hrow]
    show Role.endsChain (if s.offset < 0 then .subSource else .addSource) = false
    split <;> rfl

/-! ### Left and right sides -/

/-- A left side reads a word when its rows end no chain, follow its path last, and leave the rest of
the word to the pending sum. -/
structure LeftSide.Reads (m : Memory) (side : LeftSide) (w : UInt32) : Prop where
  endsChain : ∀ row ∈ side.rows, row.role.endsChain = false
  run : ∃ sum, (∀ joined, Pending.run m ⟨0, 0, joined⟩ side.rows =
      ⟨side.path.foldl (Row.valueIn m) 0, sum, joined⟩) ∧
    side.operand.valueIn m (side.path.foldl (Row.valueIn m) 0) + sum = w

/-- The reads of an operand have well formed paths. -/
def Expr.WellFormedReads : Expr → Prop
  | .read _ r => r.WellFormed
  | .modified _ r => r.WellFormed
  | .sum _ s => s.WellFormed
  | _ => True

/-- The term that a sum leaves to the comparing row and the rows of all others add up to the sum,
wherever that term stands. -/
theorem ReadSum.reads_leftSide (m : Memory) {s : ReadSum} (h : s.WellFormed) :
    s.leftSide.Reads m (s.valueIn m) := by
  unfold leftSide
  split
  · -- A bare term is left to the comparing row, and the rows bring the terms around it.
    rename_i t others htake
    obtain ⟨before, after, hterms, rfl, hbare, -⟩ := LastElement.take?_eq_some htake
    have ht : t.read.WellFormed := h t (by simp [hterms])
    have hothers : ∀ t' ∈ before ++ after, t'.read.WellFormed := by
      intro t' ht'
      apply h t'
      rw [hterms, List.mem_append, List.mem_cons]
      exact (List.mem_append.1 ht').imp id .inr
    have hvalue : t.valueIn m = t.read.read.valueIn m := by
      rw [Term.isBare, Bool.and_eq_true, Bool.not_eq_true'] at hbare
      rw [Term.valueIn, hbare.1, ModifiedRead.valueIn_of_isPlain m hbare.2]
      rfl
    refine ⟨?_, 0 + ((before ++ after).map (Term.valueIn m)).sum + s.offset.toUInt32,
      fun joined => ?_, ?_⟩
    · intro row hrow
      rw [List.mem_append, List.mem_append] at hrow
      obtain (hrow | hrow) | hrow := hrow
      · exact endsChain_termRows hothers row hrow
      · exact s.endsChain_offsetRows row hrow
      · exact MemoryRead.endsChain_path ht row hrow
    · rw [Pending.run_append, Pending.run_append, run_termRows m hothers, run_offsetRows,
        MemoryRead.run_path m ht]
      rfl
    · show t.read.read.valueIn m + _ = _
      rw [← hvalue, valueIn, hterms, List.map_append, List.sum_append, List.map_append,
        List.sum_append, List.map_cons, List.sum_cons]
      grind
  · refine ⟨?_, 0 + (s.terms.map (Term.valueIn m)).sum + s.offset.toUInt32, fun joined => ?_, ?_⟩
    · intro row hrow
      rw [List.mem_append] at hrow
      obtain hrow | hrow := hrow
      · exact endsChain_termRows h row hrow
      · exact s.endsChain_offsetRows row hrow
    · rw [Pending.run_append, run_termRows m h, run_offsetRows]
      rfl
    · show 0 + (0 + _ + _) = _
      rw [UInt32.zero_add, UInt32.zero_add, valueIn]

/-- The left side of a comparison reads the value of the expression. -/
theorem LeftSide.reads_of_leftSide? (m : Memory) {e : Expr} {side : LeftSide}
    (h : e.leftSide? = some side) (hreads : e.WellFormedReads) : side.Reads m (e.wordIn m) := by
  cases e with
  | read s r =>
    cases h
    refine ⟨MemoryRead.endsChain_path hreads, 0, r.run_path m hreads 0, ?_⟩
    exact UInt32.add_zero _
  | modified s r =>
    cases h
    have hterm : (Term.added r).read.WellFormed := hreads
    refine ⟨Term.endsChain_rowsAs hterm, _, Term.run_rowsAs m hterm 0, ?_⟩
    show 0 + (0 + r.valueIn m) = r.valueIn m
    rw [UInt32.zero_add, UInt32.zero_add]
  | sum s t =>
    cases h
    exact t.reads_leftSide m hreads
  | _ => cases h

/-- The right side of a comparison with an integer or a read. -/
inductive Expr.IsComparand : Expr → Prop
  | int (s : Span) (n : IntLiteral) : IsComparand (.literal s (.int n))
  | read (s : Span) (r : MemoryRead) : IsComparand (.read s r)

/-- The right operand has the value of the expression, once the path of the left side is followed.
-/
theorem Expr.valueIn_of_rightOperand (m : Memory) {path : List Row} {e : Expr} {o : Operand}
    (he : e.IsComparand) (h : rightOperand path e = .ok o) :
    o.valueIn m (path.foldl (Row.valueIn m) 0) = e.wordIn m := by
  unfold rightOperand at h
  rw [Outcome.within_eq_ok_iff] at h
  cases he with
  | int s n =>
    cases h
    rfl
  | read s r =>
    dsimp only at h
    split at h
    · rename_i hpath
      cases h
      rw [← hpath]
      rfl
    · cases h

/-! ### Comparisons -/

namespace Expr

/-- What a lowered comparison emits. -/
theorem run_lower_compare_eq_ok_iff {scope : Scope} {s : Span} {relation : Relation}
    {left right : Expr} {before after : List Row} :
    (lower scope (.compare s relation left right)).run before = .ok () after ↔
      ∃ side o, left.leftSide? = some side ∧ rightOperand side.path right = .ok o ∧
        after = before ++ (side.rows ++ [.compare side.operand relation o]) := by
  rw [lower, Building.run_within_eq_ok_iff, lowerComparison]
  cases hside : left.leftSide? with
  | none =>
    dsimp only
    rw [Building.run_within_eq_ok_iff]
    constructor
    · intro h
      exact absurd h Building.run_fail_ne_ok
    · rintro ⟨side, o, h, -⟩
      cases h
  | some side =>
    dsimp only
    rw [Building.run_bind_eq_ok_iff]
    constructor
    · rintro ⟨⟨⟩, rows, hemit, h⟩
      rw [Building.run_bind_eq_ok_iff] at h
      obtain ⟨o, rows', ho, hpush⟩ := h
      rw [Building.run_ofOutcome_eq_ok_iff] at ho
      obtain ⟨ho, rfl⟩ := ho
      cases hemit
      cases hpush
      exact ⟨side, o, rfl, ho, List.append_assoc _ _ _⟩
    · rintro ⟨side', o, hsome, ho, rfl⟩
      cases hsome
      refine ⟨(), before ++ side.rows, rfl, ?_⟩
      rw [Building.run_bind_eq_ok_iff]
      refine ⟨o, _, Building.run_ofOutcome_eq_ok_iff.2 ⟨ho, rfl⟩, ?_⟩
      rw [← List.append_assoc]
      rfl

/-- The rows of a comparison decide the comparison of the values of its sides. -/
theorem decides_of_lower_compare {scope : Scope} {s : Span} {relation : Relation}
    {left right : Expr} (hreads : left.WellFormedReads) (hright : right.IsComparand)
    {before after : List Row}
    (h : (lower scope (.compare s relation left right)).run before = .ok () after) :
    ∃ g, after = before ++ g ∧
      ∀ m, Group.Decides m g (relation.holds (left.wordIn m) (right.wordIn m)) := by
  obtain ⟨side, o, hside, ho, rfl⟩ := run_lower_compare_eq_ok_iff.1 h
  refine ⟨_, rfl, fun m => ?_⟩
  obtain ⟨hends, sum, hrun, hvalue⟩ := LeftSide.reads_of_leftSide? m hside hreads
  refine ⟨side.rows, .compare side.operand relation o, rfl, rfl, hends, fun joined => ?_⟩
  rw [hrun joined, ← hvalue, ← valueIn_of_rightOperand m hright ho]
  rfl

/-- A lowered comparison of reads is faithful: in every state of memory its rows have one verdict,
the comparison of the values of the two sides. -/
theorem verdicts_group_compare {scope : Scope} {s : Span} {relation : Relation}
    {left right : Expr} (hreads : left.WellFormedReads) (hright : right.IsComparand) {g : Group}
    (h : Expr.group scope (.compare s relation left right) = .ok g) (m : Memory) :
    (Group.verdicts m g).map Prod.snd = [relation.holds (left.wordIn m) (right.wordIn m)] := by
  rw [Expr.group, Building.build_eq_ok_iff] at h
  obtain ⟨g', rfl, hdecides⟩ := decides_of_lower_compare hreads hright h
  obtain ⟨row, hrow⟩ := (hdecides m).verdicts_eq
  rw [hrow]
  rfl

/-- A sum that keeps its middle term for the comparing row, through a pointer that both sides
follow. -/
theorem verdicts_sum_through_pointer :
    let m : Memory := ⟨fun _ _ address => address + 7⟩
    let pointer := (MemoryRead.direct .word 16).follow .byte
    let left := Expr.sum .unknown
      ⟨[⟨⟨.direct .byte 1, some (.arith .multiply, .word 3)⟩, true⟩, .added (.plain pointer),
        .added ⟨pointer, some (.arith .bitAnd, .read .byte 2)⟩], Int32.minValue⟩
    let right := Expr.read .unknown (pointer.withOffset 4)
    left.WellFormedReads ∧ right.IsComparand ∧
      ∃ g, Expr.group (.root {}) (.compare .unknown .greater left right) = .ok g ∧
        (Group.verdicts m g).map Prod.snd = [true] := by
  intro m pointer left right
  have hreads : left.WellFormedReads :=
    show ReadSum.WellFormed ⟨[_, _, _], _⟩ by decide
  have hgroup : Expr.group (.root {}) (.compare .unknown .greater left right) = .ok _ := rfl
  have htruth : Relation.greater.holds (left.wordIn m) (right.wordIn m) = true := by
    simp only [left, right, pointer, m]
    decide +kernel
  have hverdicts := verdicts_group_compare hreads (.read _ _) hgroup m
  exact ⟨hreads, .read _ _, _, hgroup, hverdicts.trans (congrArg (fun b => [b]) htruth)⟩

end Expr

end TriggerLang
