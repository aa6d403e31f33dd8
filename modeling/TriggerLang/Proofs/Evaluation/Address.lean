import TriggerLang.Proofs.Evaluation.Inversion
import TriggerLang.Proofs.Evaluation.Sum
import TriggerLang.Proofs.Lowering.Comparison
/-!
# Addresses are read where they point

An evaluated expression that is taken for an address becomes a read whose path computes the value of
the expression: a read is followed by one more row, a modified read is computed by its own rows, and
the offset of a sum becomes the field of the new read.  The runtime follows the path row by row, so
that the new read is at the value of the expression (`readsAt_atAddress`).

From this single step, nested reads and offsets in a script follow one pointer after the other, with
one row of the path for every inner read (`IsNesting.evaluateWith_eq_ok`).
-/

namespace TriggerLang

/-! ### Reads at an address -/

/-- The runtime reads the size at the address: after the rows of the path, the address is the field
of the operand plus the offset that is pending, modulo `2 ^ 32`. -/
structure MemoryRead.ReadsAt (r : MemoryRead) (size : ReadSize) (address : Memory → UInt32) :
    Prop where
  path : r.WellFormed
  operand : ∃ field, r.operand = .read size field ∧
    ∀ m, field + (Pending.run m {} r.path).offset = address m

namespace MemoryRead

variable {r : MemoryRead} {size : ReadSize} {address : Memory → UInt32}

/-- After the rows of its path a read is offset by what they yield. -/
theorem offset_run_path (hpath : r.WellFormed) (m : Memory) :
    (Pending.run m {} r.path).offset = r.baseIn m :=
  congrArg Pending.offset (r.run_path m hpath 0 true)

/-- A read at an address yields the word there. -/
theorem ReadsAt.valueIn_eq (h : r.ReadsAt size address) (m : Memory) :
    r.valueIn m = m.read .current size (address m) := by
  obtain ⟨field, hoperand, haddress⟩ := h.operand
  rw [← haddress m, offset_run_path h.path, valueIn, hoperand]
  rfl

/-! ### The value of a modified read as an address -/

/-- The path to the value of a modified read is well formed if its own path is. -/
theorem wellFormed_atModified {v : ModifiedRead} (hv : v.WellFormed) (size : ReadSize) :
    (atModified size v).WellFormed := by
  unfold atModified
  split
  · exact List.forall_mem_append.2 ⟨hv, List.forall_mem_singleton.2 rfl⟩
  · intro row hrow
    obtain ⟨row, -, rfl⟩ := List.mem_map.1 hrow
    exact Row.role_withRole row .addAddress

/-- The read at the value of a modified read adds nothing to that value. -/
theorem operand_atModified (size : ReadSize) (v : ModifiedRead) :
    (atModified size v).operand = .read size 0 := by
  unfold atModified
  split <;> rfl

/-- The path to the new read ends with the value of the modified read. -/
theorem baseIn_atModified (m : Memory) (size : ReadSize) (v : ModifiedRead) :
    (atModified size v).baseIn m = v.valueIn m := by
  unfold atModified
  split
  · rename_i hplain
    rw [ModifiedRead.valueIn_of_isPlain m hplain, baseIn, path_follow, List.foldl_append]
    rfl
  · rw [baseIn, List.foldl_map, ModifiedRead.rows, List.foldl_append]
    exact v.valueIn_valueRow m

/-- An offset of the new read is added to the value of the modified read. -/
theorem readsAt_withOffset {v : ModifiedRead} (hv : v.WellFormed) (size : ReadSize)
    (offset : UInt32) :
    ((atModified size v).withOffset offset).ReadsAt size fun m => v.valueIn m + offset := by
  have hpath : ((atModified size v).withOffset offset).WellFormed := wellFormed_atModified hv size
  refine ⟨hpath, offset, ?_, fun m => ?_⟩
  · rw [withOffset, operand_atModified, Operand.withValue_read]
  · rw [offset_run_path hpath, UInt32.add_comm]
    exact congrArg (· + offset) (baseIn_atModified m size v)

/-- The value of a modified read is read where it points. -/
theorem readsAt_atModified {v : ModifiedRead} (hv : v.WellFormed) (size : ReadSize) :
    (atModified size v).ReadsAt size fun m => v.valueIn m := by
  have hpath := wellFormed_atModified hv size
  refine ⟨hpath, 0, operand_atModified size v, fun m => ?_⟩
  rw [offset_run_path hpath, baseIn_atModified, UInt32.zero_add]

end MemoryRead

/-- The sum of one read has the word of the read. -/
theorem ReadSum.valueIn_single (m : Memory) (r : ModifiedRead) :
    (single r).valueIn m = r.valueIn m := by
  rw [valueIn, single, List.map_singleton, List.sum_singleton]
  exact UInt32.add_zero _

/-- An integer that is added to a sum is added to its word. -/
theorem ReadSum.valueIn_add_constant (m : Memory) (v : ReadSum) (offset : Int32) :
    (v.add (constant offset)).valueIn m = v.valueIn m + offset.toUInt32 := by
  rw [valueIn, valueIn, terms_add, constant, List.append_nil, UInt32.add_assoc,
    ← Int32.toUInt32_add]
  rfl

/-! ### Addresses -/

namespace Expr

/-- The evaluated expressions that are addresses. -/
inductive IsAddress : Expr → Prop
  | int (s : Span) (n : IntLiteral) : IsAddress (.literal s (.int n))
  | read (s : Span) (r : MemoryRead) : IsAddress (.read s r)
  | modified (s : Span) (v : ModifiedRead) : IsAddress (.modified s v)
  | sum (s : Span) {v : ReadSum} {r : ModifiedRead} (h : v.terms = [.added r]) :
      IsAddress (.sum s v)

/-- Nothing but an integer, a read, a modified read and a sum of one added read is accepted as an
address. -/
theorem exists_atAddress_iff {size : ReadSize} {address : Expr} :
    (∃ r, MemoryRead.atAddress size address = .ok r) ↔ address.IsAddress := by
  constructor
  · rintro ⟨r, h⟩
    unfold MemoryRead.atAddress at h
    rw [Outcome.within_eq_ok_iff] at h
    split at h
    · exact .int _ _
    · exact .read _ _
    · exact .modified _ _
    · split at h
      · rename_i hterm
        exact .sum _ (ReadSum.onlyTerm?_eq_some_iff.1 hterm)
      · exact absurd h Outcome.fail_ne_ok
    · exact absurd h Outcome.fail_ne_ok
  · intro h
    cases h with
    | int s n => exact ⟨_, rfl⟩
    | read s r => exact ⟨_, rfl⟩
    | modified s v => exact ⟨_, rfl⟩
    | sum s h =>
      rw [MemoryRead.atAddress, ReadSum.onlyTerm?_eq_some_iff.2 h]
      exact ⟨_, rfl⟩

/-- An address is read where it points. -/
theorem readsAt_atAddress {size : ReadSize} {address : Expr} {r : MemoryRead}
    (hreads : address.WellFormedReads) (h : MemoryRead.atAddress size address = .ok r) :
    r.ReadsAt size fun m => address.wordIn m := by
  unfold MemoryRead.atAddress at h
  rw [Outcome.within_eq_ok_iff] at h
  split at h
  · rename_i s n
    cases h
    refine ⟨List.forall_mem_nil _, n.word, rfl, fun m => ?_⟩
    exact UInt32.add_zero n.word
  · rename_i s r
    cases h
    exact MemoryRead.readsAt_atModified (v := .plain r) hreads size
  · rename_i s v
    cases h
    exact MemoryRead.readsAt_atModified hreads size
  · rename_i s v
    split at h
    · rename_i r hr
      cases h
      have hterms := ReadSum.onlyTerm?_eq_some_iff.1 hr
      have hr : r.WellFormed := hreads (.added r) (by rw [hterms]; exact List.mem_cons_self)
      have hword (m : Memory) : (Expr.sum s v).wordIn m = r.valueIn m + v.offset.toUInt32 := by
        show v.valueIn m = _
        rw [ReadSum.valueIn, hterms, List.map_singleton, List.sum_singleton]
        rfl
      simp only [hword]
      exact MemoryRead.readsAt_withOffset hr size v.offset.toUInt32
    · exact absurd h Outcome.fail_ne_ok
  · exact absurd h Outcome.fail_ne_ok

/-! ### Nested reads -/

/-- Reads nested in one another, with an integer inside and with offsets between them.  The sizes
are those of the reads from the inside out, and the word is what following the pointers one after
the other yields: every read takes it for its address. -/
inductive IsNesting : Expr → List ReadSize → (Memory → UInt32) → Prop
  | constant (s : Span) (n : IntLiteral) : IsNesting (.literal s (.int n)) [] fun _ => n.word
  | read (s : Span) (size : ReadSize) {e : Expr} {sizes : List ReadSize} {word : Memory → UInt32}
      (h : IsNesting e sizes word) :
      IsNesting (.call s (Builtin.read size).name [e]) (sizes ++ [size])
        fun m => m.read .current size (word m)
  | offset (s s' : Span) (n : IntLiteral) {e : Expr} {sizes : List ReadSize}
      {word : Memory → UInt32} (h : IsNesting e sizes word) :
      IsNesting (.arith s .add e (.literal s' (.int n))) sizes fun m => word m + n.word

/-- A sum with at most one read, and the sizes that are read along its path and at its end. -/
inductive IsPointer : ReadSum → List ReadSize → Prop
  | constant (offset : Int32) : IsPointer ⟨[], offset⟩ []
  | read {r : MemoryRead} (h : r.WellFormed) (offset : Int32) :
      IsPointer ⟨[.added (.plain r)], offset⟩ (r.path.map (·.left.size) ++ [r.operand.size])

/-- An expression that stands for a sum has its word. -/
theorem IsFormOf.wordIn_eq {e : Expr} {v : ReadSum} (h : IsFormOf e v) (m : Memory) :
    e.wordIn m = v.valueIn m := by
  cases h with
  | int s n => exact (UInt32.zero_add _).symm
  | read s r => exact (ReadSum.valueIn_single m (.plain r)).symm
  | modified s r => exact (ReadSum.valueIn_single m r).symm
  | sum s h => rfl

/-- An expression that stands for a well formed sum reads along well formed paths. -/
theorem IsFormOf.wellFormedReads {e : Expr} {v : ReadSum} (h : IsFormOf e v)
    (hv : v.WellFormed) : e.WellFormedReads := by
  cases h with
  | int s n => trivial
  | read s r => exact hv (.added (.plain r)) List.mem_cons_self
  | modified s r => exact hv (.added r) List.mem_cons_self
  | sum s h => exact hv

/-- The path of a pointer is well formed. -/
theorem IsPointer.wellFormed {v : ReadSum} {sizes : List ReadSize} (h : IsPointer v sizes) :
    v.WellFormed := by
  cases h with
  | constant offset => exact List.forall_mem_nil _
  | read hr offset => exact List.forall_mem_singleton.2 hr

/-- A pointer is an address, and the read there follows one row for every size of the pointer. -/
theorem IsPointer.exists_atAddress {e : Expr} {v : ReadSum} {sizes : List ReadSize}
    (h : IsPointer v sizes) (hform : IsFormOf e v) (size : ReadSize) :
    ∃ r, MemoryRead.atAddress size e = .ok r ∧ r.path.map (·.left.size) = sizes := by
  cases h with
  | constant offset =>
    obtain ⟨s, n, rfl, -⟩ := hform.eq_int rfl
    exact ⟨_, rfl, rfl⟩
  | @read r hr offset =>
    have hfollow : (r.follow size).path.map (·.left.size) =
        r.path.map (·.left.size) ++ [r.operand.size] := by
      rw [MemoryRead.path_follow, List.map_append]
      rfl
    generalize hv : (⟨[.added (.plain r)], offset⟩ : ReadSum) = v at hform
    cases hform with
    | int s n => cases hv
    | read s r' =>
      cases hv
      exact ⟨_, rfl, hfollow⟩
    | modified s r' =>
      cases hv
      exact ⟨_, rfl, hfollow⟩
    | sum s hne =>
      cases hv
      exact ⟨_, rfl, hfollow⟩

section

variable {run : BodyRule} {scope : Scope}

/-- A read function reads at the word of a pointer. -/
theorem IsPointer.exists_read (hscope : scope.HasBuiltins) {e e' : Expr} {v : ReadSum}
    {sizes : List ReadSize} (h : IsPointer v sizes) (hform : IsFormOf e' v)
    (he : evaluateWith run scope e = .ok e') (s : Span) (size : ReadSize) :
    ∃ r, evaluateWith run scope (.call s (Builtin.read size).name [e]) = .ok (.read s r) ∧
      (r.ReadsAt size fun m => v.valueIn m) ∧ r.path.map (·.left.size) = sizes := by
  obtain ⟨r, hr, hsizes⟩ := h.exists_atAddress hform size
  have hreads := readsAt_atAddress (hform.wellFormedReads h.wellFormed) hr
  simp only [hform.wordIn_eq] at hreads
  have hvalue : BuiltinValue run scope (Builtin.read size).name (.read size) [e]
      (.read .unknown r) := .read he hr
  exact ⟨r, evaluateWith_call_eq_ok_iff.2
    (.inl ⟨.read size, _, hscope (.read size), rfl, hvalue, rfl⟩), hreads, hsizes⟩

/-- Evaluation brings a nesting into a pointer with the same word. -/
theorem IsNesting.evaluateWith_eq_ok (hscope : scope.HasBuiltins) {e : Expr}
    {sizes : List ReadSize} {word : Memory → UInt32} (h : IsNesting e sizes word) :
    ∃ e' v, evaluateWith run scope e = .ok e' ∧ IsFormOf e' v ∧ IsPointer v sizes ∧
      ∀ m, v.valueIn m = word m := by
  induction h with
  | constant s n =>
    exact ⟨_, _, rfl, .int s n, .constant n.value, fun m => UInt32.zero_add _⟩
  | read s size h ih =>
    obtain ⟨e', v, he', hform, hpointer, hword⟩ := ih
    obtain ⟨r, hr, hreads, hsizes⟩ := hpointer.exists_read hscope hform he' s size
    refine ⟨_, _, hr, .read s r, ?_, fun m => ?_⟩
    · obtain ⟨field, hfield, -⟩ := hreads.operand
      have hpointer' := IsPointer.read hreads.path 0
      rw [hsizes, hfield] at hpointer'
      exact hpointer'
    · rw [ReadSum.valueIn_single, ModifiedRead.valueIn_plain, hreads.valueIn_eq, hword]
  | offset s s' n h ih =>
    obtain ⟨e', v, he', hform, hpointer, hword⟩ := ih
    obtain ⟨sum, hsum, hsumForm⟩ := hform.combine (.inl rfl) (.int s' n) s
    refine ⟨sum, _, evaluateWith_arith_eq_ok_iff.2 ⟨e', _, he', rfl, hsum⟩, hsumForm, ?_, ?_⟩
    · cases hpointer with
      | constant offset => exact .constant _
      | read hr offset => exact .read hr _
    · intro m
      exact (v.valueIn_add_constant m n.value).trans (congrArg (· + n.word) (hword m))

end

/-! ### Summary -/

/-- Addresses are read where they point, in a scope with the built-in functions.

The addresses are integers, reads, modified reads, and single added reads with an offset.  The read
of a size at one of them reads exactly this size at the value of the address.  A call of a read
function over nested reads and offsets evaluates to a read at the word that following the pointers
one after the other yields, and its path has one row for every inner read. -/
theorem addresses_read_where_they_point {scope : Scope} (hscope : scope.HasBuiltins) :
    (∀ size address, (∃ r, MemoryRead.atAddress size address = .ok r) ↔ address.IsAddress) ∧
    (∀ size address r, address.WellFormedReads → MemoryRead.atAddress size address = .ok r →
      r.ReadsAt size fun m => address.wordIn m) ∧
    ∀ e sizes word, IsNesting e sizes word → ∀ s size,
      ∃ r, evaluate scope (.call s (Builtin.read size).name [e]) = .ok (.read s r) ∧
        r.ReadsAt size word ∧ r.path.map (·.left.size) = sizes := by
  refine ⟨fun _ _ => exists_atAddress_iff, fun _ _ _ => readsAt_atAddress, ?_⟩
  intro e sizes word h s size
  obtain ⟨e', v, he', hform, hpointer, hword⟩ := h.evaluateWith_eq_ok hscope
  obtain ⟨r, hr, hreads, hsizes⟩ := hpointer.exists_read hscope hform he' s size
  simp only [hword] at hreads
  exact ⟨r, hr, hreads, hsizes⟩

/-- `word(byte(16))` under the factor 4 is an address, and so is the chain of
`byte(word(dword(32) + 4) + -2)`. -/
theorem addresses_read_where_they_point_chain :
    let call (size : ReadSize) (e : Expr) : Expr := .call .unknown (Builtin.read size).name [e]
    let add (e : Expr) (n : Int32) : Expr := .arith .unknown .add e (.int n)
    let scaled : ModifiedRead :=
      ⟨(MemoryRead.direct .byte 16).follow .word, some (.arith .multiply, .word 4)⟩
    let nested := add (call .word (add (call .doubleWord (.int 32)) 4)) (-2)
    (∃ r, MemoryRead.atAddress .word (.modified .unknown scaled) = .ok r ∧
      r.ReadsAt .word fun m =>
        m.read .current .word (0 + m.read .current .byte 16) * 4) ∧
    ∃ r, evaluate (.root {}) (call .byte nested) = .ok (.read .unknown r) ∧
      (r.ReadsAt .byte fun m =>
        m.read .current .word (m.read .current .doubleWord 32 + 4) + 4294967294) ∧
      r.path.map (·.left.size) = [.doubleWord, .word] := by
  intro call add scaled nested
  obtain ⟨-, haddress, hnesting⟩ := addresses_read_where_they_point (Scope.hasBuiltins_root {})
  have hpath : (Expr.modified .unknown scaled).WellFormedReads :=
    show scaled.WellFormed by decide
  have hnested : IsNesting nested [.doubleWord, .word] _ :=
    .offset _ _ _ (.read _ _ (.offset _ _ _ (.read _ _ (.constant _ _))))
  refine ⟨⟨_, rfl, ?_⟩, hnesting _ _ _ hnested .unknown .byte⟩
  exact haddress _ _ _ hpath rfl

end Expr

end TriggerLang
