import TriggerLang.Proofs.Evaluation.Invariant
import TriggerLang.Proofs.Lowering.Local
/-!
# Lowered rows are programs

A runtime reads the rows of a group in order, and a row whose role does not go with its operator, or
a combining row with nothing after it, is silently misread.  A group is a *program* when neither
occurs.

Rows are emitted in many places and changed in place later.  The invariant that carries this module
is that each lowering that succeeds emits a program of its own; the changes are made to the last row
only, and that row compares and may take the new role or hit count.
-/

namespace TriggerLang

/-! ### Programs -/

namespace Role

/-- Whether a row of this role brings a value to the next row. -/
def bringsValue : Role → Bool
  | addAddress | addSource | subSource => true
  | plain | resetIf | pauseIf | addHits | subHits | andNext | orNext | resetNextIf | measured
  | measuredIf | trigger => false

/-- Whether a row of this role is a condition, in one of the roles that lowering gives. -/
def isCondition : Role → Bool
  | plain | andNext | addHits | resetIf | pauseIf => true
  | addSource | subSource | subHits | orNext | addAddress | resetNextIf | measured | measuredIf
  | trigger => false

/-- Whether a row of this role may be the last one of a group. -/
def endsGroup : Role → Bool
  | plain | resetIf | pauseIf => true
  | addSource | subSource | addHits | subHits | andNext | orNext | addAddress | resetNextIf
  | measured | measuredIf | trigger => false

/-- A row may be the last one exactly if it is a condition and has nothing after it to change. -/
theorem endsGroup_iff {role : Role} :
    role.endsGroup = true ↔ role.isCondition = true ∧ role.isCombining = false := by
  cases role <;> decide

/-- A condition brings no value to the next row. -/
theorem bringsValue_eq_false_of_isCondition {role : Role} (h : role.isCondition = true) :
    role.bringsValue = false := by
  revert h
  cases role <;> decide

end Role

/-- The role of a row goes with its operator: a row that brings a value to the next one compares
nothing and counts no hits, and a condition compares.  There are no other roles. -/
def Row.IsWellFormed (row : Row) : Prop :=
  row.role.bringsValue = true ∧ row.op.isRelation = false ∧ row.hits = 0 ∨
    row.role.isCondition = true ∧ row.op.isRelation = true

/-- All rows are well formed, and the last one is a condition of the group or guards it. -/
def Group.IsProgram (g : Group) : Prop :=
  (∀ row ∈ g, row.IsWellFormed) ∧ ∃ rows last, g = rows ++ [last] ∧ last.role.endsGroup = true

namespace Row

variable {row : Row}

/-- A row of one operand, in a role that brings a value, is well formed. -/
theorem isWellFormed_single {role : Role} (h : role.bringsValue = true) (left : Operand) :
    (single role left).IsWellFormed :=
  .inl ⟨h, rfl, rfl⟩

/-- A plain comparing row is well formed. -/
theorem isWellFormed_compare (left : Operand) (r : Relation) (right : Operand) :
    (compare left r right).IsWellFormed :=
  .inr ⟨rfl, rfl⟩

/-- Among well-formed rows, a condition compares. -/
theorem IsWellFormed.isRelation (h : row.IsWellFormed) (hrole : row.role.isCondition = true) :
    row.op.isRelation = true := by
  obtain ⟨hvalue, -⟩ | ⟨-, hrelation⟩ := h
  · rw [Role.bringsValue_eq_false_of_isCondition hrole] at hvalue
    cases hvalue
  · exact hrelation

/-- A condition may take the role of another condition. -/
theorem IsWellFormed.withRole (h : row.IsWellFormed) (hrole : row.role.isCondition = true)
    {role : Role} (hnew : role.isCondition = true) : (row.withRole role).IsWellFormed :=
  .inr ⟨hnew, h.isRelation hrole⟩

/-- A condition may take any hit count. -/
theorem IsWellFormed.withHits (h : row.IsWellFormed) (hrole : row.role.isCondition = true)
    (hits : UInt16) : (row.withHits hits).IsWellFormed :=
  .inr ⟨hrole, h.isRelation hrole⟩

/-- A row that may be joined to the next one stays well formed when it is. -/
theorem IsWellFormed.joinNext (h : row.IsWellFormed) :
    (if row.role = .plain then row.withRole .andNext else row).IsWellFormed := by
  split
  · rename_i hplain
    exact h.withRole (by rw [hplain]; rfl) rfl
  · exact h

end Row

namespace Group

variable {g : Group}

/-- Well-formed rows with a well-formed row at the end, in a role that may come last, are a program.
-/
theorem isProgram_concat {rows : List Row} {last : Row} (hrows : ∀ row ∈ rows, row.IsWellFormed)
    (hlast : last.IsWellFormed) (hends : last.role.endsGroup = true) :
    IsProgram (rows ++ [last]) :=
  ⟨List.forall_mem_append.2 ⟨hrows, List.forall_mem_singleton.2 hlast⟩, rows, last, rfl, hends⟩

/-- Well-formed rows may come before a program. -/
theorem IsProgram.append {rows : List Row} (hrows : ∀ row ∈ rows, row.IsWellFormed)
    (hg : IsProgram g) : IsProgram (rows ++ g) := by
  obtain ⟨hg, rows', last, rfl, hlast⟩ := hg
  exact ⟨List.forall_mem_append.2 ⟨hrows, hg⟩, rows ++ rows', last,
    (List.append_assoc rows rows' [last]).symm, hlast⟩

/-- A program has a row. -/
theorem IsProgram.ne_nil (hg : IsProgram g) : g ≠ [] := by
  obtain ⟨-, rows, last, rfl, -⟩ := hg
  exact List.append_ne_nil_of_right_ne_nil rows (List.cons_ne_nil last [])

/-- The last row of a program may be changed to another one that may come last. -/
theorem IsProgram.update (hg : IsProgram g) {f : Row → Row}
    (hf : ∀ row : Row, row.IsWellFormed → row.role.endsGroup = true →
      (f row).IsWellFormed ∧ (f row).role.endsGroup = true) :
    IsProgram (LastElement.update f g) := by
  obtain ⟨hg, rows, last, rfl, hlast⟩ := hg
  obtain ⟨hrows, hwell⟩ := List.forall_mem_append.1 hg
  obtain ⟨hwell', hlast'⟩ := hf last (hwell last (List.mem_singleton_self last)) hlast
  rw [LastElement.update_concat]
  exact isProgram_concat hrows hwell' hlast'

/-- A program stays one when its last row gets a hit target. -/
theorem IsProgram.stamp (hg : IsProgram g) (hits : UInt16) :
    IsProgram (LastElement.update (·.withHits hits) g) :=
  hg.update fun _ hrow hends => ⟨hrow.withHits (Role.endsGroup_iff.1 hends).1 hits, hends⟩

/-- Joining a program to what comes next keeps its rows well formed. -/
theorem IsProgram.joinNext (hg : IsProgram g) :
    ∀ row ∈ LastElement.update
      (fun row => if row.role = .plain then row.withRole .andNext else row) g,
      row.IsWellFormed := by
  obtain ⟨hg, rows, last, rfl, -⟩ := hg
  obtain ⟨hrows, hlast⟩ := List.forall_mem_append.1 hg
  rw [LastElement.update_concat]
  exact List.forall_mem_append.2 ⟨hrows, List.forall_mem_singleton.2
    (hlast last (List.mem_singleton_self last)).joinNext⟩

/-! ### Counted branches -/

/-- The rows of a branch stay well formed when it becomes a chain, as long as its last row is
changed to a well-formed one. -/
theorem isWellFormed_chained (hwell : ∀ row ∈ g, row.IsWellFormed) (hbranch : IsBranch g)
    {f : Row → Row}
    (hf : ∀ row : Row, row.IsWellFormed → row.role = .plain → (f row).IsWellFormed) :
    ∀ row ∈ chained f g, row.IsWellFormed := by
  obtain ⟨rows, last, rfl, hlast, hrows⟩ := hbranch
  obtain ⟨hwells, hwell⟩ := List.forall_mem_append.1 hwell
  rw [chained_concat]
  refine List.forall_mem_append.2 ⟨fun row hrow => ?_, List.forall_mem_singleton.2
    (hf last (hwell last (List.mem_singleton_self last)) hlast)⟩
  obtain ⟨row, hmem, rfl⟩ := List.mem_map.1 hrow
  have hrole : row.role.isCondition = true := by
    obtain h | h := hrows row hmem
    · rw [h]
      rfl
    · rw [h]
      rfl
  exact (hwells row hmem).withRole hrole rfl

/-- Branches that are programs count together in a program. -/
theorem isProgram_countedRows? {groups : List Group} (hne : groups ≠ [])
    (hgroups : ∀ g ∈ groups, IsProgram g) {rows : List Row} (h : countedRows? groups = some rows) :
    IsProgram rows := by
  have hnonempty : ∀ g ∈ groups, g ≠ [] := fun g hg => (hgroups g hg).ne_nil
  have hbranch := (countedRows?_isSome_iff hnonempty).1 ⟨rows, h⟩
  obtain ⟨addends, collector, hcollector, rfl⟩ := countedRows?_eq_some hne hnonempty h
  have hall : ∀ g ∈ groups, (∀ row ∈ g, row.IsWellFormed) ∧ IsBranch g :=
    fun g hg => ⟨(hgroups g hg).1, hbranch g hg⟩
  obtain ⟨⟨hwell, hlast⟩, haddends⟩ := hcollector.forall_of_forall hall
    ⟨List.forall_mem_singleton.2 (Row.isWellFormed_compare _ _ _), isBranch_singleton_iff.2 rfl⟩
  refine .append (fun row hrow => ?_) ?_
  · obtain ⟨g, hg, hrow⟩ := List.mem_flatten.1 hrow
    obtain ⟨addend, haddend, rfl⟩ := List.mem_map.1 hg
    obtain ⟨hwell, hbranch⟩ := haddends addend haddend
    exact isWellFormed_chained hwell hbranch
      (fun row hrow hplain => hrow.withRole (by rw [hplain]; rfl) rfl) row hrow
  · have hchained := isWellFormed_chained hwell hlast (f := (·.withRole .plain))
      fun row hrow hplain => hrow.withRole (by rw [hplain]; rfl) rfl
    obtain ⟨rows, last, rfl, -⟩ := hlast
    rw [chained_concat] at hchained ⊢
    exact ⟨hchained, _, _, rfl, rfl⟩

end Group

/-! ### Reads -/

/-- Every row of the path is a well-formed row that adds to the next address. -/
def MemoryRead.IsSound (m : MemoryRead) : Prop :=
  ∀ row ∈ m.path, row.role = .addAddress ∧ row.IsWellFormed

/-- The read is sound, and its operator computes. -/
def ModifiedRead.IsSound (m : ModifiedRead) : Prop :=
  m.read.IsSound ∧ ∀ op right, m.modifier = some (op, right) → op.isRelation = false

/-- The read of every term is sound. -/
def ReadSum.IsSound (v : ReadSum) : Prop :=
  ∀ t ∈ v.terms, t.read.IsSound

namespace ModifiedRead

/-- A sound read is a sound modified read, without an operation. -/
theorem isSound_plain {m : MemoryRead} (h : m.IsSound) : (plain m).IsSound :=
  ⟨h, fun _ _ hmodifier => by cases hmodifier⟩

/-- The row of the value is well formed in every role that brings the value to the next row. -/
theorem IsSound.isWellFormed_valueRow {m : ModifiedRead} (h : m.IsSound) {role : Role}
    (hrole : role.bringsValue = true) : (m.valueRow.withRole role).IsWellFormed := by
  obtain ⟨read, modifier⟩ := m
  cases modifier with
  | none => exact .inl ⟨hrole, rfl, rfl⟩
  | some modifier => exact .inl ⟨hrole, h.2 modifier.1 modifier.2 rfl, rfl⟩

/-- The rows of a sound modified read, with its value in a role that brings it on, are well formed.
-/
theorem IsSound.isWellFormed_rowsAs {m : ModifiedRead} (h : m.IsSound) {role : Role}
    (hrole : role.bringsValue = true) : ∀ row ∈ m.rowsAs role, row.IsWellFormed :=
  List.forall_mem_append.2 ⟨fun row hrow => (h.1 row hrow).2,
    List.forall_mem_singleton.2 (h.isWellFormed_valueRow hrole)⟩

/-- The rows of a value become the path of the read at the address that it stands for. -/
theorem IsSound.atModified {m : ModifiedRead} (h : m.IsSound) (size : ReadSize) :
    (MemoryRead.atModified size m).IsSound := by
  unfold MemoryRead.atModified
  split
  · exact List.forall_mem_append.2
      ⟨h.1, List.forall_mem_singleton.2 ⟨rfl, Row.isWellFormed_single rfl _⟩⟩
  · intro row hrow
    obtain ⟨row, hmem, rfl⟩ := List.mem_map.1 hrow
    refine ⟨rfl, ?_⟩
    obtain hpath | hvalue := List.mem_append.1 hmem
    · obtain ⟨hrole, hwell⟩ := h.1 row hpath
      rw [← hrole]
      exact hwell
    · rw [List.mem_singleton.1 hvalue]
      exact h.isWellFormed_valueRow rfl

end ModifiedRead

namespace ReadSum

variable {v w : ReadSum}

/-- The sum of one sound read is sound. -/
theorem isSound_single {m : ModifiedRead} (h : m.IsSound) : (single m).IsSound :=
  List.forall_mem_singleton.2 h

/-- Sums of sound reads add up to one. -/
theorem IsSound.add (hv : v.IsSound) (hw : w.IsSound) : (v.add w).IsSound :=
  List.forall_mem_append.2 ⟨hv, hw⟩

/-- Sums of sound reads have a difference of the kind. -/
theorem IsSound.subtract (hv : v.IsSound) (hw : w.IsSound) : (v.subtract w).IsSound := by
  refine List.forall_mem_append.2 ⟨hv, fun t ht => ?_⟩
  obtain ⟨t', ht', rfl⟩ := List.mem_map.1 ht
  exact hw t' ht'

/-- The only term of a sound sum is a sound read. -/
theorem IsSound.onlyTerm? (hv : v.IsSound) {m : ModifiedRead} (h : v.onlyTerm? = some m) :
    m.IsSound :=
  hv (.added m) (by rw [onlyTerm?_eq_some_iff.1 h]; exact List.mem_singleton_self _)

/-- The rows of the terms of a sound sum are well formed. -/
theorem isWellFormed_termRows {terms : List Term} (h : ∀ t ∈ terms, t.read.IsSound) :
    ∀ row ∈ termRows terms, row.IsWellFormed := by
  intro row hrow
  obtain ⟨t, ht, hrow⟩ := List.mem_flatMap.1 hrow
  refine (h t ht).isWellFormed_rowsAs ?_ row hrow
  unfold Term.role
  split <;> rfl

/-- The row of an offset is well formed. -/
theorem isWellFormed_offsetRows (v : ReadSum) : ∀ row ∈ v.offsetRows, row.IsWellFormed := by
  unfold offsetRows
  split
  · exact fun _ hrow => absurd hrow List.not_mem_nil
  · refine List.forall_mem_singleton.2 (Row.isWellFormed_single ?_ _)
    split <;> rfl

end ReadSum

namespace Expr

/-- The reads of a node are sound, and a connective has operands. -/
def IsSound : Expr → Prop
  | .read _ m => m.IsSound
  | .modified _ m => m.IsSound
  | .sum _ v => v.IsSound
  | .join _ _ es => es ≠ []
  | .literal _ _ | .var _ _ | .arith _ _ _ _ | .compare _ _ _ _ | .negate _ _ | .call _ _ _
  | .always _ _ | .returned _ _ | .error _ _ => True

/-! ### Values have sound reads -/

/-- A sound expression that is a sum in some form is a sound sum. -/
theorem isSound_ofExpr? {e : Expr} (he : e.IsSound) {v : ReadSum} (h : ReadSum.ofExpr? e = some v) :
    v.IsSound := by
  unfold ReadSum.ofExpr? at h
  split at h
  · cases h
    exact ReadSum.isSound_single (ModifiedRead.isSound_plain he)
  · cases h
    exact ReadSum.isSound_single he
  · cases h
    exact he
  · cases h
    exact fun _ ht => absurd ht List.not_mem_nil
  · cases h

/-- A sound sum is a sound expression in whichever form it takes. -/
theorem isSound_toExpr {v : ReadSum} (hv : v.IsSound) : v.toExpr.IsSound := by
  obtain ⟨-, h⟩ | ⟨r, hterms, -, h⟩ | ⟨-, h⟩ := v.toExpr_cases
  · rw [h]
    trivial
  · have hr : r.IsSound := hv (.added r) (by rw [hterms]; exact List.mem_singleton_self _)
    rw [h, ModifiedRead.toExpr]
    split
    · exact hr.1
    · exact hr
  · rw [h]
    exact hv

/-- A read at a sound address is sound. -/
theorem isSound_atAddress {size : ReadSize} {a : Expr} {m : MemoryRead} (ha : a.IsSound)
    (h : MemoryRead.atAddress size a = .ok m) : m.IsSound := by
  unfold MemoryRead.atAddress at h
  rw [Outcome.within_eq_ok_iff] at h
  split at h
  · cases h
    exact fun _ hrow => absurd hrow List.not_mem_nil
  · rename_i r
    cases h
    exact (ModifiedRead.isSound_plain ha).atModified size
  · cases h
    exact ModifiedRead.IsSound.atModified ha size
  · rename_i v
    split at h
    · rename_i r hr
      cases h
      exact (ReadSum.IsSound.onlyTerm? ha hr).atModified size
    · cases h
  · cases h

/-- An operation on sound operands that reads memory is sound. -/
theorem MemoryResult.isSound {op : Arith} {left right e : Expr} (hleft : left.IsSound)
    (hright : right.IsSound) (h : MemoryResult op left right e) : e.IsSound := by
  cases h with
  | sum hl hr => exact isSound_toExpr ((isSound_ofExpr? hleft hl).add (isSound_ofExpr? hright hr))
  | difference hl hr =>
    exact isSound_toExpr ((isSound_ofExpr? hleft hl).subtract (isSound_ofExpr? hright hr))
  | @unchanged op left right s m hread =>
    obtain rfl | rfl := hread
    · exact hleft
    · exact hright
  | @modified op left right s m hread o =>
    have hm : m.IsSound := by
      obtain rfl | rfl := hread
      · exact hleft
      · exact hright
    refine ⟨hm, fun op' right' h => ?_⟩
    cases h
    rfl

/-- Evaluation makes sound nodes only. -/
theorem isInvariant_isSound (names : Names) : IsInvariant names IsSound where
  moveTo s e h := by
    cases e <;> exact h
  literal _ _ := trivial
  always _ _ := trivial
  address ha h := isSound_atAddress ha h
  memory hleft hright h := h.isSound hleft hright
  withoutOffset h := isSound_toExpr h
  arith _ := trivial
  compare _ := trivial
  negation _ := trivial
  join c es _ _ hlength hnil := by
    rw [hnil] at hlength
    exact absurd hlength (by decide)
  deferred _ _ _ := trivial
  returned _ _ := trivial

/-! ### Comparisons -/

/-- The rows before a comparing row, made of a sound left side, are well formed. -/
theorem isWellFormed_leftSide? {e : Expr} (he : e.IsSound) {side : LeftSide}
    (h : e.leftSide? = some side) : ∀ row ∈ side.rows, row.IsWellFormed := by
  unfold leftSide? at h
  split at h
  · cases h
    exact fun row hrow => (he row hrow).2
  · cases h
    exact ModifiedRead.IsSound.isWellFormed_rowsAs he rfl
  · rename_i v
    cases h
    unfold ReadSum.leftSide
    split
    · rename_i t others htake
      obtain ⟨before, after, hterms, rfl, -, -⟩ := LastElement.take?_eq_some htake
      have he : ∀ t ∈ v.terms, t.read.IsSound := he
      rw [hterms] at he
      obtain ⟨hbefore, hafter⟩ := List.forall_mem_append.1 he
      obtain ⟨ht, hafter⟩ := List.forall_mem_cons.1 hafter
      have hothers := ReadSum.isWellFormed_termRows (List.forall_mem_append.2 ⟨hbefore, hafter⟩)
      exact List.forall_mem_append.2 ⟨List.forall_mem_append.2
        ⟨hothers, v.isWellFormed_offsetRows⟩, fun row hrow => (ht.1 row hrow).2⟩
    · exact List.forall_mem_append.2 ⟨ReadSum.isWellFormed_termRows he, v.isWellFormed_offsetRows⟩
  · cases h

/-! ### Lowering -/

variable {scope : Scope}

open Emission

/-- The group of the condition, if it has one, is a program. -/
def LowersToProgram (scope : Scope) (e : Expr) : Prop :=
  ∀ {g : Group}, (lower scope e).run [] = .ok () g → Group.IsProgram g

/-- A comparison with a sound left side lowers to a program. -/
theorem isProgram_lowerComparison {left right : Expr} {relation : Relation} (hleft : left.IsSound)
    {g : Group} (h : (lowerComparison left relation right).run [] = .ok () g) :
    Group.IsProgram g := by
  unfold lowerComparison at h
  split at h
  · rw [Building.run_within_eq_ok_iff] at h
    exact absurd h Building.run_fail_ne_ok
  · rename_i side hside
    obtain ⟨⟨⟩, rows, hemit, hrest⟩ := Building.run_bind_eq_ok_iff.1 h
    cases hemit
    obtain ⟨operand, rows, hoperand, hpush⟩ := Building.run_bind_eq_ok_iff.1 hrest
    obtain ⟨-, rfl⟩ := Building.run_ofOutcome_eq_ok_iff.1 hoperand
    cases hpush
    exact Group.isProgram_concat (isWellFormed_leftSide? hleft hside)
      (Row.isWellFormed_compare _ _ _) rfl

/-- The row of a constant condition is a program. -/
theorem isProgram_constantRow (b : Bool) : Group.IsProgram [constantRow b] := by
  refine ⟨List.forall_mem_singleton.2 (.inr ?_), [], constantRow b, rfl, ?_⟩
  · cases b <;> exact ⟨rfl, rfl⟩
  · cases b <;> rfl

/-- Conjoined conditions lower to a program if each of them does and there is at least one: the rows
before the last condition stay well formed when they are joined. -/
theorem isProgram_lowerAll {es : List Expr} (hne : es ≠ [])
    (hlocal : ∀ e ∈ es, IsLocal (lower scope e)) (hes : ∀ e ∈ es, LowersToProgram scope e)
    {g : Group} (h : (lowerAll scope es).run [] = .ok () g) : Group.IsProgram g := by
  induction es generalizing g with
  | nil => exact absurd rfl hne
  | cons e es ih =>
    obtain ⟨-, hlocals⟩ := List.forall_mem_cons.1 hlocal
    obtain ⟨he, hes⟩ := List.forall_mem_cons.1 hes
    obtain ⟨head, hhead, ⟨rfl, rfl⟩ | ⟨hne, htail⟩⟩ := run_lowerAll_cons h
    · exact he hhead
    · -- The tail emits a program of its own after the head, whose rows stay well formed.
      rw [(isLocal_lowerAll hne hlocals).run_eq] at htail
      cases hrun : (lowerAll scope es).run [] with
      | error d rows =>
        rw [hrun] at htail
        cases htail
      | ok u tail =>
        rw [hrun] at htail
        cases htail
        exact (ih hne hlocals hes hrun).append (he hhead).joinNext

/-- Branches that count together lower to a program if each of them does and there is at least one.
-/
theorem isProgram_countedBranches {s : Span} {branches : List Expr} {hits : UInt16}
    (hne : branches ≠ []) (hbranches : ∀ e ∈ branches, LowersToProgram scope e) {g : Group}
    (h : (countedBranches scope s branches hits).run [] = .ok () g) : Group.IsProgram g := by
  obtain ⟨groups, rows, hgroups, -, hrows, rfl⟩ := run_countedBranches_eq_ok_iff.1 h
  have hprograms : ∀ g ∈ groups, Group.IsProgram g := forall_of_forall₂ hgroups
    fun e he g hg => hbranches e he (Building.build_eq_ok_iff.1 hg)
  have hnonempty : groups ≠ [] := by
    rintro rfl
    cases hgroups
    exact hne rfl
  exact (Group.isProgram_countedRows? hnonempty hprograms hrows).stamp hits

/-- The group of a condition whose last row is changed afterwards. -/
theorem isProgram_of_bind {x : Emission Unit} {f : Unit → Emission Unit} {g : Group}
    (hx : ∀ {g}, x.run [] = .ok () g → Group.IsProgram g)
    (hf : ∀ {g g'}, Group.IsProgram g → (f ()).run g = .ok () g' → Group.IsProgram g')
    (h : (x >>= f).run [] = .ok () g) : Group.IsProgram g := by
  obtain ⟨⟨⟩, rows, hrun, h⟩ := Building.run_bind_eq_ok_iff.1 h
  exact hf (hx hrun) h

/-- A program stays one when its last row becomes a guard. -/
theorem isProgram_guardLast {guard : Guard} {s : Span} {g g' : Group} (hg : Group.IsProgram g)
    (h : (guardLast guard s).run g = .ok () g') : Group.IsProgram g' := by
  obtain ⟨hwell, rows, last, rfl, -⟩ := hg
  obtain ⟨hrows, hlast⟩ := List.forall_mem_append.1 hwell
  rw [run_guardLast] at h
  split at h
  · rename_i hplain
    cases h
    have hlast := hlast last (List.mem_singleton_self last)
    have hrole : guard.role.isCondition = true ∧ guard.role.endsGroup = true := by
      cases guard <;> exact ⟨rfl, rfl⟩
    exact Group.isProgram_concat hrows (hlast.withRole (by rw [hplain]; rfl) hrole.1) hrole.2
  · cases h

/-- A call lowers to a program if its arguments do, and the branches of an argument that is a
disjunction. -/
theorem isProgram_lowerBuiltin {name : String} {b : Builtin} {arguments : List Expr}
    (harguments : ∀ e ∈ arguments, LowersToProgram scope e)
    (hbranches : ∀ s branches, .join s .any branches ∈ arguments →
      branches ≠ [] ∧ ∀ e ∈ branches, LowersToProgram scope e) {g : Group}
    (h : (lowerBuiltin scope name b arguments).run [] = .ok () g) : Group.IsProgram g := by
  unfold lowerBuiltin at h
  split at h
  · rename_i count s branches rest
    obtain ⟨hne, hes⟩ := hbranches s branches (List.mem_cons_of_mem _ List.mem_cons_self)
    obtain ⟨hits, rows, hcount, hcounted⟩ := Building.run_bind_eq_ok_iff.1 h
    obtain ⟨-, rfl⟩ := Building.run_ofOutcome_eq_ok_iff.1 hcount
    exact isProgram_countedBranches hne hes hcounted
  · rename_i count condition rest _
    obtain ⟨hits, rows, hcount, hstamped⟩ := Building.run_bind_eq_ok_iff.1 h
    obtain ⟨-, rfl⟩ := Building.run_ofOutcome_eq_ok_iff.1 hcount
    refine isProgram_of_bind (harguments condition (List.mem_cons_of_mem _ List.mem_cons_self))
      (fun hg hstamp => ?_) hstamped
    cases hstamp
    exact hg.stamp hits
  · obtain ⟨hits, rows, -, hfail⟩ := Building.run_bind_eq_ok_iff.1 h
    exact absurd hfail Building.run_fail_ne_ok
  · exact absurd h Building.run_fail_ne_ok
  · rename_i s branches rest
    obtain ⟨hne, hes⟩ := hbranches s branches List.mem_cons_self
    exact isProgram_countedBranches hne hes h
  · refine isProgram_of_bind (harguments _ List.mem_cons_self) (fun hg hstamp => ?_) h
    cases hstamp
    exact hg.stamp 1
  · exact absurd h Building.run_fail_ne_ok
  · rw [Building.run_within_eq_ok_iff] at h
    exact absurd h Building.run_fail_ne_ok
  · exact isProgram_of_bind (harguments _ List.mem_cons_self) isProgram_guardLast h
  · exact absurd h Building.run_fail_ne_ok
  · exact absurd h Building.run_fail_ne_ok
  · exact absurd h Building.run_fail_ne_ok

/-- The connectives of a sound expression have operands. -/
theorem hasOperands_of_isSound {e : Expr} (he : e.Everywhere IsSound) : e.HasOperands :=
  he.imp fun e he s c h => by
    rw [h] at he
    exact he rfl

/-- Every sound expression that has a group lowers to a program. -/
theorem lowersToProgram {e : Expr} (he : e.Everywhere IsSound) : LowersToProgram scope e := by
  -- By two levels, since a call lowers the branches of a disjunction among its arguments.
  induction e using induction_two_levels with
  | h e ih ih' =>
    intro g h
    have hchild : ∀ c ∈ e.children, LowersToProgram scope c :=
      fun c hc => ih c hc (he.children c hc)
    unfold lower at h
    split at h
    · rename_i s relation left right
      exact isProgram_lowerComparison (he.children left List.mem_cons_self).node
        (Building.run_within_eq_ok_iff.1 h)
    · rename_i s b
      cases h
      exact isProgram_constantRow b
    · rename_i s b
      cases h
      exact isProgram_constantRow b
    · rename_i s es
      exact isProgram_lowerAll he.node
        (fun c hc => (hasOperands_of_isSound (he.children c hc)).isLocal_lower) hchild
        (Building.run_within_eq_ok_iff.1 h)
    · rw [Building.run_within_eq_ok_iff] at h
      exact absurd h Building.run_fail_ne_ok
    · rename_i s name arguments
      rw [Building.run_within_eq_ok_iff] at h
      split at h
      · exact absurd h Building.run_fail_ne_ok
      · exact absurd h Building.run_fail_ne_ok
      · refine isProgram_lowerBuiltin hchild (fun s' branches hmem => ?_) h
        have hor := he.children _ hmem
        exact ⟨hor.node, fun c hc => ih' _ hmem c hc (hor.children c hc)⟩
    · rw [Building.run_within_eq_ok_iff] at h
      exact absurd h Building.run_fail_ne_ok

/-- The group of a sound expression is a program. -/
theorem isProgram_of_group {e : Expr} (he : e.Everywhere IsSound) {g : Group}
    (h : group scope e = .ok g) : Group.IsProgram g :=
  lowersToProgram he (Building.build_eq_ok_iff.1 h)

end Expr

end TriggerLang
