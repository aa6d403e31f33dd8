import TriggerLang.LastElement
import TriggerLang.Row.Trigger
/-!
# How the runtime reads rows

This module says what a group of rows means in one frame.  A `Memory` answers every read with a
word, and the rows are read in order.  Between two rows the runtime keeps what is `Pending`: an
offset for the addresses of the next row, a sum for the left operand of the next comparison, and the
truth of the rows that are joined to the next one.

A row in the role `addAddress`, `addSource`, `subSource` or `andNext` only changes what is pending.
Every other row ends a chain of rows, and its *verdict* is whether its own comparison and all rows
joined to it hold.  Hits are not counted: a verdict is about one frame.

The law behind all later proofs is `Pending.verdicts_append`: rows are read piece by piece, and a
piece is described by its verdicts and by what it leaves pending.
-/

namespace TriggerLang

/-- The state of memory in one frame: the word that a read of each kind and size yields at each
address. -/
structure Memory where
  read : OperandKind → ReadSize → UInt32 → UInt32
  deriving Inhabited

/-! ### Values of operands and rows -/

/-- Arithmetic on words, modulo `2 ^ 32`. -/
def Arith.onWords : Arith → UInt32 → UInt32 → UInt32
  | .add, a, b => a + b
  | .subtract, a, b => a - b
  | .multiply, a, b => a * b
  | .divide, a, b => a / b
  | .modulus, a, b => a % b
  | .bitAnd, a, b => a &&& b
  | .bitXor, a, b => a ^^^ b

namespace RowOp

/-- The value that a row contributes; an operator that is not arithmetic leaves the left operand. -/
def value : RowOp → UInt32 → UInt32 → UInt32
  | arith op, a, b => op.onWords a b
  | none, a, _ | relation _, a, _ => a

/-- Whether a row holds; a row that compares nothing does not. -/
def holds : RowOp → UInt32 → UInt32 → Bool
  | relation r, a, b => r.holds a b
  | none, _, _ | arith _, _, _ => false

end RowOp

/-- The word of an operand whose address is moved by an offset. -/
def Operand.valueIn (m : Memory) (offset : UInt32) (o : Operand) : UInt32 :=
  if o.isMemory then m.read o.kind o.size (o.value + offset) else o.value

/-- The value of a row whose addresses are moved by an offset. -/
def Row.valueIn (m : Memory) (offset : UInt32) (row : Row) : UInt32 :=
  row.op.value (row.left.valueIn m offset) (row.right.valueIn m offset)

/-! ### Reading row by row -/

/-- Whether a row of this role ends a chain of rows. -/
def Role.endsChain : Role → Bool
  | addSource | subSource | addAddress | andNext => false
  | plain | resetIf | pauseIf | addHits | subHits | orNext | resetNextIf | measured | measuredIf
  | trigger => true

/-- What the rows read so far leave for the next one. -/
structure Pending where
  /-- Added to the addresses of the next row. -/
  offset : UInt32 := 0
  /-- Added to the left operand of the next comparison. -/
  sum : UInt32 := 0
  /-- Whether all rows that are joined to the next one hold. -/
  joined : Bool := true

/-- Whether a row and all rows joined to it hold. -/
def Row.holdsAfter (m : Memory) (p : Pending) (row : Row) : Bool :=
  p.joined &&
    row.op.holds (row.left.valueIn m p.offset + p.sum) (row.right.valueIn m p.offset)

namespace Pending

/-- What is pending after one more row. -/
def next (m : Memory) (p : Pending) (row : Row) : Pending :=
  match row.role with
  | .addAddress => { p with offset := row.valueIn m p.offset }
  | .addSource => { p with offset := 0, sum := p.sum + row.valueIn m p.offset }
  | .subSource => { p with offset := 0, sum := p.sum - row.valueIn m p.offset }
  | .andNext => { joined := row.holdsAfter m p }
  | _ => {}

/-- What is pending after rows. -/
def run (m : Memory) (p : Pending) (rows : List Row) : Pending :=
  rows.foldl (next m) p

/-- The rows that end a chain, each with its verdict. -/
def verdicts (m : Memory) : Pending → List Row → List (Row × Bool)
  | _, [] => []
  | p, row :: rows =>
      if row.role.endsChain then (row, row.holdsAfter m p) :: verdicts m (p.next m row) rows
      else verdicts m (p.next m row) rows

@[simp] theorem run_nil (m : Memory) (p : Pending) : p.run m [] = p := rfl

@[simp] theorem run_cons (m : Memory) (p : Pending) (row : Row) (rows : List Row) :
    p.run m (row :: rows) = (p.next m row).run m rows := rfl

/-- Rows are read piece by piece. -/
theorem run_append (m : Memory) (p : Pending) (rows rows' : List Row) :
    p.run m (rows ++ rows') = (p.run m rows).run m rows' :=
  List.foldl_append

/-- The verdicts of rows that follow others depend on these only by what they leave pending. -/
theorem verdicts_append (m : Memory) (p : Pending) (rows rows' : List Row) :
    verdicts m p (rows ++ rows') = verdicts m p rows ++ verdicts m (p.run m rows) rows' := by
  induction rows generalizing p with
  | nil => rfl
  | cons row rows ih =>
    rw [List.cons_append, verdicts, verdicts, run_cons, ih]
    split <;> rfl

/-- Rows that end no chain have no verdict. -/
theorem verdicts_eq_nil (m : Memory) {rows : List Row}
    (h : ∀ row ∈ rows, row.role.endsChain = false) (p : Pending) : verdicts m p rows = [] := by
  induction rows generalizing p with
  | nil => rfl
  | cons row rows ih =>
    rw [verdicts, h row List.mem_cons_self, ih fun r hr => h r (List.mem_cons_of_mem _ hr)]
    rfl

/-! What each kind of row leaves pending. -/

/-- The value of an address row moves the addresses of the next row. -/
theorem next_of_addAddress (m : Memory) (p : Pending) {row : Row} (h : row.role = .addAddress) :
    p.next m row = { p with offset := row.valueIn m p.offset } := by
  simp [next, h]

/-- The value of an added row goes into the sum, and the offset is used up. -/
theorem next_of_addSource (m : Memory) (p : Pending) {row : Row} (h : row.role = .addSource) :
    p.next m row = { p with offset := 0, sum := p.sum + row.valueIn m p.offset } := by
  simp [next, h]

/-- The value of a subtracted row is taken from the sum, and the offset is used up. -/
theorem next_of_subSource (m : Memory) (p : Pending) {row : Row} (h : row.role = .subSource) :
    p.next m row = { p with offset := 0, sum := p.sum - row.valueIn m p.offset } := by
  simp [next, h]

/-- A joined row leaves its truth and nothing else. -/
theorem next_of_andNext (m : Memory) (p : Pending) {row : Row} (h : row.role = .andNext) :
    p.next m row = { joined := row.holdsAfter m p } := by
  simp [next, h]

end Pending

/-! ### Groups and triggers -/

/-- The verdicts of a group of rows. -/
def Group.verdicts (m : Memory) (g : Group) : List (Row × Bool) :=
  Pending.verdicts m {} g

/-- Whether every chain of rows of a group holds. -/
def Group.holds (m : Memory) (g : Group) : Bool :=
  (Group.verdicts m g).all Prod.snd

/-- A group decides a truth value when it is one chain of rows, ended by a plain row, whose verdict
is that value. -/
def Group.Decides (m : Memory) (g : Group) (b : Bool) : Prop :=
  ∃ rows last, g = rows ++ [last] ∧ last.role = .plain ∧
    (∀ row ∈ rows, row.role.endsChain = false) ∧
    ∀ joined, last.holdsAfter m (Pending.run m ⟨0, 0, joined⟩ rows) = (joined && b)

namespace Group.Decides

variable {m : Memory} {g g' : Group} {b b' : Bool}

/-- A group that decides something has a row. -/
theorem ne_nil (h : Group.Decides m g b) : g ≠ [] := by
  obtain ⟨rows, last, rfl, -⟩ := h
  exact List.concat_ne_nil last rows

/-- A group that decides a truth value has that one verdict. -/
theorem verdicts_eq (h : Group.Decides m g b) : ∃ row, Group.verdicts m g = [(row, b)] := by
  obtain ⟨rows, last, rfl, hlast, hrows, hholds⟩ := h
  have hends : last.role.endsChain = true := by rw [hlast]; rfl
  refine ⟨last, ?_⟩
  rw [Group.verdicts, Pending.verdicts_append, Pending.verdicts_eq_nil m hrows, List.nil_append,
    Pending.verdicts, if_pos hends, Pending.verdicts]
  have hb := hholds true
  rw [Bool.true_and] at hb
  rw [← hb]

/-- A group holds when the truth value that it decides is true. -/
theorem holds_eq (h : Group.Decides m g b) : Group.holds m g = b := by
  obtain ⟨row, hrow⟩ := h.verdicts_eq
  rw [Group.holds, hrow]
  simp

/-- A chain joined to the chain after it makes one chain, which decides the conjunction. -/
theorem join (h : Group.Decides m g b) (h' : Group.Decides m g' b') :
    Group.Decides m
      (LastElement.update (fun row => if row.role = .plain then row.withRole .andNext else row) g
        ++ g') (b && b') := by
  obtain ⟨rows, last, rfl, hlast, hrows, hholds⟩ := h
  obtain ⟨rows', last', rfl, hlast', hrows', hholds'⟩ := h'
  refine ⟨rows ++ [last.withRole .andNext] ++ rows', last', ?_, hlast', ?_, ?_⟩
  · rw [LastElement.update_concat, if_pos hlast, List.append_assoc _ rows']
  · intro row hrow
    rw [List.mem_append, List.mem_append, List.mem_singleton] at hrow
    obtain (hrow | rfl) | hrow := hrow
    · exact hrows row hrow
    · rfl
    · exact hrows' row hrow
  · intro joined
    have hjoin : Pending.next m (Pending.run m ⟨0, 0, joined⟩ rows) (last.withRole .andNext) =
        ⟨0, 0, joined && b⟩ := by
      rw [Pending.next_of_andNext m _ rfl, ← hholds joined]
      rfl
    rw [Pending.run_append, Pending.run_append, Pending.run_cons, Pending.run_nil, hjoin, hholds',
      Bool.and_assoc]

end Group.Decides

/-- Whether the core of a trigger holds and, if there are alternates, one of them too. -/
def Trigger.holds (m : Memory) (t : Trigger) : Bool :=
  Group.holds m t.core && (t.alternates.isEmpty || t.alternates.any (Group.holds m))

end TriggerLang
