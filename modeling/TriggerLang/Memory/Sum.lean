import TriggerLang.Memory.Read
/-!
# Modified reads and sums of reads

A `ModifiedRead` is a read under an operator, such as `byte(0x000001) * 4`.  A `ReadSum` is a list
of added and subtracted reads with a constant offset.

Offsets add up modulo `2 ^ 32`.
-/

namespace TriggerLang

/-- A read, possibly combined with a further operand. -/
structure ModifiedRead where
  read : MemoryRead
  modifier : Option (RowOp × Operand) := none
  deriving DecidableEq, Inhabited

namespace ModifiedRead

/-- The read by itself. -/
def plain (m : MemoryRead) : ModifiedRead :=
  { read := m }

/-- Whether no operator applies. -/
def isPlain (m : ModifiedRead) : Bool :=
  m.modifier.isNone

/-- The row that computes the value, after the rows of the path. -/
def valueRow (m : ModifiedRead) : Row :=
  match m.modifier with
  | none => .between m.read.operand .none (.word 0)
  | some (op, right) => .between m.read.operand op right

/-- The rows that compute the value: the path, and a last plain row. -/
def rows (m : ModifiedRead) : List Row :=
  m.read.path ++ [m.valueRow]

/-- The written form of a modified read. -/
def text (m : ModifiedRead) : String :=
  match m.modifier with
  | none => m.read.text
  | some (op, right) => m.read.text ++ " " ++ op.symbol ++ " " ++ right.text

@[simp] theorem isPlain_plain (m : MemoryRead) : (plain m).isPlain = true := rfl

/-- A modified read has a row of its own, even without a path. -/
@[simp] theorem rows_ne_nil (m : ModifiedRead) : m.rows ≠ [] := by
  simp [rows]

/-- The row that computes the value is plain until it is given a role. -/
@[simp] theorem role_valueRow (m : ModifiedRead) : m.valueRow.role = .plain := by
  unfold valueRow; split <;> rfl

end ModifiedRead

/-- One added or subtracted read of a sum. -/
structure Term where
  read : ModifiedRead
  subtracted : Bool
  deriving DecidableEq, Inhabited

namespace Term

/-- A term that is added. -/
def added (m : ModifiedRead) : Term :=
  ⟨m, false⟩

/-- The same read with the other sign. -/
def negate (t : Term) : Term :=
  ⟨t.read, !t.subtracted⟩

/-- The role of the row that contributes the term. -/
def role (t : Term) : Role :=
  if t.subtracted then .subSource else .addSource

/-- Whether the term can stand on the left side of a row: it is added, and no operator applies. -/
def isBare (t : Term) : Bool :=
  !t.subtracted && t.read.isPlain

@[simp] theorem negate_negate (t : Term) : t.negate.negate = t := by
  simp [negate]

end Term

/-- A sum of added and subtracted reads and a constant. -/
structure ReadSum where
  terms : List Term
  offset : Int32
  deriving DecidableEq, Inhabited

namespace ReadSum

/-- The sum of one read. -/
def single (m : ModifiedRead) : ReadSum :=
  ⟨[.added m], 0⟩

/-- The sum without reads. -/
def constant (offset : Int32) : ReadSum :=
  ⟨[], offset⟩

/-- The only term of a sum, if there is exactly one and it is added. -/
def onlyTerm? (s : ReadSum) : Option ModifiedRead :=
  match s.terms with
  | [t] => if t.subtracted then none else some t.read
  | _ => none

/-- The sum of two sums. -/
def add (s t : ReadSum) : ReadSum :=
  ⟨s.terms ++ t.terms, s.offset + t.offset⟩

/-- The difference of two sums. -/
def subtract (s t : ReadSum) : ReadSum :=
  ⟨s.terms ++ t.terms.map Term.negate, s.offset - t.offset⟩

/-- The size of the offset, without its sign. -/
def offsetSize (s : ReadSum) : Nat :=
  s.offset.toInt.natAbs

/-- The terms after the first one, each with its sign. -/
def laterTermsText (terms : List Term) : String :=
  String.join (terms.map fun t => (if t.subtracted then " - " else " + ") ++ t.read.text)

/-- The offset after at least one term, with its sign; zero is not written. -/
def offsetText (s : ReadSum) : String :=
  if 0 < s.offset then " + " ++ toString s.offsetSize
  else if s.offset < 0 then " - " ++ toString s.offsetSize
  else ""

/-- The written form of a sum. -/
def text (s : ReadSum) : String :=
  match s.terms with
  | [] => toString s.offset.toInt
  | t :: rest =>
      (if t.subtracted then "-" else "") ++ t.read.text ++ laterTermsText rest ++ s.offsetText

@[simp] theorem terms_add (s t : ReadSum) : (s.add t).terms = s.terms ++ t.terms := rfl

@[simp] theorem terms_subtract (s t : ReadSum) :
    (s.subtract t).terms = s.terms ++ t.terms.map Term.negate := rfl

end ReadSum

end TriggerLang
