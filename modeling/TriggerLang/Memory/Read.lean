import TriggerLang.Row.Text
/-!
# Reads of memory

A `MemoryRead` is an operand and the pointer path that leads to it.  A path is a list of rows in the
role `addAddress`: the value of each row is added to the addresses of the row after it, and the
value of the last one to the address of the operand.

Following a read makes a longer path: what was read becomes a pointer, and the new operand is read
at offset zero from it.
-/

namespace TriggerLang

/-- An operand and the pointer path that leads to it. -/
structure MemoryRead where
  operand : Operand
  path : List Row := []
  deriving DecidableEq, Inhabited

namespace MemoryRead

/-- The direct read of a size at an address. -/
def direct (size : ReadSize) (address : UInt32) : MemoryRead :=
  { operand := .read size address }

/-- Whether a pointer is followed. -/
def isIndirect (m : MemoryRead) : Bool :=
  !m.path.isEmpty

/-- The read of a size at the address that this read yields. -/
def follow (m : MemoryRead) (size : ReadSize) : MemoryRead :=
  { operand := .read size 0
    path := m.path ++ [Row.single .addAddress m.operand] }

/-- The same path with the last read at another offset. -/
def withOffset (m : MemoryRead) (offset : UInt32) : MemoryRead :=
  { m with operand := m.operand.withValue offset }

/-- An address at an offset from what a path yields; without a path the offset is the address. -/
def offsetText (base : Option String) (offset : UInt32) : String :=
  match base with
  | none => hexadecimal 6 offset
  | some pointer => if offset = 0 then pointer else pointer ++ " + " ++ hexadecimal 2 offset

/-- The value of one row of a path. -/
def stepText (base : Option String) (row : Row) : String :=
  let pointer := row.left.size.functionName ++ "(" ++ offsetText base row.left.value ++ ")"
  if row.op = .none then pointer else pointer ++ " " ++ row.op.symbol ++ " " ++ row.right.text

/-- The value of a whole path, if it has a row. -/
def pathText (path : List Row) : Option String :=
  path.foldl (fun base row => some (stepText base row)) none

/-- The written form of a read: nested calls of read functions. -/
def text (m : MemoryRead) : String :=
  m.operand.size.functionName ++ "(" ++ offsetText (pathText m.path) m.operand.value ++ ")"

@[simp] theorem path_direct (size : ReadSize) (address : UInt32) :
    (direct size address).path = [] := rfl

@[simp] theorem path_follow (m : MemoryRead) (size : ReadSize) :
    (m.follow size).path = m.path ++ [Row.single .addAddress m.operand] := rfl

@[simp] theorem path_withOffset (m : MemoryRead) (offset : UInt32) :
    (m.withOffset offset).path = m.path := rfl

@[simp] theorem isIndirect_follow (m : MemoryRead) (size : ReadSize) :
    (m.follow size).isIndirect = true := by
  simp [isIndirect]

end MemoryRead

end TriggerLang
