/-!
# Operands of a row

An `Operand` is a word with a kind and a size.  The kind says whether the word is a literal or the
address of a read, and the size says how many bits such a read takes.

Addresses and literals are 32-bit words; a floating point literal is held by its bits.
-/

namespace TriggerLang

/-- What the word of an operand stands for. -/
inductive OperandKind where
  /-- The value at an address. -/
  | current
  /-- The word itself. -/
  | literal
  /-- The value at an address one frame ago. -/
  | previous
  /-- The last different value at an address. -/
  | prior
  /-- The value at an address, read as decimal digits of four bits each. -/
  | decimal
  /-- A floating point number, given by its bits. -/
  | real
  deriving DecidableEq, Inhabited

/-- How many bits a read takes, and in which order. -/
inductive ReadSize where
  | bit (index : Fin 8)
  | lowNibble
  | highNibble
  | byte
  | word
  | threeBytes
  | doubleWord
  | bitCount
  | wordBigEndian
  | doubleWordBigEndian
  | real
  deriving DecidableEq, Inhabited

namespace ReadSize

/-- Every size that a script function reads, in the order of registration. -/
def all : List ReadSize :=
  [.bit 0, .bit 1, .bit 2, .bit 3, .bit 4, .bit 5, .bit 6, .bit 7, .lowNibble, .highNibble, .byte,
    .word, .threeBytes, .doubleWord, .bitCount, .wordBigEndian, .doubleWordBigEndian, .real]

/-- The name of the script function that reads this size. -/
def functionName : ReadSize → String
  | bit 0 => "bit0"
  | bit 1 => "bit1"
  | bit 2 => "bit2"
  | bit 3 => "bit3"
  | bit 4 => "bit4"
  | bit 5 => "bit5"
  | bit 6 => "bit6"
  | bit 7 => "bit7"
  | lowNibble => "low4"
  | highNibble => "high4"
  | byte => "byte"
  | word => "word"
  | threeBytes => "tbyte"
  | doubleWord => "dword"
  | bitCount => "bitcount"
  | wordBigEndian => "word_be"
  | doubleWordBigEndian => "dword_be"
  | real => "float"

end ReadSize

/-- One side of a row: a literal or a place in memory. -/
structure Operand where
  kind : OperandKind
  size : ReadSize
  value : UInt32
  deriving DecidableEq, Inhabited

namespace Operand

/-- The read of a size at an address. -/
def read (size : ReadSize) (address : UInt32) : Operand :=
  ⟨.current, size, address⟩

/-- A literal word. -/
def word (value : UInt32) : Operand :=
  ⟨.literal, .byte, value⟩

/-- A literal floating point number. -/
def real (value : Float32) : Operand :=
  ⟨.real, .real, value.toBits⟩

/-- Whether the operand reads memory. -/
def isMemory (o : Operand) : Bool :=
  match o.kind with
  | .current | .previous | .prior | .decimal => true
  | .literal | .real => false

/-- The same operand at another address, or with another literal. -/
def withValue (o : Operand) (value : UInt32) : Operand :=
  { o with value }

@[simp] theorem isMemory_read (size : ReadSize) (address : UInt32) :
    (read size address).isMemory = true := rfl

@[simp] theorem isMemory_word (value : UInt32) : (word value).isMemory = false := rfl

@[simp] theorem withValue_read (size : ReadSize) (a b : UInt32) :
    (read size a).withValue b = read size b := rfl

end Operand

end TriggerLang
