import TriggerLang.Expr.Arithmetic
/-!
# Addresses

An evaluated expression is an address when it is an integer, a single read, or a single added read
with an offset.  A read under an operator is an address too: all rows that compute it become rows of
the pointer path.
-/

namespace TriggerLang.MemoryRead

/-- The read of a size at the address that a modified read yields. -/
def atModified (size : ReadSize) (m : ModifiedRead) : MemoryRead :=
  if m.isPlain then m.read.follow size
  else { operand := .read size 0, path := m.rows.map (·.withRole .addAddress) }

/-- The read of a size at the address that an evaluated expression stands for. -/
def atAddress (size : ReadSize) (address : Expr) : Outcome MemoryRead :=
  Outcome.within address.span <|
    match address with
    | .literal _ (.int n) => .ok (direct size n.word)
    | .read _ m => .ok (m.follow size)
    | .modified _ m => .ok (atModified size m)
    | .sum _ s =>
        match s.onlyTerm? with
        | some m => .ok ((atModified size m).withOffset s.offset.toUInt32)
        | none => .fail .addressOfSeveralReads
    | e => .fail (.notAnAddress e.text)

end TriggerLang.MemoryRead
