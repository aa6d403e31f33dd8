import TriggerLang.Toml.Number
/-!
# Scalars of flat TOML files

A `Value` is what a key of a flat file may hold.  The number that a floating point value stands for
is not kept, as no reader of these files asks for it.
-/

namespace TriggerLang.Toml

/-- The value of a key. -/
inductive Value where
  | integer (n : Int)
  | float
  | boolean (b : Bool)
  | text (s : String)
  | table
  deriving DecidableEq, Inhabited

/-! ### Bare values -/

/-- The value of a token without quotes. -/
def bareValue? (token : List Char) : Option Value :=
  if token = ['t', 'r', 'u', 'e'] then some (.boolean true)
  else if token = ['f', 'a', 'l', 's', 'e'] then some (.boolean false)
  else
    match integer? token with
    | some n => some (.integer n)
    | none => if isFloat token then some .float else none

/-! ### Texts -/

/-- Whether a character may stand in a text or a comment. -/
def isPrintable (c : Char) : Bool :=
  c == '\t' || (' ' ≤ c && c != '\x7f')

/-- The character that an escape stands for. -/
def escaped? : Char → Option Char
  | 'b' => some '\x08'
  | 't' => some '\t'
  | 'n' => some '\n'
  | 'f' => some '\x0c'
  | 'r' => some '\r'
  | '"' => some '"'
  | '\\' => some '\\'
  | _ => none

/-- The character with a code of hexadecimal digits. -/
def ofCode? (code : List Char) : Option Char :=
  let next (acc : Option Nat) (c : Char) : Option Nat :=
    acc.bind fun n => (digitValue? 16 c).map (n * 16 + ·)
  (code.foldl next (some 0)).bind fun n => if n.isValidChar then some (Char.ofNat n) else none

/-- The text up to a closing double quote, and what follows the quote. -/
def quoted? : List Char → Option (List Char × List Char)
  | [] => none
  | '"' :: rest => some ([], rest)
  | '\\' :: 'u' :: a :: b :: c :: d :: rest => do
      let x ← ofCode? [a, b, c, d]
      let (text, rest) ← quoted? rest
      pure (x :: text, rest)
  | '\\' :: 'U' :: a :: b :: c :: d :: e :: f :: g :: h :: rest => do
      let x ← ofCode? [a, b, c, d, e, f, g, h]
      let (text, rest) ← quoted? rest
      pure (x :: text, rest)
  | '\\' :: c :: rest => do
      let x ← escaped? c
      let (text, rest) ← quoted? rest
      pure (x :: text, rest)
  | c :: rest =>
      if isPrintable c && c != '\\' then (quoted? rest).map fun (text, rest) => (c :: text, rest)
      else none

/-- The text up to a closing single quote, in which nothing is escaped, and what follows the quote.
-/
def verbatim? : List Char → Option (List Char × List Char)
  | [] => none
  | '\'' :: rest => some ([], rest)
  | c :: rest =>
      if isPrintable c then (verbatim? rest).map fun (text, rest) => (c :: text, rest) else none

end TriggerLang.Toml
