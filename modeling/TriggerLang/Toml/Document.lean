import TriggerLang.Toml.Scalar
/-!
# Flat TOML files

A flat file is read line by line.  A line is blank, or opens a section, or gives a value to a key;
each of them may end in a comment.  A byte order mark at the very start is skipped.
`Document.read?` gives the keys of the root with their values.

A name may be given only once where it stands: a key once in its section, and a section once among
the keys of the root, where it counts as a table.
-/

namespace TriggerLang.Toml

/-- What a line says. -/
inductive Line where
  | blank
  | header (name : String)
  | entry (key : String) (value : Value)
  deriving DecidableEq, Inhabited

/-- The lines of a text; a line ends in a line feed, with or without a carriage return before it. -/
def lines : List Char → List (List Char)
  | [] => [[]]
  | '\r' :: '\n' :: rest => [] :: lines rest
  | '\n' :: rest => [] :: lines rest
  | c :: rest =>
      match lines rest with
      | [] => [[c]]
      | l :: ls => (c :: l) :: ls

/-- Whether a character separates parts of a line. -/
def isBlank (c : Char) : Bool :=
  c == ' ' || c == '\t'

/-- A line without the blanks at its start. -/
def skipBlanks (cs : List Char) : List Char :=
  cs.dropWhile isBlank

/-- Whether nothing but blanks and a comment is left of a line. -/
def isFinished (cs : List Char) : Bool :=
  match skipBlanks cs with
  | [] => true
  | '#' :: comment => comment.all isPrintable
  | _ => false

/-- Whether a character may stand in a key without quotes. -/
def isKeyChar (c : Char) : Bool :=
  c.isAlphanum || c == '_' || c == '-'

/-- A key and what follows it. -/
def key? (cs : List Char) : Option (String × List Char) :=
  match cs with
  | '"' :: rest => (quoted? rest).map fun (text, rest) => (String.ofList text, rest)
  | '\'' :: rest => (verbatim? rest).map fun (text, rest) => (String.ofList text, rest)
  | _ =>
      let name := cs.takeWhile isKeyChar
      if name.isEmpty then none else some (String.ofList name, cs.drop name.length)

/-- A value and what follows it. -/
def value? (cs : List Char) : Option (Value × List Char) :=
  match cs with
  | '"' :: rest => (quoted? rest).map fun (text, rest) => (.text (String.ofList text), rest)
  | '\'' :: rest => (verbatim? rest).map fun (text, rest) => (.text (String.ofList text), rest)
  | _ =>
      let token := cs.takeWhile fun c => !isBlank c && c != '#'
      (bareValue? token).map fun v => (v, cs.drop token.length)

/-- The section that a line opens, read after its bracket. -/
def header? (cs : List Char) : Option Line := do
  let (name, rest) ← key? (skipBlanks cs)
  match skipBlanks rest with
  | ']' :: rest => if isFinished rest then some (.header name) else none
  | _ => none

/-- The key and value of a line. -/
def entry? (cs : List Char) : Option Line := do
  let (key, rest) ← key? cs
  match skipBlanks rest with
  | '=' :: rest =>
      let (value, rest) ← value? (skipBlanks rest)
      if isFinished rest then some (.entry key value) else none
  | _ => none

/-- What a line says, if it is well formed. -/
def Line.read? (cs : List Char) : Option Line :=
  if isFinished cs then some .blank
  else
    match skipBlanks cs with
    | '[' :: rest => header? rest
    | cs => entry? cs

/-- The keys of the root, and the keys of the section that is open. -/
structure Document where
  root : List (String × Value) := []
  inSection : Bool := false
  sectionKeys : List String := []

namespace Document

/-- The value of a key of the root. -/
def get? (d : Document) (key : String) : Option Value :=
  d.root.lookup key

/-- The document with one more line, unless a name is given twice. -/
def add? (d : Document) : Line → Option Document
  | .blank => some d
  | .header name =>
      if (d.get? name).isSome then none
      else some { root := (name, .table) :: d.root, inSection := true }
  | .entry key value =>
      if d.inSection then
        if d.sectionKeys.contains key then none
        else some { d with sectionKeys := key :: d.sectionKeys }
      else if (d.get? key).isSome then none
      else some { d with root := (key, value) :: d.root }

/-- A text without the byte order mark that it may start with. -/
def skipOrderMark : List Char → List Char
  | '\ufeff' :: cs => cs
  | cs => cs

/-- The document that a text holds, if it is well formed. -/
def read? (text : String) : Option Document :=
  (lines (skipOrderMark text.toList)).foldlM (fun d cs => (Line.read? cs).bind d.add?) {}

end Document

end TriggerLang.Toml
