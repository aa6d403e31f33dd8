import TriggerLang.Diagnostic
import TriggerLang.Settings.Basic
import TriggerLang.Toml.Document
/-!
# Settings files

Settings are read from the root of a flat TOML file.  Every setting is optional and falls back to
its default, and keys that are no settings are ignored.
-/

namespace TriggerLang.Settings

/-- The value of a numeric setting, or its default. -/
def limit? (d : Toml.Document) (key : String) (default : Nat) : Option Nat :=
  match d.get? key with
  | none => some default
  | some (.integer n) => if 0 ≤ n then some n.toNat else none
  | some _ => none

/-- The value of a switch, or its default. -/
def switch? (d : Toml.Document) (key : String) (default : Bool) : Option Bool :=
  match d.get? key with
  | none => some default
  | some (.boolean b) => some b
  | some _ => none

/-- The settings of a document, unless one of them has a value of another type. -/
def ofDocument? (d : Toml.Document) : Option Settings := do
  let standard : Settings := {}
  let alternateLimit ← limit? d "max_alternate_groups" standard.alternateLimit
  let expandNestedOr ← switch? d "expand_nested_or" standard.expandNestedOr
  let callDepthLimit ← limit? d "max_call_depth" standard.callDepthLimit
  pure { alternateLimit, expandNestedOr, callDepthLimit }

/-- The settings that a text holds. -/
def read (text : String) : Outcome Settings :=
  match (Toml.Document.read? text).bind ofDocument? with
  | some settings => .ok settings
  | none => .fail .invalidSettings

end TriggerLang.Settings
