import FlowAtlas.Architecture.Bounds
import FlowAtlas.Fault
import FlowAtlas.Text.Choice
import FlowAtlas.Toml.Reader

/-!
# The configuration file

A TOML document with two tables, both of which may be missing. A name that the
program does not know is refused, so that a misspelt setting cannot go
unnoticed.
-/

namespace FlowAtlas

open Toml (Value Entries)

/-- The settings of a configuration file, each of which may be left open. -/
structure Settings where
  bounds : PartialBounds := {}
  /-- The program that renders diagrams. -/
  renderer : Option String := none
  deriving DecidableEq, Repr

namespace Settings

/-- Why a configuration is refused. -/
inductive Refusal where
  | notToml
  | unknownField (name : String) (known : List String)
  | wrongType (found expected : String)
  | negative (n : Int)
  deriving DecidableEq, Repr

/-- The message for a text that is no TOML document. -/
def notTomlMessage : String := "not a TOML document"

/-- What a whole number is called where another value stands. -/
def countName : String := "usize"

/-- The wording of a refusal. -/
def Refusal.text : Refusal → String
  | .notToml => notTomlMessage
  | .unknownField name known =>
    "unknown field " ++ Text.backquoted name ++ ", expected "
      ++ Text.oneOf known
  | .wrongType found expected =>
    "invalid type: " ++ found ++ ", expected " ++ expected
  | .negative n =>
    "invalid value: integer " ++ Text.backquoted (toString n)
      ++ ", expected " ++ countName

/-- The wording of a value that stands in the wrong place. -/
def describe : Value → String
  | .string s => "string " ++ Text.quote s
  | .integer n => "integer " ++ Text.backquoted (toString n)
  | .float d => "floating point " ++ Text.backquoted (d.render .full)
  | .boolean b => "boolean " ++ Text.backquoted (toString b)
  | .datetime | .table _ _ => "map"
  | .array _ | .tables _ => "sequence"

/-- A count. -/
def count (v : Value) : Except Refusal Nat :=
  match v with
  | .integer n => if n < 0 then .error (.negative n) else .ok n.toNat
  | v => .error (.wrongType (describe v) countName)

/-- A text. -/
def text (v : Value) : Except Refusal String :=
  match v with
  | .string s => .ok s
  | v => .error (.wrongType (describe v) "a string")

/-- The name under which a date or a time shows itself to a reader of tables. -/
def datetimeField : String := "$__toml_private_datetime"

/-- A table of settings, given by name or as a list in the order of the names.
Items of a list beyond the last name are passed over. -/
def section_ {α : Type} (name : String) (fields : List String)
    (put : String → Value → α → Except Refusal α) (blank : α) (v : Value) :
    Except Refusal α :=
  let inOrder (items : List Value) : Except Refusal α :=
    (fields.zip items).foldlM (fun a f => put f.1 f.2 a) blank
  match v with
  | .table _ entries =>
    entries.foldlM (fun a e =>
      if fields.contains e.1 then put e.1 e.2 a
      else .error (.unknownField e.1 fields)) blank
  | .array items => inOrder items
  | .tables elements =>
    inOrder (elements.map fun entries => .table .header entries)
  | .datetime => .error (.unknownField datetimeField fields)
  | v => .error (.wrongType (describe v) ("struct " ++ name))

/-- Reads the settings for the architecture diagram. -/
def boundsOf (v : Value) : Except Refusal PartialBounds :=
  section_ "ArchitectureConfig"
    ["max_docs_per_project", "max_types_per_project", "max_methods_per_type",
      "max_top_level_methods"]
    (fun name v b =>
      match name with
      | "max_docs_per_project" => (count v).map fun n =>
        { b with docsPerProject := some n }
      | "max_types_per_project" => (count v).map fun n =>
        { b with typesPerProject := some n }
      | "max_methods_per_type" => (count v).map fun n =>
        { b with methodsPerType := some n }
      | "max_top_level_methods" => (count v).map fun n =>
        { b with topLevelMethods := some n }
      -- Other names are refused before they come here.
      | _ => .ok b) {} v

/-- Reads the settings for the renderer. -/
def rendererOf (v : Value) : Except Refusal (Option String) :=
  section_ "RendererConfig" ["program"]
    (fun name v r =>
      match name with
      | "program" => (text v).map some
      | _ => .ok r) none v

/-- Reads all settings. -/
def ofEntries (entries : Entries) : Except Refusal Settings :=
  section_ "FileConfig" ["architecture", "renderer"]
    (fun name v s =>
      match name with
      | "architecture" => (boundsOf v).map fun bounds => { s with bounds }
      | "renderer" => (rendererOf v).map fun renderer => { s with renderer }
      | _ => .ok s) {} (.table .header entries)

/-- Reads a configuration from its text. -/
def ofText (text : String) : Except Refusal Settings :=
  match Toml.read? text with
  | none => .error .notToml
  | some entries => ofEntries entries

/-- A refused configuration as a fault. -/
def Refusal.fault (r : Refusal) : Fault :=
  (Fault.configInvalid r.text).addOperation "config::parse"

/-- Reads a configuration; a refusal is a fatal fault. -/
def parse (text : String) : Except Fault Settings :=
  (ofText text).mapError Refusal.fault

end Settings

end FlowAtlas
