import FlowAtlas.Hierarchy.Basic

/-!
# Hierarchies in JSON

How a hierarchy is written down and read back. Diagnostics are written only when
there are some, and the graph of a method only when one was recorded.
-/

namespace FlowAtlas

open Json

/-- The written form of a method. -/
def Method.toJson (m : Method) : Json :=
  .object ([("name", .string m.name), ("has_body", .bool m.hasBody)]
    ++ match m.recorded with
      | none => []
      | some r => [("cfg", r.toJson)])

/-- The fields of a method. -/
def Method.record : Record Method where
  name := "MethodDecl"
  fields := [("name", true), ("has_body", false), ("cfg", false)]
  blank := { name := "" }
  put key source node m :=
    match key with
    | "name" => (decodeString node).map fun name => { m with name }
    | "has_body" => (decodeBool node).map fun hasBody => { m with hasBody }
    | "cfg" =>
      (decodeOption (RecordedGraph.decode source) node).map fun recorded =>
        { m with recorded }
    | _ => .ok m

/-- The names of the kinds of types. -/
def TypeKind.choices : List (String × TypeKind) :=
  [("class", .classKind), ("struct", .structKind), ("record", .recordKind),
    ("interface", .interfaceKind), ("enum", .enumKind)]

/-- The name of a kind of type in a snapshot. -/
def TypeKind.key : TypeKind → String
  | .classKind => "class"
  | .structKind => "struct"
  | .recordKind => "record"
  | .interfaceKind => "interface"
  | .enumKind => "enum"

/-- The written form of a type. -/
def TypeDecl.toJson (t : TypeDecl) : Json :=
  .object [
    ("name", .string t.name),
    ("kind", .string t.kind.key),
    ("methods", .array (t.methods.map Method.toJson))]

/-- The fields of a type. -/
def TypeDecl.record : Record TypeDecl where
  name := "TypeDecl"
  fields := [("name", true), ("kind", false), ("methods", false)]
  blank := { name := "" }
  put key source node t :=
    match key with
    | "name" => (decodeString node).map fun name => { t with name }
    | "kind" => (decodeChoice TypeKind.choices source node).map fun kind =>
      { t with kind }
    | "methods" =>
      (decodeList Method.record.decode source node).map fun methods =>
        { t with methods }
    | _ => .ok t

/-- The written form of a document. -/
def Document.toJson (d : Document) : Json :=
  .object [
    ("name", .string d.name),
    ("types", .array (d.types.map TypeDecl.toJson)),
    ("methods", .array (d.methods.map Method.toJson))]

/-- The fields of a document. -/
def Document.record : Record Document where
  name := "Document"
  fields := [("name", true), ("types", false), ("methods", false)]
  blank := { name := "" }
  put key source node d :=
    match key with
    | "name" => (decodeString node).map fun name => { d with name }
    | "types" =>
      (decodeList TypeDecl.record.decode source node).map fun types =>
        { d with types }
    | "methods" =>
      (decodeList Method.record.decode source node).map fun methods =>
        { d with methods }
    | _ => .ok d

/-- The written form of a project. -/
def Project.toJson (p : Project) : Json :=
  .object ([("name", .string p.name),
      ("documents", .array (p.documents.map Document.toJson))]
    ++ match p.diagnostics with
      | [] => []
      | ds => [("diagnostics", .array (ds.map .string))])

/-- The fields of a project. -/
def Project.record : Record Project where
  name := "Project"
  fields := [("name", true), ("documents", false), ("diagnostics", false)]
  blank := { name := "" }
  put key source node p :=
    match key with
    | "name" => (decodeString node).map fun name => { p with name }
    | "documents" =>
      (decodeList Document.record.decode source node).map fun documents =>
        { p with documents }
    | "diagnostics" =>
      (decodeList (fun _ => decodeString) source node).map fun diagnostics =>
        { p with diagnostics }
    | _ => .ok p

/-- The written form of a solution. -/
def Solution.toJson (s : Solution) : Json :=
  .object [("name", .string s.name),
    ("projects", .array (s.projects.map Project.toJson))]

/-- The fields of a solution. -/
def Solution.record : Record Solution where
  name := "Solution"
  fields := [("name", false), ("projects", false)]
  blank := {}
  put key source node s :=
    match key with
    | "name" => (decodeString node).map fun name => { s with name }
    | "projects" =>
      (decodeList Project.record.decode source node).map fun projects =>
        { s with projects }
    | _ => .ok s

/-- Reads a solution from a text. -/
def Solution.ofText (text : String) : Decoded Solution :=
  decodeText Solution.record.decode text

/-- Reads a project from a text. -/
def Project.ofText (text : String) : Decoded Project :=
  decodeText Project.record.decode text

/-- The text of a solution. -/
def Solution.toText (s : Solution) : String := s.toJson.compact

end FlowAtlas
