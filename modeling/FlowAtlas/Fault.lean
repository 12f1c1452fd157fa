import FlowAtlas.SystemError

/-!
# Faults

A fault says what went wrong, in which operation, and with which parts of the
input. A fault is recoverable when only the present unit of work is lost, and
fatal when the whole run is.

Annotations never lose what was known before: an operation that is replaced
stays in the context as one that was called, and entries of the context are only
ever added behind the others.
-/

namespace FlowAtlas

/-- What went wrong. -/
inductive Fault.Kind where
  | unexpected
  | configInvalid
  | hierarchyOpenFailed
  | projectCompileFailed
  | graphUnavailable
  | graphBuildFailed
  | invariantViolation
  | rendererUnavailable
  | renderFailed
  | fileNotFound
  | permissionDenied
  | ioFailed
  | deserializationFailed
  deriving DecidableEq, Repr

namespace Fault.Kind

/-- The name of a kind. -/
def name : Fault.Kind → String
  | .unexpected => "Unexpected"
  | .configInvalid => "ConfigInvalid"
  | .hierarchyOpenFailed => "HierarchyOpenFailed"
  | .projectCompileFailed => "ProjectCompileFailed"
  | .graphUnavailable => "GraphUnavailable"
  | .graphBuildFailed => "GraphBuildFailed"
  | .invariantViolation => "InvariantViolation"
  | .rendererUnavailable => "RendererUnavailable"
  | .renderFailed => "RenderFailed"
  | .fileNotFound => "FileNotFound"
  | .permissionDenied => "PermissionDenied"
  | .ioFailed => "IoFailed"
  | .deserializationFailed => "DeserializationFailed"

/-- Every kind. -/
def all : List Fault.Kind :=
  [.unexpected, .configInvalid, .hierarchyOpenFailed, .projectCompileFailed,
    .graphUnavailable, .graphBuildFailed, .invariantViolation,
    .rendererUnavailable, .renderFailed, .fileNotFound, .permissionDenied,
    .ioFailed, .deserializationFailed]

/-- Whether a fault of this kind ends the run unless something else is
decided. -/
def isFatal : Fault.Kind → Bool
  | .hierarchyOpenFailed | .configInvalid => true
  | _ => false

end Fault.Kind

/-- How far a fault reaches. -/
inductive Fault.Status where
  /-- Only the present unit of work is given up. -/
  | recoverable
  /-- The run cannot go on. -/
  | fatal
  deriving DecidableEq, Repr

namespace Fault.Status

/-- The name of a status. -/
def name : Fault.Status → String
  | .recoverable => "recoverable"
  | .fatal => "fatal"

/-- The status of a fault that the step at hand cannot survive. -/
def raised (_ : Fault.Status) : Fault.Status := .fatal

end Fault.Status

/-- What went wrong, and all that is known about it. -/
structure Fault where
  kind : Fault.Kind
  message : String
  status : Fault.Status
  /-- The operation that failed; empty as long as none is named. -/
  operation : String := ""
  /-- Named parts of the input, and the operations that were called, in the
  order in which they became known. -/
  context : List (String × String) := []
  /-- The refusal behind the fault. -/
  source : Option SystemError := none
  deriving DecidableEq, Repr

namespace Fault

/-- A fault of a kind, with the status that the kind has by itself. -/
def of (kind : Kind) (message : String) : Fault :=
  { kind, message, status := if kind.isFatal then .fatal else .recoverable }

/-- Whether the fault ends the run. -/
def isFatal (f : Fault) : Bool := f.status = .fatal

/-- Makes the fault end the run. -/
def asFatal (f : Fault) : Fault := { f with status := f.status.raised }

/-- Adds an entry to the context. -/
def addContext (f : Fault) (key value : String) : Fault :=
  { f with context := f.context ++ [(key, value)] }

/-- The key under which replaced operations are kept. -/
def calledKey : String := "called"

/-- Names the operation that failed. The one named before was called by it. -/
def addOperation (f : Fault) (operation : String) : Fault :=
  let f := if f.operation = "" then f else f.addContext calledKey f.operation
  { f with operation }

/-- Sets the refusal behind the fault. -/
def withSource (f : Fault) (source : SystemError) : Fault :=
  { f with source := some source }

/-- The first value in the context under a key. -/
def valueOf? (f : Fault) (key : String) : Option String := f.context.lookup key

/-- The fault on one line. -/
def render (f : Fault) : String :=
  let operation := if f.operation = "" then "" else " at " ++ f.operation
  let context :=
    if f.context.isEmpty then ""
    else ", context \x7b "
      ++ ", ".intercalate (f.context.map fun e => e.1 ++ ": " ++ e.2) ++ " \x7d"
  let message := if f.message = "" then "" else " => " ++ f.message
  f.kind.name ++ " (" ++ f.status.name ++ ")" ++ operation ++ context ++ message

/-- The fault with all its parts, in paragraphs. -/
def describe (f : Fault) : String :=
  let message :=
    if f.message = "" then "" else "\n    Message: " ++ f.message ++ "\n"
  let context :=
    if f.context.isEmpty then ""
    else "\n    Context:\n"
      ++ String.join
        (f.context.map fun e => "        " ++ e.1 ++ ": " ++ e.2 ++ "\n")
  let source := match f.source with
    | none => ""
    | some s => "\n    Source: " ++ s.describe ++ "\n"
  f.kind.name ++ " (" ++ f.status.name ++ ") at " ++ f.operation ++ "\n"
    ++ message ++ context ++ source

/-! ## Faults by cause -/

/-- Something that no rule foresees. -/
def unexpected (message : String) : Fault := of .unexpected message

/-- A configuration that cannot be used. -/
def configInvalid (message : String) : Fault := of .configInvalid message

/-- A graph that breaks a rule of its structure. -/
def invariantViolation
    (message : String) : Fault := of .invariantViolation message

/-- A recorded graph of a method that cannot be read. -/
def graphBuildFailed (method message : String) : Fault :=
  (of .graphBuildFailed message).addContext "method" method

/-- A hierarchy that cannot be opened. -/
def hierarchyOpenFailed (root message : String) : Fault :=
  (of .hierarchyOpenFailed message).addContext "root" root

/-- A project that cannot be compiled or read. -/
def projectCompileFailed (project message : String) : Fault :=
  (of .projectCompileFailed message).addContext "project" project

/-- A method for which there is no graph. -/
def graphUnavailable (document method : String) : Fault :=
  ((of .graphUnavailable
    ("no control flow graph for " ++ document ++ "::" ++ method)).addContext
    "document" document).addContext "method" method

/-- A renderer that cannot be started. -/
def rendererUnavailable (program : String) : Fault :=
  (of .rendererUnavailable
    ("could not launch renderer '" ++ program ++ "'")).addContext
    "program" program

/-- A renderer that failed to produce a file. -/
def renderFailed (path message : String) : Fault :=
  (of .renderFailed message).addContext "path" path

/-- The kind of fault that a refused file operation is. -/
def kindOfSystem : SystemError.Kind → Kind
  | .notFound => .fileNotFound
  | .permissionDenied => .permissionDenied
  | _ => .ioFailed

/-- A refused file operation. -/
def ofSystem (e : SystemError) : Fault :=
  ((of (kindOfSystem e.kindOf) e.message).addOperation "io").withSource e

end Fault

end FlowAtlas
