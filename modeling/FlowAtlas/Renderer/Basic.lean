import FlowAtlas.Fault
import FlowAtlas.Path
import FlowAtlas.Text.Blank

/-!
# Renderers

A renderer makes a raster file from a markup file. The usual one is another
program, started with the two paths as its arguments; it has done its work when
it ends with status zero.
-/

namespace FlowAtlas

/-- Renders the markup file at the first path into the raster file at the second
one. -/
abbrev Renderer (m : Type → Type) := Path → Path → m (Except Fault Unit)

namespace Renderer

/-- How a program ended. -/
inductive Ending where
  | exited (status : Nat)
  | killed (signal : Nat)
  deriving DecidableEq, Repr

/-- The names of the signals that end a program. -/
def signalNames : List (Nat × String) :=
  [(1, "SIGHUP"), (2, "SIGINT"), (3, "SIGQUIT"), (4, "SIGILL"), (5, "SIGTRAP"),
    (6, "SIGABRT"), (7, "SIGBUS"), (8, "SIGFPE"), (9, "SIGKILL"),
    (10, "SIGUSR1"), (11, "SIGSEGV"), (12, "SIGUSR2"), (13, "SIGPIPE"),
    (14, "SIGALRM"), (15, "SIGTERM"), (16, "SIGSTKFLT"), (24, "SIGXCPU"),
    (25, "SIGXFSZ"), (26, "SIGVTALRM"), (27, "SIGPROF"), (29, "SIGIO"),
    (30, "SIGPWR"), (31, "SIGSYS")]

/-- The ending in words. -/
def Ending.text : Ending → String
  | .exited status => "exit status: " ++ toString status
  | .killed signal =>
    "signal: " ++ toString signal ++
      match signalNames.lookup signal with
      | some name => " (" ++ name ++ ")"
      | none => ""

/-- What is left of a program that has ended. -/
structure Outcome where
  ending : Ending
  /-- What it wrote to its error stream. -/
  complaint : String
  deriving DecidableEq, Repr

/-- Starts a program by name with arguments, and waits until it ends. -/
abbrev Launcher (m : Type → Type) := String → List String → m
  (Except SystemError Outcome)

/-- The operation of a renderer that is another program. -/
def programOperation : String := "render::mermaid_cli"

/-- What the outcome of a program says about the raster it was to render. -/
def verdict (program : String)
    (output : Path) : Except SystemError Outcome → Except Fault Unit
  | .error e =>
    .error (((Fault.rendererUnavailable program).addOperation
      programOperation).withSource e)
  | .ok outcome =>
    if outcome.ending = .exited 0 then .ok ()
    else
      .error ((Fault.renderFailed output
        (program ++ " exited with " ++ outcome.ending.text ++ ": "
          ++ Text.trim outcome.complaint)).addOperation programOperation)

/-- A program as a renderer. -/
def ofProgram {m : Type → Type} [Monad m] (launch : Launcher m)
    (program : String) : Renderer m :=
  fun input output => do
    pure (verdict program output (← launch program ["-i", input, "-o", output]))

end Renderer

end FlowAtlas
