import FlowAtlas.Config.Load
import FlowAtlas.Run.Perform
import FlowAtlas.Snapshot.Open

/-!
# The program

From the command line to the exit status. A run fails when the configuration
cannot be loaded, the output directory cannot be created or the hierarchy cannot
be opened; after that it goes on whatever happens, and succeeds.
-/

namespace FlowAtlas

/-- What the program needs from the machine it runs on. -/
structure Host (m : Type → Type) where
  disk : Disk m
  launch : Renderer.Launcher m

namespace Host

variable {m : Type → Type} [Monad m] (host : Host m)

/-- A run with given options. -/
def runWith (o : Options) : m (Except Fault Run.Report) := do
  match ← OutputDirectory.create host.disk o.outputDir with
  | .error fault => pure (.error fault)
  | .ok output =>
    match ← Snapshot.openSnapshot host.disk o.hierarchyRoot with
    | .error fault => pure (.error fault)
    | .ok solution =>
      let shop : Run.Workshop m :=
        { disk := host.disk,
          renderer := Renderer.ofProgram host.launch o.renderer, output }
      pure (.ok (← Run.run shop (Snapshot.source solution) o.project o.bounds))

/-- A run with given arguments. -/
def runArguments (a : Arguments) : m (Except Fault Run.Report) := do
  match ← Options.load host.disk a with
  | .error fault => pure (.error fault)
  | .ok o => host.runWith o

/-- The status in which a run leaves the program. -/
def statusOf : Except Fault Run.Report → ExitStatus
  | .ok _ => .success
  | .error _ => .failure

/-- The program: its arguments, and the status in which it ends. -/
def exitStatus (args : List String) : m ExitStatus := do
  match Arguments.parse args with
  | .error status => pure status
  | .ok a => pure (statusOf (← host.runArguments a))

end Host

end FlowAtlas
