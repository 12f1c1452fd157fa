import FlowAtlas.Disk.Basic
import FlowAtlas.Snapshot.Source

/-!
# Opening a snapshot

A snapshot is a file with a whole solution, or a directory in which every JSON
file holds one project. In a directory a file that cannot be read still stands
for a project: one without documents that has the complaint on record, so that a
run passes over this project and no other.
-/

namespace FlowAtlas.Snapshot

/-- The names of directories that never hold snapshots, in lower case. -/
def skippedDirectories : List String :=
  ["target", "build", "dist", "out", "node_modules", "vendor",
    "docs-architecture"]

/-- Whether a search for snapshots goes into a directory. -/
def enters (name : String) : Bool :=
  !skippedDirectories.contains (name.map Char.toLower)

/-- The extension of snapshot files. -/
def extension : String := "json"

/-- The name of a solution that nothing gives a name to. -/
def unnamed : String := "solution"

/-- The name that a file or directory gives to what it holds. -/
def nameFromPath (p : Path) : String := p.fileStem?.getD unnamed

/-- The path to which names lead from a directory. -/
def pathTo (root : Path)
    (names : List String) : Path := names.foldl Path.join root

/-- The snapshot files among some files, in the order of their names. -/
def snapshotFiles (files : List (List String)) : List (List String) :=
  (files.filter fun names =>
    (names.getLast?.bind Path.extension?) = some extension).mergeSort
    fun a b => Path.compareNames a b ≠ .gt

/-- The project that stands for a file which cannot be read. -/
def brokenProject (path : Path) (complaint : String) : Project where
  name := nameFromPath path
  diagnostics := [path ++ ": " ++ complaint]

/-- The project of a file, given what reading the file came to. -/
def projectOf (path : Path) : Except SystemError String → Project
  | .error e => brokenProject path e.message
  | .ok text =>
    match Project.ofText text with
    | .ok project => project
    | .error refusal => brokenProject path (refusal.render text)

section

variable {m : Type → Type} [Monad m] (disk : Disk m)

/-- The projects of some files. -/
def readProjects (root : Path) : List (List String) → m (List Project)
  | [] => pure []
  | names :: files => do
    let path := pathTo root names
    let project := projectOf path (← disk.readText path)
    pure (project :: (← readProjects root files))

/-- Opens a directory of project snapshots. -/
def readDirectory (root : Path) : m (Except Fault Solution) := do
  match ← disk.survey root with
  | .error e =>
    pure (.error (((Fault.hierarchyOpenFailed root
      ("failed to walk directory: " ++ e.message)).addOperation
      "snapshot::open_directory")))
  | .ok survey =>
    -- A file that cannot be read is no reason to stop: a project stands for it.
    let projects ← readProjects disk root (snapshotFiles (survey.files enters))
    pure (.ok { name := nameFromPath root, projects })

/-- The fault of a solution file that cannot be used. -/
def manifestFault (root : Path) (message : String) : Fault :=
  (Fault.hierarchyOpenFailed root message).addOperation
    "snapshot::open_manifest"

/-- The solution in the text of a file; without a name it is called after the
file. -/
def solutionOf (root : Path) (text : String) : Except Fault Solution :=
  match Solution.ofText text with
  | .ok s =>
    .ok (if s.name = "" then { s with name := nameFromPath root } else s)
  | .error _ =>
    .error ((manifestFault root "invalid solution manifest").addContext "kind"
      Fault.Kind.deserializationFailed.name)

/-- Opens a file with a whole solution. -/
def readSolution (root : Path) : m (Except Fault Solution) := do
  match ← disk.readText root with
  | .error e =>
    pure (.error
      ((manifestFault root "cannot read solution manifest").withSource e))
  | .ok text => pure (solutionOf root text)

/-- Opens a snapshot. -/
def openSnapshot (root : Path) : m (Except Fault Solution) := do
  match ← disk.isDirectory root with
  | .error e =>
    pure (.error
      (((Fault.hierarchyOpenFailed root
        "cannot open hierarchy root").addOperation
        "snapshot::open").withSource e))
  | .ok true => readDirectory disk root
  | .ok false => readSolution disk root

end

end FlowAtlas.Snapshot
