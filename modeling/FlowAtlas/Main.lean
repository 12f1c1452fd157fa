import FlowAtlas.CommandLine.Run

/-!
# The command line

The program on the files of the machine. It starts no other program itself, so
every raster is reported as not rendered; the markup, the manifest and the
architecture are written all the same.
-/

namespace FlowAtlas.Machine

/-- The number with which the system refused, if it gave one. -/
def numberOf : IO.Error → Option UInt32
  | .alreadyExists _ n _ | .otherError n _ | .resourceBusy n
      _ | .resourceVanished n _
  | .unsupportedOperation n _ | .hardwareFault n _ | .unsatisfiedConstraints n _
  | .illegalOperation n _ | .protocolError n _ | .timeExpired n
      _ | .interrupted _ n _
  | .noFileOrDirectory _ n _ | .invalidArgument _ n _ | .permissionDenied _ n _
  | .resourceExhausted _ n _ | .inappropriateType _ n _ | .noSuchThing _ n _ =>
    some n
  | .unexpectedEof | .userError _ => none

/-- A refusal of the system. Some operations give the number of a code with its
sign turned. -/
def refusalOf (e : IO.Error) : SystemError :=
  match numberOf e with
  | some n => .coded (.ofNumber (Int.natAbs n.toInt32.toInt))
  | none => .refused .other (toString e)

/-- Carries out an operation on a path, and catches its refusal. -/
def attempt {α : Type} (p : Path) (operation : IO α) :
    IO (Except SystemError α) := do
  if p.contains '\x00' then pure (.error .nulInPath)
  else if p = "" then pure (.error (.coded .noEntry))
  else
    try pure (.ok (← operation))
    catch e => pure (.error (refusalOf e))

/-- The text of a file. -/
def readText (p : Path) : IO (Except SystemError String) := do
  match ← attempt p (IO.FS.readBinFile p) with
  | .error e => pure (.error e)
  | .ok content =>
    match String.fromUTF8? content with
    | some text => pure (.ok text)
    | none => pure (.error .notText)

/-- Whether a path leads to a directory. -/
def isDirectory (p : Path) : IO (Except SystemError Bool) :=
  attempt p do
    let here ← IO.currentDir
    pure ((← (here / p).metadata).type == .dir)

/-- The rules in a file of a directory; none if it cannot be read. -/
def rulesIn (dir : Path) (name : String) : IO (List Ignore.Rule) := do
  match ← readText (dir.join name) with
  | .ok text => pure (Ignore.rules text)
  | .error _ => pure []

/-- The ignore rules that a directory holds. -/
def layer (dir : Path) : IO Ignore.Layer := do
  pure {
    rules := ← rulesIn dir Ignore.rulesFile
    repositoryRules := ← rulesIn dir Ignore.repositoryRulesFile
    isRepository :=
      (← isDirectory (dir.join Ignore.repositoryMark)) matches .ok _ }

/-- The entries of a directory, and what stands below them. -/
partial def items (dir : Path) : IO (List (String × Item)) := do
  let here ← IO.currentDir
  let entries ← (here / dir).readDir
  entries.toList.mapM fun entry => do
    let path := dir.join entry.fileName
    match (← (here / path).symlinkMetadata).type with
    | .file => pure (entry.fileName, Item.file)
    | .dir => pure (entry.fileName, Item.folder (← layer path) (← items path))
    | _ => pure (entry.fileName, Item.other)

/-- The layers of the directories above one whose names are given backwards. -/
def layersAbove : List String → List String → IO Ignore.Layers
  | [], _ => pure []
  | name :: above, path => do
    let dir := "/" ++ "/".intercalate above.reverse
    pure ((← layer dir, name :: path) :: (← layersAbove above (name :: path)))

/-- All that stands below a directory. -/
def survey (p : Path) : IO (Except SystemError Survey) :=
  attempt p do
    let real := toString (← IO.FS.realPath p)
    pure {
      above := ← layersAbove (Path.names real).reverse []
      layer := ← layer p
      items := ← items p }

/-- The files of the machine. -/
def disk : Disk IO where
  isDirectory := isDirectory
  readText := readText
  writeText p text := attempt p (IO.FS.writeFile p text)
  removeFile p := attempt p (IO.FS.removeFile p)
  createDirectories p :=
    if p = "" then pure (.ok ()) else attempt p (IO.FS.createDirAll p)
  survey := survey

/-- No other program is started. -/
def launch : Renderer.Launcher IO := fun _ _ =>
  pure (.error (.refused .other "no other program is started"))

/-- The machine. -/
def host : Host IO := ⟨disk, launch⟩

/-- The arguments that the program takes. -/
def usage : String :=
  "Usage: cfgflow [OPTIONS] <HIERARCHY_ROOT> <OUTPUT_DIR>\n\n" ++ "Options: "
    ++ ", ".intercalate (Arguments.Slot.named.map fun e => "--" ++ e.1)

/-- Tells how a run went. -/
def tell : Except Fault Run.Report → IO Unit
  | .error fault => IO.eprintln fault.render
  | .ok report => do
    for w in report.warnings do
      IO.eprintln (w.category.name ++ " " ++ w.unit ++ ": " ++ w.message)
    for path in report.written do
      IO.println path

end FlowAtlas.Machine

/-- Runs the program with the arguments of the command line. -/
def main (args : List String) : IO UInt32 := do
  let status ← match FlowAtlas.Arguments.parse args with
    | .error status => do
      if status = .success then IO.println FlowAtlas.Machine.usage
      else IO.eprintln FlowAtlas.Machine.usage
      pure status
    | .ok a => do
      let result ← FlowAtlas.Machine.host.runArguments a
      FlowAtlas.Machine.tell result
      pure (FlowAtlas.Host.statusOf result)
  pure (UInt32.ofNat status.code)
