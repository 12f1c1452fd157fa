import FlowAtlas.Architecture.Summary
import FlowAtlas.Artifacts.Manifest
import FlowAtlas.Artifacts.Raster
import FlowAtlas.Disk.Basic

/-!
# The output directory

Where the files of a run stand, and what is done to them. The markup of a method
stands in the output directory itself, with its rasters next to it; the
architecture has a directory of its own below; and a manifest lists what the run
has produced.
-/

namespace FlowAtlas

/-- The directory that a run writes to. -/
structure OutputDirectory where
  root : Path
  deriving DecidableEq, Repr

namespace OutputDirectory

/-- The extension of markup files. -/
def markupExtension : String := "mmd"

/-- The name of the directory for the architecture. -/
def architectureDirectory : String := "docs-architecture"

/-- The stem of the files of the architecture. -/
def architectureStem : String := "ARCHITECTURE"

/-- The name of the manifest. -/
def manifestName : String := ".cfgflow-artifacts.json"

variable (out : OutputDirectory)

/-- The markup file of a stem. -/
def markupFile (stem : String) : Path :=
  out.root.join (stem ++ "." ++ markupExtension)

/-- The directory for the architecture. -/
def architectureRoot : Path := out.root.join architectureDirectory

/-- The file of the architecture summary. -/
def summaryFile : Path := out.architectureRoot.join (architectureStem ++ ".md")

/-- The markup file of the architecture. -/
def architectureFile : Path :=
  out.architectureRoot.join (architectureStem ++ "." ++ markupExtension)

/-- The file of the manifest. -/
def manifestFile : Path := out.root.join manifestName

/-- The files that belong to a markup file: itself and its rasters. -/
def artifactPaths (markup : Path) : List Path :=
  markup :: Raster.all.map fun f => f.path markup

/-- A refused operation on a file, as a fault of the operation that asked for
it. -/
def faultAt (operation : String) (path : Path) (e : SystemError) : Fault :=
  ((Fault.ofSystem e).addOperation operation).addContext "path" path

section

variable {m : Type → Type} [Monad m] (disk : Disk m)

/-- Creates the output directory. Without it there is no run, so a refusal is
fatal. -/
def create (root : Path) : m (Except Fault OutputDirectory) := do
  match ← disk.createDirectories root with
  | .ok _ => pure (.ok ⟨root⟩)
  | .error e => pure (.error (faultAt "output::create" root e).asFatal)

/-- Deletes files that are out of date, each whether or not the others can be
deleted. A file that is not there is as good as deleted. -/
def deleteEach : List Path → m (List Fault)
  | [] => pure []
  | path :: paths => do
    let faults : List Fault ← do
      match ← disk.removeFile path with
      | .ok _ => pure []
      | .error e =>
        pure (if e.kindOf = .notFound then []
          else [faultAt "output::remove_stale" path e])
    pure (faults ++ (← deleteEach paths))

/-- Deletes a markup file and its rasters. -/
def clear (markup : Path) : m (List Fault) :=
  deleteEach disk (artifactPaths markup)

/-- Deletes the files of a stem. -/
def clearStem (stem : String) : m (List Fault) :=
  clear disk (out.markupFile stem)

/-- Writes a text to a file. -/
def putText (path : Path) (text : String) : m (Except Fault Unit) := do
  pure ((← disk.writeText path text).mapError
    (faultAt "output::write_text" path))

/-- Writes a markup file. -/
def putMarkup (path : Path) (markup : String) : m (Except Fault Unit) := do
  pure ((← putText disk path markup).mapError fun f =>
    f.addOperation "output::write_markup")

/-- Writes the two files of the architecture into a directory of their own. -/
def putArchitecture (texts : Architecture.Texts) : m (Except Fault Unit) := do
  match ← disk.createDirectories out.architectureRoot with
  | .error e =>
    pure (.error (faultAt "output::write_architecture" out.architectureRoot e))
  | .ok _ =>
    -- The markup is not written if the summary was not, although it does not
    -- depend on it.
    match ← putText disk out.summaryFile texts.summary with
    | .error f => pure (.error f)
    | .ok _ => putText disk out.architectureFile texts.markup

/-- The operation that reads the manifest. -/
def loadOperation : String := "output::load_manifest"

/-- The manifest in a text. -/
def manifestOf (text : String) : Except Fault Manifest :=
  (Manifest.ofText text).mapError fun _ =>
    ((Fault.of .deserializationFailed "invalid artifact manifest").addOperation
      loadOperation).addContext "path" out.manifestFile

/-- Reads the manifest; one that is not there is empty. -/
def readManifest : m (Except Fault Manifest) := do
  match ← disk.readText out.manifestFile with
  | .ok text => pure (out.manifestOf text)
  | .error e =>
    pure (if e.kindOf = .notFound then .ok .empty
      else .error (faultAt loadOperation out.manifestFile e))

/-- Writes the manifest. -/
def putManifest (manifest : Manifest) : m (Except Fault Unit) := do
  pure ((← putText disk out.manifestFile manifest.toText).mapError fun f =>
    f.addOperation "output::save_manifest")

end

end OutputDirectory

end FlowAtlas
