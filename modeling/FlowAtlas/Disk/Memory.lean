import FlowAtlas.Disk.Basic
import FlowAtlas.Disk.Tree

/-!
# A file tree as a disk

The operations that a run asks for, on a file tree that is a value. An operation
that is refused leaves the tree as it was, but for the directories that were
created before the refusal.
-/

namespace FlowAtlas.FileTree

/-- What a name in a directory leads to, through links. -/
def entryIn (t : FileTree) (dir : Location) (name : String) :
    Option (Location × Entry) :=
  match t.walkThrough true linkMax dir [name] with
  | .ok (.found l e) => some (l, e)
  | _ => none

/-- The ignore rules in a file of a directory; none if there is no such file. -/
def rulesIn (t : FileTree) (dir : Location) (name : String) :
    List Ignore.Rule :=
  match t.entryIn dir name with
  | some (_, .file content _) =>
    Ignore.rules ((String.fromUTF8? content).getD "")
  | _ => []

/-- The ignore rules that a directory holds. -/
def layer (t : FileTree) (dir : Location) : Ignore.Layer where
  rules := t.rulesIn dir Ignore.rulesFile
  repositoryRules := t.rulesIn dir Ignore.repositoryRulesFile
  isRepository := (t.entryIn dir Ignore.repositoryMark).isSome

/-- The entries of a directory, down to a depth. -/
def items (t : FileTree) : Nat → Location → List (String × Item)
  | 0, _ => []
  | depth + 1, dir =>
    (t.names dir).map fun name =>
      let here := dir ++ [name]
      match t.at? here with
      | some (.file _ _) => (name, .file)
      | some .directory => (name, .folder (t.layer here) (t.items depth here))
      | _ => (name, .other)

/-- The layers of the directories above one whose names are given backwards. -/
def layersAbove (t : FileTree) : List String → List String → Ignore.Layers
  | [], _ => []
  | name :: above, path =>
    (t.layer above.reverse, name :: path) :: t.layersAbove above (name :: path)

/-- All that stands below a directory. No location is longer than there are
entries, so the search goes deep enough. -/
def survey (t : FileTree) (p : Path) : Except SystemError Survey := do
  match ← t.lookup p with
  | (dir, .directory) =>
    pure {
      above := t.layersAbove dir.reverse []
      layer := t.layer dir
      items := t.items (t.entries.length + 1) dir }
  | _ => throw (.coded .notDirectory)

/-- An operation that changes the tree unless it is refused. -/
def change (f : FileTree → Except SystemError FileTree) :
    StateM FileTree (Except SystemError Unit) :=
  fun t =>
    match f t with
    | .ok t => (.ok (), t)
    | .error e => (.error e, t)

/-- The operations on a file tree. -/
def disk : Disk (StateM FileTree) where
  isDirectory p := fun t => (t.isDirectory p, t)
  readText p := fun t => (t.readText p, t)
  writeText p text := change fun t => t.writeText p text
  removeFile p := change fun t => t.removeFile p
  createDirectories p := fun t => t.createDirectories p
  survey p := fun t => (t.survey p, t)

end FlowAtlas.FileTree
