import FlowAtlas.Disk.Ignore
import FlowAtlas.Path

/-!
# Folders

What a directory holds, as far as a search for files needs to know: names,
kinds, and ignore rules. A search goes down into folders, and leaves out what
the rules hide.
-/

namespace FlowAtlas

/-- An entry of a directory. -/
inductive Item where
  | file
  | folder (layer : Ignore.Layer) (items : List (String × Item))
  /-- A link, or something else that is not searched. -/
  | other
  deriving Repr

/-- A directory with all that stands below it, and the layers of the directories
above. -/
structure Survey where
  above : Ignore.Layers
  layer : Ignore.Layer
  items : List (String × Item)
  deriving Repr

namespace Survey

mutual

/-- The names that lead to the visible files of an entry, if the entry itself is
to be seen. `enters` tells into which directories the search goes. -/
def filesOf (enters : String → Bool) (layers : Ignore.Layers) (name : String) :
    Item → List (List String)
  | .file => if Ignore.hides layers name false then [] else [[name]]
  | .other => []
  | .folder layer items =>
    if Ignore.hides layers name true || !enters name then []
    else (filesIn enters (Ignore.enter name layer layers) items).map (name :: ·)

/-- The names that lead to the visible files of a directory. -/
def filesIn (enters : String → Bool) (layers : Ignore.Layers) :
    List (String × Item) → List (List String)
  | [] => []
  | (name, item) :: items =>
    filesOf enters layers name item ++ filesIn enters layers items

end

/-- The names that lead from the directory to the visible files below it. -/
def files (enters : String → Bool) (s : Survey) : List (List String) :=
  filesIn enters ((s.layer, []) :: s.above) s.items

end Survey

end FlowAtlas
