import FlowAtlas.Path
import FlowAtlas.SystemError

/-!
# File trees

A file tree as a value: which names lead to files, directories and links. A tree
is looked at through `at?`, and changed through `put` and `erase`; the names
that a path leads to are found by walking along it, through the links it meets.

A location is the list of names from the top of the tree, so the top is the
empty list. The top is always a directory.
-/

namespace FlowAtlas

/-- The names that lead to an entry from the top of the tree. -/
abbrev Location := List String

namespace FileTree

/-- What stands at a location. -/
inductive Entry where
  | file (content : ByteArray) (executable : Bool)
  | directory
  | link (target : Path)

/-- Whether an entry is a directory. -/
def Entry.isDirectory : Entry → Bool
  | .directory => true
  | _ => false

end FileTree

/-- A file tree, and the directory from which relative paths are walked. -/
structure FileTree where
  entries : List (Location × FileTree.Entry) := []
  workingDirectory : Location := []

namespace FileTree

/-- What stands at a location. -/
def at? (t : FileTree) (l : Location) : Option Entry :=
  if l = [] then some .directory else t.entries.lookup l

/-- Makes an entry stand at a location, in place of what stood there. -/
def put (t : FileTree) (l : Location) (e : Entry) : FileTree :=
  { t with entries := (l, e) :: t.entries.filter fun x => x.1 ≠ l }

/-- Takes away what stands at a location. -/
def erase (t : FileTree) (l : Location) : FileTree :=
  { t with entries := t.entries.filter fun x => x.1 ≠ l }

/-- Takes away what stands at a location and below it. -/
def eraseBelow (t : FileTree) (l : Location) : FileTree :=
  { t with entries := t.entries.filter fun x => !l.isPrefixOf x.1 }

/-- The names in a directory, in ascending order. -/
def names (t : FileTree) (l : Location) : List String :=
  (t.entries.filterMap fun x =>
    match x.1.reverse with
    | [] => none
    | name :: above =>
      if above.reverse = l then some name else none).mergeSort (· ≤ ·)

/-! ## What the operations do to the entries -/

theorem lookup_filter_ne {α : Type} (entries : List (Location × α))
    (l k : Location) :
    (entries.filter fun x => x.1 ≠ l).lookup k
      = if k = l then none else entries.lookup k := by
  induction entries with
  | nil => simp
  | cons p rest ih =>
    obtain ⟨j, a⟩ := p
    by_cases hj : j = l
    · subst hj
      rw [List.filter_cons_of_neg (by simp), ih, List.lookup_cons]
      by_cases hk : k = j
      · simp [hk]
      · have : (k == j) = false := by simpa using hk
        simp [this, hk]
    · rw [List.filter_cons_of_pos (by simpa using hj), List.lookup_cons,
        List.lookup_cons, ih]
      by_cases hk : k = l
      · subst hk
        have : (k == j) = false := by simpa using Ne.symm hj
        simp [this]
      · simp [hk]

theorem at?_erase (t : FileTree) (l k : Location) (h : l ≠ []) :
    (t.erase l).at? k = if k = l then none else t.at? k := by
  unfold at? erase
  rw [lookup_filter_ne]
  by_cases hk : k = []
  · subst hk; simp [Ne.symm h]
  · simp [hk]

theorem at?_put (t : FileTree) (l k : Location) (e : Entry) (h : l ≠ []) :
    (t.put l e).at? k = if k = l then some e else t.at? k := by
  unfold at? put
  rw [List.lookup_cons, lookup_filter_ne]
  by_cases hk : k = []
  · subst hk; simp [Ne.symm h]
  · by_cases hl : k = l
    · simp [hl, h]
    · have : (k == l) = false := by simpa using hl
      simp [hk, hl, this]

/-! ## Walking along a path -/

/-- Where a walk ends. -/
inductive Stop where
  /-- At something that is there. -/
  | found (location : Location) (entry : Entry)
  /-- In a directory, at a name that leads nowhere. -/
  | vacant (directory : Location) (name : String)

/-- The greatest length of a name, in bytes. -/
def nameMax : Nat := 255

/-- The least length of a path that is refused, in bytes. -/
def pathMax : Nat := 4096

/-- The greatest number of links that a walk passes through. -/
def linkMax : Nat := 40

/-- The names of a walk. A separator at the end asks for a directory, as the
name `.` does. -/
def steps (p : Path) : List String :=
  let pieces :=
    ((Text.splitAtChar '/' p.toList).map String.ofList).filter (· ≠ "")
  if p.toList.getLast? = some '/' ∧ pieces ≠ [] then pieces ++ ["."] else pieces

/-- Where a walk along a path starts. -/
def start (dir : Location) (p : Path) : Location :=
  if p.isAbsolute then [] else dir

/-- Walks from a directory along names. `through` goes on behind a link; a link
at the end is passed through only if `follow` says so. -/
def walk (t : FileTree) (follow : Bool)
    (through : Location → List String → Except SystemError.Code Stop)
    (dir : Location) :
    List String → Except SystemError.Code Stop
  | [] => .ok (.found dir .directory)
  | "." :: rest => walk t follow through dir rest
  | ".." :: rest => walk t follow through dir.dropLast rest
  | name :: rest =>
    if name.utf8ByteSize > nameMax then .error .nameTooLong
    else
      let here := dir ++ [name]
      match t.at? here with
      -- Something may be created under the last name of a path, and under no
      -- other.
      | none => if rest = [] then .ok (.vacant dir name) else .error .noEntry
      | some .directory => walk t follow through here rest
      | some (.link target) =>
        if rest = [] ∧ !follow then .ok (.found here (.link target))
        else if target = "" then .error .noEntry
        -- A target that does not start at the root is looked for where the link
        -- stands.
        else through (start dir target) (steps target ++ rest)
      | some entry =>
        if rest = [] then .ok (.found here entry) else .error .notDirectory

/-- Walks from a directory along names, through so many links at most. -/
def walkThrough (t : FileTree) (follow : Bool) :
    Nat → Location → List String → Except SystemError.Code Stop
  | 0 => walk t follow fun _ _ => .error .tooManyLinks
  | links + 1 => walk t follow (walkThrough t follow links)

/-- Where a path leads. -/
def locate (t : FileTree) (follow : Bool) (p : Path) :
    Except SystemError Stop :=
  if p.toList.contains '\x00' then .error .nulInPath
  else if p = "" then .error (.coded .noEntry)
  else if p.utf8ByteSize ≥ pathMax then .error (.coded .nameTooLong)
  else (walkThrough t follow linkMax (start t.workingDirectory p)
    (steps p)).mapError .coded

/-- What a path leads to, through links. -/
def lookup (t : FileTree)
    (p : Path) : Except SystemError (Location × Entry) := do
  match ← t.locate true p with
  | .found l e => pure (l, e)
  | .vacant _ _ => throw (.coded .noEntry)

/-! ## Operations -/

/-- Whether a path leads to a directory. -/
def isDirectory (t : FileTree) (p : Path) : Except SystemError Bool := do
  pure (← t.lookup p).2.isDirectory

/-- The bytes of a file. -/
def readBytes (t : FileTree) (p : Path) : Except SystemError ByteArray := do
  match (← t.lookup p).2 with
  | .file content _ => pure content
  | _ => throw (.coded .isDirectory)

/-- The text of a file. -/
def readText (t : FileTree) (p : Path) : Except SystemError String := do
  match String.fromUTF8? (← t.readBytes p) with
  | some text => pure text
  | none => throw .notText

/-- Makes bytes the whole content of a file. A file that was there keeps its
permissions. -/
def writeBytes (t : FileTree) (p : Path) (content : ByteArray) :
    Except SystemError FileTree := do
  match ← t.locate true p with
  | .found l (.file _ executable) => pure (t.put l (.file content executable))
  | .found _ _ => throw (.coded .isDirectory)
  | .vacant dir name => pure (t.put (dir ++ [name]) (.file content false))

/-- Makes a text the whole content of a file. -/
def writeText (t : FileTree) (p : Path) (text : String) :
    Except SystemError FileTree :=
  t.writeBytes p text.toUTF8

/-- Deletes a file or a link. -/
def removeFile (t : FileTree) (p : Path) : Except SystemError FileTree := do
  match ← t.locate false p with
  | .found _ .directory => throw (.coded .isDirectory)
  | .found l _ => pure (t.erase l)
  | .vacant _ _ => throw (.coded .noEntry)

/-- Drops the separators at the end of a path. -/
def dropSeparators (p : Path) : Path :=
  match p.toList.reverse.dropWhile (· = '/') with
  | [] => p
  | cs => String.ofList cs.reverse

/-- Creates a directory. -/
def createDirectory (t : FileTree) (p : Path) :
    Except SystemError FileTree := do
  match ← t.locate false (dropSeparators p) with
  | .found _ _ => throw (.coded .fileExists)
  | .vacant dir name => pure (t.put (dir ++ [name]) .directory)

/-- The path and the directories it is to stand in, the innermost first. Where a
path starts is not among them. -/
def lineage (fuel : Nat) (p : Path) : List Path :=
  match fuel, p.parent? with
  | fuel + 1, some above => p :: lineage fuel above
  | _, _ => []

/-- The directories to create, the innermost first: those in front of the first
one that is there. -/
def missing (t : FileTree) : List Path → Except SystemError (List Path)
  | [] => pure []
  | p :: ps =>
    match t.createDirectory p with
    -- The new tree is dropped: creating is left to `createEach`, which begins
    -- with this one.
    | .ok _ => pure [p]
    | .error e =>
      if e.kindOf = .notFound then return p :: (← missing t ps)
      else if e.kindOf = .alreadyExists
        ∧ t.isDirectory p matches .ok true then pure []
      else throw e

/-- Creates directories one after the other, up to the first one that is
refused. -/
def createEach (t : FileTree) : List Path → Except SystemError Unit × FileTree
  | [] => (.ok (), t)
  | p :: ps =>
    match t.createDirectory p with
    | .ok t => createEach t ps
    | .error e =>
      if e.kindOf = .alreadyExists ∧ t.isDirectory p matches .ok true then
        createEach t ps
      else (.error e, t)

/-- Creates a directory and those it is to stand in. -/
def createDirectories (t : FileTree) (p : Path) :
    Except SystemError Unit × FileTree :=
  match t.missing (lineage (p.utf8ByteSize + 1) p) with
  | .ok ps => createEach t ps.reverse
  | .error e => (.error e, t)

/-- Makes a file executable. -/
def markExecutable (t : FileTree) (p : Path) : Except SystemError FileTree := do
  match ← t.lookup p with
  | (l, .file content _) => pure (t.put l (.file content true))
  | _ => pure t

/-- Creates a link. -/
def createLink (t : FileTree) (p target : Path) :
    Except SystemError FileTree := do
  match ← t.locate false p with
  | .found _ _ => throw (.coded .fileExists)
  | .vacant dir name => pure (t.put (dir ++ [name]) (.link target))

/-- Deletes a file, a link, or a directory with all that stands below it. -/
def removeTree (t : FileTree) (p : Path) : Except SystemError FileTree := do
  match ← t.locate false (dropSeparators p) with
  | .found l .directory => pure (t.eraseBelow l)
  | .found l _ => pure (t.erase l)
  | .vacant _ _ => throw (.coded .noEntry)

/-! ## Listing -/

/-- What stands below a directory, down to a depth: each directory before what
stands in it, and names in ascending order. -/
def listingFrom (t : FileTree) :
    Nat → Location → Location → List (Location × Entry)
  | 0, _, _ => []
  | depth + 1, dir, below =>
    (t.names dir).flatMap fun name =>
      let here := dir ++ [name]
      match t.at? here with
      | none => []
      | some entry =>
        (below ++ [name], entry) ::
          (if entry.isDirectory then t.listingFrom depth here (below ++ [name])
            else [])

/-- What stands below a directory, with the names that lead there from the
directory. -/
def listing (t : FileTree) (p : Path) : List (Location × Entry) :=
  match t.lookup p with
  | .ok (dir, .directory) => t.listingFrom (t.entries.length + 1) dir []
  | _ => []

end FileTree

end FlowAtlas
