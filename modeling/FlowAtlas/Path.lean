import FlowAtlas.Text.Lines
import FlowAtlas.Text.Size

/-!
# File paths

A path is text in which `/` separates the names. Repeated separators, a
separator at the end and the name `.` after the first place say nothing and are
passed over; `..` is kept, because what it means depends on the links in the
file tree.

The functions here look at the text alone and never at a file.
-/

namespace FlowAtlas

/-- A path as it was written. -/
abbrev Path := String

namespace Path

/-- The names that a walk along the path passes through, in order, without those
that say nothing. A `.` is kept in the first place only. -/
def names (p : Path) : List String :=
  match (Text.splitAtChar '/' p.toList).map String.ofList with
  | [] => []
  | first :: rest =>
    let rest := rest.filter fun n => n ≠ "" ∧ n ≠ "."
    if first = "" then rest else first :: rest

/-- Whether the path starts at the root of the file tree. -/
def isAbsolute (p : Path) : Bool :=
  p.toList.head? = some '/'

/-- The name that `name` has below `p`; a `name` that starts at the root stands
for itself. -/
def join (p : Path) (name : String) : Path :=
  if isAbsolute name then name
  else if p = "" ∨ p.toList.getLast? = some '/' then p ++ name
  else p ++ "/" ++ name

/-- Passes over what says nothing at the end of a path, which is given
backwards. -/
def dropSilentEnd : List Char → List Char
  | '/' :: cs => dropSilentEnd cs
  -- Only behind a separator does a period say nothing: the path `.` keeps its
  -- name.
  | '.' :: '/' :: cs => dropSilentEnd cs
  | cs => cs

/-- The path cut after its last name, backwards: the last name and what stands
before it. -/
def lastName (p : Path) : List Char × List Char :=
  (dropSilentEnd p.toList.reverse).span (· ≠ '/')

/-- Whether a name names a file; `.` and `..` name places. -/
def isFileName (name : List Char) : Bool :=
  name ≠ [] ∧ name ≠ ['.'] ∧ name ≠ ['.', '.']

/-- The last name of the path, if it names a file. -/
def fileName? (p : Path) : Option String :=
  let name := (lastName p).1.reverse
  if isFileName name then some (String.ofList name) else none

/-- A file name cut at its last period. A name whose only period is its first
character has no extension. -/
def splitName (name : List Char) : List Char × Option (List Char) :=
  match name.reverse.span (· ≠ '.') with
  | (_, []) => (name, none)
  | (_, [_]) => (name, none)
  | (ext, _ :: stem) => (stem.reverse, some ext.reverse)

/-- The file name without its extension. -/
def fileStem? (p : Path) : Option String :=
  (fileName? p).map fun n => String.ofList (splitName n.toList).1

/-- What follows the last period of the file name. -/
def extension? (p : Path) : Option String :=
  (fileName? p).bind fun n => (splitName n.toList).2.map String.ofList

/-- Drops `n` bytes from the end; the path keeps its head up to the first
character that would be cut. -/
def dropBytes (p : List Char) (n : Nat) : List Char :=
  let keep := Text.byteCount p - n
  let rec go : List Char → Nat → List Char
    | [], _ => []
    | c :: cs, left =>
      if c.utf8Size ≤ left then c :: go cs (left - c.utf8Size) else []
  go p keep

/-- Puts `ext` after the stem of the file name; a path without a file name stays
as it is. -/
def setExtension (p : Path) (ext : String) : Path :=
  let (name, before) := lastName p
  let name := name.reverse
  if isFileName name then
    String.ofList (before.reverse ++ (splitName name).1) ++ "." ++ ext
  else p

/-- The path with its extension replaced by `ext`. The old extension is taken
off first, so a path that ends in a place once it is gone stays there. -/
def withExtension (p : Path) (ext : String) : Path :=
  match extension? p with
  | none => setExtension p ext
  | some old =>
    setExtension (String.ofList (dropBytes p.toList old.utf8ByteSize)) ext

/-- The path of the directory that holds the last name, if there is a name to
take off. -/
def parent? (p : Path) : Option Path :=
  match lastName p with
  | ([], _) => none
  | (_, before) =>
    match dropSilentEnd before with
    | [] => some (if before = [] then "" else "/")
    | dir => some (String.ofList dir.reverse)

/-- The order of paths by their names, not by their characters: `a/b` comes
before `a b`. -/
def compareNames : List String → List String → Ordering
  | [], [] => .eq
  | [], _ :: _ => .lt
  | _ :: _, [] => .gt
  | a :: as, b :: bs => (compare a b).then (compareNames as bs)

/-- Whether a path comes no later than another in the order of their names. -/
def le (p q : Path) : Bool :=
  compareNames (names p) (names q) ≠ .gt

end Path

end FlowAtlas
