import FlowAtlas.Text.Blank
import FlowAtlas.Text.Lines
import FlowAtlas.Text.Wildcard

/-!
# Ignore rules

A directory may hold a file with rules that say which entries below it are to be
passed over. A rule is a line with a pattern for the path of an entry, taken
from that directory. Of several rules that match an entry the last one decides,
and a rule that starts with `!` keeps what an earlier one would drop.

In a pattern `?` stands for one character, `*` for any characters of one name,
and `**` for any number of names. A pattern without a separator matches at any
depth.
-/

namespace FlowAtlas.Ignore

/-- A piece of a pattern for a path. -/
inductive Segment where
  | name (glyphs : List Text.Glyph)
  /-- Any names, or none. -/
  | deep
  deriving DecidableEq, Repr

/-- Whether a pattern matches a whole path. -/
def matchesPath : List Segment → List String → Bool
  | [], ns => ns.isEmpty
  | .name _ :: _, [] => false
  | .name gs :: ss, n :: ns => Text.matchesAll gs n.toList && matchesPath ss ns
  | .deep :: ss, ns => Text.anyEnd (matchesPath ss) ns

/-- A rule. -/
structure Rule where
  /-- Whether entries that match are kept. -/
  keeps : Bool
  /-- Whether only directories can match. -/
  directoriesOnly : Bool
  pattern : List Segment
  deriving DecidableEq, Repr

/-- The piece for a name in a path. -/
def segment (cs : List Char) : Segment :=
  if cs = ['*', '*'] then .deep else .name (Text.glyphs cs)

/-- The pattern for a path. One that ends with `**` matches what stands below a
directory, and not the directory. -/
def pattern (anchored : Bool) (cs : List Char) : List Segment :=
  let segments := (Text.splitAtChar '/' cs).map segment
  let segments :=
    if segments.length ≥ 2 ∧ segments.getLast? = some .deep then
      segments ++ [.name [.many]]
    else segments
  if anchored || cs.contains '/' then segments else .deep :: segments

/-- Drops the blanks at the end of a line, unless the last of them is
escaped. -/
def trimEnd (cs : List Char) : List Char :=
  match cs.reverse with
  | ' ' :: '\\' :: _ => cs
  | rs => (rs.dropWhile Text.isBlank).reverse

/-- The rule for a pattern behind its marks. -/
def ruleOf (keeps anchored : Bool) (cs : List Char) : Rule :=
  match cs.reverse with
  | '/' :: '\\' :: rs => ⟨keeps, true, pattern anchored rs.reverse⟩
  | '/' :: rs => ⟨keeps, true, pattern anchored rs.reverse⟩
  | _ => ⟨keeps, false, pattern anchored cs⟩

/-- The rule on a line, if there is one: a line may be empty or a comment. -/
def rule? (line : List Char) : Option Rule :=
  match trimEnd line with
  | [] => none
  | '#' :: _ => none
  | '\\' :: '!' :: cs => some (ruleOf false false ('!' :: cs))
  | '\\' :: '#' :: cs => some (ruleOf false false ('#' :: cs))
  | '!' :: '/' :: cs => some (ruleOf true true cs)
  | '!' :: cs => some (ruleOf true false cs)
  | '/' :: cs => some (ruleOf false true cs)
  | cs => some (ruleOf false false cs)

/-- The mark that may stand in front of a text to tell its encoding. -/
def byteOrderMark : Char := '\uFEFF'

/-- The rules in a text. -/
def rules (text : String) : List Rule :=
  let cs := match text.toList with
    | c :: cs => if c = byteOrderMark then cs else c :: cs
    | [] => []
  (Text.splitAtChar '\n' cs).filterMap rule?

/-- What rules say about an entry. -/
inductive Verdict where
  | silent
  | dropped
  | kept
  deriving DecidableEq, Repr

/-- The first verdict that says something. -/
def Verdict.orElse : Verdict → Verdict → Verdict
  | .silent, v => v
  | v, _ => v

/-- What a list of rules says about an entry: the last rule that matches it
decides. -/
def verdict (rules : List Rule) (path : List String) (isDirectory : Bool) :
    Verdict :=
  match rules.reverse.find? fun r =>
      (isDirectory || !r.directoriesOnly) && matchesPath r.pattern path with
  | none => .silent
  | some r => if r.keeps then .kept else .dropped

/-- The rules that a directory holds. -/
structure Layer where
  rules : List Rule := []
  /-- The rules that hold in a repository only. -/
  repositoryRules : List Rule := []
  /-- Whether the directory is the top of a repository. -/
  isRepository : Bool := false
  deriving DecidableEq, Repr

/-- The name of the file with the rules of a directory. -/
def rulesFile : String := ".ignore"

/-- The name of the file with the rules that hold in a repository only. -/
def repositoryRulesFile : String := ".gitignore"

/-- The name of the entry that makes a directory the top of a repository. -/
def repositoryMark : String := ".git"

/-- The layers that bear on an entry, the innermost first, each with the path
from its directory to the directory of the entry. -/
abbrev Layers := List (Layer × List String)

/-- What the plain rules of the layers say about an entry. -/
def plainVerdict (name : String) (isDirectory : Bool) : Layers → Verdict
  | [] => .silent
  | (layer, path) :: layers =>
    (verdict layer.rules (path ++ [name]) isDirectory).orElse
      (plainVerdict name isDirectory layers)

/-- What the repository rules of the layers say about an entry. They count as
far out as the top of the innermost repository. -/
def repositoryVerdict (name : String) (isDirectory : Bool) : Layers → Verdict
  | [] => .silent
  | (layer, path) :: layers =>
    (verdict layer.repositoryRules (path ++ [name]) isDirectory).orElse
      (if layer.isRepository then .silent
        else repositoryVerdict name isDirectory layers)

/-- Whether an entry is passed over. A name that starts with a period is, unless
a rule keeps it. -/
def hides (layers : Layers) (name : String) (isDirectory : Bool) : Bool :=
  let inRepository := layers.any fun l => l.1.isRepository
  match (plainVerdict name isDirectory layers).orElse
      (if inRepository then repositoryVerdict name isDirectory layers
        else .silent) with
  | .dropped => true
  | .kept => false
  | .silent => name.toList.head? = some '.'

/-- The layers that bear on the entries of a directory inside. -/
def enter (name : String) (layer : Layer) (layers : Layers) : Layers :=
  (layer, []) :: layers.map fun l => (l.1, l.2 ++ [name])

end FlowAtlas.Ignore
