import FlowAtlas.Json.Complaint
import FlowAtlas.Json.Node

/-!
# Places in a JSON text

A fault in the content of a value knows the way to the value and not its offset.
The offset is found by walking the text again: everything before the value has
been read without fault, so counting commas and brackets outside of strings is
enough.
-/

namespace FlowAtlas.Json

/-- A point of a value or of its text. -/
inductive Point where
  /-- So many bytes behind the first character. -/
  | start (ahead : Nat)
  /-- Behind the last character. -/
  | stop
  /-- Behind the key of the member with this index and the space that follows
  it. -/
  | afterKey (index : Nat)
  deriving DecidableEq, Repr

/-- Where in a text something is: at a spot that reading has noted, or at a
point of the value to which a way through items and members leads. -/
inductive Place where
  | spot (rest : List Char) (ahead : Nat)
  | inside (way : List Nat) (point : Point)
  deriving DecidableEq, Repr

/-- The place seen from the value that has the present one as its part number
`index`. -/
def Place.under (index : Nat) : Place → Place
  | .spot rest ahead => .spot rest ahead
  | .inside way point => .inside (index :: way) point

/-- What follows a string, behind its first quote. -/
def passString : List Char → List Char
  | [] => []
  | '"' :: cs => cs
  | '\\' :: _ :: cs => passString cs
  | _ :: cs => passString cs

/-- What follows the comma with index `commas` that stands outside of brackets
and strings; `depth` brackets and maybe a string are open at the front. -/
def passCommas (commas : Nat) (depth : Nat)
    (inString : Bool) : List Char → List Char
  | [] => []
  | c :: cs =>
    if inString then
      match c, cs with
      | '\\', _ :: cs => passCommas commas depth true cs
      | c, cs => passCommas commas depth (c ≠ '"') cs
    else
      match commas with
      | 0 => c :: cs
      | n + 1 =>
        if c = '"' then passCommas (n + 1) depth true cs
        else if c = '[' ∨ c = '\x7b' then
          passCommas (n + 1) (depth + 1) false cs
        else if c = ']' ∨ c = '\x7d' then
          passCommas (n + 1) (depth - 1) false cs
        else if c = ',' ∧ depth = 0 then passCommas n depth false cs
        else passCommas (n + 1) depth false cs

/-- What follows the brackets and the string that are open at the front. -/
def passOpen (depth : Nat) (inString : Bool) : List Char → List Char
  | [] => []
  | c :: cs =>
    if inString then
      match c, cs with
      | '\\', _ :: cs => passOpen depth true cs
      | c, cs =>
        if c = '"' then (if depth = 0 then cs else passOpen depth false cs)
        else passOpen depth true cs
    else if c = '"' then passOpen depth true cs
    else if c = '[' ∨ c = '\x7b' then passOpen (depth + 1) false cs
    else if c = ']' ∨ c = '\x7d' then
      if depth ≤ 1 then cs else passOpen (depth - 1) false cs
    else passOpen depth false cs

/-- What follows the value at the front. -/
def passValue (cs : List Char) : List Char :=
  match cs with
  | [] => []
  | c :: rest =>
    if c = '[' ∨ c = '\x7b' then passOpen 1 false rest
    else if c = '"' then passString rest
    else cs.dropWhile fun c => !(isSpace c || c = ',' || c = ']' || c = '\x7d')

/-- The key and what follows it, of the member with an index. -/
def seekMember (index : Nat) (cs : List Char) : List Char :=
  skipSpace (passCommas index 0 false (cs.drop 1))

/-- The part with an index of the value at the front. -/
def seekPart (index : Nat) (cs : List Char) : List Char :=
  let part := seekMember index cs
  if cs.head? = some '\x7b' then
    skipSpace ((skipSpace (passString (part.drop 1))).drop 1)
  else part

/-- What is left of a text at the value to which a way leads. -/
def seek (way : List Nat) (cs : List Char) : List Char :=
  way.foldl (fun cs index => seekPart index cs) (skipSpace cs)

/-- The offset of a place in a text, in bytes. -/
def Place.offset (text : List Char) (place : Place) : Nat :=
  let size := Text.byteCount text
  let (rest, ahead) := match place with
    | .spot rest ahead => (rest, ahead)
    | .inside way (.start ahead) => (seek way text, ahead)
    | .inside way .stop => (passValue (seek way text), 0)
    | .inside way (.afterKey index) =>
      let rest :=
        skipSpace (passString ((seekMember index (seek way text)).drop 1))
      (rest, if rest.head? = some '\x7d' then 1 else 0)
  min size (size - Text.byteCount rest + ahead)

/-- The characters in the first `n` bytes of a text. -/
def takeBytes : Nat → List Char → List Char
  | _, [] => []
  | n, c :: cs => if n = 0 then [] else c :: takeBytes (n - c.utf8Size) cs

/-- The line and the column of an offset: lines count from one, and the column
is the number of bytes since the last line feed. -/
def lineColumn (text : List Char) (offset : Nat) : Nat × Nat :=
  let before := takeBytes offset text
  let lastLine := before.reverse.takeWhile (· ≠ '\n')
  (before.count '\n' + 1,
    offset - (Text.byteCount before - Text.byteCount lastLine))

end FlowAtlas.Json
