import FlowAtlas.Json.Numeral
import FlowAtlas.Text.Size

/-!
# What a JSON text holds

Reading turns a text into a tree without asking what the tree is for. Where the
text breaks a rule, the tree ends with a note of the reason. A decoder that
walks the tree in order therefore meets the first fault of the text, be it in
the notation or in the content, and it meets only the faults that its use of
each part can notice.
-/

namespace FlowAtlas.Json

/-- One step of a string between its quotes. -/
inductive Piece where
  | plain (c : Char)
  /-- A two-character escape and what it stands for. -/
  | short (c : Char)
  /-- A code unit written with four hexadecimal digits, and what follows it in
  the text. -/
  | unit (n : Nat) (rest : List Char)
  deriving DecidableEq, Repr

/-- The text of a string, or the spot at which its code units stop making
sense. -/
abbrev StringContent := Except Spot String

/-- A value as far as it can be read. -/
inductive Node where
  | null
  | bool (b : Bool)
  | number (n : Number)
  /-- A number that can be passed over but is too large to be read. -/
  | outOfRange
  | string (s : String)
  /-- A string that can be passed over but not read. -/
  | unpaired (spot : Spot)
  | array (items : List Node) (cut : Option Stop)
  | object (members : List (StringContent × Node)) (cut : Option Stop)
  /-- Nothing that could be completed; with the character it begins with, if
  there is one. -/
  | unread (first : Option Char) (stop : Stop)
  deriving Inhabited

/-! ## Strings -/

/-- What a two-character escape stands for. -/
def shortEscape? : Char → Option Char
  | '"' => some '"'
  | '\\' => some '\\'
  | '/' => some '/'
  | 'b' => some '\x08'
  | 'f' => some '\x0c'
  | 'n' => some '\n'
  | 'r' => some '\r'
  | 't' => some '\t'
  | _ => none

/-- The code unit of four hexadecimal digits. -/
def hexUnit? (a b c d : Char) : Option Nat := do
  let a ← Text.hexValue? a
  let b ← Text.hexValue? b
  let c ← Text.hexValue? c
  let d ← Text.hexValue? d
  pure (((a * 16 + b) * 16 + c) * 16 + d)

/-- The stop at four bytes that are not a code unit. -/
def badUnit (rest : List Char) : Stop :=
  let size := Text.byteCount rest
  if size < 4 then .both ⟨.endInString, rest, size⟩
  else .both ⟨.invalidEscape, rest, 4⟩

/-- Splits a string behind its first quote into pieces, and gives what follows
the second. -/
def readPieces : List Char → List Piece × Except Stop (List Char)
  | [] => ([], .error (.both (.next .endInString [])))
  | '"' :: rest => ([], .ok rest)
  | '\\' :: [] => ([], .error (.both (.next .endInString [])))
  | '\\' :: 'u' :: a :: b :: c :: d :: rest =>
    match hexUnit? a b c d with
    | some n =>
      let (pieces, result) := readPieces rest
      (.unit n rest :: pieces, result)
    | none => ([], .error (badUnit (a :: b :: c :: d :: rest)))
  | '\\' :: c :: rest =>
    if c = 'u' then ([], .error (badUnit rest))
    else match shortEscape? c with
      | some e =>
        let (pieces, result) := readPieces rest
        (.short e :: pieces, result)
      | none => ([], .error (.both ⟨.invalidEscape, rest, 0⟩))
  | c :: rest =>
    if c.toNat < 0x20 then
      ([], .error
        ⟨⟨.controlCharacter, c :: rest, 1⟩, ⟨.controlCharacter, c :: rest, 0⟩⟩)
    else
      let (pieces, result) := readPieces rest
      (.plain c :: pieces, result)

/-- Whether a code unit opens a pair. -/
def isHighSurrogate (n : Nat) : Bool := 0xD800 ≤ n && n ≤ 0xDBFF

/-- Whether a code unit closes a pair. -/
def isLowSurrogate (n : Nat) : Bool := 0xDC00 ≤ n && n ≤ 0xDFFF

/-- The spot at which a pair turns out to have no second half, if the notation
itself holds there. -/
def unclosedPair? (rest : List Char) : Option Spot :=
  match rest with
  | [] => none
  | '\\' :: [] => none
  | '\\' :: 'u' :: _ => none
  | '\\' :: _ => some ⟨.endOfSurrogatePair, rest, 2⟩
  | _ => some ⟨.endOfSurrogatePair, rest, 1⟩

/-- The characters that the pieces stand for. -/
def contentOfPieces : List Piece → Except Spot (List Char)
  | [] => .ok []
  | .plain c :: ps => (contentOfPieces ps).map (c :: ·)
  | .short c :: ps => (contentOfPieces ps).map (c :: ·)
  | .unit n rest :: ps =>
    if isLowSurrogate n then .error ⟨.loneSurrogate, rest, 0⟩
    else if isHighSurrogate n then
      match ps with
      | .unit m rest' :: ps' =>
        if isLowSurrogate m then
          (contentOfPieces ps').map
            (Char.ofNat (0x10000 + (n - 0xD800) * 0x400 + (m - 0xDC00)) :: ·)
        else .error ⟨.loneSurrogate, rest', 0⟩
      | _ =>
        match unclosedPair? rest with
        | some spot => .error spot
        | none => .ok []
    else (contentOfPieces ps).map (Char.ofNat n :: ·)

/-- Reads a string behind its first quote. -/
def readString (cs : List Char) : Except Stop (StringContent × List Char) :=
  let (pieces, result) := readPieces cs
  match contentOfPieces pieces, result with
  | .ok text, .ok rest => .ok (.ok (String.ofList text), rest)
  | .error spot, .ok rest => .ok (.error spot, rest)
  | .ok _, .error stop => .error stop
  | .error spot, .error stop => .error ⟨spot, stop.skipping⟩

/-! ## Values -/

/-- The stop of a failed reading. -/
def cut? {α : Type} : Except Stop α → Option Stop
  | .ok _ => none
  | .error stop => some stop

/-- Whether a character may stand between two parts of a text. -/
def isSpace (c : Char) : Bool :=
  c = ' ' || c = '\n' || c = '\t' || c = '\r'

/-- Passes over the space at the front. -/
def skipSpace (cs : List Char) : List Char := cs.dropWhile isSpace

/-- Reads the rest of a word that its first character has announced. -/
def readWord : List Char → List Char → Except Stop (List Char)
  | [], rest => .ok rest
  | _ :: _, [] => .error (.both (.next .endInValue []))
  | w :: ws, c :: rest =>
    if w = c then readWord ws rest
    else .error (.both (.next .expectedIdent (c :: rest)))

/-- A word's value, or what is known of it. -/
def wordNode (first : Char) (node : Node) (word rest : List Char) :
    Node × Except Stop (List Char) :=
  match readWord word rest with
  | .ok rest => (node, .ok rest)
  | .error stop => (.unread (some first) stop, .error stop)

mutual

/-- Reads a value. Every call either ends or goes on with fewer characters or
with the items of the value before it, so twice the length of the text is fuel
enough. -/
def readValue : Nat → List Char → Node × Except Stop (List Char)
  | 0, cs =>
    let stop := Stop.both (.next .endInValue cs)
    (.unread none stop, .error stop)
  | fuel + 1, cs =>
    match skipSpace cs with
    | [] =>
      let stop := Stop.both (.next .endInValue [])
      (.unread none stop, .error stop)
    | 'n' :: rest => wordNode 'n' .null ['u', 'l', 'l'] rest
    | 't' :: rest => wordNode 't' (.bool true) ['r', 'u', 'e'] rest
    | 'f' :: rest => wordNode 'f' (.bool false) ['a', 'l', 's', 'e'] rest
    | '"' :: rest =>
      match readString rest with
      | .ok (.ok s, rest) => (.string s, .ok rest)
      | .ok (.error spot, rest) => (.unpaired spot, .ok rest)
      | .error stop => (.unread (some '"') stop, .error stop)
    | '[' :: rest =>
      let (items, result) := readItems fuel true rest
      (.array items (cut? result), result)
    | '\x7b' :: rest =>
      let (members, result) := readMembers fuel true rest
      (.object members (cut? result), result)
    | c :: rest =>
      if c = '-' ∨ Text.isDigit c then
        match Numeral.read (c :: rest) with
        | .ok (n, rest) => (n.value?.elim .outOfRange .number, .ok rest)
        | .error stop => (.unread (some c) stop, .error stop)
      else
        let stop := Stop.both (.next .expectedValue (c :: rest))
        (.unread (some c) stop, .error stop)

/-- Reads the items of an array up to its end; `first` tells that none has been
read. -/
def readItems : Nat → Bool → List Char → List Node × Except Stop (List Char)
  | 0, _, cs => ([], .error (.both (.next .endInList cs)))
  | fuel + 1, first, cs =>
    match skipSpace cs, first with
    | [], _ => ([], .error (.both (.next .endInList [])))
    | ']' :: rest, _ => ([], .ok rest)
    | cs, true => readItem fuel cs
    | ',' :: rest, false =>
      match skipSpace rest with
      | ']' :: rest =>
        ([], .error (.next .trailingComma .expectedValue (']' :: rest)))
      | cs => readItem fuel cs
    | cs, false => ([], .error (.both (.next .expectedCommaOrListEnd cs)))

/-- Reads an item and the ones after it. -/
def readItem : Nat → List Char → List Node × Except Stop (List Char)
  | 0, cs => ([], .error (.both (.next .endInValue cs)))
  | fuel + 1, cs =>
    match readValue fuel cs with
    | (node, .error stop) => ([node], .error stop)
    | (node, .ok rest) =>
      let (items, result) := readItems fuel false rest
      (node :: items, result)

/-- Reads the members of an object up to its end; `first` tells that none has
been read. -/
def readMembers : Nat → Bool → List Char →
    List (StringContent × Node) × Except Stop (List Char)
  | 0, _, cs => ([], .error (.both (.next .endInObject cs)))
  | fuel + 1, first, cs =>
    match skipSpace cs, first with
    | [], _ => ([], .error (.both (.next .endInObject [])))
    | '\x7d' :: rest, _ => ([], .ok rest)
    | '"' :: rest, true => readMember fuel rest
    | cs, true => ([], .error (.both (.next .keyMustBeString cs)))
    | ',' :: rest, false =>
      match skipSpace rest with
      | [] => ([], .error (.next .endInValue .endInObject []))
      | '"' :: rest => readMember fuel rest
      | '\x7d' :: rest =>
        ([], .error (.next .trailingComma .keyMustBeString ('\x7d' :: rest)))
      | cs => ([], .error (.both (.next .keyMustBeString cs)))
    | cs, false => ([], .error (.both (.next .expectedCommaOrObjectEnd cs)))

/-- Reads a member behind the first quote of its key, and the members after
it. -/
def readMember :
    Nat → List Char → List (StringContent × Node) × Except Stop (List Char)
  | 0, cs => ([], .error (.both (.next .endInObject cs)))
  | fuel + 1, cs =>
    match readString cs with
    | .error stop => ([], .error stop)
    | .ok (key, rest) =>
      match skipSpace rest with
      | [] =>
        let stop := Stop.both (.next .endInObject [])
        ([(key, .unread none stop)], .error stop)
      | ':' :: rest =>
        match readValue fuel rest with
        | (node, .error stop) => ([(key, node)], .error stop)
        | (node, .ok rest) =>
          let (members, result) := readMembers fuel false rest
          ((key, node) :: members, result)
      | rest =>
        let stop := Stop.both (.next .expectedColon rest)
        ([(key, .unread none stop)], .error stop)

end

/-- Everything that a text holds: its value, and what follows the value. -/
structure Reading where
  root : Node
  rest : Except Stop (List Char)

/-- Reads a text. -/
def Reading.of (text : List Char) : Reading :=
  let (root, rest) := readValue (2 * text.length + 2) text
  ⟨root, rest⟩

mutual

/-- The tree of a value. -/
def Node.ofJson : Json → Node
  | .null => .null
  | .bool b => .bool b
  | .number n => .number n
  | .string s => .string s
  | .array items => .array (nodesOfItems items) none
  | .object members => .object (nodesOfMembers members) none

/-- The trees of some items. -/
def nodesOfItems : List Json → List Node
  | [] => []
  | j :: js => Node.ofJson j :: nodesOfItems js

/-- The trees of some members. -/
def nodesOfMembers : List (String × Json) → List (StringContent × Node)
  | [] => []
  | (k, j) :: ms => (.ok k, Node.ofJson j) :: nodesOfMembers ms

end

end FlowAtlas.Json
