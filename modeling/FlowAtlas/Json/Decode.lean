import FlowAtlas.Json.Place
import FlowAtlas.Text.Choice
import FlowAtlas.Text.Quoted

/-!
# Decoding JSON

A decoder takes a tree apart and says what it expected where it cannot go on.
Whether a decoder succeeds depends on the tree alone; the source of the tree
decides only the depth that is allowed and the wording of some refusals.
-/

namespace FlowAtlas.Json

open Decimal (Double)

/-- What stands in a text in place of something else. -/
inductive Found where
  | null
  | bool (b : Bool)
  | number (n : Number)
  | string (s : String)
  | sequence
  | map
  deriving DecidableEq, Repr

/-- The wording of what was found. -/
def Found.text : Found → String
  | .null => "null"
  | .bool b => s!"boolean `{b}`"
  | .number (.whole n) => s!"integer `{n}`"
  | .number (.real d) => "floating point `" ++ d.render .compact ++ "`"
  | .string s => "string " ++ Text.quote s
  | .sequence => "sequence"
  | .map => "map"

/-- Why a text is refused. -/
inductive Cause where
  | broken (complaint : Complaint)
  | wrongType (found : Found) (expected : String)
  | wrongLength (length : Nat) (expected : String)
  | manyKeys
  | missingField (name : String)
  | duplicateField (name : String)
  | unknownVariant (name : String) (variants : List String)
  | noVariant (type : String)
  deriving DecidableEq, Repr

/-- The wording of a cause. -/
def Cause.text : Cause → String
  | .broken c => c.text
  | .wrongType found expected =>
    s!"invalid type: {found.text}, expected {expected}"
  | .wrongLength n expected => s!"invalid length {n}, expected {expected}"
  | .manyKeys => "invalid value: map, expected map with a single key"
  | .missingField name => s!"missing field `{name}`"
  | .duplicateField name => s!"duplicate field `{name}`"
  | .unknownVariant name variants =>
    s!"unknown variant `{name}`, expected {Text.oneOf variants}"
  | .noVariant type =>
    s!"data did not match any variant of untagged enum {type}"

/-- Why and where a text is refused. -/
structure Refusal where
  cause : Cause
  place : Place
  deriving DecidableEq, Repr

/-- The result of decoding. -/
abbrev Decoded := Except Refusal

/-- The refusal at a noted spot. -/
def Refusal.atSpot (spot : Spot) : Refusal :=
  ⟨.broken spot.complaint, .spot spot.rest spot.ahead⟩

/-- A refusal of the value at hand. -/
def Refusal.here (cause : Cause) (point : Point) : Refusal :=
  ⟨cause, .inside [] point⟩

/-- The result of decoding part number `index`, seen from the whole. -/
def under {α : Type} (index : Nat) (result : Decoded α) : Decoded α :=
  result.mapError fun r => { r with place := r.place.under index }

/-- Where a tree comes from: a text, with so many levels still to go, or a
value. -/
inductive Source where
  | text (levels : Nat)
  | value
  deriving DecidableEq, Repr

/-- A text may be nested so deep, not counting the last level, which is never
entered. -/
def Source.wholeText : Source := .text 128

/-- The source of the parts of a list or an object. -/
def Source.enter : Source → Decoded Source
  | .text levels =>
    if levels ≤ 1 then .error (.here (.broken .tooDeep) (.start 1))
    else .ok (.text (levels - 1))
  | .value => .ok .value

/-- Refuses a value of the wrong type. A fault inside of a short value comes
first. -/
def mismatch {α : Type} (node : Node) (expected : String) : Decoded α :=
  let wrong (found : Found) (point : Point) : Decoded α :=
    .error (.here (.wrongType found expected) point)
  match node with
  | .null => wrong .null .stop
  | .bool b => wrong (.bool b) .stop
  | .number n => wrong (.number n) .stop
  | .outOfRange => .error (.here (.broken .outOfRange) .stop)
  | .string s => wrong (.string s) .stop
  | .unpaired spot => .error (.atSpot spot)
  | .array _ _ => wrong .sequence (.start 0)
  | .object _ _ => wrong .map (.start 0)
  | .unread _ stop => .error (.atSpot stop.reading)

/-- The end of a list or an object, or the reason why it has none. -/
def ending (cut : Option Stop) : Decoded Unit :=
  match cut with
  | none => .ok ()
  | some stop => .error (.atSpot stop.reading)

/-- The text of a key. -/
def decodeKey (key : StringContent) : Decoded String :=
  match key with
  | .ok s => .ok s
  | .error spot => .error (.atSpot spot)

/-! ## Values that are passed over -/

mutual

/-- The fault for which a value cannot even be passed over. -/
def skipFault? : Node → Option Spot
  | .array items cut => (skipItems? items).or (cut.map Stop.skipping)
  | .object members cut => (skipMembers? members).or (cut.map Stop.skipping)
  | .unread _ stop => some stop.skipping
  | .null | .bool _ | .number _ | .outOfRange | .string _ | .unpaired _ => none

/-- The first such fault among items. -/
def skipItems? : List Node → Option Spot
  | [] => none
  | n :: ns => (skipFault? n).or (skipItems? ns)

/-- The first such fault among members. -/
def skipMembers? : List (StringContent × Node) → Option Spot
  | [] => none
  | (_, n) :: ms => (skipFault? n).or (skipMembers? ms)

end

/-- Passes over a value. -/
def decodeIgnored (node : Node) : Decoded Unit :=
  match skipFault? node with
  | none => .ok ()
  | some spot => .error (.atSpot spot)

/-! ## Values of any kind -/

mutual

/-- A value of any kind. Of several members with one key the last one counts. -/
def decodeAny (source : Source) : Node → Decoded Json
  | .null => .ok .null
  | .bool b => .ok (.bool b)
  | .number n => .ok (.number n)
  | .outOfRange => .error (.here (.broken .outOfRange) .stop)
  | .string s => .ok (.string s)
  | .unpaired spot => .error (.atSpot spot)
  | .array items cut => do
    let inner ← source.enter
    let items ← decodeAnyItems inner 0 items
    ending cut
    pure (.array items)
  | .object members cut => do
    let inner ← source.enter
    let members ← decodeAnyMembers inner 0 members
    ending cut
    pure (.object (sortMembers members))
  | .unread _ stop => .error (.atSpot stop.reading)

/-- Items of any kind, the first of which has the given index. -/
def decodeAnyItems (source : Source)
    (index : Nat) : List Node → Decoded (List Json)
  | [] => .ok []
  | n :: ns => do
    let j ← under index (decodeAny source n)
    let js ← decodeAnyItems source (index + 1) ns
    pure (j :: js)

/-- Members of any kind, the first of which has the given index. -/
def decodeAnyMembers (source : Source) (index : Nat) :
    List (StringContent × Node) → Decoded (List (String × Json))
  | [] => .ok []
  | (k, n) :: ms => do
    let k ← decodeKey k
    let j ← under index (decodeAny source n)
    let rest ← decodeAnyMembers source (index + 1) ms
    pure ((k, j) :: rest)

end

/-! ## Values of one kind -/

/-- A string. -/
def decodeString (node : Node) : Decoded String :=
  match node with
  | .string s => .ok s
  | node => mismatch node "a string"

/-- A truth value. -/
def decodeBool (node : Node) : Decoded Bool :=
  match node with
  | .bool b => .ok b
  | node => mismatch node "a boolean"

/-- A value that may be absent. -/
def decodeOption {α : Type} (decode : Node → Decoded α) (node : Node) :
    Decoded (Option α) :=
  match node with
  | .null => .ok none
  | node => (decode node).map some

/-- Decodes items one after the other. -/
def decodeItems {α : Type} (decode : Node → Decoded α) (index : Nat) :
    List Node → Decoded (List α)
  | [] => .ok []
  | n :: ns => do
    let a ← under index (decode n)
    let as ← decodeItems decode (index + 1) ns
    pure (a :: as)

/-- A list. -/
def decodeList {α : Type} (decode : Source → Node → Decoded α) (source : Source)
    (node : Node) : Decoded (List α) :=
  match node with
  | .array items cut => do
    let inner ← source.enter
    let as ← decodeItems (decode inner) 0 items
    ending cut
    pure as
  | node => mismatch node "a sequence"

/-- Decodes members one after the other. -/
def decodeEntries {α : Type} (decode : Node → Decoded α) (index : Nat) :
    List (StringContent × Node) → Decoded (List (String × α))
  | [] => .ok []
  | (k, n) :: ms => do
    let k ← decodeKey k
    let a ← under index (decode n)
    let rest ← decodeEntries decode (index + 1) ms
    pure ((k, a) :: rest)

/-- A table from free keys to values, in the order of the text. -/
def decodeTable {α : Type} (decode : Source → Node → Decoded α)
    (source : Source) (node : Node) : Decoded (List (String × α)) :=
  match node with
  | .object members cut => do
    let inner ← source.enter
    let entries ← decodeEntries (decode inner) 0 members
    ending cut
    pure entries
  | node => mismatch node "a map"

/-! ## Choices -/

/-- The payload of a choice that carries nothing. -/
def decodeUnit (node : Node) : Decoded Unit :=
  match node with
  | .null => .ok ()
  | node => mismatch node "unit"

/-- The choice with a name. -/
def choose {α : Type} (choices : List (String × α)) (name : String)
    (point : Point) : Decoded α :=
  match choices.lookup name with
  | some a => .ok a
  | none => .error (.here (.unknownVariant name (choices.map Prod.fst)) point)

/-- What a text has in place of the name of a choice behind an opening brace. -/
def noChoiceName {α : Type} (cut : Option Stop) : Decoded α :=
  match cut with
  | none => .error (.here (.broken .expectedValue) (.start 1))
  | some stop =>
    let rest := stop.reading.rest
    if stop.reading.complaint = .keyMustBeString then
      match (readValue (2 * rest.length + 2) rest).1 with
      | .string s => mismatch (.string s) "variant identifier"
      | node => mismatch node "variant identifier"
    else if stop.reading.complaint = .endInObject then
      .error ⟨.broken .endInValue, .spot rest stop.reading.ahead⟩
    else .error (.atSpot stop.reading)

/-- A choice in a text: its name, or an object whose only key is the name. -/
def decodeChoiceText {α : Type} (choices : List (String × α)) (levels : Nat)
    (node : Node) : Decoded α :=
  match node with
  | .string s => choose choices s .stop
  | .unpaired spot => .error (.atSpot spot)
  | .object members cut => do
    let _ ← (Source.text levels).enter
    match members with
    | [] => noChoiceName cut
    | (key, payload) :: others =>
      let name ← decodeKey key
      let a ← choose choices name (.afterKey 0)
      under 0 (decodeUnit payload)
      match others, cut with
      | [], none => pure a
      | [], some stop =>
        if stop.reading.complaint = .endInObject then
          .error (.atSpot stop.reading)
        else .error ⟨.broken .expectedValue, .spot stop.reading.rest 0⟩
      | _ :: _, _ => .error (.here (.broken .expectedValue) .stop)
  | .unread first stop =>
    if first = none ∨ first = some '"' then .error (.atSpot stop.reading)
    else .error (.here (.broken .expectedValue) (.start 1))
  | _ => .error (.here (.broken .expectedValue) (.start 1))

/-- A choice in a value: its name, or an object whose only key is the name. -/
def decodeChoiceValue {α : Type} (choices : List (String × α)) (node : Node) :
    Decoded α :=
  match node with
  | .string s => choose choices s .stop
  | .object [(key, payload)] _ => do
    let name ← decodeKey key
    let a ← choose choices name (.afterKey 0)
    under 0 (decodeUnit payload)
    pure a
  | .object _ _ => .error (.here .manyKeys (.start 0))
  | node => mismatch node "string or map"

/-- One of some named choices. -/
def decodeChoice {α : Type} (choices : List (String × α)) (source : Source)
    (node : Node) : Decoded α :=
  match source with
  | .text levels => decodeChoiceText choices levels node
  | .value => decodeChoiceValue choices node

/-! ## Records -/

/-- How a record is built up field by field. -/
structure Record (α : Type) where
  /-- The name of the record. -/
  name : String
  /-- The names of the fields in order, each with whether it must be given. -/
  fields : List (String × Bool)
  /-- The record before any field is known. -/
  blank : α
  /-- Stores the value of a field. -/
  put : String → Source → Node → α → Decoded α

namespace Record

variable {α : Type} (r : Record α)

/-- The wording for a record. -/
def expected : String := "struct " ++ r.name

/-- The wording for a record with the number of its fields. -/
def expectedLength : String :=
  let n := r.fields.length
  "struct " ++ r.name ++ " with " ++ toString n
    ++ (if n = 1 then " element" else " elements")

/-- Stores the members of an object, which may name a field once only and may
name others. -/
def putMembers (source : Source) (index : Nat) (seen : List String) (a : α) :
    List (StringContent × Node) → Decoded (α × List String)
  | [] => .ok (a, seen)
  | (key, node) :: ms => do
    let key ← decodeKey key
    if (r.fields.map Prod.fst).contains key then
      if seen.contains key then
        .error (.here (.duplicateField key) (.afterKey index))
      else
        let a ← under index (r.put key source node a)
        putMembers source (index + 1) (key :: seen) a ms
    else
      -- A value that is passed over has to be well-formed, but need not be one
      -- that can be held.
      under index (decodeIgnored node)
      putMembers source (index + 1) seen a ms

/-- The first field that must be given and is not. -/
def missing? (seen : List String) : Option String :=
  (r.fields.find? fun f => f.2 && !seen.contains f.1).map Prod.fst

/-- Stores the items of a list in the order of the fields. Gives the items left
over and the fields that were not reached. -/
def putItems (source : Source) (index : Nat) (a : α) :
    List (String × Bool) → List Node →
    Decoded (α × List Node × List (String × Bool))
  | f :: fs, n :: ns => do
    let a ← under index (r.put f.1 source n a)
    putItems source (index + 1) a fs ns
  | fs, ns => .ok (a, ns, fs)

/-- The end of a list that has given every field. -/
def listEnding (source : Source) (length : Nat) (surplus : Bool)
    (cut : Option Stop) : Decoded Unit :=
  let full := r.fields.length
  match source, surplus, cut with
  | _, false, none => .ok ()
  | .value, _, _ =>
    .error (.here (.wrongLength length "fewer elements in array") .stop)
  | .text _, true, _ =>
    .error ⟨.broken .trailingCharacters, .inside [full] (.start 1)⟩
  | .text _, false, some stop =>
    if stop.reading.complaint = .endInList
      ∨ stop.reading.complaint = .trailingComma then
      .error (.atSpot stop.reading)
    else .error
      ⟨.broken .trailingCharacters, .spot stop.reading.rest stop.reading.ahead⟩

/-- A record: an object with its fields as members, or a list of the fields in
order. -/
def decode (source : Source) (node : Node) : Decoded α :=
  match node with
  | .object members cut => do
    let inner ← source.enter
    let (a, seen) ← r.putMembers inner 0 [] r.blank members
    ending cut
    match r.missing? seen with
    | some name => .error (.here (.missingField name) .stop)
    | none => pure a
  | .array items cut => do
    let inner ← source.enter
    let (a, surplus, unfilled) ← r.putItems inner 0 r.blank r.fields items
    match unfilled with
    | [] =>
      r.listEnding source items.length (!surplus.isEmpty) cut
      pure a
    | unfilled =>
      ending cut
      if unfilled.any Prod.snd then
        .error (.here (.wrongLength items.length r.expectedLength) .stop)
      else pure a
  | node => mismatch node r.expected

end Record

/-! ## Whole texts -/

/-- Decodes a text that holds one value and nothing after it. -/
def decodeText {α : Type} (decode : Source → Node → Decoded α) (text : String) :
    Decoded α := do
  let reading := Reading.of text.toList
  let a ← decode .wholeText reading.root
  match reading.rest with
  | .error stop => .error (.atSpot stop.reading)
  | .ok rest =>
    match skipSpace rest with
    | [] => pure a
    | rest => .error (.atSpot (.next .trailingCharacters rest))

/-- The wording of a refusal, with the line and the column of its place in the
text. -/
def Refusal.render (text : String) (r : Refusal) : String :=
  let (line, column) := lineColumn text.toList (r.place.offset text.toList)
  s!"{r.cause.text} at line {line} column {column}"

end FlowAtlas.Json
