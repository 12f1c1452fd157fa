import FlowAtlas.Toml.Scalar

/-!
# Reading TOML

A document is read line by line into tables. A table with a header is filled to
its end before it is put in its place, so it stands behind the tables that were
completed before it.
-/

namespace FlowAtlas.Toml

/-! ## Keys -/

/-- Whether a character may stand in a key without quotes. -/
def isBareChar (c : Char) : Bool := c.isAlphanum || c = '_' || c = '-'

/-- Reads one part of a key. -/
def simpleKey? (cs : List Char) : Option (String × List Char) :=
  match lineString? cs with
  | some r => some r
  | none =>
    let (key, rest) := cs.span isBareChar
    if key.isEmpty then none else some (String.ofList key, rest)

/-- Reads a key and the parts that follow it behind periods. -/
def key? : Nat → List Char → Option (List String × List Char)
  | 0, _ => none
  | fuel + 1, cs => do
    let (part, rest) ← simpleKey? (skipGap cs)
    match skipGap rest with
    | '.' :: rest =>
      let (parts, rest) ← key? fuel rest
      pure (part :: parts, rest)
    | rest => pure ([part], rest)

/-! ## Values -/

/-- What follows a comment, if there is one; its line end is left. -/
def skipComment? : List Char → Option (List Char)
  | '#' :: cs =>
    let (text, rest) := cs.span fun c => c ≠ '\n' && c ≠ '\r'
    if text.all isVisible then some rest else none
  | cs => some cs

/-- Passes over space, line ends and comments. -/
def skipLines? : Nat → List Char → Option (List Char)
  | 0, _ => none
  | fuel + 1, cs => do
    let cs ← skipComment? (skipGap cs)
    match lineEnd? cs with
    | some rest => skipLines? fuel rest
    | none => some cs

/-- Values may stand inside of fewer than so many others. -/
def depthLimit : Nat := 80

mutual

/-- Reads a value inside of `depth` others. -/
def value? : Nat → Nat → List Char → Option (Value × List Char)
  | 0, _, _ => none
  | fuel + 1, depth, cs =>
    match cs with
    | '"' :: _ | '\'' :: _ => (string? cs).map fun r => (.string r.1, r.2)
    | '[' :: rest =>
      if depth + 1 < depthLimit then
        (arrayItems? fuel (depth + 1) rest).map fun r => (.array r.1, r.2)
      else none
    | '\x7b' :: rest =>
      if depth + 1 < depthLimit then
        match skipGap rest with
        | '\x7d' :: rest => some (.table .inline [], rest)
        | rest =>
          (inlineEntries? fuel (depth + 1) [] rest).map fun r =>
            (.table .inline r.1, r.2)
      else none
    | cs => wordValue? cs

/-- Reads the items of an array to its end. -/
def arrayItems? : Nat → Nat → List Char → Option (List Value × List Char)
  | 0, _, _ => none
  | fuel + 1, depth, cs => do
    match ← skipLines? (cs.length + 1) cs with
    | ']' :: rest => pure ([], rest)
    | cs =>
      let (v, rest) ← value? fuel depth cs
      match ← skipLines? (rest.length + 1) rest with
      | ',' :: rest =>
        let (vs, rest) ← arrayItems? fuel depth rest
        pure (v :: vs, rest)
      | ']' :: rest => pure ([v], rest)
      | _ => none

/-- Reads the entries of a table between braces to its end. -/
def inlineEntries? :
    Nat → Nat → Entries → List Char → Option (Entries × List Char)
  | 0, _, _, _ => none
  | fuel + 1, depth, entries, cs => do
    let (keys, rest) ← key? (cs.length + 1) cs
    match keys.reverse, rest with
    | key :: way, '=' :: rest =>
      let (v, rest) ← value? fuel depth (skipGap rest)
      let entries ← entries.setDotted? way.reverse key v
      match skipGap rest with
      | ',' :: rest => inlineEntries? fuel depth entries rest
      | '\x7d' :: rest => pure (entries, rest)
      | _ => none
    | _, _ => none

end

/-! ## Documents -/

/-- A document while it is read: the tables that are complete, and the one that
is being filled. -/
structure Builder where
  root : Entries := []
  /-- Where the table at hand belongs; empty for the document itself. -/
  way : List String := []
  /-- Whether it is one of several tables with the same header. -/
  isElement : Bool := false
  entries : Entries := []

namespace Builder

/-- Puts the table at hand in its place. -/
def close? (b : Builder) : Option Entries :=
  match b.way.reverse with
  | [] => some b.entries
  | key :: before =>
    b.root.updateAt false .header
      (fun _ inner =>
        if b.isElement then
          match inner.lookup key with
          | some (.tables elements) =>
            some (inner.set key (.tables (elements ++ [b.entries])))
          | none => some (inner.set key (.tables [b.entries]))
          | some _ => none
        else some (inner.set key (.table .header b.entries)))
      before.reverse

/-- Takes up the table with a header. Only a table that was merely passed may be
taken up again. -/
def openTable? (b : Builder) (way : List String) : Option Builder := do
  let root ← b.close?
  match way.reverse with
  | [] => none
  | key :: before =>
    let before := before.reverse
    let found ← tableAt? root before
    match found.lookup key with
    | none =>
      let root ← root.updateAt false .header (fun _ inner => some inner) before
      pure { root, way, entries := [] }
    | some (.table .passed entries) =>
      let root ← root.updateAt false .header
        (fun _ inner => some (inner.erase key)) before
      pure { root, way, entries }
    | some _ => none
where
  /-- The entries of the table to which a way leads; none where it leads nowhere
  yet. -/
  tableAt? (entries : Entries) : List String → Option Entries
    | [] => some entries
    | key :: keys =>
      match entries.lookup key with
      | none => some []
      | some (.table .inline _) => none
      | some (.table _ inner) => tableAt? inner keys
      | some (.tables elements) =>
        match elements.getLast? with
        | some last => tableAt? last keys
        | none => none
      | some _ => none

/-- Takes up one more table with a shared header. -/
def openElement? (b : Builder) (way : List String) : Option Builder := do
  let root ← b.close?
  match way.reverse with
  | [] => none
  | key :: before =>
    let root ← root.updateAt false .header
      (fun _ inner =>
        match inner.lookup key with
        | none => some (inner.set key (.tables []))
        | some (.tables _) => some inner
        | some _ => none)
      before.reverse
    pure { root, way, isElement := true, entries := [] }

/-- Sets the value of a key in the table at hand. -/
def put? (b : Builder) (keys : List String) (v : Value) : Option Builder :=
  match keys.reverse with
  | [] => none
  | key :: way => (b.entries.setDotted? way.reverse key v).map fun entries =>
    { b with entries }

end Builder

/-- Reads what may follow on a line that is complete, and its end. -/
def finishLine? (cs : List Char) : Option (List Char) := do
  match ← skipComment? (skipGap cs) with
  | [] => some []
  | cs => lineEnd? cs

/-- Reads one line. -/
def line? (b : Builder) (cs : List Char) : Option (Builder × List Char) :=
  match skipGap cs with
  | '[' :: '[' :: rest => do
    let (way, rest) ← key? (rest.length + 1) rest
    match rest with
    | ']' :: ']' :: rest => pure (← b.openElement? way, ← finishLine? rest)
    | _ => none
  | '[' :: rest => do
    let (way, rest) ← key? (rest.length + 1) rest
    match rest with
    | ']' :: rest => pure (← b.openTable? way, ← finishLine? rest)
    | _ => none
  | [] => some (b, [])
  | c :: cs =>
    if c = '#' ∨ c = '\n' ∨ c = '\r' then (finishLine? (c :: cs)).map (b, ·)
    else do
      let (keys, rest) ← key? (cs.length + 2) (c :: cs)
      match rest with
      | '=' :: rest =>
        let rest := skipGap rest
        let (v, rest) ← value? (2 * rest.length + 2) 0 rest
        pure (← b.put? keys v, ← finishLine? rest)
      | _ => none

/-- Reads the lines of a document. -/
def lines? : Nat → Builder → List Char → Option Entries
  | 0, _, _ => none
  | _ + 1, b, [] => b.close?
  | fuel + 1, b, cs => do
    let (b, rest) ← line? b cs
    lines? fuel b rest

/-- Reads a document. A mark of byte order may stand in front of it. -/
def read? (text : String) : Option Entries :=
  let cs := match text.toList with
    | c :: cs => if c.toNat = 0xFEFF then cs else c :: cs
    | [] => []
  lines? (cs.length + 1) {} cs

end FlowAtlas.Toml
