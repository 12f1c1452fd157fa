import FlowAtlas.Shell.Basic

/-!
# Reading shell scripts

A script is cut into tokens, and the tokens are read as commands. Every step
takes at least one character or token away, so the length of the input bounds
the number of steps.
-/

namespace FlowAtlas.Shell

/-- A token of a script. -/
inductive Token where
  | word (w : Word)
  | mark (s : String)
  | output (stream : Nat) (appends : Bool)
  | input
  | join (stream target : Nat)
  deriving DecidableEq, Repr

/-- Whether a character can stand in the name of a variable. -/
def isNameChar (c : Char) : Bool := c.isAlphanum || c = '_'

/-- Whether a character ends a word. -/
def endsWord (c : Char) : Bool :=
  [' ', '\t', '\n', ';', '&', '|', '<', '>', '(', ')'].contains c

/-- The parameters whose name is one sign. -/
def signs : List Char := ['#', '@', '*', '$', '?', '!', '-']

/-- The parameter behind a dollar sign, if there is one. -/
def parameter? (quoted : Bool) : List Char → Option (Piece × List Char)
  | '\x7b' :: cs =>
    let (name, rest) := cs.span (· ≠ '\x7d')
    match rest with
    | [] => none
    | _ :: rest => some (.parameter (String.ofList name) quoted, rest)
  | c :: cs =>
    if c.isDigit || signs.contains c then
      some (.parameter (String.singleton c) quoted, cs)
    else if isNameChar c then
      let (name, rest) := (c :: cs).span isNameChar
      some (.parameter (String.ofList name) quoted, rest)
    else none
  | [] => none

/-- A piece for one character. -/
def single (c : Char)
    (quoted : Bool) : Piece := .text (String.singleton c) quoted

/-- The pieces up to the end of a quotation in double quotes. -/
def quotation : Nat → List Char → Option (Word × List Char)
  | 0, _ => none
  | _ + 1, [] => none
  | _ + 1, '"' :: cs => some ([.text "" true], cs)
  | n + 1, '\\' :: c :: cs =>
    if c = '\n' then quotation n cs
    else
      let pieces : Word :=
        if ['$', '\\', '"'].contains c then [single c true]
        else [single '\\' true, single c true]
      (quotation n cs).map fun r => (pieces ++ r.1, r.2)
  | n + 1, '$' :: cs =>
    match parameter? true cs with
    | some (piece, rest) => (quotation n rest).map fun r => (piece :: r.1, r.2)
    | none => (quotation n cs).map fun r => (single '$' true :: r.1, r.2)
  | n + 1, c :: cs => (quotation n cs).map fun r => (single c true :: r.1, r.2)

/-- The pieces up to the end of a word. -/
def wordFrom : Nat → List Char → Option (Word × List Char)
  | 0, _ => none
  | _ + 1, [] => some ([], [])
  | n + 1, '\'' :: cs =>
    let (text, rest) := cs.span (· ≠ '\'')
    match rest with
    | [] => none
    | _ :: rest => (wordFrom n rest).map fun r =>
      (.text (String.ofList text) true :: r.1, r.2)
  | n + 1, '"' :: cs =>
    match quotation n cs with
    | none => none
    | some (pieces, rest) => (wordFrom n rest).map fun r => (pieces ++ r.1, r.2)
  | n + 1, '\\' :: c :: cs =>
    if c = '\n' then wordFrom n cs
    else (wordFrom n cs).map fun r => (single c true :: r.1, r.2)
  | n + 1, '$' :: cs =>
    match parameter? false cs with
    | some (piece, rest) => (wordFrom n rest).map fun r => (piece :: r.1, r.2)
    | none => (wordFrom n cs).map fun r => (single '$' true :: r.1, r.2)
  | n + 1, c :: cs =>
    if endsWord c then some ([], c :: cs)
    else (wordFrom n cs).map fun r => (single c false :: r.1, r.2)

/-- The number that a digit stands for. -/
def digit (c : Char) : Nat := c.toNat - '0'.toNat

/-- The tokens of a script. -/
def tokens : Nat → List Char → Option (List Token)
  | 0, _ => none
  | _ + 1, [] => some []
  | n + 1, ' ' :: cs | n + 1, '\t' :: cs | n + 1, '\\' :: '\n' :: cs =>
    tokens n cs
  | n + 1, '#' :: cs => tokens n (cs.dropWhile (· ≠ '\n'))
  | n + 1, '\n' :: cs => (tokens n cs).map (.mark ";" :: ·)
  | n + 1, ';' :: ';' :: cs => (tokens n cs).map (.mark ";;" :: ·)
  | n + 1, ';' :: cs => (tokens n cs).map (.mark ";" :: ·)
  | n + 1, '&' :: '&' :: cs => (tokens n cs).map (.mark "&&" :: ·)
  | n + 1, '|' :: '|' :: cs => (tokens n cs).map (.mark "||" :: ·)
  | n + 1, '|' :: cs => (tokens n cs).map (.mark "|" :: ·)
  | n + 1, '(' :: cs => (tokens n cs).map (.mark "(" :: ·)
  | n + 1, ')' :: cs => (tokens n cs).map (.mark ")" :: ·)
  | n + 1, '<' :: cs => (tokens n cs).map (.input :: ·)
  | n + 1, cs =>
    -- A digit right in front of the mark names the stream; with a blank between
    -- it is a word.
    let (stream, rest) : Nat × List Char := match cs with
      | c :: '>' :: rest => if c.isDigit then (digit c, '>' :: rest)
          else (resultStream, cs)
      | _ => (resultStream, cs)
    match rest with
    | '>' :: '>' :: rest => (tokens n rest).map (.output stream true :: ·)
    | '>' :: '&' :: c :: rest =>
      if c.isDigit then (tokens n rest).map (.join stream (digit c) :: ·)
      else none
    | '>' :: rest => (tokens n rest).map (.output stream false :: ·)
    | _ =>
      match wordFrom n cs with
      | some (w, rest) => (tokens n rest).map (.word w :: ·)
      | none => none

/-- The text of a word of which nothing is quoted and nothing stands for
something else. -/
def plain? : Word → Option String
  | [] => some ""
  | .text s false :: rest => (plain? rest).map (s ++ ·)
  | _ => none

/-- Whether a token is a given reserved word. -/
def isReserved (name : String) : Token → Bool
  | .word w => plain? w = some name
  | _ => false

/-- The reserved words that end a list of commands. -/
def closers : List String :=
  ["then", "elif", "else", "fi", "esac", "do", "done", "\x7d"]

/-- Whether a token ends a list of commands. -/
def closes (t : Token) : Bool := t = .mark ";;" || closers.any fun name =>
  isReserved name t

/-- Passes over the ends of commands. -/
def dropEnds (ts : List Token) : List Token := ts.dropWhile (· = .mark ";")

/-- Takes a reserved word away. -/
def expect? (name : String) : List Token → Option (List Token)
  | t :: ts => if isReserved name t then some ts else none
  | [] => none

/-- The name and the value of a word that sets a variable. -/
def assignment? (w : Word) : Option (String × Word) :=
  let (name, value) := w.span fun piece =>
    match piece with
    | .text s false => s ≠ "="
    | _ => false
  match plain? name, value with
  | some name, _ :: value =>
    if name ≠ "" ∧ name.toList.all isNameChar
      ∧ !(name.toList.head?.any Char.isDigit) then
      some (name, value)
    else none
  | _, _ => none

/-- The rest of a call. -/
def callFrom (c : Call) : List Token → Option (Call × List Token)
  | .word w :: ts =>
    match c.words, assignment? w with
    | [], some a => callFrom { c with assignments := c.assignments ++ [a] } ts
    | _, _ => callFrom { c with words := c.words ++ [w] } ts
  | .output stream appends :: .word w :: ts =>
    callFrom { c with redirects := c.redirects ++ [.output stream appends w] }
      ts
  | .input :: .word w :: ts =>
    callFrom { c with redirects := c.redirects ++ [.input w] } ts
  | .join stream target :: ts =>
    callFrom { c with redirects := c.redirects ++ [.join stream target] } ts
  | .output _ _ :: _ | .input :: _ => none
  | ts => some (c, ts)

/-- A command with the redirections behind it. -/
def redirectedBy (command : Command) (ts : List Token) :
    Option (Command × List Token) :=
  match callFrom {} (ts.takeWhile fun t => t ≠ .mark ";") with
  | some (c, rest) =>
    if c.redirects.isEmpty then some (command, ts)
    else if c.words.isEmpty && c.assignments.isEmpty then
      some (.redirected command c.redirects,
        rest ++ ts.dropWhile fun t => t ≠ .mark ";")
    else none
  | none => none

/-- The words in front of the end of a command. -/
def wordsFrom : List Token → List Word × List Token
  | .word w :: ts =>
    let (ws, rest) := wordsFrom ts
    (w :: ws, rest)
  | ts => ([], ts)

/-- The patterns of an arm, up to the bracket behind them. -/
def patternsFrom : List Token → Option (List Word × List Token)
  | .word w :: .mark ")" :: ts => some ([w], ts)
  | .word w :: .mark "|" :: ts => (patternsFrom ts).map fun r => (w :: r.1, r.2)
  | _ => none

mutual

/-- A list of commands, up to what ends it. -/
def listFrom : Nat → List Token → Option (Command × List Token)
  | 0, _ => none
  | n + 1, ts =>
    match dropEnds ts with
    | [] => some (.nothing, [])
    | t :: ts =>
      if closes t then some (.nothing, t :: ts)
      else
        match chainFrom n (t :: ts) with
        | none => none
        | some (first, rest) => (listFrom n rest).map fun r =>
          (.both first r.1, r.2)

/-- Commands that hang on the success of each other. -/
def chainFrom : Nat → List Token → Option (Command × List Token)
  | 0, _ => none
  | n + 1, ts =>
    match commandFrom n ts with
    | none => none
    | some (first, rest) => chainOn n first rest

/-- What hangs on a command. -/
def chainOn : Nat → Command → List Token → Option (Command × List Token)
  | 0, _, _ => none
  | n + 1, first, .mark "&&" :: ts =>
    match commandFrom n (dropEnds ts) with
    | none => none
    | some (second, rest) => chainOn n (.onSuccess first second) rest
  | n + 1, first, .mark "||" :: ts =>
    match commandFrom n (dropEnds ts) with
    | none => none
    | some (second, rest) => chainOn n (.onFailure first second) rest
  | _ + 1, first, ts => some (first, ts)

/-- One command. -/
def commandFrom : Nat → List Token → Option (Command × List Token)
  | 0, _ => none
  | n + 1, ts =>
    match ts with
    | .word w :: rest =>
      match plain? w with
      | some "!" => (commandFrom n rest).map fun r => (.negated r.1, r.2)
      | some "if" => do
        let (command, rest) ← branchFrom n rest
        redirectedBy command rest
      | some "\x7b" => do
        let (body, rest) ← listFrom n rest
        redirectedBy body (← expect? "\x7d" rest)
      | some "case" =>
        match rest with
        | .word subject :: rest => do
          let (arms, rest) ← armsFrom n
            (dropEnds (← expect? "in" (dropEnds rest)))
          redirectedBy (.choice subject arms) rest
        | _ => none
      | some "for" =>
        match rest with
        | .word name :: rest => do
          let (words, rest) := match expect? "in" (dropEnds rest) with
            | some rest => wordsFrom rest
            | none => ([[.parameter "@" true]], rest)
          let (body, rest) ← listFrom n (← expect? "do" (dropEnds rest))
          redirectedBy (.loop (← plain? name) words body)
            (← expect? "done" rest)
        | _ => none
      | _ => (callFrom {} ts).map fun r => (.call r.1, r.2)
    | .output _ _ :: _ | .input :: _ | .join _ _ :: _ =>
      (callFrom {} ts).map fun r => (.call r.1, r.2)
    | _ => none

/-- The rest of a distinction by success. -/
def branchFrom : Nat → List Token → Option (Command × List Token)
  | 0, _ => none
  | n + 1, ts => do
    let (condition, rest) ← listFrom n ts
    let (yes, rest) ← listFrom n (← expect? "then" rest)
    match rest with
    | t :: rest =>
      if isReserved "fi" t then pure (.branch condition yes .nothing, rest)
      else if isReserved "elif" t then
        let (no, rest) ← branchFrom n rest
        pure (.branch condition yes no, rest)
      else if isReserved "else" t then
        let (no, rest) ← listFrom n rest
        pure (.branch condition yes no, ← expect? "fi" rest)
      else none
    | [] => none

/-- The arms of a case distinction. -/
def armsFrom :
    Nat → List Token → Option (List (List Word × Command) × List Token)
  | 0, _ => none
  | n + 1, ts =>
    match expect? "esac" ts with
    | some rest => some ([], rest)
    | none => do
      let ts := match ts with
        | .mark "(" :: ts => ts
        | ts => ts
      let (patterns, rest) ← patternsFrom ts
      let (body, rest) ← listFrom n rest
      let rest := match rest with
        | .mark ";;" :: rest => dropEnds rest
        | rest => rest
      let (arms, rest) ← armsFrom n rest
      pure ((patterns, body) :: arms, rest)

end

/-- The commands of a script. -/
def read? (script : String) : Option Command := do
  let ts ← tokens (script.length + 1) script.toList
  match ← listFrom (4 * ts.length + 4) ts with
  | (command, []) => pure command
  | _ => none

end FlowAtlas.Shell
