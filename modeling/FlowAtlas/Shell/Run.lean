import FlowAtlas.Disk.Tree
import FlowAtlas.Renderer.Basic
import FlowAtlas.Shell.Reader
import FlowAtlas.Text.Utf8
import FlowAtlas.Text.Wildcard

/-!
# Running shell scripts

A script changes a file tree, complains, and ends with a status or by a signal
that it sends to itself. What it writes to the stream of results is lost unless
it is led to a file.
-/

namespace FlowAtlas.Shell

open Renderer (Ending Outcome)

/-- Where a stream goes. -/
inductive Sink where
  | lost
  | complaint
  | file (path : Path)
  deriving DecidableEq

/-- A script that is running. -/
structure State where
  tree : FileTree
  name : String
  arguments : List String
  bindings : List (String × String) := []
  status : Nat := 0
  /-- Whether the script ends at the first call that fails. -/
  strict : Bool := false
  /-- Where the streams of commands go. -/
  resultSink : Sink := .lost
  complaintSink : Sink := .complaint
  complaint : List UInt8 := []
  ending : Option Ending := none

/-- The bytes of a text. -/
def bytes (s : String) : List UInt8 := s.toUTF8.toList

/-! ## Words -/

/-- The number of the process, of which nothing is known. -/
def processId : String := "1"

/-- The values of a parameter. Only `@` and `*` can have more than one. -/
def State.values (s : State) (name : String) : List String :=
  match name with
  | "@" | "*" => s.arguments
  | "#" => [toString s.arguments.length]
  | "$" => [processId]
  | "?" => [toString s.status]
  | "0" => [s.name]
  | name =>
    match name.toNat? with
    | some n => [(s.arguments[n - 1]?).getD ""]
    | none => [(s.bindings.lookup name).getD ""]

/-- The words in a text that are parted by blanks. -/
def splitBlanks (text : String) : List String :=
  let blank (c : Char) : Bool := [' ', '\t', '\n'].contains c
  let step (c : Char) (r : List (List Char)) : List (List Char) :=
    if blank c then [] :: r
    else match r with
      | [] => [[c]]
      | w :: ws => (c :: w) :: ws
  ((text.toList.foldr step [[]]).filter (!·.isEmpty)).map String.ofList

/-- Adds words behind others: the first of them goes on where the last one
stopped. -/
def glue (done : List String) (more : List String) : List String :=
  match done.reverse, more with
  | _, [] => done
  | [], more => more
  | last :: before, first :: more => before.reverse ++ (last ++ first) :: more

/-- What a word stands for: no word, one, or several. -/
def State.expand (s : State) (w : Word) : List String :=
  w.foldl (fun done piece =>
    match piece with
    | .text text _ => glue done [text]
    | .parameter "@" true => glue done s.arguments
    | .parameter name true => glue done [" ".intercalate (s.values name)]
    | .parameter name false =>
      glue done ((s.values name).flatMap splitBlanks)) []

/-- What a word stands for where just one is wanted. -/
def State.expandOne (s : State)
    (w : Word) : String := " ".intercalate (s.expand w)

/-- A word as a pattern: what is quoted stands for itself. -/
def State.pattern (s : State) (w : Word) : List Text.Glyph :=
  w.flatMap fun piece =>
    match piece with
    | .text text true => text.toList.map .exactly
    | .text text false => Text.glyphs text.toList
    | .parameter name true =>
      (" ".intercalate (s.values name)).toList.map .exactly
    | .parameter name false =>
      Text.glyphs (" ".intercalate (s.values name)).toList

/-! ## Text with escapes -/

/-- The value of octal digits. -/
def octal (cs : List Char) : Nat := cs.foldl (fun n c => 8 * n + digit c) 0

/-- Whether a character is an octal digit. -/
def isOctal (c : Char) : Bool := '0' ≤ c && c ≤ '7'

/-- What a letter behind a backslash stands for. -/
def escapes : List (Char × UInt8) :=
  [('n', 10), ('t', 9), ('r', 13), ('a', 7), ('b', 8), ('f', 12),
    ('v', 11), ('\\', 92)]

/-- The bytes of a text with escapes, and whether the text ends all output. -/
def unescape : Nat → List Char → List UInt8 × Bool
  | 0, _ | _ + 1, [] => ([], false)
  | _ + 1, '\\' :: 'c' :: _ => ([], true)
  | n + 1, '\\' :: c :: cs =>
    match escapes.lookup c with
    | some b =>
      let r := unescape n cs
      (b :: r.1, r.2)
    | none =>
      if isOctal c then
        let digits := (c :: cs).take 3 |>.takeWhile isOctal
        let r := unescape n ((c :: cs).drop digits.length)
        (UInt8.ofNat (octal digits) :: r.1, r.2)
      else
        let r := unescape n (c :: cs)
        (92 :: r.1, r.2)
  | n + 1, c :: cs =>
    let r := unescape n cs
    (bytes (String.singleton c) ++ r.1, r.2)

/-- The bytes of a text with escapes. -/
def unescaped (text : String) : List UInt8 × Bool :=
  unescape (text.length + 1) text.toList

/-- The bytes of a format with its places filled, and the values that are
left. -/
def fill : Nat → List Char → List String → List UInt8 × List String
  | 0, _, values | _ + 1, [], values => ([], values)
  | n + 1, '%' :: c :: cs, values =>
    if c = '%' then
      let r := fill n cs values
      (37 :: r.1, r.2)
    else
      let value := values.head?.getD (if c = 'd' then "0" else "")
      let shown := if c = 'b' then (unescaped value).1 else bytes value
      let r := fill n cs values.tail
      (shown ++ r.1, r.2)
  | n + 1, c :: cs, values =>
    let text := (c :: cs).takeWhile (· ≠ '%')
    if text.isEmpty then
      let r := fill n cs values
      (bytes (String.singleton c) ++ r.1, r.2)
    else
      let r := fill n ((c :: cs).drop text.length) values
      ((unescaped (String.ofList text)).1 ++ r.1, r.2)

/-- A format, filled again and again as long as it takes values. -/
def fillAll (format : String) : Nat → List String → List UInt8
  | 0, _ => []
  | n + 1, values =>
    let (out, left) := fill (format.length + 1) format.toList values
    if left.isEmpty || left.length = values.length then out
    else out ++ fillAll format n left

/-! ## Commands -/

/-- What a call leaves behind. -/
structure Answer where
  state : State
  result : List UInt8 := []
  complaint : List UInt8 := []
  status : Nat := 0

/-- A call that complains and fails. -/
def fail (s : State) (status : Nat) (message : String) : Answer :=
  { state := s, status, complaint := bytes (message ++ "\n") }

/-- A call that changes the tree, and fails with a complaint when it is
refused. -/
def changing (s : State) (what : String) : Except SystemError FileTree → Answer
  | .ok tree => { state := { s with tree } }
  | .error e => fail s 1 (what ++ ": " ++ match e with
    | .coded code => code.text
    | e => e.message)

/-- Carries out a change for each of some names. -/
def forEach (s : State) (what : String → String)
    (f : FileTree → Path → Except SystemError FileTree) (names : List String) :
    Answer :=
  names.foldl (fun a name =>
    let next := changing a.state (what name) (f a.state.tree name)
    { next with
      complaint := a.complaint ++ next.complaint
      status := if a.status = 0 then next.status else a.status }) { state := s }

/-- The names among the arguments of a call, which are not options. -/
def operands (arguments : List String) : List String :=
  arguments.filter fun a => a = "-" || a.toList.head? ≠ some '-'

/-- Copies a file; into a directory it goes under its own name. -/
def copyFile (tree : FileTree) (source target : Path) :
    Except SystemError FileTree := do
  let content ← tree.readBytes source
  let target := match tree.isDirectory target with
    | .ok true => target.join (source.fileName?.getD source)
    | _ => target
  tree.writeBytes target content

/-- The numbers of the signals by the names that a script gives them. -/
def signal? (name : String) : Option Nat :=
  match name.toNat? with
  | some n => some n
  | none =>
    (Renderer.signalNames.find? fun e => e.2 = name || e.2 = "SIG" ++ name).map
      Prod.fst

/-- The signal that the arguments of a call ask for. -/
def requestedSignal? : List String → Option Nat
  | "-s" :: name :: _ => signal? name
  | a :: _ =>
    match a.toList with
    | '-' :: name => signal? (String.ofList name)
    | _ => some 15
  | [] => none

/-- Whether a condition on files or texts holds. -/
def holds (tree : FileTree) : List String → Bool
  | [] => false
  | [a] => a ≠ ""
  | ["!", a] => a = ""
  | ["-n", a] => a ≠ ""
  | ["-z", a] => a = ""
  | ["-e", p] => (tree.lookup p matches .ok _)
  | ["-f", p] => (tree.lookup p matches .ok (_, .file _ _))
  | ["-d", p] => (tree.lookup p matches .ok (_, .directory))
  | ["-r", p] | ["-w", p] => (tree.lookup p matches .ok _)
  | ["-x", p] => (tree.lookup p matches .ok (_, .file _ true))
  | ["-s", p] => match tree.lookup p with
    | .ok (_, .file content _) => content.size > 0
    | _ => false
  | [a, "=", b] | [a, "==", b] => a = b
  | [a, "!=", b] => a ≠ b
  | [a, "-eq", b] => a.toNat? = b.toNat?
  | [a, "-ne", b] => a.toNat? ≠ b.toNat?
  | [a, "-gt", b] => a.toNat?.getD 0 > b.toNat?.getD 0
  | [a, "-lt", b] => a.toNat?.getD 0 < b.toNat?.getD 0
  | "!" :: rest => !holds tree rest
  | _ => false

/-- A call of a command with what it reads. -/
def invoke (s : State) (input : List UInt8) (name : String)
    (arguments : List String) : Answer :=
  let done : Answer := { state := s }
  match name with
  | ":" | "true" | "sleep" | "sync" => done
  | "false" => { done with status := 1 }
  | "echo" =>
    let (plain, words) := match arguments with
      | "-n" :: words => (true, words)
      | words => (false, words)
    let (out, cut) := unescaped (" ".intercalate words)
    { done with result := if plain || cut then out else out ++ [10] }
  | "printf" =>
    match arguments with
    | [] => fail s 2 "printf: usage: printf format [arg ...]"
    | format :: values =>
      { done with result := fillAll format (values.length + 1) values }
  | "exit" =>
    let status := (arguments.head?.bind String.toNat?).getD s.status % 256
    { state := { s with ending := some (.exited status) }, status }
  | "kill" =>
    match requestedSignal? arguments with
    | some n => { state := { s with ending := some (.killed n) } }
    | none =>
      fail s 2 "usage: kill [-s sigspec | -signum | -sigspec] [pid | job]..."
  | "set" =>
    { state := { s with strict := s.strict || arguments.any (·.contains 'e') } }
  | "shift" => { state := { s with arguments := s.arguments.tail } }
  | "test" => { done with status := if holds s.tree arguments then 0 else 1 }
  | "[" =>
    { done with status := if holds s.tree arguments.dropLast then 0 else 1 }
  | "cat" =>
    match operands arguments with
    | [] => { done with result := input }
    | names =>
      names.foldl (fun a name =>
        match s.tree.readBytes name with
        | .ok content => { a with result := a.result ++ content.toList }
        | .error e =>
          let failed := changing s ("cat: " ++ name) (.error e)
          { a with complaint := a.complaint ++ failed.complaint, status := 1 })
            done
  | "wc" =>
    let count (content : List UInt8) : String :=
      toString (if arguments.contains "-l" then content.count 10
        else content.length)
    match operands arguments with
    | [] => { done with result := bytes (count input ++ "\n") }
    | names =>
      names.foldl (fun a name =>
        match s.tree.readBytes name with
        | .ok content =>
          { a with result :=
            a.result ++ bytes (count content.toList ++ " " ++ name ++ "\n") }
        | .error e =>
          let failed := changing s ("wc: " ++ name) (.error e)
          { a with complaint := a.complaint ++ failed.complaint, status := 1 })
            done
  | "cp" =>
    match operands arguments with
    | [source, target] =>
      match s.tree.lookup source with
      | .error e => changing s ("cp: cannot stat '" ++ source ++ "'") (.error e)
      | .ok (_, .directory) =>
        fail s 1 ("cp: -r not specified; omitting directory '" ++ source ++ "'")
      | .ok _ =>
        changing s ("cp: cannot create regular file '" ++ target ++ "'")
          (copyFile s.tree source target)
    | _ => fail s 1 "cp: missing file operand"
  | "rm" =>
    forEach s (fun name => "rm: cannot remove '" ++ name ++ "'")
      (fun tree name =>
        match tree.removeFile name with
        | .ok tree => .ok tree
        | .error e =>
          if e.kindOf = .notFound
            ∧ arguments.any (fun a => a = "-f" || a = "-rf") then .ok tree
          else .error e) (operands arguments)
  | "touch" =>
    forEach s (fun name => "touch: cannot touch '" ++ name ++ "'")
      (fun tree name =>
        match tree.lookup name with
        | .ok _ => .ok tree
        | .error _ => tree.writeBytes name .empty) (operands arguments)
  | "mkdir" =>
    forEach s (fun name => "mkdir: cannot create directory '" ++ name ++ "'")
      (fun tree name =>
        if arguments.contains "-p" then
          match tree.createDirectories name with
          | (.ok _, tree) => .ok tree
          | (.error e, _) => .error e
        else tree.createDirectory name) (operands arguments)
  | name => fail s 127 (s.name ++ ": 1: " ++ name ++ ": not found")

/-- The streams of a command. -/
structure Streams where
  state : State
  input : List UInt8 := []
  result : Sink := state.resultSink
  complaint : Sink := state.complaintSink

/-- Leads a stream somewhere. -/
def Streams.set (r : Streams) (stream : Nat) (sink : Sink) : Streams :=
  if stream = resultStream then { r with result := sink }
  else if stream = complaintStream then { r with complaint := sink }
  else r

/-- The file that holds nothing and keeps nothing. -/
def emptyFile : Path := "/dev/null"

/-- Opens the file of a redirection. -/
def Streams.redirect (r : Streams) : Redirect → Except SystemError Streams
  | .join stream target =>
    let sink := if target = resultStream then r.result else r.complaint
    .ok (r.set stream sink)
  | .input file => do
    let path := r.state.expandOne file
    if path = emptyFile then pure { r with input := [] }
    else pure { r with input := (← r.state.tree.readBytes path).toList }
  | .output stream appends file => do
    let path := r.state.expandOne file
    let content := match appends, r.state.tree.readBytes path with
      | true, .ok content => content
      | _, _ => ByteArray.empty
    let tree ← if path = emptyFile then pure r.state.tree
      else r.state.tree.writeBytes path content
    let sink := if path = emptyFile then .lost else .file path
    pure ({ r with state := { r.state with tree } }.set stream sink)

/-- Writes bytes where a stream goes. -/
def emit (s : State) (sink : Sink) (out : List UInt8) : State :=
  match sink with
  | .lost => s
  | .complaint => { s with complaint := s.complaint ++ out }
  | .file path =>
    let before := match s.tree.readBytes path with
      | .ok content => content
      | .error _ => ByteArray.empty
    match s.tree.writeBytes path (before ++ ByteArray.mk out.toArray) with
    | .ok tree => { s with tree }
    | .error _ => s

/-- A redirection that is refused. -/
def cannotOpen (s : State) (e : SystemError) : State :=
  { emit s s.complaintSink
    (bytes (s.name ++ ": 1: cannot open: " ++ e.message ++ "\n")) with
    status := 2 }

/-- Carries out a call. A call in place of the script, by `exec`, is the last
one. -/
def runCall (s : State) (guarded : Bool) (c : Call) : State :=
  let words := c.words.flatMap s.expand
  let s := c.assignments.foldl (fun s a =>
    { s with bindings := (a.1, s.expandOne a.2) :: s.bindings }) s
  let s := match c.redirects.foldlM Streams.redirect { state := s } with
    | .error e => cannotOpen s e
    | .ok streams =>
      let (isLast, words) := match words with
        | "exec" :: name :: arguments => (true, name :: arguments)
        | words => (false, words)
      match words with
      | [] => { streams.state with status := 0 }
      | name :: arguments =>
        let a := invoke streams.state streams.input name arguments
        let s :=
          emit (emit a.state streams.result a.result)
            streams.complaint a.complaint
        let s := { s with status := a.status }
        if isLast && s.ending.isNone then
          { s with ending := some (.exited s.status) } else s
  if s.strict && !guarded && s.status ≠ 0 && s.ending.isNone then
    { s with ending := some (.exited s.status) }
  else s

mutual

/-- Carries out a command, unless the script has ended. A guarded command may
fail in a strict script. -/
def run (guarded : Bool) (s : State) : Command → State
  | .nothing => s
  | .call c => if s.ending.isSome then s else runCall s guarded c
  | .both first second => run guarded (run guarded s first) second
  | .onSuccess first second =>
    let s := run true s first
    if s.status = 0 then run guarded s second else s
  | .onFailure first second =>
    let s := run true s first
    if s.status = 0 then s else run guarded s second
  | .negated command =>
    let s := run true s command
    { s with status := if s.status = 0 then 1 else 0 }
  | .branch condition yes no =>
    let s := run true s condition
    if s.ending.isSome then s
    else if s.status = 0 then run guarded s yes
    else run guarded { s with status := 0 } no
  | .choice subject arms =>
    if s.ending.isSome then s else runArms guarded s (s.expandOne subject) arms
  | .loop name words body =>
    (words.flatMap s.expand).foldl (fun s value =>
      if s.ending.isSome then s
      else run guarded { s with bindings := (name, value) :: s.bindings }
        body) s
  | .redirected command redirects =>
    if s.ending.isSome then s
    else match redirects.foldlM Streams.redirect { state := s } with
      | .error e => cannotOpen s e
      | .ok streams =>
        let inner := run guarded
          { streams.state with
            resultSink := streams.result
            complaintSink := streams.complaint }
          command
        { inner with
          resultSink := s.resultSink
          complaintSink := s.complaintSink }

/-- Carries out the first arm with a pattern that matches. -/
def runArms (guarded : Bool) (s : State) (subject : String) :
    List (List Word × Command) → State
  | [] => { s with status := 0 }
  | (patterns, body) :: arms =>
    if patterns.any fun w => Text.matchesAll (s.pattern w) subject.toList then
      run guarded { s with status := 0 } body
    else runArms guarded s subject arms

end

/-- Runs a script in a file tree. -/
def execute (tree : FileTree) (name : String) (arguments : List String)
    (script : Command) : Outcome × FileTree :=
  let s := run false { tree, name, arguments } script
  ({ ending := s.ending.getD (.exited s.status)
     complaint := Text.decodeLossy s.complaint },
    s.tree)

end FlowAtlas.Shell
