/-!
# Shell scripts

A file in a tree becomes a program by being a shell script. This is as much of
the shell as such programs need: calls with redirections, sequences, conditions,
case distinctions, and loops over words that are known when the loop starts. So
every script ends.
-/

namespace FlowAtlas.Shell

/-- A piece of a word. What is quoted is taken as it is: it is not split at
blanks, and holds no wildcards. -/
inductive Piece where
  | text (s : String) (quoted : Bool)
  | parameter (name : String) (quoted : Bool)
  deriving DecidableEq, Repr

/-- A word as it is written. -/
abbrev Word := List Piece

/-- The number of the stream of results. -/
def resultStream : Nat := 1

/-- The number of the stream of complaints. -/
def complaintStream : Nat := 2

/-- Where a stream of a call is led. -/
inductive Redirect where
  /-- A stream is written to a file, behind what the file holds if `appends`
  says so. -/
  | output (stream : Nat) (appends : Bool) (file : Word)
  | input (file : Word)
  /-- A stream goes where another one goes. -/
  | join (stream target : Nat)
  deriving DecidableEq, Repr

/-- A call of a command, with the variables that are set before it. -/
structure Call where
  assignments : List (String × Word) := []
  words : List Word := []
  redirects : List Redirect := []
  deriving Repr

/-- A command. -/
inductive Command where
  | nothing
  | call (c : Call)
  /-- One command after the other. -/
  | both (first second : Command)
  /-- The second command only if the first one succeeds. -/
  | onSuccess (first second : Command)
  /-- The second command only if the first one fails. -/
  | onFailure (first second : Command)
  | negated (command : Command)
  | branch (condition yes no : Command)
  | choice (subject : Word) (arms : List (List Word × Command))
  /-- A command for each of some words, which a variable stands for in turn. -/
  | loop (name : String) (words : List Word) (body : Command)
  | redirected (command : Command) (redirects : List Redirect)

end FlowAtlas.Shell
