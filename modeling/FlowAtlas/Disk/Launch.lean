import FlowAtlas.CommandLine.Run
import FlowAtlas.Disk.Memory
import FlowAtlas.Shell.Run

/-!
# Programs in a file tree

A program is named by its path, or, when its name has no separator, looked for
among the standard ones. A file is a program if it may be executed and is a
shell script that says so on its first line.
-/

namespace FlowAtlas.FileTree

open Renderer (Outcome)

/-- The standard programs that do nothing but end, with the statuses in which
they do. -/
def standardPrograms : List (String × Nat) :=
  [("true", 0), ("false", 1), ("echo", 0)]

/-- The interpreters that a script may ask for. -/
def interpreters : List String :=
  ["/bin/sh", "/usr/bin/sh", "/bin/bash", "/usr/bin/bash", "/bin/dash",
    "/usr/bin/env sh", "/usr/bin/env bash"]

/-- The code for a file that is no program. -/
def notExecutable : SystemError.Code := .unknown 8

/-- The script in a file. -/
def script? (content : ByteArray) : Except SystemError.Code String :=
  match String.fromUTF8? content with
  | none => .error notExecutable
  | some text =>
    match text.toList with
    | '#' :: '!' :: cs =>
      let words := Text.trim (String.ofList (cs.takeWhile (· ≠ '\n')))
      if interpreters.any fun i => words = i || (i ++ " ").isPrefixOf words then
        .ok text
      else .error .noEntry
    | _ => .error notExecutable

/-- The outcome of a script that cannot be read. -/
def unreadable (program : String) : Outcome where
  ending := .exited 2
  complaint := program ++ ": 1: Syntax error\n"

/-- Runs a file as a program. -/
def launchFile (t : FileTree) (program : Path) (arguments : List String) :
    Except SystemError Outcome × FileTree :=
  match t.lookup program with
  | .error e => (.error e, t)
  | .ok (_, .file content true) =>
    match script? content with
    | .error code => (.error (.coded code), t)
    | .ok text =>
      match Shell.read? text with
      | none => (.ok (unreadable program), t)
      | some command =>
        let (outcome, t) := Shell.execute t program arguments command
        (.ok outcome, t)
  | .ok _ => (.error (.coded .accessDenied), t)

/-- Runs a program. -/
def launch : Renderer.Launcher (StateM FileTree) := fun program arguments t =>
  if (program :: arguments).any (·.toList.contains '\x00') then
    (.error .nulInPath, t)
  else if program.toList.contains '/' then t.launchFile program arguments
  else match standardPrograms.lookup program with
    | some status => (.ok ⟨.exited status, ""⟩, t)
    | none => (.error (.coded .noEntry), t)

/-- A file tree as a machine. -/
def host : Host (StateM FileTree) := ⟨disk, launch⟩

end FlowAtlas.FileTree
