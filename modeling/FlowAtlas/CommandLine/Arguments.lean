import FlowAtlas.Architecture.Bounds
import FlowAtlas.Path

/-!
# Command-line arguments

Two places must be given by position; everything else has a name. An argument
that may still get a value is settled only when the next argument that matters
comes up, or at the end: that is when its value is checked, and so the first
complaint is the one about the argument that is settled first.
-/

namespace FlowAtlas

/-- The arguments of a run. -/
structure Arguments where
  hierarchyRoot : Path
  outputDir : Path
  project : Option String := none
  config : Option Path := none
  renderer : Option String := none
  bounds : PartialBounds := {}
  deriving DecidableEq, Repr

/-- How the program ends. -/
inductive ExitStatus where
  | success
  /-- The arguments cannot be used. -/
  | usage
  /-- The filter was named without the name of a project. -/
  | missingProjectName
  /-- The run could not start. -/
  | failure
  deriving DecidableEq, Repr

/-- The number by which the program reports how it ended. -/
def ExitStatus.code : ExitStatus → Nat
  | .success => 0
  | .usage => 1
  | .missingProjectName => 2
  | .failure => 99

/-- The name of a status. -/
def ExitStatus.name : ExitStatus → String
  | .success => "Success"
  | .usage => "Usage"
  | .missingProjectName => "MissingProjectName"
  | .failure => "Failure"

namespace Arguments

/-- What a value can be given for. -/
inductive Slot where
  | hierarchyRoot
  | outputDir
  | project
  | config
  | renderer
  | docsPerProject
  | typesPerProject
  | methodsPerType
  | topLevelMethods
  deriving DecidableEq, Repr

/-- The names of the arguments that take a value. -/
def Slot.named : List (String × Slot) :=
  [("project", .project), ("config", .config), ("renderer", .renderer),
    ("max-docs-per-project", .docsPerProject),
    ("max-types-per-project", .typesPerProject),
    ("max-methods-per-type", .methodsPerType),
    ("max-top-level-methods", .topLevelMethods)]

/-- The names of the arguments that show a text and end the program. -/
def showNames : List String := ["help", "version"]

/-- The letters for them. -/
def showLetters : List Char := ['h', 'V']

/-- The greatest count that can be given. -/
def countMax : Nat := Nat.pow 2 64 - 1

/-- A count: decimal digits, maybe behind a plus sign. -/
def count? (value : String) : Option Nat :=
  let digits := match value.toList with
    | '+' :: cs => cs
    | cs => cs
  if digits.isEmpty || !digits.all (fun c => '0' ≤ c && c ≤ '9') then none
  else
    let n := digits.foldl (fun n c => 10 * n + (c.toNat - '0'.toNat)) 0
    if n ≤ countMax then some n else none

/-- Whether a value can be given for a slot. A place has to have a name. -/
def Slot.accepts (slot : Slot) (value : String) : Bool :=
  match slot with
  | .project | .renderer => true
  | .hierarchyRoot | .outputDir | .config => value ≠ ""
  | .docsPerProject | .typesPerProject | .methodsPerType | .topLevelMethods =>
    (count? value).isSome

/-- The arguments seen so far: the values that are settled, and the slot that
may still get its value, or has it and is yet to be checked. -/
structure Progress where
  settled : List (Slot × String) := []
  pending : Option (Slot × Option String) := none
  deriving Repr

/-- The status for a slot that got no value. -/
def noValue (slot : Slot) : ExitStatus :=
  if slot = .project then .missingProjectName else .usage

/-- Stores a value that has been given, once for each slot. -/
def Progress.store (p : Progress) (slot : Slot) (value : String) :
    Except ExitStatus Progress :=
  if (p.settled.lookup slot).isSome || !slot.accepts value then .error .usage
  else .ok { settled := p.settled ++ [(slot, value)], pending := none }

/-- Checks and stores the value of the pending slot. -/
def Progress.settle (p : Progress) : Except ExitStatus Progress :=
  match p.pending with
  | none => .ok p
  | some (slot, none) => .error (noValue slot)
  | some (slot, some value) => p.store slot value

/-- Takes an argument by its position. -/
def Progress.position (p : Progress) (places : Nat) (arg : String) :
    Except ExitStatus (Progress × Nat) :=
  let place : Option Slot := match places with
    | 0 => some .hierarchyRoot
    | 1 => some .outputDir
    | _ => none
  match place with
  | none => .error .usage
  | some slot => do
    let p ← p.settle
    pure ({ p with pending := some (slot, some arg) }, places + 1)

/-- Shows a text and ends the program, after what came before has been
settled. -/
def Progress.show (p : Progress) : ExitStatus :=
  match p.settle with
  | .ok _ => .success
  | .error status => status

/-- Takes an argument by its name, which follows two dashes. -/
def Progress.long (p : Progress) (body : String) : Except ExitStatus Progress :=
  let (name, value) := body.toList.span (· ≠ '=')
  let name := String.ofList name
  let value := match value with
    | [] => none
    | _ :: cs => some (String.ofList cs)
  match Slot.named.lookup name, value with
  | some slot, none => do
    let p ← p.settle
    pure { p with pending := some (slot, none) }
  | some slot, some value => do
    let p ← p.settle
    p.store slot value
  | none, none =>
    .error (if showNames.contains name then p.show else .usage)
  | none, some _ => .error .usage

/-- Takes letters that follow one dash: the first of them decides. -/
def Progress.letters (p : Progress) : List Char → ExitStatus
  | c :: _ => if showLetters.contains c then p.show else .usage
  | [] => .usage

/-- Walks through the arguments. Behind `--` every argument counts by its
position. -/
def walk (p : Progress) (places : Nat) (positionsOnly : Bool) :
    List String → Except ExitStatus Progress
  | [] => p.settle
  | arg :: args => do
    if positionsOnly then
      let (p, places) ← p.position places arg
      walk p places true args
    else match arg.toList with
      | ['-', '-'] => walk p places true args
      | '-' :: '-' :: body =>
        let p ← p.long (String.ofList body)
        walk p places false args
      | '-' :: c :: cs => .error (p.letters (c :: cs))
      | _ =>
        match p.pending with
        | some (slot, none) =>
          walk { p with pending := some (slot, some arg) } places false args
        | _ =>
          let (p, places) ← p.position places arg
          walk p places false args

/-- The arguments of a run, or how the program ends without one. -/
def parse (args : List String) : Except ExitStatus Arguments := do
  let p ← walk {} 0 false args
  let get (slot : Slot) := p.settled.lookup slot
  let count (slot : Slot) := (get slot).bind count?
  match get .hierarchyRoot, get .outputDir with
  | some hierarchyRoot, some outputDir =>
    pure {
      hierarchyRoot, outputDir
      project := get .project
      config := get .config
      renderer := get .renderer
      bounds := {
        docsPerProject := count .docsPerProject
        typesPerProject := count .typesPerProject
        methodsPerType := count .methodsPerType
        topLevelMethods := count .topLevelMethods } }
  | _, _ => .error .usage

end Arguments

end FlowAtlas
