import FlowAtlas.Text.Quoted

/-!
# Refusals of the operating system

An operation on files can be refused with a numbered code, or with a message of
its own. Callers tell refusals apart by their kind; people read the message.
-/

namespace FlowAtlas

/-- What sort of refusal it is. -/
inductive SystemError.Kind where
  | notFound
  | permissionDenied
  | alreadyExists
  | invalidData
  | invalidInput
  | timedOut
  | wouldBlock
  | notADirectory
  | isADirectory
  | directoryNotEmpty
  | storageFull
  | readOnlyFilesystem
  | invalidFilename
  | filesystemLoop
  | inputOutputError
  | other
  | uncategorized
  deriving DecidableEq, Repr

/-- The name of a kind. -/
def SystemError.Kind.name : SystemError.Kind → String
  | .notFound => "NotFound"
  | .permissionDenied => "PermissionDenied"
  | .alreadyExists => "AlreadyExists"
  | .invalidData => "InvalidData"
  | .invalidInput => "InvalidInput"
  | .timedOut => "TimedOut"
  | .wouldBlock => "WouldBlock"
  | .notADirectory => "NotADirectory"
  | .isADirectory => "IsADirectory"
  | .directoryNotEmpty => "DirectoryNotEmpty"
  | .storageFull => "StorageFull"
  | .readOnlyFilesystem => "ReadOnlyFilesystem"
  | .invalidFilename => "InvalidFilename"
  | .filesystemLoop => "FilesystemLoop"
  | .inputOutputError => "InputOutputError"
  | .other => "Other"
  | .uncategorized => "Uncategorized"

/-- A code with which the operating system refuses. -/
inductive SystemError.Code where
  | notPermitted
  | noEntry
  | inputOutput
  | tryAgain
  | accessDenied
  | fileExists
  | notDirectory
  | isDirectory
  | invalidArgument
  | noSpace
  | readOnly
  | nameTooLong
  | notEmpty
  | tooManyLinks
  | unknown (number : Int)
  deriving DecidableEq, Repr

namespace SystemError.Code

/-- The number of a code. -/
def number : SystemError.Code → Int
  | .notPermitted => 1
  | .noEntry => 2
  | .inputOutput => 5
  | .tryAgain => 11
  | .accessDenied => 13
  | .fileExists => 17
  | .notDirectory => 20
  | .isDirectory => 21
  | .invalidArgument => 22
  | .noSpace => 28
  | .readOnly => 30
  | .nameTooLong => 36
  | .notEmpty => 39
  | .tooManyLinks => 40
  | .unknown n => n

/-- The codes with a meaning that is known here. -/
def known : List SystemError.Code :=
  [.notPermitted, .noEntry, .inputOutput, .tryAgain, .accessDenied, .fileExists,
    .notDirectory, .isDirectory, .invalidArgument, .noSpace, .readOnly,
    .nameTooLong, .notEmpty, .tooManyLinks]

/-- The code with a number. -/
def ofNumber (n : Int) : SystemError.Code :=
  (known.find? fun c => c.number = n).getD (.unknown n)

/-- The meaning of a code. -/
def text : SystemError.Code → String
  | .notPermitted => "Operation not permitted"
  | .noEntry => "No such file or directory"
  | .inputOutput => "Input/output error"
  | .tryAgain => "Resource temporarily unavailable"
  | .accessDenied => "Permission denied"
  | .fileExists => "File exists"
  | .notDirectory => "Not a directory"
  | .isDirectory => "Is a directory"
  | .invalidArgument => "Invalid argument"
  | .noSpace => "No space left on device"
  | .readOnly => "Read-only file system"
  | .nameTooLong => "File name too long"
  | .notEmpty => "Directory not empty"
  | .tooManyLinks => "Too many levels of symbolic links"
  | .unknown n => s!"Unknown error {n}"

/-- The kind of a code. -/
def kind : SystemError.Code → SystemError.Kind
  | .notPermitted | .accessDenied => .permissionDenied
  | .noEntry => .notFound
  | .inputOutput => .inputOutputError
  | .tryAgain => .wouldBlock
  | .fileExists => .alreadyExists
  | .notDirectory => .notADirectory
  | .isDirectory => .isADirectory
  | .invalidArgument => .invalidInput
  | .noSpace => .storageFull
  | .readOnly => .readOnlyFilesystem
  | .nameTooLong => .invalidFilename
  | .notEmpty => .directoryNotEmpty
  | .tooManyLinks => .filesystemLoop
  | .unknown _ => .uncategorized

end SystemError.Code

/-- A refused operation. -/
inductive SystemError where
  /-- Refused with a code. -/
  | coded (code : SystemError.Code)
  /-- Refused before the operating system was asked, with a fixed message. -/
  | refused (kind : SystemError.Kind) (message : String)
  /-- Refused by another part of a program. -/
  | custom (kind : SystemError.Kind) (message : String)
  deriving DecidableEq, Repr

namespace SystemError

/-- The sort of refusal. -/
def kindOf : SystemError → SystemError.Kind
  | .coded code => code.kind
  | .refused kind _ | .custom kind _ => kind

/-- The message of a refusal; that of a code ends with its number. -/
def message : SystemError → String
  | .coded code => code.text ++ " (os error " ++ toString code.number ++ ")"
  | .refused _ message | .custom _ message => message

/-- The refusal with all its parts. -/
def describe : SystemError → String
  | .coded code =>
    "Os \x7b code: " ++ toString code.number ++ ", kind: " ++ code.kind.name
      ++ ", message: "
      ++ Text.quote code.text ++ " \x7d"
  | .refused kind message =>
    "Error \x7b kind: " ++ kind.name ++ ", message: " ++ Text.quote
      message ++ " \x7d"
  | .custom kind message =>
    "Custom \x7b kind: " ++ kind.name ++ ", error: " ++ Text.quote
      message ++ " \x7d"

/-- A path that holds the character with code zero names no file. -/
def nulInPath : SystemError :=
  .refused .invalidInput "file name contained an unexpected NUL byte"

/-- A file whose bytes are no text. -/
def notText : SystemError :=
  .refused .invalidData "stream did not contain valid UTF-8"

end SystemError

end FlowAtlas
