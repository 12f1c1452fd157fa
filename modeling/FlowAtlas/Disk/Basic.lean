import FlowAtlas.Disk.Folder
import FlowAtlas.SystemError

/-!
# What a run asks of a file system

A run works on files through these operations only, so it can be carried out on
the files of a machine as well as on a file tree that is a value. Every
operation may be refused.
-/

namespace FlowAtlas

/-- The operations on files, as actions of `m`. -/
structure Disk (m : Type → Type) where
  /-- Whether a path leads to a directory. Refused when it leads nowhere. -/
  isDirectory : Path → m (Except SystemError Bool)
  /-- The text of a file. -/
  readText : Path → m (Except SystemError String)
  /-- Makes a text the whole content of a file, which is created if need be. -/
  writeText : Path → String → m (Except SystemError Unit)
  /-- Deletes a file. -/
  removeFile : Path → m (Except SystemError Unit)
  /-- Creates a directory and those it is to stand in. -/
  createDirectories : Path → m (Except SystemError Unit)
  /-- All that stands below a directory. -/
  survey : Path → m (Except SystemError Survey)

end FlowAtlas
