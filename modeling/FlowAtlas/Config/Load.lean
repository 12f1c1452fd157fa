import FlowAtlas.Config.Options
import FlowAtlas.Disk.Basic

/-!
# Loading the configuration

The configuration file may be missing as long as nobody has asked for it by
name. A file that is there and cannot be used is a fatal fault.
-/

namespace FlowAtlas

variable {m : Type → Type} [Monad m] (disk : Disk m)

/-- The configuration in a file. Unless it is required, a file that is not there
leaves every setting unset. -/
def Settings.load (path : Path) (required : Bool) :
    m (Except Fault Settings) := do
  match ← disk.readText path with
  | .ok text =>
    pure ((Settings.parse text).mapError fun f => f.addContext "path" path)
  | .error e =>
    if e.kindOf = .notFound && !required then pure (.ok {})
    else
      pure (.error
        ((((Fault.configInvalid
          "could not read configuration file").addOperation
          "config::load").addContext "path" path).withSource e))

/-- The options that result from the arguments and the configuration file. -/
def Options.load (a : Arguments) : m (Except Fault Options) := do
  let settings ← match a.config with
    | some path => Settings.load disk path true
    | none => Settings.load disk defaultSettings false
  pure (settings.map (Options.of a))

end FlowAtlas
