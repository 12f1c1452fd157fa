import FlowAtlas.Architecture.Basic
import FlowAtlas.CommandLine.Arguments
import FlowAtlas.Config.Settings

/-!
# Run options

What a run is to do. A value given on the command line wins over the
configuration file, and the file over the default.
-/

namespace FlowAtlas

/-- The program that renders diagrams unless another one is named. -/
def defaultRenderer : String := "mmdc"

/-- The configuration file that is read unless another one is named. -/
def defaultSettings : Path := "cfgflow.toml"

/-- The options of a run. -/
structure Options where
  hierarchyRoot : Path
  outputDir : Path
  project : Option String := none
  bounds : Architecture.Bounds := {}
  renderer : String := defaultRenderer
  deriving DecidableEq, Repr

/-- The options that result from the arguments and the settings of a file. -/
def Options.of (a : Arguments) (settings : Settings) : Options where
  hierarchyRoot := a.hierarchyRoot
  outputDir := a.outputDir
  project := a.project
  bounds := (a.bounds.orElse settings.bounds).fill {}
  renderer := (a.renderer.or settings.renderer).getD defaultRenderer

end FlowAtlas
