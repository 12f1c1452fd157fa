import FlowAtlas.Path

/-!
# Raster formats

Each diagram is written as markup and then rendered in every raster format. The
raster stands next to the markup and has the same stem.
-/

namespace FlowAtlas

/-- A format in which a diagram is rendered. -/
inductive Raster where
  | svg
  | png
  deriving DecidableEq, Repr

namespace Raster

/-- Every format, in the order in which they are rendered. -/
def all : List Raster := [.svg, .png]

/-- The name of a format. -/
def name : Raster → String
  | .svg => "SVG"
  | .png => "PNG"

/-- The extension of files in a format. -/
def extension : Raster → String
  | .svg => "svg"
  | .png => "png"

/-- The path of the raster that belongs to a markup file. -/
def path (format : Raster)
    (markup : Path) : Path := markup.withExtension format.extension

end Raster

end FlowAtlas
