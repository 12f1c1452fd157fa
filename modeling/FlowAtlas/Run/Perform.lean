import FlowAtlas.Artifacts.Directory
import FlowAtlas.Renderer.Basic
import FlowAtlas.Run.Plan
import FlowAtlas.Run.Report

/-!
# A run

A run carries out its plan on the output directory: for each drawing it deletes
what an earlier run left at the stem, writes the markup and renders it. Then it
deletes the files of stems that are no longer produced, saves the manifest, and
writes the architecture.

No fault ends a run. Each one is noted as a warning, and the run goes on with
the next unit of work.
-/

namespace FlowAtlas.Run

/-- What a run carries along: its report, and the manifest of what it has
produced. -/
structure Progress where
  report : Report := {}
  manifest : Manifest := .empty

/-- What a run works with. -/
structure Workshop (m : Type → Type) where
  disk : Disk m
  renderer : Renderer m
  output : OutputDirectory

namespace Workshop

variable {m : Type → Type} [Monad m] (shop : Workshop m)

/-- Renders a markup file in some formats, each whether or not the others can be
rendered. -/
def renderEach (markup : Path) : List Raster → Report → m Report
  | [], report => pure report
  | format :: formats, report => do
    let raster := format.path markup
    match ← shop.renderer markup raster with
    | .ok _ => renderEach markup formats (report.addRaster raster)
    | .error fault =>
      renderEach markup formats
        (report.note .render (format.name ++ " " ++ raster) fault)

/-- Renders a markup file in every format. -/
def renderFormats (markup : Path) (report : Report) : m Report :=
  shop.renderEach markup Raster.all report

/-- Makes the files of a drawing. Its stem is recorded once the markup is
written. -/
def draw (d : Drawing) (p : Progress) : m Progress := do
  let path := shop.output.markupFile d.stem
  let stale ← OutputDirectory.clear shop.disk path
  let report := p.report.noteAll .cleanup path stale
  match ← OutputDirectory.putMarkup shop.disk path d.markup with
  | .error fault => pure { p with report := report.note .write d.unit fault }
  | .ok _ =>
    let report ← shop.renderFormats path (report.addMarkup path)
    pure { report, manifest := p.manifest.add d.project d.stem }

/-- Carries out a step of the plan. -/
def perform (p : Progress) : Task → m Progress
  | .skip project fault =>
    pure { p with report := p.report.note .projectCompile project fault }
  | .miss unit fault =>
    pure { p with report := p.report.note .graphBuild unit fault }
  | .draw d => shop.draw d p

/-- Carries out the steps of a plan. -/
def performAll : List Task → Progress → m Progress
  | [], p => pure p
  | task :: tasks, p => do performAll tasks (← shop.perform p task)

/-- Deletes the files of stems that a project has on record and that this run
has not produced. A stem whose files cannot be deleted stays on record, so that
the next run tries again. -/
def pruneStems (project : String) : List String → Progress → m Progress
  | [], p => pure p
  | stem :: stems, p => do
    -- It does not matter which project has produced the stem in this run.
    if p.manifest.tracks stem then pruneStems project stems p
    else
      match ← shop.output.clearStem shop.disk stem with
      | [] =>
        pruneStems project stems { p with report := p.report.addPruned stem }
      | faults =>
        pruneStems project stems {
          report := p.report.noteAll .cleanup stem faults
          manifest := p.manifest.add project stem }

/-- Goes through the projects of the earlier manifest. What is retained keeps
its entry, and the others lose the stems that this run has not produced. -/
def pruneProjects (previous : Manifest) (retained : String → Bool) :
    List String → Progress → m Progress
  | [], p => pure p
  | project :: projects, p => do
    if retained project then
      pruneProjects previous retained projects
        { p with manifest := p.manifest.takeOver previous project }
    else
      pruneProjects previous retained projects
        (← shop.pruneStems project (previous.stemsOf project) p)

/-- Deletes what earlier runs have produced and this one has not. -/
def prune (previous : Manifest) (retained : String → Bool) (p : Progress) :
    m Progress :=
  shop.pruneProjects previous retained previous.projects p

/-- Saves the manifest. -/
def storeManifest (p : Progress) : m Report := do
  match ← shop.output.putManifest shop.disk p.manifest with
  | .ok _ => pure p.report
  | .error fault => pure (p.report.note .cleanup shop.output.manifestFile fault)

/-- Makes the files of the architecture. -/
def drawArchitecture (texts : Architecture.Texts) (report : Report) :
    m Report := do
  let path := shop.output.architectureFile
  let stale ← OutputDirectory.clear shop.disk path
  let report := report.noteAll .cleanup path stale
  match ← shop.output.putArchitecture shop.disk texts with
  | .error fault =>
    pure (report.note .architecture OutputDirectory.architectureDirectory fault)
  | .ok _ => shop.renderFormats path (report.addMarkup path)

/-- The manifest of the run before, or an empty one when it cannot be read. -/
def loadPrevious : m (Manifest × Report) := do
  match ← shop.output.readManifest shop.disk with
  | .ok manifest => pure (manifest, {})
  -- Where nothing is on record, nothing is taken for a leftover and deleted.
  | .error fault =>
    pure (.empty, Report.note {} .cleanup shop.output.manifestFile fault)

end Workshop

/-- Whether a project keeps its earlier entry in the manifest: it was left out
by the filter, or passed over. -/
def retains (filter : Option String) (skipped : List String)
    (project : String) : Bool :=
  skipped.contains project || !selects filter project

namespace Workshop

variable {m : Type → Type} [Monad m] (shop : Workshop m)

/-- A run up to where its manifest is complete: the plan, and the pruning. -/
def prepare (source : GraphSource) (filter : Option String) : m Progress := do
  let tasks := plan source filter
  let (previous, report) ← shop.loadPrevious
  let p ← shop.performAll tasks { report }
  shop.prune previous (retains filter (skippedProjects tasks)) p

/-- A run up to the architecture. -/
def settle (source : GraphSource) (filter : Option String) : m Report := do
  let p ← shop.prepare source filter
  shop.storeManifest p

end Workshop

/-- A run: the plan, the pruning, the manifest and the architecture. -/
def run {m : Type → Type} [Monad m] (shop : Workshop m) (source : GraphSource)
    (filter : Option String) (bounds : Architecture.Bounds) : m Report := do
  let report ← shop.settle source filter
  shop.drawArchitecture (Architecture.texts source.solution bounds filter)
    report

end FlowAtlas.Run
