import FlowAtlas.Proofs.Run.Warnings
import Mathlib.Algebra.BigOperators.Group.List.Basic

/-!
# Every unit of work is accounted for

A run always succeeds, so its report is the only place where a method that got
lost on the way, or was counted twice, would show. This file proves that there
is none, whatever the disk, the renderer and the source of graphs do: every
method of a project that can be used ends up as markup or as one warning
(`run_accounts_for_every_unit`).

The argument is bookkeeping. A report is condensed to a `Tally`, which leaves
out the warnings about deleting, and tallies are added up like numbers. Every
part of a run adds a tally that depends only on what became of its unit of work:
a method one of three (`Fate.tally`), a project that is passed over one warning,
the deleting and the manifest nothing at all (`Report.Sweeps.tally`). What a
whole run adds is then the sum over the walk, and the totals are read off the
sum.

The fates themselves are not read off the report. `Fares` says them in terms of
the operations that the run performs, in the states in which it performs them.
-/

namespace FlowAtlas.Run

open OutputDirectory

/-! ## The work -/

/-- A method, and where it is declared. -/
structure Site where
  project : Project
  document : Document
  method : Method

namespace Site

/-- The graph of the method. -/
def graph (source : GraphSource) (site : Site) :
    Except Fault ControlFlowGraph :=
  source.graphOf site.project site.document site.method

/-- The diagram of the method, given its graph. -/
def drawing (site : Site) (graph : ControlFlowGraph) : Drawing where
  project := site.project.name
  unit := unitOf site.project site.document site.method
  stem := stemOf site.project site.document site.method
  markup :=
    Diagram.chart graph
      ⟨site.project.name, site.document.fileName, site.method.name⟩

/-- The markup file of the method. -/
def path (out : OutputDirectory) (site : Site) : Path :=
  out.markupFile (stemOf site.project site.document site.method)

/-- The step of the plan for the method. -/
def task (source : GraphSource) (site : Site) : Task :=
  methodTask source site.project site.document site.method

variable {source : GraphSource} {site : Site}

theorem task_of_error {fault : Fault} (h : site.graph source = .error fault) :
    site.task source
      = .miss (unitOf site.project site.document site.method) fault := by
  rw [graph] at h
  rw [task, methodTask, h]

theorem task_of_ok {graph : ControlFlowGraph}
    (h : site.graph source = .ok graph) :
    site.task source = .draw (site.drawing graph) := by
  rw [Site.graph] at h
  rw [task, methodTask, h]
  rfl

end Site

/-- The methods of a project that have a body, in the order of the walk. -/
def sitesOf (p : Project) : List Site :=
  p.documents.flatMap fun d => d.drawableMethods.map (Site.mk p d)

/-- Whether a project can be used. -/
def usable (source : GraphSource)
    (p : Project) : Bool := (source.prepare p).isOk

/-- The methods that a run is about: those with a body, of the selected projects
that can be used. -/
def sites (source : GraphSource) (filter : Option String) : List Site :=
  ((source.solution.matching filter).filter (usable source)).flatMap sitesOf

theorem projectTasks_of_usable {source : GraphSource} {p : Project}
    (h : usable source p = true) :
    projectTasks source p = (sitesOf p).map (Site.task source) := by
  rw [projectTasks, sitesOf, List.map_flatMap]
  rw [usable] at h
  cases hprepare : source.prepare p with
  | error fault => rw [hprepare] at h; exact absurd h Bool.false_ne_true
  | ok a =>
      refine List.flatMap_congr fun d _ => ?_
      rw [List.map_map]
      rfl

theorem projectTasks_of_not_usable {source : GraphSource} {p : Project}
    (h : ¬ usable source p = true) :
    ∃ fault, projectTasks source p = [.skip p.name fault] := by
  rw [usable] at h
  rw [projectTasks]
  cases hprepare : source.prepare p with
  | error fault => exact ⟨fault, rfl⟩
  | ok a => rw [hprepare] at h; exact absurd rfl h

/-- What becomes of a method. -/
inductive Fate where
  /-- There is no graph. -/
  | missed
  /-- There is one, but the markup could not be written. -/
  | refused
  | drawn
  deriving DecidableEq, Repr

section

variable {σ : Type}

/-- What a run does about a method that it comes to in the state `s`. -/
inductive Fares (shop : Workshop (StateM σ)) (source : GraphSource)
    (site : Site) :
    σ → Fate → σ → Prop
  | missed {fault : Fault} {s : σ}
      (noGraph : site.graph source = .error fault) :
      Fares shop source site s .missed s
  | refused {graph : ControlFlowGraph} {stale : List Fault} {e : SystemError}
      {s t u : σ} (hasGraph : site.graph source = .ok graph)
      (clears : (clear shop.disk (site.path shop.output)).run s = (stale, t))
      (write :
        (shop.disk.writeText (site.path shop.output)
          (site.drawing graph).markup).run t
        = (.error e, u)) :
      Fares shop source site s .refused u
  | drawn {graph : ControlFlowGraph} {stale : List Fault}
      {before after : Report} {s t t' u : σ}
      (hasGraph : site.graph source = .ok graph)
      (clears : (clear shop.disk (site.path shop.output)).run s = (stale, t))
      (write :
        (shop.disk.writeText (site.path shop.output)
          (site.drawing graph).markup).run t
        = (.ok (), t'))
      (renders : (shop.renderFormats (site.path shop.output) before).run t'
        = (after, u)) :
      Fares shop source site s .drawn u

/-- A walk through some methods, with what becomes of each. -/
inductive Walks (shop : Workshop (StateM σ)) (source : GraphSource) :
    σ → List (Site × Fate) → σ → Prop
  | nil {s : σ} : Walks shop source s [] s
  | cons {site : Site} {fate : Fate} {log : List (Site × Fate)} {s t u : σ}
      (first : Fares shop source site s fate t)
      (rest : Walks shop source t log u) :
      Walks shop source s ((site, fate) :: log) u

variable {shop : Workshop (StateM σ)} {source : GraphSource}

theorem Walks.append {log log' : List (Site × Fate)} {s t u : σ}
    (h : Walks shop source s log t) (h' : Walks shop source t log' u) :
    Walks shop source s (log ++ log') u := by
  induction h with
  | nil => exact h'
  | cons first _ ih => exact .cons first (ih h')

end

/-- The markup files of the methods that were drawn. -/
def drawnPaths (out : OutputDirectory) (log : List (Site × Fate)) : List Path :=
  (log.filter fun entry => entry.2 = .drawn).map fun entry => entry.1.path out

/-! ## Tallies -/

/-- How many warnings of a category there are. -/
def Report.count (r : Report) (category : Category) : Nat :=
  (r.warningsOf category).length

/-- What a report comes to: the markup, how often rendering was tried, and the
warnings about projects, graphs, markup files and the architecture. -/
@[ext]
structure Tally where
  written : List Path := []
  tried : Nat := 0
  passedOver : Nat := 0
  missed : Nat := 0
  refused : Nat := 0
  undrawn : Nat := 0

namespace Tally

instance : Zero Tally := ⟨{}⟩

instance : Add Tally where
  add a b := {
    written := a.written ++ b.written
    tried := a.tried + b.tried
    passedOver := a.passedOver + b.passedOver
    missed := a.missed + b.missed
    refused := a.refused + b.refused
    undrawn := a.undrawn + b.undrawn }

section

variable (a b : Tally)

@[simp] theorem written_zero : (0 : Tally).written = [] := rfl
@[simp] theorem tried_zero : (0 : Tally).tried = 0 := rfl
@[simp] theorem passedOver_zero : (0 : Tally).passedOver = 0 := rfl
@[simp] theorem missed_zero : (0 : Tally).missed = 0 := rfl
@[simp] theorem refused_zero : (0 : Tally).refused = 0 := rfl
@[simp] theorem undrawn_zero : (0 : Tally).undrawn = 0 := rfl

@[simp] theorem written_add : (a + b).written = a.written ++ b.written := rfl
@[simp] theorem tried_add : (a + b).tried = a.tried + b.tried := rfl
@[simp] theorem passedOver_add :
    (a + b).passedOver = a.passedOver + b.passedOver := rfl
@[simp] theorem missed_add : (a + b).missed = a.missed + b.missed := rfl
@[simp] theorem refused_add : (a + b).refused = a.refused + b.refused := rfl
@[simp] theorem undrawn_add : (a + b).undrawn = a.undrawn + b.undrawn := rfl

end

instance : AddMonoid Tally where
  add_assoc a b c := by ext1 <;> simp [Nat.add_assoc]
  zero_add a := by ext1 <;> simp
  add_zero a := by ext1 <;> simp
  nsmul := nsmulRec

/-- A warning of a category. Those about deleting do not count. -/
def warning : Category → Tally
  | .projectCompile => { passedOver := 1 }
  | .graphBuild => { missed := 1 }
  | .write => { refused := 1 }
  | .render => { tried := 1 }
  | .cleanup => 0
  | .architecture => { undrawn := 1 }

/-- A project may be counted after the walk. It adds no markup, and nothing else
is in order. -/
theorem warning_add_passedOver (a : Tally) (n : Nat) :
    warning .projectCompile + (a + { passedOver := n })
      = a + { passedOver := n + 1 } := by
  ext1 <;> simp [warning]
  omega

/-- Markup that was written and that rendering was tried on in every format. -/
def markup (path : Path) : Tally := { written := [path], tried := 2 }

/-- How many diagrams are accounted for. -/
def diagrams (a : Tally) :
    Nat := a.written.length + a.missed + a.refused + a.undrawn

theorem diagrams_add
    (a b : Tally) : (a + b).diagrams = a.diagrams + b.diagrams := by
  simp only [diagrams, written_add, missed_add, refused_add, undrawn_add,
    List.length_append]
  omega

end Tally

/-- What a method adds to the report. -/
def Fate.tally (path : Path) : Fate → Tally
  | .missed => .warning .graphBuild
  | .refused => .warning .write
  | .drawn => .markup path

/-- What a walk adds to the report. -/
def tallyOf (out : OutputDirectory) (log : List (Site × Fate)) : Tally :=
  (log.map fun entry => entry.2.tally (entry.1.path out)).sum

section

variable {out : OutputDirectory}

theorem tallyOf_cons (site : Site) (fate : Fate) (log : List (Site × Fate)) :
    tallyOf out ((site, fate) :: log)
      = fate.tally (site.path out) + tallyOf out log := rfl

theorem tallyOf_append (log log' : List (Site × Fate)) :
    tallyOf out (log ++ log') = tallyOf out log + tallyOf out log' := by
  rw [tallyOf, List.map_append, List.sum_append]
  rfl

theorem written_tallyOf (log : List (Site × Fate)) :
    (tallyOf out log).written = drawnPaths out log := by
  induction log with
  | nil => rfl
  | cons entry log ih =>
      obtain ⟨site, fate⟩ := entry
      rw [tallyOf_cons, Tally.written_add, ih]
      cases fate <;> rfl

theorem diagrams_tallyOf (log : List (Site × Fate)) :
    (tallyOf out log).diagrams = log.length := by
  induction log with
  | nil => rfl
  | cons entry log ih =>
      obtain ⟨site, fate⟩ := entry
      have hone : (fate.tally (site.path out)).diagrams = 1 := by
        cases fate <;> rfl
      rw [tallyOf_cons, Tally.diagrams_add, ih, hone,
        List.length_cons, Nat.add_comm]

theorem passedOver_tallyOf (log : List (Site × Fate)) :
    (tallyOf out log).passedOver = 0 := by
  induction log with
  | nil => rfl
  | cons entry log ih =>
      obtain ⟨site, fate⟩ := entry
      rw [tallyOf_cons, Tally.passedOver_add, ih]
      cases fate <;> rfl

/-- Rendering is tried twice on all markup, and only on markup. -/
theorem tried_tallyOf (log : List (Site × Fate)) :
    (tallyOf out log).tried = 2 * (tallyOf out log).written.length := by
  induction log with
  | nil => rfl
  | cons entry log ih =>
      obtain ⟨site, fate⟩ := entry
      have htwo : (fate.tally (site.path out)).tried
          = 2 * (fate.tally (site.path out)).written.length := by
        cases fate <;> rfl
      rw [tallyOf_cons, Tally.tried_add, Tally.written_add, List.length_append,
        ih, htwo, Nat.mul_add]

end

namespace Report

/-- The tally of a report. -/
def tally (r : Report) : Tally where
  written := r.written
  tried := r.rendered.length + r.count .render
  passedOver := r.count .projectCompile
  missed := r.count .graphBuild
  refused := r.count .write
  undrawn := r.count .architecture

theorem count_note (r : Report) (category other : Category) (unit : String)
    (fault : Fault) :
    (r.note category unit fault).count other
      = r.count other + if category = other then 1 else 0 := by
  rw [count, warningsOf, note, List.filter_append, List.length_append]
  congr 1
  by_cases h : category = other
  · rw [if_pos h, List.filter_cons_of_pos (by simpa using h)]
    rfl
  · rw [if_neg h, List.filter_cons_of_neg (by simpa using h)]
    rfl

theorem tally_note (r : Report) (category : Category) (unit : String)
    (fault : Fault) :
    (r.note category unit fault).tally = r.tally + .warning category := by
  ext1 <;> simp only [tally, count_note, Tally.written_add, Tally.tried_add,
    Tally.passedOver_add, Tally.missed_add, Tally.refused_add,
    Tally.undrawn_add]
  · cases category <;> simp [note, Tally.warning]
  all_goals cases category <;> rfl

/-- Cleaning up adds nothing. -/
theorem Sweeps.tally {r r' : Report} (h : r.Sweeps r') :
    r'.tally = r.tally := by
  induction h with
  | refl => rfl
  | note _ _ ih =>
      rw [tally_note, ih]
      exact add_zero _
  | addPruned _ ih => exact ih

theorem tally_addMarkup (r : Report) (path : Path) :
    (r.addMarkup path).tally = r.tally + { written := [path] } := rfl

theorem tally_addRaster (r : Report) (path : Path) :
    (r.addRaster path).tally = r.tally + { tried := 1 } := by
  ext1
  case tried =>
    show (r.rendered ++ [path]).length + r.count .render
      = r.rendered.length + r.count .render + 1
    rw [List.length_append, List.length_singleton]
    omega
  case written => exact (List.append_nil _).symm
  all_goals rfl

end Report

namespace Workshop

variable {σ : Type} {shop : Workshop (StateM σ)} {source : GraphSource}

/-! ## What the parts of a run add -/

theorem tally_renderEach {markup : Path} {formats : List Raster}
    {report report' : Report} {s t : σ}
    (h : (shop.renderEach markup formats report).run s = (report', t)) :
    report'.tally = report.tally + { tried := formats.length } := by
  induction formats generalizing s report with
  | nil =>
      obtain ⟨rfl, rfl⟩ := run_pure.1 h
      exact (add_zero _).symm
  | cons format formats ih =>
      obtain ⟨r, a, -, hrest⟩ := renderEach_turn h
      have hturn : (report.afterRender markup format r).tally
          = report.tally + { tried := 1 } := by
        cases r with
        | ok u => exact Report.tally_addRaster _ _
        | error fault => exact Report.tally_note _ _ _ _
      have hboth : ({ tried := 1 } : Tally) + { tried := formats.length }
          = { tried := (format :: formats).length } := by
        ext1
        case tried => exact Nat.add_comm _ _
        all_goals rfl
      rw [ih hrest, hturn, add_assoc, hboth]

/-- Markup is written and then rendered. -/
theorem tally_renderFormats {markup : Path} {report report' : Report} {s t : σ}
    (h : (shop.renderFormats markup (report.addMarkup markup)).run s
      = (report', t)) :
    report'.tally = report.tally + .markup markup := by
  rw [tally_renderEach h, Report.tally_addMarkup, add_assoc]
  rfl

theorem perform_fares {site : Site} {p p' : Progress} {s u : σ}
    (h : (shop.perform p (site.task source)).run s = (p', u)) :
    ∃ fate, Fares shop source site s fate u
      ∧ p'.report.tally
        = p.report.tally + fate.tally (site.path shop.output) := by
  cases hgraph : site.graph source with
  | error fault =>
      rw [Site.task_of_error hgraph] at h
      obtain ⟨rfl, rfl⟩ := run_pure.1 h
      exact ⟨.missed, .missed hgraph, Report.tally_note _ _ _ _⟩
  | ok graph =>
      rw [Site.task_of_ok hgraph, perform] at h
      obtain ⟨stale, t, r, t', hclear, hput, hout⟩ := draw_run h
      obtain ⟨w, hwrite, hr⟩ := putMarkup_turn hput
      rcases hout with ⟨fault, rfl, rfl, rfl⟩ | ⟨rfl, report, hrender, rfl⟩
      · cases w with
        | ok a => exact nomatch hr
        | error e =>
            refine ⟨.refused, .refused hgraph hclear hwrite, ?_⟩
            rw [Report.tally_note, (clear_sweeps hclear _ _).tally]
            rfl
      · obtain rfl := mapError_eq_ok.1 hr.symm
        refine ⟨.drawn, .drawn hgraph hclear hwrite hrender, ?_⟩
        rw [tally_renderFormats hrender, (clear_sweeps hclear _ _).tally]
        rfl

theorem performAll_sites {sites : List Site} {p p' : Progress} {s u : σ}
    (h : (shop.performAll (sites.map (Site.task source)) p).run s = (p', u)) :
    ∃ log, log.map Prod.fst = sites ∧ Walks shop source s log u
      ∧ p'.report.tally = p.report.tally + tallyOf shop.output log := by
  induction sites generalizing p s with
  | nil =>
      obtain ⟨rfl, rfl⟩ := run_pure.1 h
      exact ⟨[], rfl, .nil, (add_zero _).symm⟩
  | cons site sites ih =>
      obtain ⟨q, t, hperform, hrest⟩ := performAll_cons h
      obtain ⟨fate, hfares, htally⟩ := perform_fares hperform
      obtain ⟨log, hsites, hwalks, htallies⟩ := ih hrest
      refine ⟨(site, fate) :: log, congrArg _ hsites, .cons hfares hwalks, ?_⟩
      rw [htallies, htally, add_assoc, tallyOf_cons]

theorem performAll_append {tasks tasks' : List Task} {p p' : Progress} {s u : σ}
    (h : (shop.performAll (tasks ++ tasks') p).run s = (p', u)) :
    ∃ q t, (shop.performAll tasks p).run s = (q, t)
      ∧ (shop.performAll tasks' q).run t = (p', u) := by
  induction tasks generalizing p s with
  | nil => exact ⟨p, s, rfl, h⟩
  | cons task tasks ih =>
      obtain ⟨q, t, hperform, hrest⟩ := performAll_cons h
      obtain ⟨q', t', htasks, htasks'⟩ := ih hrest
      refine ⟨q', t', ?_, htasks'⟩
      rw [performAll, run_bind]
      exact ⟨q, t, hperform, htasks⟩

/-- The walk through the projects: those that can be used add what becomes of
their methods, each of the others a warning. -/
theorem performAll_projects {projects : List Project} {p p' : Progress}
    {s u : σ}
    (h : (shop.performAll (projects.flatMap (projectTasks source)) p).run s
      = (p', u)) :
    ∃ log, log.map Prod.fst = (projects.filter (usable source)).flatMap sitesOf
      ∧ Walks shop source s log u
      ∧ p'.report.tally = p.report.tally + (tallyOf shop.output log
        + { passedOver :=
          (projects.filter fun p => !usable source p).length }) := by
  induction projects generalizing p s with
  | nil =>
      obtain ⟨rfl, rfl⟩ := run_pure.1 h
      exact ⟨[], rfl, .nil, (add_zero _).symm⟩
  | cons project projects ih =>
      rw [List.flatMap_cons] at h
      obtain ⟨q, t, hfirst, hrest⟩ := performAll_append h
      obtain ⟨log, hsites, hwalks, htally⟩ := ih hrest
      by_cases husable : usable source project = true
      · rw [projectTasks_of_usable husable] at hfirst
        obtain ⟨log', hsites', hwalks', htally'⟩ := performAll_sites hfirst
        refine ⟨log' ++ log, ?_, hwalks'.append hwalks, ?_⟩
        · rw [List.map_append, hsites', hsites, List.filter_cons_of_pos husable,
            List.flatMap_cons]
        · rw [htally, htally', tallyOf_append,
            List.filter_cons_of_neg (by simpa using husable)]
          simp only [add_assoc]
      · -- The warning comes before the rest of the walk, but is counted after.
        obtain ⟨fault, htasks⟩ := projectTasks_of_not_usable husable
        rw [htasks] at hfirst
        obtain ⟨rfl, rfl⟩ := run_pure.1 hfirst
        refine ⟨log, ?_, hwalks, ?_⟩
        · rw [hsites, List.filter_cons_of_neg husable]
        · rw [htally, Report.tally_note,
            List.filter_cons_of_pos (by simpa using husable), List.length_cons,
            add_assoc, Tally.warning_add_passedOver]

/-- What making the files of the architecture adds, given what came of writing
them. -/
def closingTally (out : OutputDirectory) : Except Fault Unit → Tally
  | .ok _ => .markup out.architectureFile
  | .error _ => .warning .architecture

section

variable (out : OutputDirectory) (r : Except Fault Unit)

theorem diagrams_closingTally : (closingTally out r).diagrams = 1 := by
  cases r <;> rfl

theorem passedOver_closingTally : (closingTally out r).passedOver = 0 := by
  cases r <;> rfl

theorem tried_closingTally :
    (closingTally out r).tried = 2 * (closingTally out r).written.length := by
  cases r <;> rfl

end

theorem tally_drawArchitecture {texts : Architecture.Texts}
    {report report' : Report} {s u : σ}
    (h : (shop.drawArchitecture texts report).run s = (report', u)) :
    report'.tally = report.tally + closingTally shop.output
      ((shop.output.putArchitecture shop.disk texts).run
        ((clear shop.disk shop.output.architectureFile).run s).2).1 := by
  obtain ⟨stale, t, r, t', hclear, hput, hout⟩ := drawArchitecture_run h
  rw [hclear, hput]
  rcases hout with ⟨fault, rfl, -, rfl⟩ | ⟨rfl, hrender⟩
  · rw [Report.tally_note, (clear_sweeps hclear _ _).tally]
    rfl
  · rw [tally_renderFormats hrender, (clear_sweeps hclear _ _).tally]
    rfl

/-! ## The whole run -/

theorem tally_settle {filter : Option String} {report : Report} {s u : σ}
    (h : (shop.settle source filter).run s = (report, u)) :
    ∃ log t, log.map Prod.fst = sites source filter
      ∧ Walks shop source (shop.loadPrevious.run s).2 log t
      ∧ report.tally = tallyOf shop.output log + { passedOver :=
          ((source.solution.matching filter).filter fun p =>
            !usable source p).length } := by
  obtain ⟨q, t₃, hprepare, hstore⟩ := run_bind.1 h
  obtain ⟨previous, loaded, t₁, p, t₂, hload, hperform, hprune⟩ :=
    prepare_run hprepare
  obtain ⟨log, hsites, hwalks, htally⟩ := performAll_projects hperform
  refine ⟨log, t₂, hsites, by rwa [hload], ?_⟩
  rw [(storeManifest_sweeps hstore).tally, (pruneProjects_sweeps hprune).tally,
    htally, (loadPrevious_sweeps hload).tally]
  exact zero_add _

/-- What came of writing the files of the architecture, in the state that the
rest of the run has left. -/
def architectureOutcome (shop : Workshop (StateM σ)) (source : GraphSource)
    (filter : Option String) (bounds : Architecture.Bounds) (s : σ) :
    Except Fault Unit :=
  let settled := ((shop.settle source filter).run s).2
  let cleared := ((clear shop.disk shop.output.architectureFile).run settled).2
  ((shop.output.putArchitecture shop.disk
    (Architecture.texts source.solution bounds filter)).run cleared).1

/-- The markup file of the architecture, if it was written. -/
def architectureMarkup (out : OutputDirectory) : Except Fault Unit → List Path
  | .ok _ => [out.architectureFile]
  | .error _ => []

theorem written_closingTally (out : OutputDirectory) (r : Except Fault Unit) :
    (closingTally out r).written = architectureMarkup out r := by
  cases r <;> rfl

/-- The report of a run is the sum of its parts. -/
theorem tally_run (shop : Workshop (StateM σ)) (source : GraphSource)
    (filter : Option String) (bounds : Architecture.Bounds) (s : σ) :
    ∃ log t, log.map Prod.fst = sites source filter
      ∧ Walks shop source (shop.loadPrevious.run s).2 log t
      ∧ ((run shop source filter bounds).run s).1.tally
        = tallyOf shop.output log
        + { passedOver :=
            ((source.solution.matching filter).filter fun p =>
              !usable source p).length }
        + closingTally shop.output
          (architectureOutcome shop source filter bounds s) := by
  obtain ⟨settled, t₄, hsettle, hdraw⟩ :=
    run_bind.1 (Prod.eta ((shop.settle source filter
      >>= shop.drawArchitecture
        (Architecture.texts source.solution bounds filter)).run s)).symm
  obtain ⟨log, t, hsites, hwalks, htally⟩ := tally_settle hsettle
  refine ⟨log, t, hsites, hwalks, ?_⟩
  rw [run, tally_drawArchitecture hdraw, htally, architectureOutcome, hsettle]

end Workshop

open Workshop in
/-- The methods of a run are walked through once, in order. Each is drawn or
missed or refused, every markup file is rendered or not in each format, and
every project that cannot be used is passed over: the report counts all of this,
and nothing twice. -/
theorem run_accounts_for_every_unit {σ : Type} (shop : Workshop (StateM σ))
    (source : GraphSource) (filter : Option String)
    (bounds : Architecture.Bounds) (s : σ) :
    let report := ((run shop source filter bounds).run s).1
    report.written.length + report.count .graphBuild + report.count .write
        + report.count .architecture = (sites source filter).length + 1
      ∧ report.rendered.length + report.count .render
        = 2 * report.written.length
      ∧ report.count .projectCompile
        = ((source.solution.matching filter).filter fun p =>
          !usable source p).length
      ∧ ∃ log t, log.map Prod.fst = sites source filter
        ∧ Walks shop source (shop.loadPrevious.run s).2 log t
        ∧ report.written = drawnPaths shop.output log
          ++ architectureMarkup shop.output
            (architectureOutcome shop source filter bounds s) := by
  intro report
  obtain ⟨log, t, hsites, hwalks, htally⟩ :=
    tally_run shop source filter bounds s
  have hlength : log.length = (sites source filter).length := by
    rw [← hsites, List.length_map]
  have hdiagrams : report.tally.diagrams = log.length + 1 := by
    rw [htally, Tally.diagrams_add, Tally.diagrams_add, diagrams_tallyOf,
      diagrams_closingTally]
    rfl
  have hwritten : report.written = drawnPaths shop.output log
      ++ architectureMarkup shop.output
        (architectureOutcome shop source filter bounds s) := by
    rw [show report.written
      = report.tally.written from rfl, htally, Tally.written_add,
      Tally.written_add, written_tallyOf, written_closingTally]
    exact congrArg (· ++ _) (List.append_nil _)
  have htried : report.tally.tried = 2 * report.written.length := by
    rw [show report.written
      = report.tally.written from rfl, htally, Tally.tried_add,
      Tally.tried_add, tried_tallyOf, tried_closingTally]
    simp [Nat.mul_add]
  have hpassed : report.tally.passedOver
      = ((source.solution.matching filter).filter fun p =>
        !usable source p).length := by
    rw [htally, Tally.passedOver_add, Tally.passedOver_add, passedOver_tallyOf,
      passedOver_closingTally]
    exact Nat.zero_add _
  exact ⟨hlength ▸ hdiagrams, htried, hpassed, log, t, hsites, hwalks, hwritten⟩

end FlowAtlas.Run
