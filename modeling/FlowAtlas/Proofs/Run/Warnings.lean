import FlowAtlas.Proofs.Fault
import FlowAtlas.Proofs.Run.Stages

/-!
# Warnings are about recoverable faults

A run goes on after every fault that it meets, so none of them may be one that
ends a run. The status of a fault is fixed where the fault is made: by its kind,
unless it is raised (`Fault.asFatal`), and what is told about the fault later
never changes it. Two kinds are fatal, and no part of a run makes a fault of
theirs: refused files, graphs that are missing or malformed, projects with
diagnostics and renderers that fail are all of other kinds.

A warning keeps the text of its fault and nothing else. The text names the
status, in a place where it can be found again (`Fault.status_eq_of_render_eq`),
so the text of a recoverable fault is the text of no fatal one.

Half of the stages of a run only clean up: they delete files, and they read and
save the manifest. What they may do to a report is said once (`Report.Sweeps`).
-/

namespace FlowAtlas

open OutputDirectory

namespace Fault

/-! ## The status of a fault -/

theorem status_of_not_isFatal {kind : Kind} (h : kind.isFatal = false)
    (message : String) :
    (of kind message).status = .recoverable := by
  show (if kind.isFatal = true then Status.fatal else Status.recoverable)
    = .recoverable
  rw [h, if_neg Bool.false_ne_true]

theorem status_ofSystem (e : SystemError) :
    (ofSystem e).status = .recoverable := by
  rw [ofSystem, status_withSource, status_addOperation]
  exact status_of_not_isFatal (by cases e.kindOf <;> rfl) _

/-! ## The status in the text of a fault -/

theorem not_mem_name (kind : Kind) : ' ' ∉ kind.name.toList := by
  cases kind <;> decide

/-- The first letter of the status: it stands behind the first blank and a
bracket. -/
def statusLetter (text : String) : Option Char :=
  ((text.toList.dropWhile (· ≠ ' ')).drop 2).head?

theorem statusLetter_render
    (f : Fault) : statusLetter f.render = f.status.name.toList.head? := by
  obtain ⟨rest, hrender⟩ : ∃ rest,
      f.render = f.kind.name ++ (" (" ++ (f.status.name ++ rest)) := by
    simp only [render, String.append_assoc]
    exact ⟨_, rfl⟩
  have hname : ∀ c ∈ f.kind.name.toList, decide (c ≠ ' ') = true :=
    fun c hc => by
      simpa using fun h : c = ' ' => not_mem_name f.kind (h ▸ hc)
  rw [statusLetter, hrender, String.toList_append,
    List.dropWhile_append_of_pos hname, String.toList_append,
    String.toList_append]
  cases f.status <;> rfl

theorem status_eq_of_render_eq {f g : Fault} (h : f.render = g.render) :
    f.status = g.status := by
  have hletter : f.status.name.toList.head? = g.status.name.toList.head? := by
    rw [← statusLetter_render, ← statusLetter_render, h]
  cases hf : f.status <;> cases hg : g.status <;> rw [hf, hg] at hletter <;>
    first | rfl | exact absurd hletter (by decide)

end Fault

/-! ## Where the faults of a run come from -/

theorem status_faultAt (operation : String) (path : Path) (e : SystemError) :
    (faultAt operation path e).status = .recoverable := by
  rw [faultAt, Fault.status_addContext, Fault.status_addOperation,
    Fault.status_ofSystem]

/-- A source of graphs all of whose faults are recoverable. -/
structure GraphSource.Mild (source : GraphSource) : Prop where
  prepare :
    ∀ {p fault}, source.prepare p = .error fault → fault.status = .recoverable
  graphOf : ∀ {p d method fault}, source.graphOf p d method = .error fault →
    fault.status = .recoverable

/-- A renderer all of whose faults are recoverable. -/
def Renderer.Mild {σ : Type} (renderer : Renderer (StateM σ)) : Prop :=
  ∀ {input output s fault t},
    (renderer input output).run s = (.error fault, t) →
      fault.status = .recoverable

theorem mapError_eq_error {α ε ε' : Type} {x : Except ε α} {f : ε → ε'}
    {b : ε'} :
    x.mapError f = .error b ↔ ∃ a, x = .error a ∧ f a = b := by
  cases x with
  | ok a => exact iff_of_false (fun h => nomatch h) fun ⟨a, h, _⟩ => nomatch h
  | error a =>
      constructor
      · intro h
        exact ⟨a, rfl, Except.error.inj h⟩
      · rintro ⟨a, h, rfl⟩
        obtain rfl := Except.error.inj h
        rfl

theorem RecordedGraph.status_read {r : RecordedGraph} {method : String}
    {fault : Fault} (h : r.read method = .error fault) :
    fault.status = .recoverable := by
  cases r with
  | parsed g => exact nomatch h
  | raw value =>
      rw [read] at h
      split at h
      · exact nomatch h
      · obtain rfl := Except.error.inj h
        rw [Fault.status_addOperation]
        rfl

theorem ControlFlowGraph.status_check {g : ControlFlowGraph} {fault : Fault}
    (h : g.check = .error fault) : fault.status = .recoverable := by
  rw [check] at h
  split_ifs at h
  · obtain rfl := Except.error.inj h
    rfl
  · split at h
    · exact nomatch h
    · obtain rfl := Except.error.inj h
      rw [Fault.status_addContext, Fault.status_addOperation]
      rfl

theorem Snapshot.source_mild (solution : Solution) :
    (Snapshot.source solution).Mild where
  prepare {p fault} h := by
    change Snapshot.prepare p = .error fault at h
    rw [Snapshot.prepare] at h
    split_ifs at h
    obtain rfl := Except.error.inj h
    rw [Fault.status_addOperation]
    rfl
  graphOf {p d method fault} h := by
    change Snapshot.graphOf p d method = .error fault at h
    rw [Snapshot.graphOf] at h
    split at h
    · next recorded _ _ =>
        cases hread : recorded.read method.name with
        | error f =>
            rw [hread] at h
            obtain rfl := Except.error.inj h
            rw [Fault.status_addContext, Fault.status_addOperation]
            exact RecordedGraph.status_read hread
        | ok g =>
            rw [hread] at h
            cases hcheck : g.check with
            | ok a =>
                change (do g.check.mapError _; pure g) = _ at h
                rw [hcheck] at h
                exact nomatch h
            | error f =>
                change (do g.check.mapError _; pure g) = _ at h
                rw [hcheck] at h
                obtain rfl := Except.error.inj h
                rw [Fault.status_addContext, Fault.status_addContext,
                  Fault.status_addOperation]
                exact ControlFlowGraph.status_check hcheck
    · obtain rfl := Except.error.inj h
      rw [Fault.status_addOperation]
      rfl

theorem Renderer.ofProgram_mild {σ : Type} (launch : Launcher (StateM σ))
    (program : String) :
    (Renderer.ofProgram launch program).Mild := by
  intro input output s fault t h
  obtain ⟨outcome, t', -, h⟩ := run_bind.1 h
  obtain ⟨hverdict, -⟩ := run_pure.1 h
  cases outcome with
  | error e =>
      obtain rfl := Except.error.inj hverdict
      rw [Fault.status_withSource, Fault.status_addOperation]
      rfl
  | ok ended =>
      rw [verdict] at hverdict
      split_ifs at hverdict
      obtain rfl := Except.error.inj hverdict
      rw [Fault.status_addOperation]
      rfl

namespace Run

/-! ## Reports -/

/-- Every warning has the text of a recoverable fault. -/
def Report.Mild (r : Report) : Prop :=
  ∀ w ∈ r.warnings, ∃ fault : Fault, fault.status = .recoverable
    ∧ w.message = fault.render

namespace Report.Mild

variable {r : Report}

theorem note (h : r.Mild) (category : Category) (unit : String) {fault : Fault}
    (hfault : fault.status = .recoverable) :
    (r.note category unit fault).Mild := by
  intro w hw
  rcases List.mem_append.1 hw with hw | hw
  · exact h w hw
  · obtain rfl := List.mem_singleton.1 hw
    exact ⟨fault, hfault, rfl⟩

theorem addMarkup (h : r.Mild) (path : Path) : (r.addMarkup path).Mild := h

theorem addRaster (h : r.Mild) (path : Path) : (r.addRaster path).Mild := h

/-- The text of a warning is that of recoverable faults only. -/
theorem status_eq (h : r.Mild) {w : Warning} (hw : w ∈ r.warnings)
    {fault : Fault} (hfault : w.message = fault.render) :
    fault.status = .recoverable := by
  obtain ⟨noted, hnoted, hmessage⟩ := h w hw
  rw [← hnoted]
  exact Fault.status_eq_of_render_eq (hfault.symm.trans hmessage)

end Report.Mild

/-- A later report of a run that has done nothing but clean up: it has noted
recoverable faults in deleting, or about the manifest, and the stems whose files
are gone. -/
inductive Report.Sweeps (r : Report) : Report → Prop
  | refl : Sweeps r r
  | note {r' : Report} {unit : String} {fault : Fault} (h : Sweeps r r')
      (hfault : fault.status = .recoverable) :
      Sweeps r (r'.note .cleanup unit fault)
  | addPruned {r' : Report} {stem : String} (h : Sweeps r r') :
      Sweeps r (r'.addPruned stem)

namespace Report.Sweeps

variable {r r' r'' : Report}

theorem trans (h : r.Sweeps r') (h' : r'.Sweeps r'') : r.Sweeps r'' := by
  induction h' with
  | refl => exact h
  | note _ hfault ih => exact .note ih hfault
  | addPruned _ ih => exact .addPruned ih

theorem noteAll (unit : String) {faults : List Fault}
    (hfaults : ∀ fault ∈ faults, fault.status = .recoverable) :
    r.Sweeps (r.noteAll .cleanup unit faults) := by
  induction faults generalizing r with
  | nil => exact .refl
  | cons fault faults ih =>
      obtain ⟨hfault, hfaults⟩ := List.forall_mem_cons.1 hfaults
      exact (Sweeps.note .refl hfault).trans (ih hfaults)

theorem mild (h : r.Sweeps r') (hr : r.Mild) : r'.Mild := by
  induction h with
  | refl => exact hr
  | note _ hfault ih => exact ih.note _ _ hfault
  | addPruned _ ih => exact ih

end Report.Sweeps

/-- A step of a plan whose fault, if it has one, is recoverable. -/
def Task.Mild : Task → Prop
  | .skip _ fault | .miss _ fault => fault.status = .recoverable
  | .draw _ => True

theorem Task.mild_of_mem_plan {source : GraphSource} (hsource : source.Mild)
    {filter : Option String} {task : Task} (h : task ∈ plan source filter) :
    task.Mild := by
  obtain ⟨p, -, hp⟩ := List.mem_flatMap.1 h
  rw [projectTasks] at hp
  split at hp
  · next fault hprepare =>
      obtain rfl := List.mem_singleton.1 hp
      exact hsource.prepare hprepare
  · obtain ⟨d, -, hd⟩ := List.mem_flatMap.1 hp
    obtain ⟨method, -, rfl⟩ := List.mem_map.1 hd
    rw [methodTask]
    split
    · next fault hgraph => exact hsource.graphOf hgraph
    · exact trivial

variable {σ : Type}

theorem status_markupFault (path : Path) (e : SystemError) :
    (markupFault path e).status = .recoverable := by
  rw [markupFault, Fault.status_addOperation, status_faultAt]

theorem clear_sweeps {disk : Disk (StateM σ)} {path : Path}
    {faults : List Fault} {s t : σ} (h : (clear disk path).run s = (faults, t))
    (r : Report) (unit : String) :
    r.Sweeps (r.noteAll .cleanup unit faults) := by
  refine .noteAll unit fun fault hfault => ?_
  obtain ⟨p, -, e, rfl⟩ := exists_of_mem_faults h hfault
  exact status_faultAt _ _ _

namespace Workshop

variable {shop : Workshop (StateM σ)}

/-! ## Cleaning up -/

theorem pruneStems_sweeps {project : String} {stems : List String}
    {p p' : Progress} {s t : σ}
    (h : (shop.pruneStems project stems p).run s = (p', t)) :
    p.report.Sweeps p'.report := by
  induction stems generalizing p s with
  | nil =>
      obtain ⟨rfl, -⟩ := run_pure.1 h
      exact .refl
  | cons stem stems ih =>
      rcases pruneStems_cons h with
        ⟨-, hrest⟩ | ⟨-, faults, a, q, hclear, hrest, hq⟩
      · exact ih hrest
      · refine Report.Sweeps.trans ?_ (ih hrest)
        rcases hq with ⟨-, rfl⟩ | ⟨-, rfl⟩
        · exact .addPruned .refl
        · exact clear_sweeps hclear _ _

theorem pruneProjects_sweeps {previous : Manifest} {retained : String → Bool}
    {projects : List String} {p p' : Progress} {s t : σ}
    (h : (shop.pruneProjects previous retained projects p).run s = (p', t)) :
    p.report.Sweeps p'.report := by
  induction projects generalizing p s with
  | nil =>
      obtain ⟨rfl, -⟩ := run_pure.1 h
      exact .refl
  | cons project projects ih =>
      rcases pruneProjects_cons h with ⟨-, hrest⟩ | ⟨-, q, a, hstems, hrest⟩
      · -- A retained project changes the manifest only, and leaves the report.
        have hswept := ih hrest
        exact hswept
      · exact (pruneStems_sweeps hstems).trans (ih hrest)

theorem loadPrevious_sweeps {previous : Manifest} {report : Report} {s t : σ}
    (h : shop.loadPrevious.run s = ((previous, report), t)) :
    Report.Sweeps {} report := by
  obtain ⟨r, hread, ⟨-, rfl⟩ | ⟨fault, rfl, -, rfl⟩⟩ := loadPrevious_run h
  · exact .refl
  · refine .note .refl ?_
    obtain ⟨read, -, hfault⟩ := readManifest_turn hread
    cases read with
    | ok text =>
        obtain ⟨e, -, rfl⟩ := mapError_eq_error.1 hfault.symm
        rw [Fault.status_addContext, Fault.status_addOperation]
        rfl
    | error e =>
        rw [manifestFrom] at hfault
        split_ifs at hfault
        obtain rfl := Except.error.inj hfault
        exact status_faultAt _ _ _

theorem storeManifest_sweeps {p : Progress} {report : Report} {s t : σ}
    (h : (shop.storeManifest p).run s = (report, t)) :
    p.report.Sweeps report := by
  rw [storeManifest, run_bind] at h
  obtain ⟨r, a, hput, h⟩ := h
  obtain ⟨w, -, hr⟩ := putManifest_turn hput
  cases r with
  | ok u =>
      obtain ⟨rfl, -⟩ := run_pure.1 h
      exact .refl
  | error fault =>
      obtain ⟨rfl, -⟩ := run_pure.1 h
      obtain ⟨e, -, rfl⟩ := mapError_eq_error.1 hr.symm
      refine .note .refl ?_
      rw [Fault.status_addOperation, status_faultAt]

/-! ## The plan -/

theorem renderEach_mild (hrenderer : shop.renderer.Mild) {markup : Path}
    {formats : List Raster} {report report' : Report} {s t : σ}
    (hreport : report.Mild)
    (h : (shop.renderEach markup formats report).run s = (report', t)) :
    report'.Mild := by
  induction formats generalizing s report with
  | nil =>
      obtain ⟨rfl, -⟩ := run_pure.1 h
      exact hreport
  | cons format formats ih =>
      obtain ⟨r, a, hrender, hrest⟩ := renderEach_turn h
      cases r with
      | ok u => exact ih (hreport.addRaster _) hrest
      | error fault => exact ih (hreport.note _ _ (hrenderer hrender)) hrest

theorem perform_mild (hrenderer : shop.renderer.Mild) {task : Task}
    (htask : task.Mild) {p p' : Progress} {s t : σ} (hp : p.report.Mild)
    (h : (shop.perform p task).run s = (p', t)) : p'.report.Mild := by
  cases task with
  | skip project fault =>
      obtain ⟨rfl, -⟩ := run_pure.1 h
      exact hp.note _ _ htask
  | miss unit fault =>
      obtain ⟨rfl, -⟩ := run_pure.1 h
      exact hp.note _ _ htask
  | draw d =>
      obtain ⟨stale, a, r, b, hclear, hput, hout⟩ := draw_run h
      obtain ⟨w, -, hr⟩ := putMarkup_turn hput
      have hstale :=
        (clear_sweeps hclear p.report (shop.output.markupFile d.stem)).mild hp
      rcases hout with ⟨fault, rfl, -, rfl⟩ | ⟨-, report, hrender, rfl⟩
      · obtain ⟨e, -, rfl⟩ := mapError_eq_error.1 hr.symm
        exact hstale.note _ _ (status_markupFault _ _)
      · exact renderEach_mild hrenderer (hstale.addMarkup _) hrender

theorem performAll_mild (hrenderer : shop.renderer.Mild) {tasks : List Task}
    (htasks : ∀ task ∈ tasks, task.Mild) {p p' : Progress} {s t : σ}
    (hp : p.report.Mild) (h : (shop.performAll tasks p).run s = (p', t)) :
    p'.report.Mild := by
  induction tasks generalizing p s with
  | nil =>
      obtain ⟨rfl, -⟩ := run_pure.1 h
      exact hp
  | cons task tasks ih =>
      obtain ⟨htask, htasks⟩ := List.forall_mem_cons.1 htasks
      obtain ⟨q, a, hperform, hrest⟩ := performAll_cons h
      exact ih htasks (perform_mild hrenderer htask hp hperform) hrest

/-! ## The architecture -/

theorem status_of_putArchitecture {texts : Architecture.Texts} {fault : Fault}
    {s t : σ}
    (h : (shop.output.putArchitecture shop.disk texts).run s
      = (.error fault, t)) :
    fault.status = .recoverable := by
  obtain ⟨c, a, -, hputs⟩ := putArchitecture_turn h
  rcases hputs with ⟨e, -, -, hfault⟩ | ⟨-, first, b, -, hputs⟩
  · obtain rfl := Except.error.inj hfault
    exact status_faultAt _ _ _
  · rcases hputs with ⟨e, -, -, hfault⟩ | ⟨-, second, -, hfault⟩
    · obtain rfl := Except.error.inj hfault
      exact status_faultAt _ _ _
    · obtain ⟨e, -, rfl⟩ := mapError_eq_error.1 hfault.symm
      exact status_faultAt _ _ _

theorem drawArchitecture_mild (hrenderer : shop.renderer.Mild)
    {texts : Architecture.Texts} {report report' : Report} {s t : σ}
    (hreport : report.Mild)
    (h : (shop.drawArchitecture texts report).run s = (report', t)) :
    report'.Mild := by
  obtain ⟨stale, a, r, b, hclear, hput, hout⟩ := drawArchitecture_run h
  have hstale :=
    (clear_sweeps hclear report shop.output.architectureFile).mild hreport
  rcases hout with ⟨fault, rfl, -, rfl⟩ | ⟨-, hrender⟩
  · exact hstale.note _ _ (status_of_putArchitecture hput)
  · exact renderEach_mild hrenderer (hstale.addMarkup _) hrender

end Workshop

/-- If the source and the renderer have recoverable faults only, so has the
run. -/
theorem run_mild {shop : Workshop (StateM σ)} {source : GraphSource}
    (hsource : source.Mild) (hrenderer : shop.renderer.Mild)
    {filter : Option String} {bounds : Architecture.Bounds} {report : Report}
    {s u : σ} (h : (run shop source filter bounds).run s = (report, u)) :
    report.Mild := by
  obtain ⟨previous, loaded, t₁, p, t₂, q, t₃, saved, t₄, hload, hperform,
    hprune, hstore, hdraw⟩ := run_run h
  have hloaded : loaded.Mild :=
    (Workshop.loadPrevious_sweeps hload).mild fun w hw =>
      absurd hw List.not_mem_nil
  have hplan := Workshop.performAll_mild hrenderer
    (fun task htask => Task.mild_of_mem_plan hsource htask) hloaded hperform
  have hswept := (Workshop.pruneProjects_sweeps hprune).trans
    (Workshop.storeManifest_sweeps hstore)
  exact Workshop.drawArchitecture_mild hrenderer (hswept.mild hplan) hdraw

end Run

end FlowAtlas
