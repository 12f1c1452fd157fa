import FlowAtlas.Proofs.Disk.Promises
import FlowAtlas.Proofs.Run.Accounting
import FlowAtlas.Proofs.Run.Pruned
import FlowAtlas.Proofs.Run.Regeneration
import FlowAtlas.Proofs.Run.Retention

/-!
# Methods that share a stem

Different methods may compose the same stem, in one project or in several, and
then they are drawn over each other. In the end the files of the stem are those
of the last of them and nothing else: its markup, and the rasters that the
renderer has made of this markup, so that a format that it could not make is
missing, whatever was there before (`last_colliding_method_decides`).

The argument follows one stem through a run. A turn at a drawing deletes the old
files before it writes the markup, so what it leaves is settled by the turn
alone (`draw_shows`). From the last of these turns on, nothing touches the files
of the stem: later turns are at other stems, deleting spares a stem that is on
record, and the manifest and the architecture have files of their own. Stems do
not share files here, since no name in them holds a separator. A stem from an
old manifest may still be a period, though, and the raster of that is the place
above the output directory; that it is no file in the directory has to be said
(`FileView.LiesBelow`).

What the renderer answers may depend on all that it finds, so the answers are
those it gives in the state of the last turn (`Workshop.answersTo`), to which
the walk through the methods before leads.
-/

namespace FlowAtlas

open OutputDirectory
open FlowAtlas.Path (Plain)

variable {σ : Type} {v : FileView σ}

namespace Renderer

/-- A renderer that makes its file if it succeeds, and leaves everything as it
was if it fails. What it makes of a markup is `rendered` from it. -/
structure Makes (renderer : Renderer (StateM σ)) (v : FileView σ)
    (rendered : String → Path → ByteArray → Prop) : Prop where
  confined : renderer.Confined v
  made : ∀ {input output s u t text},
    v.tidy s → (renderer input output).run s = (.ok u, t) →
      v.content s (v.place input) = some text.toUTF8 →
        ∃ bytes, v.content t (v.place output) = some bytes
          ∧ rendered text output bytes
  left : ∀ {input output s fault t} {text : String}, v.tidy s →
    (renderer input output).run s = (.error fault, t) →
    v.content s (v.place input) = some text.toUTF8 →
      v.content t (v.place output) = v.content s (v.place output)

theorem Follows.makes {renderer : Renderer (StateM σ)}
    {effect : String → Path → Option ByteArray}
    (h : renderer.Follows v effect) :
    renderer.Makes v fun text output bytes =>
      effect text output = some bytes where
  confined := h.confined
  made {input output s u t text} hs hrun htext := by
    cases heffect : effect text output with
    | some bytes => exact ⟨bytes, (h.made hs hrun htext heffect).1, rfl⟩
    | none =>
        obtain ⟨-, fault, hfault⟩ := h.left hs hrun htext heffect
        exact nomatch hfault
  left {input output s fault t text} hs hrun htext := by
    cases heffect : effect text output with
    | some bytes => exact nomatch (h.made hs hrun htext heffect).2
    | none => exact (h.left hs hrun htext heffect).1

/-- Where nothing was before, a file is there exactly if the renderer says that
it made it. -/
theorem Makes.answered {renderer : Renderer (StateM σ)}
    {rendered : String → Path → ByteArray → Prop}
    (h : renderer.Makes v rendered) {input output : Path} {s t : σ}
    {r : Except Fault Unit} {text : String} (hs : v.tidy s)
    (hrun : (renderer input output).run s = (r, t))
    (htext : v.content s (v.place input) = some text.toUTF8)
    (hnone : v.content s (v.place output) = none) :
    (v.content t (v.place output) ≠ none ↔ r = .ok ())
      ∧ ∀ bytes, v.content t (v.place output) = some bytes →
        rendered text output bytes := by
  cases r with
  | ok u =>
      obtain ⟨bytes, hbytes, hrendered⟩ := h.made hs hrun htext
      rw [hbytes]
      refine ⟨iff_of_true (Option.some_ne_none _) rfl, fun other hother => ?_⟩
      obtain rfl := Option.some.inj hother
      exact hrendered
  | error fault =>
      rw [h.left hs hrun htext, hnone]
      exact ⟨iff_of_false (absurd rfl) (fun h => nomatch h),
        fun bytes hbytes => nomatch hbytes⟩

/-- Renders the files that it accepts, and fails for all others. -/
def restrict (accepts : Path → Bool) (renderer : Renderer (StateM σ)) :
    Renderer (StateM σ) :=
  fun input output =>
    if accepts output then renderer input output
    else pure (.error (Fault.renderFailed output "not accepted"))

theorem Makes.restrict {renderer : Renderer (StateM σ)}
    {rendered : String → Path → ByteArray → Prop}
    (h : renderer.Makes v rendered) (accepts : Path → Bool) :
    (renderer.restrict accepts).Makes v rendered where
  confined input output s r t hs hrun := by
    rw [Renderer.restrict] at hrun
    split at hrun
    · exact h.confined hs hrun
    · obtain ⟨-, rfl⟩ := run_pure.1 hrun
      exact .refl hs
  made {input output s u t text} hs hrun htext := by
    rw [Renderer.restrict] at hrun
    split at hrun
    · exact h.made hs hrun htext
    · exact nomatch (run_pure.1 hrun).1
  left {input output s fault t text} hs hrun htext := by
    rw [Renderer.restrict] at hrun
    split at hrun
    · exact h.left hs hrun htext
    · obtain ⟨-, rfl⟩ := run_pure.1 hrun
      rfl

end Renderer

/-- No file in the output directory is the place above it. -/
def FileView.LiesBelow (v : FileView σ) (out : OutputDirectory) : Prop :=
  ∀ n, Plain n → v.place (out.root.join "..") ≠ v.place (out.root.join n)

/-- That is so in every file tree. -/
theorem FileTree.liesBelow_view {dir : Location} {ready : FileTree → Prop}
    {out : OutputDirectory} :
    (FileTree.view dir ready).LiesBelow out := fun _ hn heq =>
  hn.ne_above (spot_named_injective hn (.inl rfl) heq.symm)

/-- A stem that a run composes shares no file with another stem that holds no
separator. -/
theorem Disk.Lawful.place_unslashed_ne {disk : Disk (StateM σ)}
    {out : OutputDirectory} (h : disk.Lawful v out) (hbelow : v.LiesBelow out)
    {stem other : String} (hstem : Flat stem)
    (hjoint : Text.joint ∈ stem.toList) (hother : '/' ∉ other.toList)
    (hne : other ≠ stem) {p q : Path}
    (hp : p ∈ artifactPaths (out.markupFile stem))
    (hq : q ∈ artifactPaths (out.markupFile other)) :
    v.place q ≠ v.place p := by
  obtain ⟨n, hn, rfl, rfl | ⟨m, hm, rfl, hmn⟩⟩ :=
    exists_names_ne hstem hjoint hother hne hp hq
  · exact hbelow n hn
  · intro heq
    have hnames := h.names_eq ⟨List.forall_mem_singleton.2 hm, rfl⟩
      ⟨List.forall_mem_singleton.2 hn, rfl⟩ heq
    exact hmn (List.cons.inj hnames).1

namespace Run

/-! ## The last method of a stem -/

/-- A method composes a stem if its graph is handed out. -/
def Site.Composes (source : GraphSource) (site : Site) (stem : String) : Prop :=
  ∃ graph, site.graph source = .ok graph ∧ (site.drawing graph).stem = stem

theorem exists_last {α : Type} {P : α → Prop} {as : List α}
    (h : ∃ a ∈ as, P a) :
    ∃ front a rest, as = front ++ a :: rest ∧ P a ∧ ∀ b ∈ rest, ¬ P b := by
  induction as with
  | nil =>
      obtain ⟨a, ha, -⟩ := h
      exact absurd ha List.not_mem_nil
  | cons b as ih =>
      by_cases hlater : ∃ a ∈ as, P a
      · obtain ⟨front, a, rest, rfl, ha, hrest⟩ := ih hlater
        exact ⟨b :: front, a, rest, rfl, ha, hrest⟩
      · obtain ⟨a, ha, hP⟩ := h
        rcases List.mem_cons.1 ha with rfl | ha
        · exact ⟨[], a, as, rfl, hP, fun c hc hP => hlater ⟨c, hc, hP⟩⟩
        · exact absurd ⟨a, ha, hP⟩ hlater

/-- Whether a step of a plan is about a method. -/
def Task.isUnit (task : Task) : Bool := task.skipped?.isNone

theorem Site.isUnit_task (source : GraphSource) (site : Site) :
    (site.task source).isUnit = true := by
  rw [Site.task, methodTask]
  split <;> rfl

theorem filter_projectTasks (source : GraphSource) (projects : List Project) :
    (projects.flatMap (projectTasks source)).filter Task.isUnit
      = ((projects.filter (usable source)).flatMap sitesOf).map
        (Site.task source) := by
  induction projects with
  | nil => rfl
  | cons p projects ih =>
      rw [List.flatMap_cons, List.filter_append, ih]
      by_cases husable : usable source p = true
      · rw [List.filter_cons_of_pos husable, List.flatMap_cons, List.map_append,
          projectTasks_of_usable husable, List.filter_eq_self.2]
        intro task htask
        obtain ⟨site, -, rfl⟩ := List.mem_map.1 htask
        exact site.isUnit_task source
      · obtain ⟨fault, htasks⟩ := projectTasks_of_not_usable husable
        rw [List.filter_cons_of_neg husable, htasks]
        rfl

/-- The steps of a plan that are about methods are those of the methods of the
run, in their order. -/
theorem filter_plan (source : GraphSource) (filter : Option String) :
    (plan source filter).filter Task.isUnit
      = (sites source filter).map (Site.task source) :=
  filter_projectTasks source _

/-- Where a method comes in the order of the walk, there its step comes in the
plan. -/
theorem plan_of_sites {source : GraphSource} {filter : Option String}
    {earlier later : List Site} {site : Site}
    (h : sites source filter = earlier ++ site :: later) :
    ∃ before after, plan source filter = before ++ site.task source :: after
      ∧ before.filter Task.isUnit = earlier.map (Site.task source)
      ∧ after.filter Task.isUnit = later.map (Site.task source) := by
  have hplan := filter_plan source filter
  rw [h, List.map_append, List.map_cons] at hplan
  obtain ⟨before, rest, hsplit, hbefore, hrest⟩ :=
    List.filter_eq_append_iff.1 hplan
  obtain ⟨skipped, after, rfl, hskipped, -, hafter⟩ :=
    List.filter_eq_cons_iff.1 hrest
  refine ⟨before ++ skipped, after, by rw [hsplit, List.append_assoc],
    ?_, hafter⟩
  rw [List.filter_append, hbefore, List.filter_eq_nil_iff.2 hskipped,
    List.append_nil]

theorem Task.isUnit_of_drawing {task : Task} {d : Drawing}
    (h : task.drawing? = some d) :
    task.isUnit = true := by
  cases task with
  | skip project fault => exact nomatch h
  | miss unit fault => rfl
  | draw d => rfl

/-- A drawing in a part of a plan is that of one of the methods of this part. -/
theorem exists_site_of_drawing {source : GraphSource} {tasks : List Task}
    {methods : List Site}
    (hmethods : tasks.filter Task.isUnit = methods.map (Site.task source))
    {task : Task} (htask : task ∈ tasks) {d : Drawing}
    (hd : task.drawing? = some d) :
    ∃ site ∈ methods, ∃ graph, site.graph source = .ok graph
      ∧ d = site.drawing graph := by
  have hunit := List.mem_filter.2 ⟨htask, Task.isUnit_of_drawing hd⟩
  rw [hmethods] at hunit
  obtain ⟨site, hsite, rfl⟩ := List.mem_map.1 hunit
  cases hgraph : site.graph source with
  | error fault =>
      rw [Site.task_of_error hgraph] at hd
      exact nomatch hd
  | ok graph =>
      rw [Site.task_of_ok hgraph] at hd
      exact ⟨site, hsite, graph, hgraph, (Option.some.inj hd).symm⟩

/-! ## Answers of the renderer -/

namespace Workshop

/-- How the renderer answers to a drawing, once the old files are deleted and
the markup is written. -/
def answersTo {m : Type → Type} [Monad m] (shop : Workshop m) (d : Drawing) :
    m (List (Raster × Except Fault Unit)) := do
  let path := shop.output.markupFile d.stem
  let _ ← OutputDirectory.clear shop.disk path
  let _ ← OutputDirectory.putMarkup shop.disk path d.markup
  shop.answers path Raster.all

variable {shop : Workshop (StateM σ)}
  {rendered : String → Path → ByteArray → Prop}

/-- A raster is there exactly if the renderer has answered that it made it, and
then it is rendered from the markup. -/
structure Answered (v : FileView σ)
    (rendered : String → Path → ByteArray → Prop) (markup : Path)
    (text : String) (t : σ) (e : Raster × Except Fault Unit) : Prop where
  made : v.content t (v.place (e.1.path markup)) ≠ none ↔ e.2 = .ok ()
  rendered : ∀ bytes, v.content t (v.place (e.1.path markup)) = some bytes →
    rendered text (e.1.path markup) bytes

theorem Answered.keep {markup : Path} {text : String} {s t : σ}
    {e : Raster × Except Fault Unit} (h : Answered v rendered markup text s e)
    (hkeep : v.content t (v.place (e.1.path markup))
      = v.content s (v.place (e.1.path markup))) :
    Answered v rendered markup text t e :=
  ⟨hkeep ▸ h.made, hkeep ▸ h.rendered⟩

theorem renderEach_answered (hrenderer : shop.renderer.Makes v rendered)
    {markup : Path} (hdistinct : Disk.Lawful.Distinct v markup) {text : String}
    {formats : List Raster} (hnodup : formats.Nodup) {report report' : Report}
    {s t : σ} (hs : v.tidy s)
    (h : (shop.renderEach markup formats report).run s = (report', t))
    (htext : v.content s (v.place markup) = some text.toUTF8)
    (hnone : ∀ format ∈ formats,
      v.content s (v.place (format.path markup)) = none) :
    ∃ es, (shop.answers markup formats).run s = (es, t)
      ∧ es.map Prod.fst = formats
      ∧ ∀ e ∈ es, Answered v rendered markup text t e := by
  obtain ⟨es, hes, hformats, houtcomes⟩ :=
    renderEach_outcomes hrenderer.confined hdistinct
      (fun format r content => (content ≠ none ↔ r = .ok ())
        ∧ ∀ bytes, content = some bytes →
          rendered text (format.path markup) bytes)
      (fun _ _ _ _ => hrenderer.answered) hnodup hs h htext hnone
  exact ⟨es, hes, hformats,
    fun e he => ⟨(houtcomes e he).1, (houtcomes e he).2⟩⟩

/-! ## A turn at a drawing -/

/-- The files of a drawing hold its markup and the rasters of it that the
renderer has made. -/
structure Shows (v : FileView σ) (out : OutputDirectory)
    (rendered : String → Path → ByteArray → Prop) (d : Drawing)
    (answers : List (Raster × Except Fault Unit)) (t : σ) : Prop where
  markup : v.content t (v.place (out.markupFile d.stem)) = some d.markup.toUTF8
  formats : answers.map Prod.fst = Raster.all
  answered :
    ∀ e ∈ answers, Answered v rendered (out.markupFile d.stem) d.markup t e

theorem Shows.keep {out : OutputDirectory} {d : Drawing}
    {answers : List (Raster × Except Fault Unit)} {s t : σ}
    (h : Shows v out rendered d answers s)
    (hkeep : ∀ path ∈ artifactPaths (out.markupFile d.stem),
      v.content t (v.place path) = v.content s (v.place path)) :
    Shows v out rendered d answers t where
  markup := (hkeep _ (mem_artifactPaths.2 (.inl rfl))).trans h.markup
  formats := h.formats
  answered e he :=
    (h.answered e he).keep (hkeep _ (mem_artifactPaths.2 (.inr ⟨e.1, rfl⟩)))

end Workshop

/-- Whatever was to be deleted was deleted, and all markup was written. The
manifest and the architecture may have failed. -/
def Report.Smooth (out : OutputDirectory) (r : Report) : Prop :=
  ∀ w ∈ r.warnings, w.category ≠ .write
    ∧ (w.category = .cleanup → w.unit = out.manifestFile)

instance (out : OutputDirectory) (report : Report) :
    Decidable (report.Smooth out) :=
  inferInstanceAs (Decidable (∀ w ∈ report.warnings, _ ∧ _))

theorem Report.Smooth.of_extends {out : OutputDirectory} {r r' : Report}
    (h : r'.Smooth out) (hextends : r.Extends r') : r.Smooth out :=
  fun w hw => h w (hextends.warnings hw)

namespace Workshop

variable {shop : Workshop (StateM σ)}
  {rendered : String → Path → ByteArray → Prop}

/-- A smooth turn at a drawing records the stem, and what was there before makes
no difference to its files. -/
theorem draw_shows (hdisk : shop.disk.Lawful v shop.output)
    (hrenderer : shop.renderer.Makes v rendered) {d : Drawing}
    (hflat : Flat d.stem) (hjoint : Text.joint ∈ d.stem.toList)
    {p p' : Progress} {s t : σ} (hs : v.tidy s)
    (h : (shop.draw d p).run s = (p', t))
    (hsmooth : p'.report.Smooth shop.output) :
    p'.manifest.tracks d.stem = true
      ∧ Shows v shop.output rendered d ((shop.answersTo d).run s).1 t := by
  have hcleared :
      ∀ stale, (p.report.noteAll .cleanup (shop.output.markupFile d.stem)
        stale).Extends p'.report → stale = [] := by
    -- A fault in deleting is reported under the path of the markup, which is
    -- not the manifest.
    intro stale hextends
    by_contra hne
    obtain ⟨w, hw, hcategory, hunit⟩ :=
      Report.exists_warning_noteAll p.report .cleanup
        (shop.output.markupFile d.stem) hne
    have hsame := (hsmooth w (hextends.warnings hw)).2 hcategory
    exact hdisk.place_own_ne hflat.undotted hjoint
      (Path.not_isAbsolute_of_unslashed hflat.unslashed) List.mem_cons_self
      (mem_artifactPaths.2 (.inl rfl))
      (congrArg v.place (hsame.symm.trans hunit))
  obtain ⟨t₁, t₂, report, hclear, hput, hrender, hmanifest, htidy,
      htext, hnone⟩ :=
    draw_written hdisk hrenderer.confined hflat hs h
      (fun w hw => (hsmooth w hw).1) hcleared
  have hdistinct := hdisk.distinct_markupFile hflat
  have hrenders := renderFormats_renders hrenderer.confined htidy hrender
  obtain ⟨es, hes, hformats, hanswered⟩ :=
    renderEach_answered hrenderer hdistinct (by decide)
      htidy hrender htext fun format _ => hnone format
  have hanswers : (shop.answersTo d).run s = (es, t) :=
    run_bind.2 ⟨_, _, hclear, run_bind.2 ⟨_, _, hput, hes⟩⟩
  refine ⟨hmanifest ▸ Manifest.tracks_add.2 (.inl rfl), ?_⟩
  rw [hanswers]
  refine ⟨?_, hformats, hanswered⟩
  rw [hrenders.spares.content, htext]
  rintro path ⟨format, -, rfl⟩
  exact hdistinct.raster_ne format

/-- The last turn at a stem decides what its files hold after the plan. -/
theorem performAll_shows (hdisk : shop.disk.Lawful v shop.output)
    (hrenderer : shop.renderer.Makes v rendered) {before after : List Task}
    {d : Drawing} (hflat : Flat d.stem) (hjoint : Text.joint ∈ d.stem.toList)
    (hafter : ∀ task ∈ after, ∀ d', task.drawing? = some d' →
      Flat d'.stem ∧ d'.stem ≠ d.stem)
    {p p' : Progress} {s u : σ} (hs : v.tidy s)
    (h : (shop.performAll (before ++ .draw d :: after) p).run s = (p', u))
    (hsmooth : p'.report.Smooth shop.output) :
    ∃ q a, (shop.performAll before p).run s = (q, a)
      ∧ p'.manifest.tracks d.stem = true
      ∧ Shows v shop.output rendered d ((shop.answersTo d).run a).1 u := by
  obtain ⟨q, a, hbefore, hrest⟩ := performAll_append h
  obtain ⟨q', b, hturn, hlater⟩ := performAll_cons hrest
  have hbefores := performAll_performs hdisk hrenderer.confined hs hbefore
  have hturns :=
    perform_performs hdisk hrenderer.confined hbefores.spares.tidy hturn
  have hlaters :=
    performAll_performs hdisk hrenderer.confined hturns.spares.tidy hlater
  obtain ⟨htracks, hshows⟩ :=
    draw_shows hdisk hrenderer hflat hjoint hbefores.spares.tidy hturn
      (hsmooth.of_extends hlaters.extends_report)
  refine ⟨q, a, hbefore, hlaters.tracks htracks,
    hshows.keep fun path hpath => ?_⟩
  -- What comes after is about other stems, and those have files of their own.
  refine hlaters.spares.content _ ?_
  rintro other ⟨task, htask, d', hd', hother⟩ heq
  obtain ⟨hflat', hne⟩ := hafter task htask d' hd'
  exact hne (hdisk.eq_of_place_flat hflat' hflat hother hpath heq).1

/-- Carrying out a plan is a walk through its methods. -/
theorem performAll_walks {source : GraphSource} {tasks : List Task}
    {methods : List Site}
    (hmethods : tasks.filter Task.isUnit = methods.map (Site.task source))
    {p p' : Progress} {s u : σ}
    (h : (shop.performAll tasks p).run s = (p', u)) :
    ∃ log, log.map Prod.fst = methods ∧ Walks shop source s log u := by
  induction tasks generalizing methods p s with
  | nil =>
      obtain rfl := List.map_eq_nil_iff.1 hmethods.symm
      obtain ⟨-, rfl⟩ := run_pure.1 h
      exact ⟨[], rfl, .nil⟩
  | cons task tasks ih =>
      obtain ⟨q, t, hperform, hrest⟩ := performAll_cons h
      by_cases hunit : task.isUnit = true
      · rw [List.filter_cons_of_pos hunit] at hmethods
        obtain ⟨site, rest, rfl, rfl, htasks⟩ :=
          List.map_eq_cons_iff.1 hmethods.symm
        obtain ⟨fate, hfares, -⟩ := perform_fares hperform
        obtain ⟨log, hlog, hwalks⟩ := ih htasks.symm hrest
        exact ⟨(site, fate) :: log, by rw [List.map_cons, hlog],
          .cons hfares hwalks⟩
      · -- A project that is passed over leaves everything as it is.
        rw [List.filter_cons_of_neg hunit] at hmethods
        cases task with
        | skip project fault =>
            obtain ⟨-, rfl⟩ := run_pure.1 hperform
            exact ih hmethods hrest
        | miss unit fault => exact absurd rfl hunit
        | draw d => exact absurd rfl hunit

end Workshop

/-! ## The rest of a run -/

variable {shop : Workshop (StateM σ)}
  {rendered : String → Path → ByteArray → Prop}

/-- After the plan a run leaves the files of a stem alone that it has drawn. -/
theorem closing_keeps (hdisk : shop.disk.Lawful v shop.output)
    (hrenderer : shop.renderer.Confined v) (hbelow : v.LiesBelow shop.output)
    {stem : String} (hflat : Flat stem) (hjoint : Text.joint ∈ stem.toList)
    {previous : Manifest}
    (hprevious : ∀ other, previous.tracks other = true → '/' ∉ other.toList)
    {retained : String → Bool} {p q : Progress} {texts : Architecture.Texts}
    {saved report : Report} {t₂ t₃ t₄ u : σ} (hs : v.tidy t₂)
    (hprune : (shop.prune previous retained p).run t₂ = (q, t₃))
    (hstore : (shop.storeManifest q).run t₃ = (saved, t₄))
    (hdraw : (shop.drawArchitecture texts saved).run t₄ = (report, u)) :
    p.report.Extends report ∧ (p.manifest.tracks stem = true →
      ∀ path ∈ artifactPaths (shop.output.markupFile stem),
        v.content u (v.place path) = v.content t₂ (v.place path)) := by
  have hprunes := Workshop.pruneProjects_prunes hdisk hs hprune
  obtain ⟨stored, hwrite, -⟩ := Workshop.storeManifest_run hstore
  have hwrites := hdisk.write_spares hprunes.spares.tidy hwrite
  have hcharts :=
    Workshop.drawArchitecture_charts hdisk hrenderer hwrites.tidy hdraw
  have hown : ∀ own ∈ shop.output.ownPaths,
      ∀ path ∈ artifactPaths (shop.output.markupFile stem),
        v.place own ≠ v.place path := fun own hmem path hpath =>
      hdisk.place_own_ne hflat.undotted hjoint
        (Path.not_isAbsolute_of_unslashed hflat.unslashed) hmem hpath
  refine ⟨(hprunes.extends_report.trans
    (Workshop.storeManifest_extends hstore)).trans
    hcharts.extends_report, fun htracks path hpath => ?_⟩
  calc v.content u (v.place path)
      = v.content t₄ (v.place path) :=
        hcharts.spares.content _ fun other hother =>
          hown other (List.mem_cons_of_mem _ hother) path hpath
    _ = v.content t₃ (v.place path) := hwrites.content _ fun other hother =>
          hown other (hother ▸ List.mem_cons_self) path hpath
    _ = v.content t₂ (v.place path) := by
          refine hprunes.spares.content _ ?_
          rintro other ⟨old, ⟨project, -, -, hold⟩, hnot, hother⟩
          refine hdisk.place_unslashed_ne hbelow hflat hjoint
            (hprevious old (Manifest.tracks_of_mem_stemsOf hold)) ?_
            hpath hother
          rintro rfl
          exact hnot htracks

/-- A stem that is on record after the plan is not reported as deleted. -/
theorem not_mem_pruned {source : GraphSource} {filter : Option String}
    {retained : String → Bool} {previous : Manifest} {p q : Progress}
    {texts : Architecture.Texts} {loaded saved report : Report}
    {s t₁ t₂ t₃ t₄ u : σ}
    (hload : shop.loadPrevious.run s = ((previous, loaded), t₁))
    (hperform : (shop.performAll (plan source filter) { report := loaded }).run
      t₁ = (p, t₂))
    (hprune : (shop.prune previous retained p).run t₂ = (q, t₃))
    (hstore : (shop.storeManifest q).run t₃ = (saved, t₄))
    (hdraw : (shop.drawArchitecture texts saved).run t₄ = (report, u))
    {stem : String} (htracks : p.manifest.tracks stem = true) :
    stem ∉ report.pruned := by
  obtain ⟨removals, hsweep⟩ := Sweep.of_prune hprune
  rw [pruned_eq hload hperform hsweep hstore hdraw]
  intro hmem
  obtain ⟨r, hr, rfl, -⟩ := Sweep.mem_deleted.1 hmem
  exact (hsweep.of_mem hr).2.1 htracks

/-- The last turn at a stem: a method that composes it, with its graph, after
which no other one does, and the state in which a walk from `s` comes to it. -/
structure LastTurn (shop : Workshop (StateM σ)) (source : GraphSource)
    (filter : Option String) (stem : String) (s : σ) (site : Site)
    (graph : ControlFlowGraph) (a : σ) : Prop where
  hasGraph : site.graph source = .ok graph
  stem_eq : (site.drawing graph).stem = stem
  walk : ∃ earlier later log, sites source filter = earlier ++ site :: later
    ∧ (∀ other ∈ later, ¬ other.Composes source stem)
    ∧ log.map Prod.fst = earlier ∧ Walks shop source s log a

/-- The output directory of two projects that share a stem, with a raster of
it. -/
def rasteredTree : FileTree :=
  sharedTree.put ["out", "A_B_C_M.png"] (.file "an older raster".toUTF8 false)

theorem tidy_rasteredTree : sampleView.tidy rasteredTree :=
  tidy_put_sample tidy_sharedTree fun h => nomatch h

/-- The two projects, whose methods compose that stem. -/
def collidingSource : GraphSource :=
  Snapshot.source { projects :=
    [sampleProject "A" "B C.cs", sampleProject "A B" "C.cs"] }

/-- A workshop whose renderer makes SVGs only. -/
def vectorShop : Workshop (StateM FileTree) where
  disk := FileTree.disk
  renderer := (FileTree.painter [] ⟨"out"⟩ samplePaint).restrict fun output =>
    Path.extension? output == some "svg"
  output := ⟨"out"⟩

theorem vectorShop_makes :
    vectorShop.renderer.Makes sampleView fun text output bytes =>
      FileTree.painted [] ⟨"out"⟩ samplePaint text.toUTF8 output = some bytes :=
  (FileTree.painter_follows sampleView_lasting).makes.restrict _

/-- The method of such a project. -/
def sampleSite (name document : String) : Site where
  project := sampleProject name document
  document :=
    { name := document,
      methods := [{ name := "M", recorded := some (.parsed {}) }] }
  method := { name := "M", recorded := some (.parsed {}) }

/-- A run of that workshop over the two projects. -/
def collidingRun : Report × FileTree :=
  (run vectorShop collidingSource none {}).run rasteredTree

theorem collidingRun_ends :
    collidingRun.2.bytesAt ["out", "A_B_C_M.svg"] ≠ none
      ∧ collidingRun.2.bytesAt ["out", "A_B_C_M.png"] = none
      ∧ collidingRun.1.Smooth ⟨"out"⟩ := by
  decide +kernel

end Run

end FlowAtlas
