import FlowAtlas.Proofs.Run.Tracking

/-!
# The last run decides

After a run without a filter that could use every project, the output directory
holds what that run makes of an empty directory, whatever runs have come before.
Nothing may have gone wrong with the files meanwhile (`Report.Undisturbed`);
compiling, drawing and rendering may have failed as they liked.

Two things are compared, the last run after the history and the last run alone.
They agree on the files that the plan draws, since making a diagram leaves
nothing of what was there before: its content is a function of the markup
(`pictured`). All other files are gone in both. Alone, they were never there.
After a history they belong to stems on the old record, which the deleting
clears, because no project is retained and none of those stems is in use. That
they are on the record is the invariant about all histories (`Traced`).

A stem holds no separator here, so it shares no file with another one, and
deleting one stem cannot undo the drawing of another.
-/

namespace FlowAtlas

open OutputDirectory

variable {σ : Type} {v : FileView σ}

theorem Renderer.Follows.content_eq {renderer : Renderer (StateM σ)}
    {effect : String → Path → Option ByteArray} (h : renderer.Follows v effect)
    {input output : Path} {s t : σ} {r : Except Fault Unit} {text : String}
    (hs : v.tidy s) (hrun : (renderer input output).run s = (r, t))
    (htext : v.content s (v.place input) = some text.toUTF8)
    (hnone : v.content s (v.place output) = none) :
    v.content t (v.place output) = effect text output := by
  cases heffect : effect text output with
  | some bytes => exact (h.made hs hrun htext heffect).1
  | none => exact (h.left hs hrun htext heffect).1.trans hnone

namespace Run

/-- Nothing has gone wrong with the files of a run: with deleting, with writing,
or with the manifest. -/
def Report.Undisturbed (r : Report) : Prop :=
  ∀ w ∈ r.warnings, w.category ≠ .cleanup ∧ w.category ≠ .write
    ∧ w.category ≠ .architecture

instance (report : Report) : Decidable report.Undisturbed :=
  inferInstanceAs (Decidable (∀ w ∈ report.warnings, _ ∧ _ ∧ _))

theorem Report.Undisturbed.of_extends {r r' : Report} (h : r'.Undisturbed)
    (hextends : r.Extends r') : r.Undisturbed :=
  fun w hw => h w (hextends.warnings hw)

theorem Report.Undisturbed.keepsManifest {r : Report} (h : r.Undisturbed)
    (out : OutputDirectory) : r.KeepsManifest out :=
  fun w hw hwarning => (h w hw).1 hwarning.1

theorem Report.Undisturbed.eq_nil {r : Report} {unit : String}
    {faults : List Fault} (h : (r.noteAll .cleanup unit faults).Undisturbed) :
    faults = [] := by
  by_contra hne
  obtain ⟨w, hw, hcleanup, -⟩ :=
    Report.exists_warning_noteAll r .cleanup unit hne
  exact (h w hw).1 hcleanup

/-! ## Pictures -/

/-- What the files of a diagram hold: the markup, and what the renderer makes of
it. -/
def pictured (effect : String → Path → Option ByteArray) (markup : Path)
    (text : String) (path : Path) : Option ByteArray :=
  if path = markup then some text.toUTF8 else effect text path

namespace Workshop

variable {shop : Workshop (StateM σ)}
  {effect : String → Path → Option ByteArray}

/-- How the renderer answers for some formats of a markup file, one after the
other. -/
def answers {m : Type → Type} [Monad m] (shop : Workshop m) (markup : Path) :
    List Raster → m (List (Raster × Except Fault Unit))
  | [] => pure []
  | format :: formats => do
    let answer ← shop.renderer markup (format.path markup)
    let rest ← answers shop markup formats
    pure ((format, answer) :: rest)

/-- Formats made where nothing was: what each turn comes to, it has come to in
the end. -/
theorem renderEach_outcomes (hrenderer : shop.renderer.Confined v)
    {markup : Path} (hdistinct : Disk.Lawful.Distinct v markup) {text : String}
    (outcome : Raster → Except Fault Unit → Option ByteArray → Prop)
    (hturn : ∀ format s r t, v.tidy s →
      (shop.renderer markup (format.path markup)).run s = (r, t) →
      v.content s (v.place markup) = some text.toUTF8 →
      v.content s (v.place (format.path markup)) = none →
      outcome format r (v.content t (v.place (format.path markup))))
    {formats : List Raster} (hnodup : formats.Nodup) {report report' : Report}
    {s t : σ} (hs : v.tidy s)
    (h : (shop.renderEach markup formats report).run s = (report', t))
    (htext : v.content s (v.place markup) = some text.toUTF8)
    (hnone : ∀ format ∈ formats,
      v.content s (v.place (format.path markup)) = none) :
    ∃ es, (shop.answers markup formats).run s = (es, t)
      ∧ es.map Prod.fst = formats
      ∧ ∀ e ∈ es,
        outcome e.1 e.2 (v.content t (v.place (e.1.path markup))) := by
  induction formats generalizing s report with
  | nil =>
      obtain ⟨rfl, rfl⟩ := run_pure.1 h
      exact ⟨[], rfl, rfl, fun e he => absurd he List.not_mem_nil⟩
  | cons first formats ih =>
      obtain ⟨r, t', hrender, hrest⟩ := renderEach_turn h
      obtain ⟨hfirst, hnodup⟩ := List.nodup_cons.1 hnodup
      have hspares := hrenderer hs hrender
      have hrests := renderEach_renders hrenderer hspares.tidy hrest
      have hother : ∀ format ∈ formats,
          v.place (first.path markup) ≠ v.place (format.path markup) := by
        intro format hformat heq
        exact hfirst (hdistinct.raster_injective _ _ heq ▸ hformat)
      obtain ⟨es, hes, hformats, houtcomes⟩ := ih hnodup hspares.tidy hrest
        (by rw [hspares.content _
          (by rintro path rfl; exact hdistinct.raster_ne first), htext])
        fun format hformat => by
          rw [hspares.content _
            (by rintro path rfl; exact hother format hformat),
            hnone format (List.mem_cons_of_mem _ hformat)]
      refine ⟨(first, r) :: es, ?_, by rw [List.map_cons, hformats],
        fun e he => ?_⟩
      · rw [answers]
        exact run_bind.2 ⟨r, t', hrender, run_bind.2 ⟨es, t, hes, rfl⟩⟩
      · rcases List.mem_cons.1 he with rfl | he
        · -- The formats after it have files of their own.
          rw [hrests.spares.content]
          · exact hturn first s r t' hs hrender htext
              (hnone first List.mem_cons_self)
          · rintro path ⟨format, hformat, rfl⟩ heq
            exact hother format hformat heq.symm
        · exact houtcomes e he

/-- A diagram made where nothing was is as the renderer and the markup tell. -/
theorem renderFormats_content (hrenderer : shop.renderer.Follows v effect)
    {markup : Path} (hdistinct : Disk.Lawful.Distinct v markup) {text : String}
    {report report' : Report} {s t : σ} (hs : v.tidy s)
    (h : (shop.renderFormats markup report).run s = (report', t))
    (htext : v.content s (v.place markup) = some text.toUTF8)
    (hnone : ∀ format : Raster,
      v.content s (v.place (format.path markup)) = none) :
    ∀ path ∈ artifactPaths markup,
      v.content t (v.place path) = pictured effect markup text path := by
  have hrenders := renderFormats_renders hrenderer.confined hs h
  intro path hpath
  rcases mem_artifactPaths.1 hpath with rfl | ⟨format, rfl⟩
  · rw [pictured, if_pos rfl, hrenders.spares.content, htext]
    rintro p ⟨format, -, rfl⟩
    exact hdistinct.raster_ne format
  · have hne : format.path markup ≠ markup := fun heq =>
      hdistinct.raster_ne format (congrArg v.place heq)
    have hall : format ∈ Raster.all := by cases format <;> decide
    obtain ⟨es, -, hformats, hmade⟩ :=
      renderEach_outcomes hrenderer.confined hdistinct
        (fun format _ content => content = effect text (format.path markup))
        (fun _ _ _ _ => hrenderer.content_eq) (by decide) hs h htext
        fun other _ => hnone other
    obtain ⟨e, he, rfl⟩ := List.mem_map.1 (hformats ▸ hall)
    rw [pictured, if_neg hne]
    exact hmade e he

/-- Markup written where nothing was: there is the markup, and no raster. -/
theorem written_content {disk : Disk (StateM σ)} {out : OutputDirectory}
    (hdisk : disk.Lawful v out) {markup : Path}
    (hdistinct : Disk.Lawful.Distinct v markup) {s t : σ} {text : String}
    (hs : v.tidy s)
    (hnone : ∀ path ∈ artifactPaths markup, v.content s (v.place path) = none)
    (hwrite : (disk.writeText markup text).run s = (.ok (), t)) :
    v.content t (v.place markup) = some text.toUTF8
      ∧ ∀ format : Raster,
        v.content t (v.place (format.path markup)) = none := by
  refine ⟨hdisk.write_ok hs hwrite, fun format => ?_⟩
  rw [(hdisk.write_spares hs hwrite).content]
  · exact hnone _ (mem_artifactPaths.2 (.inr ⟨format, rfl⟩))
  · rintro path rfl heq
    exact hdistinct.raster_ne format heq.symm

/-! ## The plan -/

/-- A turn at a drawing in which everything could be deleted and written, up to
where the renderer starts: it finds the markup and no raster. -/
theorem draw_written (hdisk : shop.disk.Lawful v shop.output)
    (hrenderer : shop.renderer.Confined v) {d : Drawing} (hflat : Flat d.stem)
    {p p' : Progress} {s t : σ} (hs : v.tidy s)
    (h : (shop.draw d p).run s = (p', t))
    (hwritten : ∀ w ∈ p'.report.warnings, w.category ≠ .write)
    (hcleared : ∀ stale,
      (p.report.noteAll .cleanup (shop.output.markupFile d.stem)
        stale).Extends p'.report → stale = []) :
    ∃ t₁ t₂ report,
      (OutputDirectory.clear shop.disk (shop.output.markupFile d.stem)).run s
        = ([], t₁)
      ∧ (OutputDirectory.putMarkup shop.disk (shop.output.markupFile d.stem)
            d.markup).run t₁
          = (.ok (), t₂)
      ∧ (shop.renderFormats (shop.output.markupFile d.stem) report).run t₂
        = (p'.report, t)
      ∧ p'.manifest = p.manifest.add d.project d.stem
      ∧ v.tidy t₂
      ∧ v.content t₂ (v.place (shop.output.markupFile d.stem))
        = some d.markup.toUTF8
      ∧ ∀ format : Raster,
          v.content t₂ (v.place (format.path (shop.output.markupFile d.stem)))
            = none := by
  obtain ⟨stale, t₁, r, t₂, hclear, hput, hout⟩ := draw_run h
  obtain ⟨r', hwrite, hr⟩ := putMarkup_turn hput
  rcases hout with ⟨fault, -, -, rfl⟩ | ⟨rfl, report, hrender, rfl⟩
  · -- A markup that could not be written would have been reported.
    obtain ⟨w, hw, hcategory, -⟩ := Report.exists_warning_note
      (p.report.noteAll .cleanup (shop.output.markupFile d.stem) stale)
      .write d.unit fault
    exact absurd hcategory (hwritten w hw)
  · have hclears := deleteEach_clears hdisk hs hclear
    obtain rfl := mapError_eq_ok.1 hr.symm
    have hwrites := hdisk.write_spares hclears.spares.tidy hwrite
    have hrenders := renderFormats_renders hrenderer hwrites.tidy hrender
    obtain rfl : stale = [] :=
      hcleared stale
        ((Report.Extends.addMarkup _ _).trans hrenders.extends_report)
    have hdistinct := hdisk.distinct_markupFile hflat
    have hgone : ∀ path ∈ artifactPaths (shop.output.markupFile d.stem),
        v.content t₁ (v.place path) = none := fun path hpath =>
      hclears.gone rfl path hpath (below_artifactPaths hflat.undotted hpath)
    obtain ⟨htext, hnone⟩ :=
      written_content hdisk hdistinct hclears.spares.tidy hgone hwrite
    exact ⟨t₁, t₂, _, hclear, hput, hrender, rfl, hwrites.tidy, htext, hnone⟩

/-- An undisturbed turn at a drawing: the stem is on record, and its files hold
the diagram. -/
theorem draw_content (hdisk : shop.disk.Lawful v shop.output)
    (hrenderer : shop.renderer.Follows v effect) {d : Drawing}
    (hflat : Flat d.stem) {p p' : Progress} {s t : σ} (hs : v.tidy s)
    (h : (shop.draw d p).run s = (p', t)) (hquiet : p'.report.Undisturbed) :
    p'.manifest = p.manifest.add d.project d.stem
      ∧ ∀ path ∈ artifactPaths (shop.output.markupFile d.stem),
          v.content t (v.place path)
            = pictured effect (shop.output.markupFile d.stem)
              d.markup path := by
  obtain ⟨t₁, t₂, report, -, -, hrender, hmanifest, htidy, htext, hnone⟩ :=
    draw_written hdisk
      hrenderer.confined hflat hs h (fun w hw => (hquiet w hw).2.1)
      fun stale hextends => (hquiet.of_extends hextends).eq_nil
  exact ⟨hmanifest, renderFormats_content hrenderer
    (hdisk.distinct_markupFile hflat) htidy hrender htext hnone⟩

/-- A file of a drawing in a plan. -/
def Drawn (v : FileView σ) (out : OutputDirectory) (tasks : List Task)
    (f : v.File) : Prop :=
  ∃ task ∈ tasks, ∃ path, Task.Concerns out task path ∧ v.place path = f

/-- One turn in two runs: what the turn draws comes out alike. -/
theorem perform_agree (hdisk : shop.disk.Lawful v shop.output)
    (hrenderer : shop.renderer.Follows v effect) {task : Task}
    (hflat : ∀ d, task.drawing? = some d → Flat d.stem) {p p' q q' : Progress}
    {a a' b b' : σ} (ha : v.tidy a)
    (hA : (shop.perform p task).run a = (p', a'))
    (hquietA : p'.report.Undisturbed) (hb : v.tidy b)
    (hB : (shop.perform q task).run b = (q', b'))
    (hquietB : q'.report.Undisturbed) {files : v.File → Prop}
    (hmanifest : p.manifest = q.manifest)
    (hfiles : ∀ f, files f → v.content a f = v.content b f) :
    p'.manifest = q'.manifest
      ∧ (∀ d, task.drawing? = some d → p'.manifest.tracks d.stem = true)
      ∧ ∀ f, files f
      ∨ (∃ path, Task.Concerns shop.output task path ∧ v.place path = f) →
          v.content a' f = v.content b' f := by
  have hconfined := hrenderer.confined
  have hspareA := (perform_performs hdisk hconfined ha hA).spares
  have hspareB := (perform_performs hdisk hconfined hb hB).spares
  have hold :
      ∀ f, (¬ ∃ path, Task.Concerns shop.output task path ∧ v.place path = f) →
        files f → v.content a' f = v.content b' f := by
    intro f hf hold
    rw [hspareA.content f fun path hpath heq => hf ⟨path, hpath, heq⟩,
      hspareB.content f fun path hpath heq =>
        hf ⟨path, hpath, heq⟩, hfiles f hold]
  cases task with
  | skip project fault =>
      obtain ⟨rfl, rfl⟩ := run_pure.1 hA
      obtain ⟨rfl, rfl⟩ := run_pure.1 hB
      refine ⟨hmanifest, (fun d hd => nomatch hd),
        fun f hf => hold f ?_ (hf.resolve_right ?_)⟩
      all_goals exact fun ⟨_, ⟨_, hd, _⟩, _⟩ => nomatch hd
  | miss unit fault =>
      obtain ⟨rfl, rfl⟩ := run_pure.1 hA
      obtain ⟨rfl, rfl⟩ := run_pure.1 hB
      refine ⟨hmanifest, (fun d hd => nomatch hd),
        fun f hf => hold f ?_ (hf.resolve_right ?_)⟩
      all_goals exact fun ⟨_, ⟨_, hd, _⟩, _⟩ => nomatch hd
  | draw d =>
      obtain ⟨hrecordA, hcontentA⟩ :=
        draw_content hdisk hrenderer (hflat d rfl) ha hA hquietA
      obtain ⟨hrecordB, hcontentB⟩ :=
        draw_content hdisk hrenderer (hflat d rfl) hb hB hquietB
      refine ⟨by rw [hrecordA, hrecordB, hmanifest], ?_, fun f hf => ?_⟩
      · intro d' hd'
        obtain rfl := Option.some.inj hd'
        rw [hrecordA]
        exact Manifest.tracks_add.2 (.inl rfl)
      · by_cases hdrawn :
          ∃ path, Task.Concerns shop.output (.draw d) path ∧ v.place path = f
        · -- Drawn in both runs, from the same markup.
          obtain ⟨path, ⟨d', hd', hpath⟩, rfl⟩ := hdrawn
          obtain rfl := Option.some.inj hd'
          rw [hcontentA path hpath, hcontentB path hpath]
        · exact hold f hdrawn (hf.resolve_right hdrawn)

/-- A plan in two runs: they end with the same record and the same diagrams. -/
theorem performAll_agree (hdisk : shop.disk.Lawful v shop.output)
    (hrenderer : shop.renderer.Follows v effect) {tasks : List Task}
    (hflat : ∀ task ∈ tasks, ∀ d, task.drawing? = some d → Flat d.stem)
    {p p' q q' : Progress} {a a' b b' : σ}
    (ha : v.tidy a) (hA : (shop.performAll tasks p).run a = (p', a'))
    (hquietA : p'.report.Undisturbed) (hb : v.tidy b)
    (hB : (shop.performAll tasks q).run b = (q', b'))
    (hquietB : q'.report.Undisturbed) {files : v.File → Prop}
    (hmanifest : p.manifest = q.manifest)
    (hfiles : ∀ f, files f → v.content a f = v.content b f) :
    p'.manifest = q'.manifest
      ∧ (∀ task ∈ tasks, ∀ d, task.drawing? = some d →
        p'.manifest.tracks d.stem = true)
      ∧ ∀ f, files f ∨ Drawn v shop.output tasks f →
        v.content a' f = v.content b' f := by
  induction tasks generalizing p q a b files with
  | nil =>
      obtain ⟨rfl, rfl⟩ := run_pure.1 hA
      obtain ⟨rfl, rfl⟩ := run_pure.1 hB
      refine ⟨hmanifest, fun _ htask => absurd htask List.not_mem_nil,
        fun f hf => ?_⟩
      exact hfiles f
        (hf.resolve_right fun ⟨_, htask, _⟩ => List.not_mem_nil htask)
  | cons task tasks ih =>
      have hconfined := hrenderer.confined
      obtain ⟨p₁, a₁, hturnA, hrestA⟩ := performAll_cons hA
      obtain ⟨q₁, b₁, hturnB, hrestB⟩ := performAll_cons hB
      have hafterA := perform_performs hdisk hconfined ha hturnA
      have hafterB := perform_performs hdisk hconfined hb hturnB
      have hendA :=
        performAll_performs hdisk hconfined hafterA.spares.tidy hrestA
      have hendB :=
        performAll_performs hdisk hconfined hafterB.spares.tidy hrestB
      obtain ⟨hmanifest₁, htracks₁, hfiles₁⟩ := perform_agree hdisk hrenderer
        (hflat task List.mem_cons_self) ha hturnA
        (hquietA.of_extends hendA.extends_report) hb hturnB
        (hquietB.of_extends hendB.extends_report) hmanifest hfiles
      obtain ⟨hmanifest', htracks', hfiles'⟩ := ih
        (fun other hother => hflat other (List.mem_cons_of_mem _ hother))
        hafterA.spares.tidy hrestA hafterB.spares.tidy hrestB hmanifest₁ hfiles₁
      refine ⟨hmanifest', fun other hother d hd => ?_, fun f hf => hfiles' f ?_⟩
      · rcases List.mem_cons.1 hother with rfl | hother
        · exact hendA.tracks (htracks₁ d hd)
        · exact htracks' other hother d hd
      · rcases hf with hf | ⟨other, hother, hf⟩
        · exact .inl (.inl hf)
        · rcases List.mem_cons.1 hother with rfl | hother
          · exact .inl (.inr hf)
          · exact .inr ⟨other, hother, hf⟩

/-! ## Deleting what is out of date -/

theorem pruneStems_unchanged {project : String} {stems : List String}
    {p p' : Progress} {s t : σ} (hdisk : shop.disk.Lawful v shop.output)
    (hs : v.tidy s) (h : (shop.pruneStems project stems p).run s = (p', t))
    (hquiet : p'.report.Undisturbed) :
    p'.manifest = p.manifest := by
  induction stems generalizing p s with
  | nil =>
      obtain ⟨rfl, rfl⟩ := run_pure.1 h
      rfl
  | cons stem stems ih =>
      rcases pruneStems_cons h with
        ⟨-, hrest⟩ | ⟨-, faults, t', q, hclear, hrest, hq⟩
      · exact ih hs hrest
      · have hclears := clearStem_clears hdisk hs hclear
        have hrests := pruneStems_prunes hdisk hclears.spares.tidy hrest
        rcases hq with ⟨-, rfl⟩ | ⟨hne, rfl⟩
        · show p'.manifest
            = ({ p with report := p.report.addPruned stem } : Progress).manifest
          exact ih hclears.spares.tidy hrest
        · exact absurd (hquiet.of_extends hrests.extends_report).eq_nil hne

/-- If no project is retained and everything can be deleted, the record stays as
it is. -/
theorem pruneProjects_unchanged (hdisk : shop.disk.Lawful v shop.output)
    {previous : Manifest} {retained : String → Bool} {projects : List String}
    {p p' : Progress} {s t : σ} (hs : v.tidy s)
    (h : (shop.pruneProjects previous retained projects p).run s = (p', t))
    (hretained : ∀ project, ¬ retained project = true)
    (hquiet : p'.report.Undisturbed) :
    p'.manifest = p.manifest := by
  induction projects generalizing p s with
  | nil =>
      obtain ⟨rfl, rfl⟩ := run_pure.1 h
      rfl
  | cons project projects ih =>
      rcases pruneProjects_cons h with ⟨hyes, -⟩ | ⟨-, q, t', hstems, hrest⟩
      · exact absurd hyes (hretained project)
      · have hturn := pruneStems_prunes hdisk hs hstems
        have hrests := pruneProjects_prunes hdisk hturn.spares.tidy hrest
        rw [ih hturn.spares.tidy hrest, pruneStems_unchanged hdisk hs hstems
          (hquiet.of_extends hrests.extends_report)]

/-! ## The architecture -/

/-- Undisturbed, the files of the architecture hold the summary and the
diagram. -/
theorem drawArchitecture_content (hdisk : shop.disk.Lawful v shop.output)
    (hrenderer : shop.renderer.Follows v effect) {texts : Architecture.Texts}
    {report report' : Report} {s u : σ} (hs : v.tidy s)
    (h : (shop.drawArchitecture texts report).run s = (report', u))
    (hquiet : report'.Undisturbed) :
    v.content u (v.place shop.output.summaryFile) = some texts.summary.toUTF8
      ∧ ∀ path ∈ artifactPaths shop.output.architectureFile,
            v.content u (v.place path)
              = pictured effect shop.output.architectureFile
                texts.markup path := by
  obtain ⟨stale, t, r, t', hclear, hput, hout⟩ := drawArchitecture_run h
  rcases hout with ⟨fault, -, -, rfl⟩ | ⟨rfl, hrender⟩
  · obtain ⟨w, hw, hcategory, -⟩ := Report.exists_warning_note
      (report.noteAll .cleanup shop.output.architectureFile stale) .architecture
      architectureDirectory fault
    exact absurd hcategory (hquiet w hw).2.2
  · have hclears := deleteEach_clears hdisk hs hclear
    have hputs := putArchitecture_spares hdisk hclears.spares.tidy hput
    have hrenders := renderFormats_renders hrenderer.confined hputs.tidy hrender
    obtain rfl : stale = [] := Report.Undisturbed.eq_nil
      (hquiet.of_extends ((Report.Extends.addMarkup _ _).trans
        hrenders.extends_report))
    have hdistinct := hdisk.distinct_architectureFile
    have hsummary : ∀ path ∈ artifactPaths shop.output.architectureFile,
        v.place path ≠ v.place shop.output.summaryFile :=
      fun _ => hdisk.place_summary_ne
    obtain ⟨c, t₁, hcreate, ⟨e, -, -, hfault⟩ | ⟨-, first, t₂, hfirst, hout⟩⟩ :=
      putArchitecture_turn hput
    · exact nomatch hfault
    · obtain ⟨e, -, -, hfault⟩ | ⟨rfl, second, hsecond, hok⟩ := hout
      · exact nomatch hfault
      · obtain rfl := mapError_eq_ok.1 hok.symm
        have hcreates := hdisk.create_spares hclears.spares.tidy hcreate
        have hfirsts := hdisk.write_spares hcreates.tidy hfirst
        have hseconds := hdisk.write_spares hfirsts.tidy hsecond
        have hgone : ∀ path ∈ artifactPaths shop.output.architectureFile,
            v.content t₂ (v.place path) = none := by
          intro path hpath
          rw [hfirsts.content _
            (by rintro p rfl; exact (hsummary path hpath).symm),
            hcreates.content _ fun _ hp => hp.elim]
          exact hclears.gone rfl path hpath (below_architecture hpath)
        obtain ⟨htext, hnone⟩ :=
          written_content hdisk hdistinct hfirsts.tidy hgone hsecond
        refine ⟨?_, renderFormats_content hrenderer hdistinct hseconds.tidy
          hrender htext hnone⟩
        rw [hrenders.spares_artifacts.content _ hsummary, hseconds.content]
        · exact hdisk.write_ok hcreates.tidy hfirst
        · rintro path rfl
          exact hsummary _ (mem_artifactPaths.2 (.inl rfl))

end Workshop

/-! ## Histories -/

/-- No name that goes into a stem holds a separator. -/
def Unslashed (solution : Solution) : Prop :=
  ∀ p ∈ solution.projects, '/' ∉ p.name.toList
    ∧ ∀ d ∈ p.documents, '/' ∉ d.stem.toList
    ∧ ∀ method ∈ d.drawableMethods, '/' ∉ method.name.toList

instance (solution : Solution) : Decidable (Unslashed solution) :=
  inferInstanceAs (Decidable
    (∀ p ∈ solution.projects, _ ∧ ∀ d ∈ p.documents, _ ∧ ∀ method ∈ _, _))

theorem flat_of_mem_plan {source : GraphSource} {filter : Option String}
    (hnames : Unslashed source.solution) {task : Task}
    (htask : task ∈ plan source filter) {d : Drawing}
    (hd : task.drawing? = some d) : Flat d.stem := by
  have hne : d.stem ≠ "" := by
    intro hempty
    have hjoint := joint_mem_of_mem_plan htask hd
    rw [hempty] at hjoint
    exact absurd hjoint (by decide)
  refine ⟨hne, ?_, undotted_of_mem_plan htask hd⟩
  obtain ⟨p, hp, -, doc, hdoc, method, hmethod, -, hstem⟩ :=
    charted_of_mem_plan htask hd
  obtain ⟨hproject, hdocs⟩ := hnames p (List.mem_filter.1 hp).1
  obtain ⟨hdocument, hmethods⟩ := hdocs doc hdoc
  rw [hstem]
  refine Text.identifier_unslashed fun part hpart => ?_
  simp only [List.mem_cons, List.not_mem_nil, or_false] at hpart
  rcases hpart with rfl | rfl | rfl
  · exact hproject
  · exact hdocument
  · exact hmethods method hmethod

/-- A file in the output directory, or further below it. -/
def Inside (v : FileView σ) (out : OutputDirectory) (f : v.File) : Prop :=
  ∃ names path, out.LeadTo names path ∧ v.place path = f

/-- Every file in the output directory is on record or one of the directory's
own, and no stem on record holds a separator. A run that deletes what is on
record then leaves nothing behind. -/
def Clean (v : FileView σ) (out : OutputDirectory) (s : σ) (m : Manifest) :
    Prop :=
  (∀ f, Inside v out f → Traced v out True m s f)
    ∧ ∀ stem, m.tracks stem = true → Flat stem

theorem clean_of_empty {disk : Disk (StateM σ)} {out : OutputDirectory}
    (hdisk : disk.Lawful v out) {s t : σ} {m : Manifest} (hs : v.tidy s)
    (hempty : ∀ f, Inside v out f → v.content s f = none)
    (hload : (out.readManifest disk).run s = (.ok m, t)) : Clean v out s m := by
  have hnone := hempty _ ⟨_, _, leadTo_manifestFile, rfl⟩
  obtain rfl := eq_of_holds hdisk hs (.inr ⟨hnone, rfl⟩) hload
  exact ⟨fun f hf => .inr ⟨trivial, .inl (hempty f hf)⟩,
    fun stem hstem => absurd hstem Manifest.not_tracks_empty⟩

variable {shop : Workshop (StateM σ)} {source : GraphSource}
  {filter : Option String} {bounds : Architecture.Bounds}

theorem run_clean (hdisk : shop.disk.Lawful v shop.output)
    (hrenderer : shop.renderer.Confined v) (hnames : Unslashed source.solution)
    {report : Report} {s u : σ} (hs : v.tidy s)
    (h : (run shop source filter bounds).run s = (report, u))
    (hquiet : report.Undisturbed)
    (hclean : ∀ m t, (shop.output.readManifest shop.disk).run s = (.ok m, t) →
      Clean v shop.output s m) :
    v.tidy u ∧ ∀ m t, (shop.output.readManifest shop.disk).run u = (.ok m, t) →
      Clean v shop.output u m := by
  obtain ⟨previous, t₁, p, t₂, q, t₃, t₄, hcourse⟩ :=
    run_kept hdisk hrenderer hs h (hquiet.keepsManifest shop.output)
  have hu := hcourse.charts.spares.tidy
  refine ⟨hu, fun m' t hload => ?_⟩
  obtain rfl :=
    eq_of_holds hdisk hu (.inl (hcourse.content_manifest hdisk)) hload
  refine ⟨fun f hf => ?_, fun stem hstem => ?_⟩
  · have hbefore := (hclean previous t₁ hcourse.load).1 f hf
    exact (hcourse.traced hdisk hrenderer (.inr fun w hw => (hquiet w hw).2.1)
      hbefore).mono
      fun _ => trivial
  · rcases Workshop.pruneProjects_recorded hcourse.prune hstem with
      hstem | hstem
    · rcases hcourse.performs.recorded hstem with
        hnone | ⟨task, htask, d, hd, rfl⟩
      · exact absurd hnone Manifest.not_tracks_empty
      · exact flat_of_mem_plan hnames htask hd
    · exact (hclean previous t₁ hcourse.load).2 stem hstem

theorem performJobs_clean {disk : Disk (StateM σ)} {out : OutputDirectory}
    (hdisk : disk.Lawful v out) {jobs : List (Job σ)}
    (hrenderers : ∀ job ∈ jobs, job.renderer.Confined v)
    (hnames : ∀ job ∈ jobs, Unslashed job.source.solution)
    {records : List (Job σ × Report)} {s u : σ} (hs : v.tidy s)
    (h : (performJobs disk out jobs).run s = (records, u))
    (hquiet : ∀ e ∈ records, e.2.Undisturbed)
    (hclean : ∀ m t, (out.readManifest disk).run s = (.ok m, t) →
      Clean v out s m) :
    v.tidy u ∧ ∀ m t, (out.readManifest disk).run u = (.ok m, t) →
    Clean v out u m := by
  induction jobs generalizing s records with
  | nil =>
      obtain ⟨rfl, rfl⟩ := run_pure.1 h
      exact ⟨hs, hclean⟩
  | cons job jobs ih =>
      obtain ⟨report, t, rest, hjob, hrest, rfl⟩ := performJobs_cons h
      obtain ⟨ht, hclean'⟩ :=
        @run_clean σ v ⟨disk, job.renderer, out⟩ _ _ _ hdisk
          (hrenderers job List.mem_cons_self) (hnames job List.mem_cons_self) _
          _ _ hs hjob (hquiet _ List.mem_cons_self) hclean
      exact ih
        (fun other hother => hrenderers other (List.mem_cons_of_mem _ hother))
        (fun other hother => hnames other (List.mem_cons_of_mem _ hother)) ht
        hrest (fun e he => hquiet e (List.mem_cons_of_mem _ he)) hclean'

/-! ## The last run -/

theorem not_retains {source : GraphSource}
    (hprepare : ∀ p ∈ source.solution.projects, source.prepare p = .ok ())
    (project : String) :
    ¬ retains none (skippedProjects (plan source none)) project = true := by
  have hskipped : skippedProjects (plan source none) = [] := by
    rw [skippedProjects, List.filterMap_eq_nil_iff]
    intro task htask
    obtain ⟨p, hp, htask⟩ := List.mem_flatMap.1 htask
    rw [projectTasks, hprepare p (List.mem_filter.1 hp).1] at htask
    obtain ⟨doc, -, htask⟩ := List.mem_flatMap.1 htask
    obtain ⟨method, -, rfl⟩ := List.mem_map.1 htask
    unfold methodTask
    split <;> rfl
  rw [retains, hskipped]
  simp [selects]

namespace Course

variable {s t₁ t₂ t₃ t₄ u : σ} {previous : Manifest} {p q : Progress}
  {report : Report}

/-- What a run has drawn stays, if its stems are in use and stems share no
files. -/
theorem content_of_drawn (hdisk : shop.disk.Lawful v shop.output)
    (hnames : Unslashed source.solution)
    (h : Course v shop source filter bounds s previous t₁ p t₂ q t₃ t₄ report u)
    (hprevious : ∀ stem, previous.tracks stem = true → Flat stem)
    (htracks : ∀ task ∈ plan source filter, ∀ d, task.drawing? = some d →
      p.manifest.tracks d.stem = true) {f : v.File}
    (hf : Workshop.Drawn v shop.output (plan source filter) f) :
    v.content t₃ f = v.content t₂ f := by
  obtain ⟨task, htask, path, ⟨d, hd, hpath⟩, rfl⟩ := hf
  refine h.prunes.spares.content _ ?_
  rintro other ⟨stem, ⟨project, -, -, hstem⟩, hnot, hother⟩ heq
  obtain ⟨rfl, -⟩ := hdisk.eq_of_place_flat
    (hprevious stem (Manifest.tracks_of_mem_stemsOf hstem))
    (flat_of_mem_plan hnames htask hd) hother hpath heq
  exact hnot (htracks task htask d hd)

/-- Nothing else is left, if no project is retained. -/
theorem gone_of_not_drawn (hdisk : shop.disk.Lawful v shop.output)
    (h : Course v shop source filter bounds s previous t₁ p t₂ q t₃ t₄ report u)
    (hretains : ∀ project,
      ¬ retains filter (skippedProjects (plan source filter)) project = true)
    (hquiet : q.report.Undisturbed) (hclean : Clean v shop.output s previous)
    {f : v.File} (hinside : Inside v shop.output f)
    (hown : ¬ Own v shop.output f)
    (hf : ¬ Workshop.Drawn v shop.output (plan source filter) f) :
    v.content t₃ f = none := by
  have hunchanged :=
    Workshop.pruneProjects_unchanged hdisk h.performs.spares.tidy h.prune
      hretains hquiet
  by_contra hcontent
  have hbefore : v.content t₂ f ≠ none :=
    fun hnone => hcontent (h.prunes.shrinks f hnone)
  -- So the file is older than the run, and its stem is on the old record.
  have hstart : v.content s f ≠ none := by
    have helsewhere : ∀ path, (∃ task ∈ plan source filter,
        Workshop.Task.Concerns shop.output task path) → v.place path ≠ f :=
      fun path ⟨task, htask, hpath⟩ heq => hf ⟨task, htask, path, hpath, heq⟩
    rwa [h.performs.spares.content f helsewhere, h.reads.content f fun _ hp =>
      hp.elim] at hbefore
  rcases hclean.1 f hinside with hheld | ⟨-, hnone | hown'⟩
  · rcases prune_held hdisk h.performs.spares.tidy h.prune hheld with
      ⟨stem, -, htracks, path, hpath, rfl⟩ | ⟨-, hgone⟩
    · -- In use: then the run has drawn the stem.
      rw [hunchanged] at htracks
      rcases h.performs.recorded htracks with hnone | ⟨task, htask, d, hd, rfl⟩
      · exact Manifest.not_tracks_empty hnone
      · exact hf ⟨task, htask, path, ⟨d, hd, hpath⟩, rfl⟩
    · exact hcontent hgone
  · exact hstart hnone
  · exact hown hown'

/-- Two runs on the same hierarchy that retain nothing, from records without a
gap: they end with the same files. -/
theorem agree (hdisk : shop.disk.Lawful v shop.output)
    {effect : String → Path → Option ByteArray}
    (hrenderer : shop.renderer.Follows v effect)
    (hnames : Unslashed source.solution)
    (hretains : ∀ project,
      ¬ retains filter (skippedProjects (plan source filter)) project = true)
    {s' t₁' t₂' t₃' t₄' u' : σ} {previous' : Manifest} {p' q' : Progress}
    {report' : Report}
    (hA : Course v shop source filter bounds s previous t₁ p t₂ q t₃ t₄
      report u)
    (hquietA : report.Undisturbed) (hcleanA : Clean v shop.output s previous)
    (hB : Course v shop source filter bounds s' previous' t₁' p' t₂' q' t₃' t₄'
      report' u')
    (hquietB : report'.Undisturbed) (hcleanB : Clean v shop.output s' previous')
    {f : v.File} (hinside : Inside v shop.output f) :
    v.content u f = v.content u' f := by
  have hprunedA := hquietA.of_extends hA.charts.extends_report
  have hprunedB := hquietB.of_extends hB.charts.extends_report
  obtain ⟨hmanifest, htracks, hdrawn⟩ :=
    Workshop.performAll_agree hdisk hrenderer
      (fun _ htask _ hd => flat_of_mem_plan hnames htask hd) hA.reads.tidy
      hA.perform (hprunedA.of_extends hA.prunes.extends_report) hB.reads.tidy
      hB.perform (hprunedB.of_extends hB.prunes.extends_report) rfl fun _ hf =>
        (hf : False).elim
  by_cases hown : Own v shop.output f
  · obtain ⟨path, hpath, rfl⟩ := hown
    obtain ⟨hsummaryA, hchartA⟩ :=
      Workshop.drawArchitecture_content hdisk hrenderer
        hA.saves.tidy hA.draw hquietA
    obtain ⟨hsummaryB, hchartB⟩ :=
      Workshop.drawArchitecture_content hdisk hrenderer
        hB.saves.tidy hB.draw hquietB
    rcases List.mem_cons.1 hpath with rfl | hpath
    · rw [hA.content_manifest hdisk, hB.content_manifest hdisk,
        Workshop.pruneProjects_unchanged hdisk hA.performs.spares.tidy hA.prune
        hretains hprunedA,
        Workshop.pruneProjects_unchanged hdisk hB.performs.spares.tidy hB.prune
        hretains hprunedB,
        hmanifest]
    · rcases List.mem_cons.1 hpath with rfl | hpath
      · rw [hsummaryA, hsummaryB]
      · rw [hchartA path hpath, hchartB path hpath]
  · -- Any other file is one of the plan, or gone.
    rw [hA.content_of_not_own hown, hB.content_of_not_own hown]
    by_cases hf : Workshop.Drawn v shop.output (plan source filter) f
    · rw [hA.content_of_drawn hdisk hnames hcleanA.2 htracks hf,
        hB.content_of_drawn hdisk hnames hcleanB.2 (hmanifest ▸ htracks) hf]
      exact hdrawn f (.inr hf)
    · rw [hA.gone_of_not_drawn hdisk hretains hprunedA hcleanA hinside hown hf,
        hB.gone_of_not_drawn hdisk hretains hprunedB hcleanB hinside hown hf]

end Course

/-- A project with a method is drawn. -/
def drawnJob : Job FileTree := sampleJob [sampleProject "A" "C.cs"] none

/-- The project has another method instead. -/
def changedJob : Job FileTree := sampleJob [sampleProject "A" "D.cs"] none

theorem bytesAt_sampleTree (l : Location) : sampleTree.bytesAt l = none := by
  refine FileTree.bytesAt_none fun content executable h => ?_
  rw [at?_sampleTree] at h
  split at h <;> exact nomatch h

end Run

end FlowAtlas
