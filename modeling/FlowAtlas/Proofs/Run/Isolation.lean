import FlowAtlas.Proofs.Disk.Promises
import FlowAtlas.Proofs.Run.Keeping
import FlowAtlas.Proofs.Run.Regeneration
import Mathlib.Data.List.Forall2

/-!
# A failure stays with its method

Two runs start from the same state, and the second one cannot get the graph of
one method. They end alike but for what belongs to the stem of this method: its
files, its place in the manifest, and the warnings about it.

The runs are carried through in lockstep. At each moment the same stands
everywhere but at the files of the stem (`SameOff`), and reports and manifests
agree but for it (`Progress.AgreesOff`). A turn about something else has the
same outcome in both runs, because it depends on nothing but its own paths. A
turn about the stem may go differently in each of them, and so it is looked at
in one run at a time: whatever it does, it does to the stem (`ConcernsOnly`).

The deleting is where the stem could be felt elsewhere, since it asks what is in
use. But it asks stem by stem, and other stems are in use in both runs or in
neither.
-/

namespace FlowAtlas

open OutputDirectory

namespace Run

/-! ## What a stem is the reason for -/

section About

variable (out : OutputDirectory) (unit stem : String) (lost : Fault → Prop)

/-- A warning that a method has no graph, for one of some reasons, or that
something went wrong with a file of a stem. -/
inductive About : Warning → Prop
  | graph {fault : Fault} : lost fault → About ⟨.graphBuild, unit, fault.render⟩
  | stale {path : Path} {e : SystemError} :
      path ∈ artifactPaths (out.markupFile stem) →
        About ⟨.cleanup, out.markupFile stem,
          (faultAt "output::remove_stale" path e).render⟩
  | pruned {path : Path} {e : SystemError} :
      path ∈ artifactPaths (out.markupFile stem) →
        About ⟨.cleanup, stem, (faultAt "output::remove_stale" path e).render⟩
  | write {unit : String} {e : SystemError} :
      About ⟨.write, unit, (markupFault (out.markupFile stem) e).render⟩
  | render {format : Raster} {fault : Fault} :
      About ⟨.render, format.name ++ " " ++ format.path (out.markupFile stem),
        fault.render⟩

end About

/-- Two reports agree off a stem: they list the same files but for those of the
stem, the same deleted stems but for this one, and the same warnings but for
those that count as being about it. The order counts, so no turn of one run may
be missing from the other. -/
structure Report.AgreesOff (out : OutputDirectory) (stem : String)
    (about : Warning → Prop) (r r' : Report) : Prop where
  written :
    (r.written.filter fun path => path ∉ artifactPaths (out.markupFile stem))
      = r'.written.filter fun path => path ∉ artifactPaths (out.markupFile stem)
  rendered :
    (r.rendered.filter fun path => path ∉ artifactPaths (out.markupFile stem))
      = r'.rendered.filter fun path =>
        path ∉ artifactPaths (out.markupFile stem)
  pruned : (r.pruned.filter fun other => other ≠ stem)
    = r'.pruned.filter fun other => other ≠ stem
  warnings : ∀ keep : Warning → Bool, (∀ w, about w → keep w = false) →
    r.warnings.filter keep = r'.warnings.filter keep

namespace Report.AgreesOff

variable {out : OutputDirectory} {stem : String} {about : Warning → Prop}
  {r r' r'' : Report}

theorem refl (r : Report) : r.AgreesOff out stem about r :=
  ⟨rfl, rfl, rfl, fun _ _ => rfl⟩

theorem symm (h : r.AgreesOff out stem about r') :
    r'.AgreesOff out stem about r :=
  ⟨h.written.symm, h.rendered.symm, h.pruned.symm, fun keep hkeep =>
    (h.warnings keep hkeep).symm⟩

theorem trans (h : r.AgreesOff out stem about r')
    (h' : r'.AgreesOff out stem about r'') :
    r.AgreesOff out stem about r'' :=
  ⟨h.written.trans h'.written, h.rendered.trans h'.rendered,
    h.pruned.trans h'.pruned, fun keep hkeep =>
      (h.warnings keep hkeep).trans (h'.warnings keep hkeep)⟩

/-! Both reports go on in the same way. -/

theorem note (h : r.AgreesOff out stem about r') (category : Category)
    (unit : String) (fault : Fault) :
    (r.note category unit fault).AgreesOff out stem about
      (r'.note category unit fault) := by
  refine ⟨h.written, h.rendered, h.pruned, fun keep hkeep => ?_⟩
  rw [Report.note, Report.note, List.filter_append, List.filter_append,
    h.warnings keep hkeep]

theorem noteAll (h : r.AgreesOff out stem about r') (category : Category)
    (unit : String) (faults : List Fault) :
    (r.noteAll category unit faults).AgreesOff out stem about
      (r'.noteAll category unit faults) := by
  induction faults generalizing r r' with
  | nil => exact h
  | cons fault faults ih => exact ih (h.note category unit fault)

theorem addMarkup (h : r.AgreesOff out stem about r') (path : Path) :
    (r.addMarkup path).AgreesOff out stem about (r'.addMarkup path) := by
  refine ⟨?_, h.rendered, h.pruned, h.warnings⟩
  rw [Report.addMarkup, Report.addMarkup, List.filter_append,
    List.filter_append, h.written]

theorem addRaster (h : r.AgreesOff out stem about r') (path : Path) :
    (r.addRaster path).AgreesOff out stem about (r'.addRaster path) := by
  refine ⟨h.written, ?_, h.pruned, h.warnings⟩
  rw [Report.addRaster, Report.addRaster, List.filter_append,
    List.filter_append, h.rendered]

theorem afterRender (h : r.AgreesOff out stem about r') (markup : Path)
    (format : Raster) (result : Except Fault Unit) :
    (r.afterRender markup format result).AgreesOff out stem about
      (r'.afterRender markup format result) := by
  cases result with
  | ok a => exact h.addRaster _
  | error fault => exact h.note _ _ _

theorem addPruned (h : r.AgreesOff out stem about r') (other : String) :
    (r.addPruned other).AgreesOff out stem about (r'.addPruned other) := by
  refine ⟨h.written, h.rendered, ?_, h.warnings⟩
  rw [Report.addPruned, Report.addPruned, List.filter_append,
    List.filter_append, h.pruned]

/-! One report goes on, and what it says does not count. -/

theorem of_note (r : Report) {category : Category} {unit : String}
    {fault : Fault} (hw : about ⟨category, unit, fault.render⟩) :
    r.AgreesOff out stem about (r.note category unit fault) := by
  refine ⟨rfl, rfl, rfl, fun keep hkeep => ?_⟩
  rw [Report.note, List.filter_append,
    List.filter_cons_of_neg (by simp [hkeep _ hw])]
  exact (List.append_nil _).symm

theorem of_noteAll (r : Report) {category : Category} {unit : String}
    {faults : List Fault}
    (hw : ∀ fault ∈ faults, about ⟨category, unit, fault.render⟩) :
    r.AgreesOff out stem about (r.noteAll category unit faults) := by
  induction faults generalizing r with
  | nil => exact refl r
  | cons fault faults ih =>
      obtain ⟨hfault, hfaults⟩ := List.forall_mem_cons.1 hw
      exact (of_note r hfault).trans (ih _ hfaults)

theorem of_addMarkup (r : Report) {path : Path}
    (hpath : path ∈ artifactPaths (out.markupFile stem)) :
    r.AgreesOff out stem about (r.addMarkup path) := by
  refine ⟨?_, rfl, rfl, fun _ _ => rfl⟩
  rw [Report.addMarkup, List.filter_append,
    List.filter_cons_of_neg (by simp [hpath])]
  exact (List.append_nil _).symm

theorem of_addRaster (r : Report) {path : Path}
    (hpath : path ∈ artifactPaths (out.markupFile stem)) :
    r.AgreesOff out stem about (r.addRaster path) := by
  refine ⟨rfl, ?_, rfl, fun _ _ => rfl⟩
  rw [Report.addRaster, List.filter_append,
    List.filter_cons_of_neg (by simp [hpath])]
  exact (List.append_nil _).symm

theorem of_addPruned
    (r : Report) : r.AgreesOff out stem about (r.addPruned stem) := by
  refine ⟨rfl, rfl, ?_, fun _ _ => rfl⟩
  rw [Report.addPruned, List.filter_append, List.filter_cons_of_neg (by simp)]
  exact (List.append_nil _).symm

end Report.AgreesOff

/-- Two runs have come to the same off a stem: their reports agree, and every
other stem is on record for the same projects. Whether the stem itself is on
record may differ, and so what the deleting asks about it may be answered
differently. -/
structure Progress.AgreesOff (out : OutputDirectory) (stem : String)
    (about : Warning → Prop) (p q : Progress) : Prop where
  report : p.report.AgreesOff out stem about q.report
  stems : ∀ project other, other ≠ stem →
    (other ∈ p.manifest.stemsOf project ↔ other ∈ q.manifest.stemsOf project)

namespace Progress.AgreesOff

variable {out : OutputDirectory} {stem : String} {about : Warning → Prop}
  {p q q' : Progress}

theorem refl (p : Progress) : p.AgreesOff out stem about p :=
  ⟨.refl _, fun _ _ _ => Iff.rfl⟩

theorem symm (h : p.AgreesOff out stem about q) :
    q.AgreesOff out stem about p :=
  ⟨h.report.symm, fun project other hne => (h.stems project other hne).symm⟩

theorem trans (h : p.AgreesOff out stem about q)
    (h' : q.AgreesOff out stem about q') :
    p.AgreesOff out stem about q' :=
  ⟨h.report.trans h'.report,
    fun project other hne =>
      (h.stems project other hne).trans (h'.stems project other hne)⟩

theorem tracks_iff (h : p.AgreesOff out stem about q) {other : String}
    (hne : other ≠ stem) :
    p.manifest.tracks other = true ↔ q.manifest.tracks other = true := by
  simp only [Manifest.tracks_eq_true_iff, h.stems _ _ hne]

theorem add (h : p.AgreesOff out stem about q) {r r' : Report}
    (hr : r.AgreesOff out stem about r') (project other : String) :
    Progress.AgreesOff out stem about ⟨r, p.manifest.add project other⟩
      ⟨r', q.manifest.add project other⟩ := by
  refine ⟨hr, fun project' other' hne => ?_⟩
  rw [Manifest.mem_stemsOf_add, Manifest.mem_stemsOf_add,
    h.stems project' other' hne]

theorem takeOver (h : p.AgreesOff out stem about q) (previous : Manifest)
    (project : String) :
    Progress.AgreesOff out stem about
      { p with manifest := p.manifest.takeOver previous project }
      { q with manifest := q.manifest.takeOver previous project } := by
  refine ⟨h.report, fun project' other hne => ?_⟩
  rw [Manifest.mem_stemsOf_takeOver, Manifest.mem_stemsOf_takeOver,
    h.stems project' other hne]

theorem of_add (p : Progress) {r : Report}
    (hr : p.report.AgreesOff out stem about r) (project : String) :
    p.AgreesOff out stem about ⟨r, p.manifest.add project stem⟩ := by
  refine ⟨hr, fun project' other hne => ?_⟩
  rw [Manifest.mem_stemsOf_add]
  exact ⟨.inr, fun h => h.resolve_left fun heq => hne heq.2⟩

end Progress.AgreesOff

/-! ## Alike in both runs -/

variable {σ : Type} {v : FileView σ} {g : Sight v} {known : String → Prop}

/-- A path that is apart from some others: no file is at it and at one of them,
and what an operation on it depends on is not at them either. So two states that
agree off those paths agree at all that matters for this one
(`ApartFrom.agreeAt`). -/
structure ApartFrom (v : FileView σ) (out : OutputDirectory) (off : List Path)
    (p : Path) : Prop where
  own : ∀ q ∈ off, v.place q ≠ v.place p
  above : p ∈ out.architecturePaths →
    ∀ q ∈ off, v.place q ≠ v.place out.architectureRoot

theorem ApartFrom.agreeAt {out : OutputDirectory} {off : List Path} {p : Path}
    {s s' : σ} (hp : ApartFrom v out off p) (h : g.SameOff off s s') :
    g.AgreeAt out p s s' :=
  ⟨h _ hp.own, fun harch => h _ (hp.above harch)⟩

/-- Operations on one path that leave the same there. -/
theorem sameOff_step {off : List Path} {p : Path} {s t s' t' : σ}
    (h : g.SameOff off s s') (hs : g.SameOff [p] s t)
    (hs' : g.SameOff [p] s' t')
    (hp : g.look t (v.place p) = g.look t' (v.place p)) :
    g.SameOff off t t' := by
  intro f hf
  by_cases heq : v.place p = f
  · rw [← heq, hp]
  · have hone : ∀ q ∈ [p], v.place q ≠ f := List.forall_mem_singleton.2 heq
    rw [← hs f hone, ← hs' f hone, h f hf]

section Alike

variable {disk : Disk (StateM σ)} {out : OutputDirectory} {off : List Path}
  {s t s' t' : σ}

theorem removeFile_agreesOff (hdisk : disk.Local g out known) {p : Path}
    (hp : out.Member known p) (hapart : ApartFrom v out off p) (hs : v.tidy s)
    (hs' : v.tidy s') (h : g.SameOff off s s') {r r' : Except SystemError Unit}
    (hrun : (disk.removeFile p).run s = (r, t))
    (hrun' : (disk.removeFile p).run s' = (r', t')) :
    r = r' ∧ g.SameOff off t t' := by
  obtain ⟨hr, hlook⟩ :=
    hdisk.remove_same hp hs hs' (hapart.agreeAt h) hrun hrun'
  exact ⟨hr, sameOff_step h (hdisk.remove_only hs hrun)
    (hdisk.remove_only hs' hrun') hlook⟩

theorem writeText_agreesOff (hdisk : disk.Local g out known) {p : Path}
    {text : String} (hp : out.Member known p) (hapart : ApartFrom v out off p)
    (hs : v.tidy s) (hs' : v.tidy s') (h : g.SameOff off s s')
    {r r' : Except SystemError Unit}
    (hrun : (disk.writeText p text).run s = (r, t))
    (hrun' : (disk.writeText p text).run s' = (r', t')) :
    r = r' ∧ g.SameOff off t t' := by
  obtain ⟨hr, hlook⟩ := hdisk.write_same hp hs hs' (hapart.agreeAt h) hrun hrun'
  exact ⟨hr, sameOff_step h (hdisk.write_only hs hrun)
    (hdisk.write_only hs' hrun') (hlook rfl)⟩

theorem deleteEach_agreesOff (hdisk : disk.Local g out known)
    {paths : List Path} (hpaths : ∀ p ∈ paths, out.Member known p)
    (hapart : ∀ p ∈ paths, ApartFrom v out off p) (hs : v.tidy s)
    (hs' : v.tidy s') (h : g.SameOff off s s') {faults faults' : List Fault}
    (hrun : (deleteEach disk paths).run s = (faults, t))
    (hrun' : (deleteEach disk paths).run s' = (faults', t')) :
    faults = faults' ∧ g.SameOff off t t' := by
  induction paths generalizing s s' faults faults' with
  | nil =>
      obtain ⟨rfl, rfl⟩ := run_pure.1 hrun
      obtain ⟨rfl, rfl⟩ := run_pure.1 hrun'
      exact ⟨rfl, h⟩
  | cons path paths ih =>
      obtain ⟨hpath, hpaths⟩ := List.forall_mem_cons.1 hpaths
      obtain ⟨hfirst, hapart⟩ := List.forall_mem_cons.1 hapart
      obtain ⟨r, a, more, hremove, hmore, rfl⟩ := deleteEach_turn hrun
      obtain ⟨r', a', more', hremove', hmore', rfl⟩ := deleteEach_turn hrun'
      obtain ⟨rfl, ha⟩ :=
        removeFile_agreesOff hdisk hpath hfirst hs hs' h hremove hremove'
      obtain ⟨rfl, ht⟩ := ih hpaths hapart (hdisk.remove_spares hs hremove).tidy
        (hdisk.remove_spares hs' hremove').tidy ha hmore hmore'
      exact ⟨rfl, ht⟩

end Alike

/-! ## Rendering -/

namespace Workshop

variable {shop : Workshop (StateM σ)} {unit stem : String} {lost : Fault → Prop}
  {about : Warning → Prop} {s t s' t' : σ}

theorem renderEach_agreesOff
    (hrenderer : shop.renderer.Local g shop.output known) {off : List Path}
    {markup : Path}
    (hmembers : ∀ p ∈ artifactPaths markup, shop.output.Member known p)
    (hapart : ∀ p ∈ artifactPaths markup, ApartFrom v shop.output off p)
    {formats : List Raster} {report report' final final' : Report}
    (hs : v.tidy s) (hs' : v.tidy s') (h : g.SameOff off s s')
    (hreport : report.AgreesOff shop.output stem about report')
    (hrun : (shop.renderEach markup formats report).run s = (final, t))
    (hrun' : (shop.renderEach markup formats report').run s' = (final', t')) :
    final.AgreesOff shop.output stem about final' ∧ g.SameOff off t t' :=
  renderEach_agree hrenderer hmembers (fun h p hp => (hapart p hp).agreeAt h)
    sameOff_step (fun format r hagrees => hagrees.afterRender markup format r)
    hs hs' h hreport hrun hrun'

/-! ## About the stem -/

/-- All that one run has done between two moments concerns a stem: off its files
the same stands as before, and reports and records agree off it. Nothing is said
of the other run, which may have done something else about the stem, or
nothing. -/
structure ConcernsOnly (g : Sight v) (out : OutputDirectory) (stem : String)
    (about : Warning → Prop) (p : Progress) (s : σ) (p' : Progress) (t : σ) :
    Prop where
  tidy : v.tidy t
  look : g.SameOff (artifactPaths (out.markupFile stem)) s t
  agrees : p.AgreesOff out stem about p'

theorem renderEach_concernsOnly {formats : List Raster}
    {report report' : Report}
    (h : (shop.renderEach (shop.output.markupFile stem) formats report).run s
      = (report', t)) :
    report.AgreesOff shop.output stem (About shop.output unit stem lost)
      report' := by
  induction formats generalizing s report with
  | nil =>
      obtain ⟨rfl, rfl⟩ := run_pure.1 h
      exact .refl _
  | cons format formats ih =>
      obtain ⟨r, a, -, hrest⟩ := renderEach_turn h
      refine .trans ?_ (ih hrest)
      cases r with
      | ok a => exact .of_addRaster _ (mem_artifactPaths.2 (.inr ⟨format, rfl⟩))
      | error fault => exact .of_note _ .render

theorem draw_concernsOnly (hdisk : shop.disk.Local g shop.output known)
    (hrenderer : shop.renderer.Local g shop.output known) {d : Drawing}
    {p p' : Progress} (hs : v.tidy s) (h : (shop.draw d p).run s = (p', t)) :
    ConcernsOnly g shop.output d.stem (About shop.output unit d.stem lost) p s
      p' t := by
  have ht := (draw_performs hdisk.toLawful hrenderer.confined hs h).spares.tidy
  have hlook : g.SameOff (artifactPaths (shop.output.markupFile d.stem)) s t :=
    fun f hf => (draw_within (look_within hdisk hrenderer f) hf h hs).2
  obtain ⟨stale, a, r, b, hclear, hput, hout⟩ := draw_run h
  obtain ⟨w, -, hr⟩ := putMarkup_turn hput
  have hstale :
      p.report.AgreesOff shop.output d.stem (About shop.output unit d.stem lost)
        (p.report.noteAll .cleanup (shop.output.markupFile d.stem) stale) := by
    refine .of_noteAll _ fun fault hfault => ?_
    obtain ⟨path, hpath, e, rfl⟩ := exists_of_mem_faults hclear hfault
    exact .stale hpath
  rcases hout with ⟨fault, rfl, rfl, rfl⟩ | ⟨rfl, report, hrender, rfl⟩
  · refine ⟨ht, hlook, hstale.trans ?_, fun _ _ _ => Iff.rfl⟩
    cases w with
    | ok u => exact nomatch hr
    | error e =>
        obtain rfl := Except.error.inj hr
        exact .of_note _ .write
  · have hmarkup : shop.output.markupFile d.stem
        ∈ artifactPaths (shop.output.markupFile d.stem) :=
      mem_artifactPaths.2 (.inl rfl)
    refine ⟨ht, hlook, .of_add p ?_ _⟩
    exact (hstale.trans (.of_addMarkup _ hmarkup)).trans
      (renderEach_concernsOnly hrender)

/-! ## The plan -/

theorem draw_agreesOff (hdisk : shop.disk.Local g shop.output known)
    (hrenderer : shop.renderer.Local g shop.output known) {off : List Path}
    {d : Drawing}
    (hmembers : ∀ p ∈ artifactPaths (shop.output.markupFile d.stem),
      shop.output.Member known p)
    (hapart : ∀ p ∈ artifactPaths (shop.output.markupFile d.stem),
      ApartFrom v shop.output off p)
    {p p' q q' : Progress} (hs : v.tidy s) (hs' : v.tidy s')
    (h : g.SameOff off s s') (hagrees : p.AgreesOff shop.output stem about q)
    (hrun : (shop.draw d p).run s = (p', t))
    (hrun' : (shop.draw d q).run s' = (q', t')) :
    p'.AgreesOff shop.output stem about q' ∧ g.SameOff off t t' := by
  have hmarkup : shop.output.markupFile d.stem
      ∈ artifactPaths (shop.output.markupFile d.stem) :=
    mem_artifactPaths.2 (.inl rfl)
  obtain ⟨stale, a, r, b, hclear, hput, hout⟩ := draw_run hrun
  obtain ⟨stale', a', r', b', hclear', hput', hout'⟩ := draw_run hrun'
  obtain ⟨w, hwrite, rfl⟩ := putMarkup_turn hput
  obtain ⟨w', hwrite', rfl⟩ := putMarkup_turn hput'
  have ha := (deleteEach_clears hdisk.toLawful hs hclear).spares.tidy
  have ha' := (deleteEach_clears hdisk.toLawful hs' hclear').spares.tidy
  have hb := (hdisk.write_spares ha hwrite).tidy
  have hb' := (hdisk.write_spares ha' hwrite').tidy
  obtain ⟨rfl, hcleared⟩ :=
    deleteEach_agreesOff hdisk hmembers hapart hs hs' h hclear hclear'
  obtain ⟨rfl, hwritten⟩ :=
    writeText_agreesOff hdisk (hmembers _ hmarkup) (hapart _ hmarkup) ha ha'
      hcleared hwrite hwrite'
  have hreport :=
    hagrees.report.noteAll .cleanup (shop.output.markupFile d.stem) stale
  rcases hout with ⟨fault, hfault, rfl, rfl⟩ | ⟨hok, report, hrender, rfl⟩
  · rcases hout' with ⟨fault', hfault', rfl, rfl⟩ | ⟨hok', -⟩
    · obtain rfl := Except.error.inj (hfault.symm.trans hfault')
      exact ⟨⟨hreport.note _ _ _, hagrees.stems⟩, hwritten⟩
    · exact nomatch hfault.symm.trans hok'
  · rcases hout' with ⟨fault', hfault', -⟩ | ⟨-, report', hrender', rfl⟩
    · exact nomatch hok.symm.trans hfault'
    · obtain ⟨hrendered, hlook⟩ :=
        renderEach_agreesOff hrenderer hmembers hapart hb hb' hwritten
          (hreport.addMarkup _) hrender hrender'
      exact ⟨hagrees.add hrendered _ _, hlook⟩

end Workshop

/-- A step about a stem, or about the method that has no graph. -/
def Task.Stray (unit stem : String) (lost : Fault → Prop) (task : Task) :
    Prop :=
  (∃ d, task = .draw d ∧ d.stem = stem)
    ∨ ∃ fault, lost fault ∧ task = .miss unit fault

/-- Steps of two plans at the same place: the same step, or both are about the
stem. -/
inductive Task.Parallel (unit stem : String)
    (lost : Fault → Prop) : Task → Task → Prop
  | same {task : Task} : (∀ d, task.drawing? = some d → d.stem ≠ stem) →
      Parallel unit stem lost task task
  | stray {task task' : Task} :
      task.Stray unit stem lost → task'.Stray unit stem lost →
        Parallel unit stem lost task task'

theorem Task.Parallel.refl {unit stem : String} {lost : Fault → Prop}
    (task : Task) :
    task.Parallel unit stem lost task := by
  by_cases h : ∃ d, task.drawing? = some d ∧ d.stem = stem
  · obtain ⟨d, hd, hstem⟩ := h
    cases task with
    | skip project fault => exact nomatch hd
    | miss unit fault => exact nomatch hd
    | draw d' =>
        obtain rfl := Option.some.inj hd
        exact .stray (.inl ⟨d', rfl, hstem⟩) (.inl ⟨d', rfl, hstem⟩)
  · exact .same fun d hd hstem => h ⟨d, hd, hstem⟩

/-- A source that differs from another one in that it has no graph of one
method. -/
structure FailsAt (source broken : GraphSource) (p : Project) (d : Document)
    (method : Method) : Prop where
  solution : broken.solution = source.solution
  prepare : broken.prepare = source.prepare
  fails : ∃ fault, broken.graphOf p d method = .error fault
  elsewhere : ∀ p' d' method', (p', d', method') ≠ (p, d, method) →
    broken.graphOf p' d' method' = source.graphOf p' d' method'

/-- Why one of two sources has no graph of a method. -/
def Lost (source broken : GraphSource) (p : Project) (d : Document)
    (method : Method) (fault : Fault) : Prop :=
  source.graphOf p d method = .error fault
    ∨ broken.graphOf p d method = .error fault

theorem methodTask_stray {source : GraphSource} {p : Project} {d : Document}
    {method : Method} {lost : Fault → Prop}
    (hlost : ∀ fault, source.graphOf p d method = .error fault → lost fault) :
    (methodTask source p d method).Stray (unitOf p d method)
      (stemOf p d method) lost := by
  unfold methodTask
  split
  · next fault hfault => exact .inr ⟨fault, hlost fault hfault, rfl⟩
  · exact .inl ⟨_, rfl, rfl⟩

namespace FailsAt

variable {source broken : GraphSource} {p : Project} {d : Document}
  {method : Method}

theorem methodTask_parallel (h : FailsAt source broken p d method)
    (p' : Project) (d' : Document) (method' : Method) :
    (methodTask source p' d' method').Parallel (unitOf p d method)
      (stemOf p d method) (Lost source broken p d method)
      (methodTask broken p' d' method') := by
  by_cases hthis : (p', d', method') = (p, d, method)
  · obtain ⟨rfl, hrest⟩ := Prod.mk.inj hthis
    obtain ⟨rfl, rfl⟩ := Prod.mk.inj hrest
    exact .stray (methodTask_stray fun _ => .inl)
      (methodTask_stray fun _ => .inr)
  · have hsame :
        methodTask broken p' d' method' = methodTask source p' d' method' := by
      rw [methodTask, methodTask, h.elsewhere p' d' method' hthis]
    rw [hsame]
    exact .refl _

theorem plan_parallel (h : FailsAt source broken p d method)
    (filter : Option String) :
    List.Forall₂ (Task.Parallel (unitOf p d method) (stemOf p d method)
      (Lost source broken p d method)) (plan source filter)
    (plan broken filter) := by
  rw [plan, plan, h.solution]
  refine List.rel_flatMap (List.forall₂_same.2 fun _ _ => Eq.refl _) ?_
  rintro p' _ rfl
  rw [projectTasks, projectTasks, h.prepare]
  cases source.prepare p' with
  | error fault => exact .cons (.refl _) .nil
  | ok u =>
      refine List.rel_flatMap (List.forall₂_same.2 fun _ _ => Eq.refl _) ?_
      rintro d' _ rfl
      rw [List.forall₂_map_left_iff, List.forall₂_map_right_iff,
        List.forall₂_same]
      exact fun method' _ => h.methodTask_parallel p' d' method'

end FailsAt

theorem skippedProjects_of_parallel {unit stem : String} {lost : Fault → Prop}
    {tasks tasks' : List Task}
    (h : List.Forall₂ (Task.Parallel unit stem lost) tasks tasks') :
    skippedProjects tasks = skippedProjects tasks' := by
  have hstray :
      ∀ {task : Task}, task.Stray unit stem lost → task.skipped? = none := by
    rintro task (⟨d, rfl, -⟩ | ⟨fault, -, rfl⟩) <;> rfl
  induction h with
  | nil => rfl
  | @cons task task' tasks tasks' htask _ ih =>
      have hhead : task.skipped? = task'.skipped? := by
        cases htask with
        | same _ => rfl
        | stray h h' => rw [hstray h, hstray h']
      unfold skippedProjects at ih ⊢
      rw [List.filterMap_cons, List.filterMap_cons, hhead, ih]

theorem apartFrom_of_ne {disk : Disk (StateM σ)} {out : OutputDirectory}
    (hdisk : disk.Local g out known) {stem other : String} (hflat : Flat stem)
    (hjoint : Text.joint ∈ stem.toList) (hother : known other)
    (hne : other ≠ stem) :
    ∀ p ∈ artifactPaths (out.markupFile other),
      ApartFrom v out (artifactPaths (out.markupFile stem)) p := fun p hp =>
  ⟨fun q hq => hdisk.apart hflat hjoint hother hne q hq p hp,
    fun _ _ hq => hdisk.place_architectureRoot_ne hflat hjoint hq⟩

theorem apartFrom_of_own {disk : Disk (StateM σ)} {out : OutputDirectory}
    (hdisk : disk.Local g out known) {stem : String} (hflat : Flat stem)
    (hjoint : Text.joint ∈ stem.toList) {p : Path} (hp : p ∈ out.ownPaths) :
    ApartFrom v out (artifactPaths (out.markupFile stem)) p :=
  ⟨fun _ hq => (hdisk.place_own_ne hflat.undotted hjoint
      (Path.not_isAbsolute_of_unslashed hflat.unslashed) hp hq).symm,
    fun _ _ hq => hdisk.place_architectureRoot_ne hflat hjoint hq⟩

namespace Workshop

variable {shop : Workshop (StateM σ)} {unit stem : String} {lost : Fault → Prop}
  {s t s' t' : σ}

/-- What is about the stem in both runs leaves them alike. -/
theorem ConcernsOnly.both {out : OutputDirectory} {about : Warning → Prop}
    {p p' q q' : Progress} (h : ConcernsOnly g out stem about p s p' t)
    (h' : ConcernsOnly g out stem about q s' q' t')
    (hlook : g.SameOff (artifactPaths (out.markupFile stem)) s s')
    (hagrees : p.AgreesOff out stem about q) :
    p'.AgreesOff out stem about q'
      ∧ g.SameOff (artifactPaths (out.markupFile stem)) t t' :=
  ⟨(h.agrees.symm.trans hagrees).trans h'.agrees,
    (h.look.symm.trans hlook).trans h'.look⟩

theorem perform_concernsOnly (hdisk : shop.disk.Local g shop.output known)
    (hrenderer : shop.renderer.Local g shop.output known) {task : Task}
    (htask : task.Stray unit stem lost) {p p' : Progress} (hs : v.tidy s)
    (h : (shop.perform p task).run s = (p', t)) :
    ConcernsOnly g shop.output stem (About shop.output unit stem lost) p s
      p' t := by
  rcases htask with ⟨d, rfl, rfl⟩ | ⟨fault, hlost, rfl⟩
  · exact draw_concernsOnly hdisk hrenderer hs h
  · obtain ⟨rfl, rfl⟩ := run_pure.1 h
    exact ⟨hs, .refl _, .of_note _ (.graph hlost), fun _ _ _ => Iff.rfl⟩

theorem perform_agreesOff (hdisk : shop.disk.Local g shop.output known)
    (hrenderer : shop.renderer.Local g shop.output known) (hflat : Flat stem)
    (hjoint : Text.joint ∈ stem.toList) {task task' : Task}
    (htask : task.Parallel unit stem lost task')
    (hdrawn : ∀ d, task.drawing? = some d → Flat d.stem) {p p' q q' : Progress}
    (hs : v.tidy s) (hs' : v.tidy s')
    (h : g.SameOff (artifactPaths (shop.output.markupFile stem)) s s')
    (hagrees : p.AgreesOff shop.output stem (About shop.output unit stem lost)
      q)
    (hrun : (shop.perform p task).run s = (p', t))
    (hrun' : (shop.perform q task').run s' = (q', t')) :
    p'.AgreesOff shop.output stem (About shop.output unit stem lost) q'
      ∧ g.SameOff (artifactPaths (shop.output.markupFile stem)) t t' := by
  cases htask with
  | stray hstray hstray' =>
      exact (perform_concernsOnly hdisk hrenderer hstray hs hrun).both
        (perform_concernsOnly hdisk hrenderer hstray' hs' hrun') h hagrees
  | same hother =>
      cases task with
      | skip project fault =>
          obtain ⟨rfl, rfl⟩ := run_pure.1 hrun
          obtain ⟨rfl, rfl⟩ := run_pure.1 hrun'
          exact ⟨⟨hagrees.report.note _ _ _, hagrees.stems⟩, h⟩
      | miss unit' fault =>
          obtain ⟨rfl, rfl⟩ := run_pure.1 hrun
          obtain ⟨rfl, rfl⟩ := run_pure.1 hrun'
          exact ⟨⟨hagrees.report.note _ _ _, hagrees.stems⟩, h⟩
      | draw d =>
          have hknown := hdisk.known_flat (hdrawn d rfl)
          exact draw_agreesOff hdisk hrenderer (member_of_known hknown)
            (apartFrom_of_ne hdisk hflat hjoint hknown (hother d rfl)) hs hs' h
            hagrees hrun hrun'

theorem performAll_agreesOff (hdisk : shop.disk.Local g shop.output known)
    (hrenderer : shop.renderer.Local g shop.output known) (hflat : Flat stem)
    (hjoint : Text.joint ∈ stem.toList) {tasks tasks' : List Task}
    (htasks : List.Forall₂ (Task.Parallel unit stem lost) tasks tasks')
    (hdrawn : ∀ task ∈ tasks, ∀ d, task.drawing? = some d → Flat d.stem)
    {p p' q q' : Progress} (hs : v.tidy s) (hs' : v.tidy s')
    (h : g.SameOff (artifactPaths (shop.output.markupFile stem)) s s')
    (hagrees :
      p.AgreesOff shop.output stem (About shop.output unit stem lost) q)
    (hrun : (shop.performAll tasks p).run s = (p', t))
    (hrun' : (shop.performAll tasks' q).run s' = (q', t')) :
    p'.AgreesOff shop.output stem (About shop.output unit stem lost) q'
      ∧ g.SameOff (artifactPaths (shop.output.markupFile stem)) t t' := by
  induction htasks generalizing p q s s' with
  | nil =>
      obtain ⟨rfl, rfl⟩ := run_pure.1 hrun
      obtain ⟨rfl, rfl⟩ := run_pure.1 hrun'
      exact ⟨hagrees, h⟩
  | cons htask _ ih =>
      obtain ⟨hfirst, hdrawn⟩ := List.forall_mem_cons.1 hdrawn
      obtain ⟨p₁, a, hturn, hrest⟩ := performAll_cons hrun
      obtain ⟨q₁, a', hturn', hrest'⟩ := performAll_cons hrun'
      obtain ⟨hagrees₁, ha⟩ :=
        perform_agreesOff hdisk hrenderer hflat hjoint htask hfirst hs hs' h
          hagrees hturn hturn'
      exact ih hdrawn
        (perform_performs hdisk.toLawful hrenderer.confined hs
          hturn).spares.tidy
        (perform_performs hdisk.toLawful hrenderer.confined hs'
          hturn').spares.tidy ha hagrees₁ hrest
        hrest'

/-! ## The deleting -/

/-- A turn of the deleting at the stem itself, whatever it comes to. -/
theorem pruneStems_stray_turn (hdisk : shop.disk.Local g shop.output known)
    {project : String} {stems : List String} {p p' : Progress} (hs : v.tidy s)
    (h : (shop.pruneStems project (stem :: stems) p).run s = (p', t)) :
    ∃ q a, ConcernsOnly g shop.output stem
        (About shop.output unit stem lost) p s q a
      ∧ (shop.pruneStems project stems q).run a = (p', t) := by
  rcases pruneStems_cons h with
    ⟨-, hrest⟩ | ⟨-, faults, a, q, hclear, hrest, hq⟩
  · exact ⟨p, s, ⟨hs, .refl _, .refl _⟩, hrest⟩
  · refine ⟨q, a, ⟨(clearStem_clears hdisk.toLawful hs hclear).spares.tidy,
      deleteEach_only hdisk hs hclear, ?_⟩, hrest⟩
    rcases hq with ⟨-, rfl⟩ | ⟨-, rfl⟩
    · exact ⟨.of_addPruned _, fun _ _ _ => Iff.rfl⟩
    · refine .of_add p (.of_noteAll _ fun fault hfault => ?_) _
      obtain ⟨path, hpath, e, rfl⟩ := exists_of_mem_faults hclear hfault
      exact .pruned hpath

theorem pruneStems_agreesOff (hdisk : shop.disk.Local g shop.output known)
    (hflat : Flat stem) (hjoint : Text.joint ∈ stem.toList) {project : String}
    {stems : List String} (hstems : ∀ other ∈ stems, known other)
    {p p' q q' : Progress} (hs : v.tidy s) (hs' : v.tidy s')
    (h : g.SameOff (artifactPaths (shop.output.markupFile stem)) s s')
    (hagrees : p.AgreesOff shop.output stem (About shop.output unit stem lost)
      q)
    (hrun : (shop.pruneStems project stems p).run s = (p', t))
    (hrun' : (shop.pruneStems project stems q).run s' = (q', t')) :
    p'.AgreesOff shop.output stem (About shop.output unit stem lost) q'
      ∧ g.SameOff (artifactPaths (shop.output.markupFile stem)) t t' := by
  induction stems generalizing p q s s' with
  | nil =>
      obtain ⟨rfl, rfl⟩ := run_pure.1 hrun
      obtain ⟨rfl, rfl⟩ := run_pure.1 hrun'
      exact ⟨hagrees, h⟩
  | cons other stems ih =>
      obtain ⟨hother, hstems⟩ := List.forall_mem_cons.1 hstems
      by_cases hne : other = stem
      · subst hne
        obtain ⟨p₁, a, hturn, hrest⟩ := pruneStems_stray_turn hdisk hs hrun
        obtain ⟨q₁, a', hturn', hrest'⟩ := pruneStems_stray_turn hdisk hs' hrun'
        obtain ⟨hagrees₁, ha⟩ := hturn.both hturn' h hagrees
        exact ih hstems hturn.tidy hturn'.tidy ha hagrees₁ hrest hrest'
      · rcases pruneStems_cons hrun with
          ⟨htracks, hrest⟩ | ⟨htracks, faults, a, p₁, hclear, hrest, hp₁⟩
        · rcases pruneStems_cons hrun' with ⟨-, hrest'⟩ | ⟨htracks', -⟩
          · exact ih hstems hs hs' h hagrees hrest hrest'
          · exact absurd ((hagrees.tracks_iff hne).1 htracks) htracks'
        · rcases pruneStems_cons hrun' with
            ⟨htracks', -⟩ | ⟨-, faults', a', q₁, hclear', hrest', hq₁⟩
          · exact absurd ((hagrees.tracks_iff hne).2 htracks') htracks
          · obtain ⟨rfl, ha⟩ :=
              deleteEach_agreesOff hdisk (member_of_known hother)
                (apartFrom_of_ne hdisk hflat hjoint hother hne) hs hs'
                h hclear hclear'
            refine ih hstems
              (clearStem_clears hdisk.toLawful hs hclear).spares.tidy
              (clearStem_clears hdisk.toLawful hs' hclear').spares.tidy
              ha ?_ hrest hrest'
            rcases hp₁ with ⟨rfl, rfl⟩ | ⟨hfaults, rfl⟩
            · obtain ⟨-, rfl⟩ := hq₁.resolve_right fun hq => hq.1 rfl
              exact ⟨hagrees.report.addPruned _, hagrees.stems⟩
            · obtain ⟨-, rfl⟩ := hq₁.resolve_left fun hq => hfaults hq.1
              exact hagrees.add (hagrees.report.noteAll _ _ _) _ _

theorem pruneProjects_agreesOff (hdisk : shop.disk.Local g shop.output known)
    (hflat : Flat stem) (hjoint : Text.joint ∈ stem.toList)
    {previous : Manifest} {retained : String → Bool}
    (hprevious : ∀ other, previous.tracks other = true → known other)
    {projects : List String} {p p' q q' : Progress} (hs : v.tidy s)
    (hs' : v.tidy s')
    (h : g.SameOff (artifactPaths (shop.output.markupFile stem)) s s')
    (hagrees : p.AgreesOff shop.output stem (About shop.output unit stem lost)
      q)
    (hrun : (shop.pruneProjects previous retained projects p).run s = (p', t))
    (hrun' : (shop.pruneProjects previous retained projects q).run s'
      = (q', t')) :
    p'.AgreesOff shop.output stem (About shop.output unit stem lost) q'
      ∧ g.SameOff (artifactPaths (shop.output.markupFile stem)) t t' := by
  induction projects generalizing p q s s' with
  | nil =>
      obtain ⟨rfl, rfl⟩ := run_pure.1 hrun
      obtain ⟨rfl, rfl⟩ := run_pure.1 hrun'
      exact ⟨hagrees, h⟩
  | cons project projects ih =>
      rcases pruneProjects_cons hrun with
        ⟨hyes, hrest⟩ | ⟨hno, p₁, a, hstems, hrest⟩
      · rcases pruneProjects_cons hrun' with ⟨-, hrest'⟩ | ⟨hno, -⟩
        · exact ih hs hs' h (hagrees.takeOver _ _) hrest hrest'
        · exact absurd hyes hno
      · rcases pruneProjects_cons hrun' with
          ⟨hyes, -⟩ | ⟨-, q₁, a', hstems', hrest'⟩
        · exact absurd hyes hno
        · obtain ⟨hagrees₁, ha⟩ := pruneStems_agreesOff hdisk hflat hjoint
            (fun other hother =>
              hprevious other (Manifest.tracks_of_mem_stemsOf hother)) hs hs' h
            hagrees hstems hstems'
          exact ih (pruneStems_prunes hdisk.toLawful hs hstems).spares.tidy
            (pruneStems_prunes hdisk.toLawful hs' hstems').spares.tidy ha
            hagrees₁ hrest hrest'

/-! ## The manifest and the architecture -/

theorem storeManifest_agreesOff (hdisk : shop.disk.Local g shop.output known)
    (hwhole : shop.disk.WritesWhole g) {off : List Path}
    (hapart : ApartFrom v shop.output off shop.output.manifestFile)
    {about : Warning → Prop} {p q : Progress} {report report' : Report}
    (hs : v.tidy s) (hs' : v.tidy s') (h : g.SameOff off s s')
    (hagrees : p.AgreesOff shop.output stem about q)
    (hrun : (shop.storeManifest p).run s = (report, t))
    (hrun' : (shop.storeManifest q).run s' = (report', t')) :
    report.AgreesOff shop.output stem about report'
      ∧ (g.SameOff off t t'
        ∨ (shop.disk.writeText shop.output.manifestFile p.manifest.toText).run s
            = (.ok (), t)
          ∧ (shop.disk.writeText shop.output.manifestFile
              q.manifest.toText).run s'
            = (.ok (), t')) := by
  have hmember : shop.output.Member known shop.output.manifestFile :=
    .inl List.mem_cons_self
  rw [storeManifest, run_bind] at hrun hrun'
  obtain ⟨r, a, hput, hrun⟩ := hrun
  obtain ⟨r', a', hput', hrun'⟩ := hrun'
  obtain ⟨w, hwrite, rfl⟩ := putManifest_turn hput
  obtain ⟨w', hwrite', rfl⟩ := putManifest_turn hput'
  obtain ⟨rfl, -⟩ :=
    hdisk.write_same hmember hs hs' (hapart.agreeAt h) hwrite hwrite'
  cases w with
  | ok u =>
      obtain ⟨rfl, rfl⟩ := run_pure.1 hrun
      obtain ⟨rfl, rfl⟩ := run_pure.1 hrun'
      exact ⟨hagrees.report, .inr ⟨hwrite, hwrite'⟩⟩
  | error e =>
      obtain ⟨rfl, rfl⟩ := run_pure.1 hrun
      obtain ⟨rfl, rfl⟩ := run_pure.1 hrun'
      refine ⟨hagrees.report.note _ _ _,
        .inl (sameOff_step h (hdisk.write_only hs hwrite)
          (hdisk.write_only hs' hwrite') ?_)⟩
      rw [hwhole hs hwrite, hwhole hs' hwrite', h _ hapart.own]

theorem putArchitecture_agreesOff {disk : Disk (StateM σ)}
    {out : OutputDirectory} (hdisk : disk.Local g out known) {off : List Path}
    (hroot : ∀ q ∈ off, v.place q ≠ v.place out.architectureRoot)
    (hapart : ∀ p ∈ out.architecturePaths, ApartFrom v out off p)
    {texts : Architecture.Texts} {r r' : Except Fault Unit} (hs : v.tidy s)
    (hs' : v.tidy s') (h : g.SameOff off s s')
    (hrun : (out.putArchitecture disk texts).run s = (r, t))
    (hrun' : (out.putArchitecture disk texts).run s' = (r', t')) :
    r = r' ∧ g.SameOff off t t' := by
  have hsummary : out.summaryFile ∈ out.architecturePaths := List.mem_cons_self
  have hmarkup : out.architectureFile ∈ out.architecturePaths :=
    List.mem_cons_of_mem _ List.mem_cons_self
  have hmember : ∀ p ∈ out.architecturePaths, out.Member known p := fun _ hp =>
    .inl (List.mem_cons_of_mem _ hp)
  obtain ⟨c, a, hcreate, hout⟩ := putArchitecture_turn hrun
  obtain ⟨c', a', hcreate', hout'⟩ := putArchitecture_turn hrun'
  obtain ⟨rfl, hlook⟩ := hdisk.create_same hs hs' (h _ hroot) hcreate hcreate'
  have ha := (hdisk.create_spares hs hcreate).tidy
  have ha' := (hdisk.create_spares hs' hcreate').tidy
  have hcreated :=
    sameOff_step h (hdisk.create_only hs hcreate)
      (hdisk.create_only hs' hcreate') hlook
  rcases hout with ⟨e, rfl, rfl, rfl⟩ | ⟨rfl, first, b, hfirst, hout⟩
  · rcases hout' with ⟨e', he, rfl, rfl⟩ | ⟨hok, -⟩
    · obtain rfl := Except.error.inj he
      exact ⟨rfl, hcreated⟩
    · exact nomatch hok
  · obtain ⟨-, first', b', hfirst', hout'⟩ :=
      hout'.resolve_left fun ⟨_, he, _⟩ => nomatch he
    obtain ⟨rfl, hwritten⟩ :=
      writeText_agreesOff hdisk (hmember _ hsummary) (hapart _ hsummary) ha ha'
        hcreated hfirst hfirst'
    rcases hout with ⟨e, rfl, rfl, rfl⟩ | ⟨rfl, second, hsecond, rfl⟩
    · rcases hout' with ⟨e', he, rfl, rfl⟩ | ⟨hok, -⟩
      · obtain rfl := Except.error.inj he
        exact ⟨rfl, hwritten⟩
      · exact nomatch hok
    · obtain ⟨-, second', hsecond', rfl⟩ :=
        hout'.resolve_left fun ⟨_, he, _⟩ => nomatch he
      obtain ⟨rfl, hdone⟩ :=
        writeText_agreesOff hdisk (hmember _ hmarkup) (hapart _ hmarkup)
          (hdisk.write_spares ha hfirst).tidy
          (hdisk.write_spares ha' hfirst').tidy hwritten hsecond hsecond'
      exact ⟨rfl, hdone⟩

theorem drawArchitecture_agreesOff (hdisk : shop.disk.Local g shop.output known)
    (hrenderer : shop.renderer.Local g shop.output known) {off : List Path}
    (hroot : ∀ q ∈ off, v.place q ≠ v.place shop.output.architectureRoot)
    (hapart : ∀ p ∈ shop.output.architecturePaths,
      ApartFrom v shop.output off p)
    {about : Warning → Prop} {texts : Architecture.Texts}
    {report report' final final' : Report} (hs : v.tidy s) (hs' : v.tidy s')
    (h : g.SameOff off s s')
    (hreport : report.AgreesOff shop.output stem about report')
    (hrun : (shop.drawArchitecture texts report).run s = (final, t))
    (hrun' : (shop.drawArchitecture texts report').run s' = (final', t')) :
    final.AgreesOff shop.output stem about final' ∧ g.SameOff off t t' := by
  have hartifact : ∀ p ∈ artifactPaths shop.output.architectureFile,
      p ∈ shop.output.architecturePaths := fun _ hp => List.mem_cons_of_mem _ hp
  have hmember : ∀ p ∈ artifactPaths shop.output.architectureFile,
      shop.output.Member known p :=
    fun p hp => .inl (List.mem_cons_of_mem _ (hartifact p hp))
  obtain ⟨stale, a, r, b, hclear, hput, hout⟩ := drawArchitecture_run hrun
  obtain ⟨stale', a', r', b', hclear', hput', hout'⟩ :=
    drawArchitecture_run hrun'
  have ha := (deleteEach_clears hdisk.toLawful hs hclear).spares.tidy
  have ha' := (deleteEach_clears hdisk.toLawful hs' hclear').spares.tidy
  obtain ⟨rfl, hcleared⟩ := deleteEach_agreesOff hdisk hmember
    (fun p hp => hapart p (hartifact p hp)) hs hs' h hclear hclear'
  obtain ⟨rfl, hwritten⟩ :=
    putArchitecture_agreesOff hdisk hroot hapart ha ha' hcleared hput hput'
  have hnoted := hreport.noteAll .cleanup shop.output.architectureFile stale
  rcases hout with ⟨fault, rfl, rfl, rfl⟩ | ⟨rfl, hrender⟩
  · rcases hout' with ⟨fault', hfault', rfl, rfl⟩ | ⟨hok, -⟩
    · obtain rfl := Except.error.inj hfault'
      exact ⟨hnoted.note _ _ _, hwritten⟩
    · exact nomatch hok
  · rcases hout' with ⟨fault', hfault', -⟩ | ⟨-, hrender'⟩
    · exact nomatch hfault'
    · exact renderEach_agreesOff hrenderer hmember
        (fun p hp => hapart p (hartifact p hp))
        (putArchitecture_spares hdisk.toLawful ha hput).tidy
        (putArchitecture_spares hdisk.toLawful ha' hput').tidy hwritten
        (hnoted.addMarkup _) hrender hrender'

end Workshop

/-! ## The two runs -/

variable {shop : Workshop (StateM σ)} {source broken : GraphSource}
  {project : Project} {document : Document} {method : Method}
  {filter : Option String} {bounds : Architecture.Bounds}

/-- A method whose stem holds a separator is not asked for its graph, if no name
of the hierarchy holds one. -/
theorem plan_eq_of_slashed
    (hfails : FailsAt source broken project document method)
    (hnames : Unslashed source.solution)
    (hslashed : '/' ∈ (stemOf project document method).toList) :
    plan broken filter = plan source filter := by
  rw [plan, plan, hfails.solution]
  refine List.flatMap_congr fun p hp => ?_
  rw [projectTasks, projectTasks, hfails.prepare]
  obtain ⟨hproject, hdocuments⟩ := hnames p (List.mem_filter.1 hp).1
  cases source.prepare p with
  | error fault => rfl
  | ok u =>
      refine List.flatMap_congr fun d hd => List.map_congr_left fun m hm => ?_
      obtain ⟨hdocument, hmethods⟩ := hdocuments d hd
      rw [methodTask, methodTask, hfails.elsewhere]
      rintro heq
      obtain ⟨rfl, hrest⟩ := Prod.mk.inj heq
      obtain ⟨rfl, rfl⟩ := Prod.mk.inj hrest
      refine Text.identifier_unslashed (fun part hpart => ?_) hslashed
      simp only [List.mem_cons, List.not_mem_nil, or_false] at hpart
      rcases hpart with rfl | rfl | rfl
      · exact hproject
      · exact hdocument
      · exact hmethods m hm

namespace Passage

variable {report report' : Report} {s u u' : σ}
  (x : Passage v shop source filter bounds s report u)
  (y : Passage v shop broken filter bounds s report' u')
  (hdisk : shop.disk.Local g shop.output known)
  (hrenderer : shop.renderer.Local g shop.output known)
  (hfails : FailsAt source broken project document method)
  (hflat : Flat (stemOf project document method))
include x y hdisk hrenderer hfails hflat

/-- The runs are alike up to the saving of the manifest. -/
theorem swept_agreesOff (hnames : Unslashed source.solution)
    (hprevious : ∀ stem, x.previous.tracks stem = true → known stem) :
    x.kept.AgreesOff shop.output (stemOf project document method)
        (About shop.output (unitOf project document method)
          (stemOf project document method)
          (Lost source broken project document method)) y.kept
      ∧ g.SameOff
          (artifactPaths (shop.output.markupFile
            (stemOf project document method))) x.swept y.swept := by
  have hjoint : Text.joint ∈ (stemOf project document method).toList :=
    Text.joint_mem_identifier _ _ _
  have hplan := hfails.plan_parallel filter
  obtain ⟨heq, hopened⟩ := Prod.mk.inj (x.load.symm.trans y.load)
  obtain ⟨hread, hloaded⟩ := Prod.mk.inj heq
  have hperform := y.perform
  have hprune := y.prune
  rw [← hopened, ← hloaded] at hperform
  rw [← hread, ← skippedProjects_of_parallel hplan] at hprune
  obtain ⟨hmade, hlook⟩ :=
    Workshop.performAll_agreesOff hdisk hrenderer hflat hjoint hplan
      (fun _ htask _ hd => flat_of_mem_plan hnames htask hd) x.tidy_opened
      x.tidy_opened (.refl _) (.refl _) x.perform hperform
  exact Workshop.pruneProjects_agreesOff hdisk hflat hjoint hprevious
    x.tidy_drawn y.tidy_drawn hlook hmade x.prune hprune

/-- From then on the manifest may be different, too. -/
theorem end_agreesOff (hwhole : shop.disk.WritesWhole g)
    {about : Warning → Prop}
    (hkept : x.kept.AgreesOff shop.output (stemOf project document method)
      about y.kept)
    (hswept : g.SameOff
      (artifactPaths (shop.output.markupFile (stemOf project document method)))
      x.swept y.swept) :
    g.SameOff (shop.output.manifestFile
          :: artifactPaths
            (shop.output.markupFile (stemOf project document method))) u u'
      ∧ (g.look u (v.place shop.output.manifestFile)
            = g.look u' (v.place shop.output.manifestFile)
        ∨ v.content u (v.place shop.output.manifestFile)
            = some x.kept.manifest.toText.toUTF8
          ∧ v.content u' (v.place shop.output.manifestFile)
            = some y.kept.manifest.toText.toUTF8)
      ∧ report.AgreesOff shop.output (stemOf project document method)
        about report' := by
  have hjoint : Text.joint ∈ (stemOf project document method).toList :=
    Text.joint_mem_identifier _ _ _
  have hapart : ∀ path ∈ shop.output.ownPaths, ApartFrom v shop.output
      (artifactPaths (shop.output.markupFile (stemOf project document method)))
      path :=
    fun path hpath => apartFrom_of_own hdisk hflat hjoint hpath
  have hroot :
      ∀ path ∈ artifactPaths
          (shop.output.markupFile (stemOf project document method)),
        v.place path ≠ v.place shop.output.architectureRoot :=
    fun path hpath => hdisk.place_architectureRoot_ne hflat hjoint hpath
  have hdraw := y.draw
  rw [hfails.solution] at hdraw
  obtain ⟨hsaved, hlook⟩ :=
    Workshop.storeManifest_agreesOff hdisk hwhole (hapart _ List.mem_cons_self)
      x.tidy_swept y.tidy_swept hswept hkept x.store y.store
  rcases hlook with hlook | ⟨hwrite, hwrite'⟩
  · -- Neither manifest was saved.
    obtain ⟨hreport, hlook⟩ :=
      Workshop.drawArchitecture_agreesOff hdisk hrenderer hroot
        (fun path hpath => hapart path (List.mem_cons_of_mem _ hpath))
        x.tidy_stored y.tidy_stored hlook hsaved x.draw hdraw
    exact ⟨hlook.mono (List.subset_cons_self _ _),
      .inl (hlook _ (hapart _ List.mem_cons_self).own), hreport⟩
  · have hmanifest : ∀ path ∈ shop.output.architecturePaths,
        v.place shop.output.manifestFile ≠ v.place path :=
      fun path hpath => (hdisk.place_architecture_ne_manifest hpath).symm
    have hone := List.cons_subset_cons shop.output.manifestFile (List.nil_subset
      (artifactPaths (shop.output.markupFile (stemOf project document method))))
    have hstored : g.SameOff (shop.output.manifestFile
        :: artifactPaths
          (shop.output.markupFile (stemOf project document method)))
        x.stored y.stored :=
      (((hdisk.write_only x.tidy_swept hwrite).mono hone).symm.trans
        (hswept.mono (List.subset_cons_self _ _))).trans
          ((hdisk.write_only y.tidy_swept hwrite').mono hone)
    have hroots : ∀ path ∈ shop.output.manifestFile
          :: artifactPaths
            (shop.output.markupFile (stemOf project document method)),
        v.place path ≠ v.place shop.output.architectureRoot :=
      List.forall_mem_cons.2 ⟨hdisk.place_manifestFile_ne_root, hroot⟩
    obtain ⟨hreport, hlook⟩ :=
      Workshop.drawArchitecture_agreesOff hdisk hrenderer hroots
        (fun path hpath => ⟨List.forall_mem_cons.2 ⟨hmanifest path hpath,
          (hapart path (List.mem_cons_of_mem _ hpath)).own⟩, fun _ => hroots⟩)
        x.tidy_stored y.tidy_stored hstored hsaved x.draw hdraw
    exact ⟨hlook,
      .inr ⟨x.content_manifestFile hdisk.toLawful hrenderer.confined hwrite,
        y.content_manifestFile hdisk.toLawful hrenderer.confined hwrite'⟩,
      hreport⟩

end Passage

/-- If the graph of one method is missing in one of two runs, the runs end alike
but for the files of its stem, its place in the manifest, and what is reported
about it.

What a file operation comes to must depend on its own path alone, so the stems
that the manifest has on record must have paths of which that is known
(`hprevious`): a stem with separators may lead through a file of another one.
The runs may save different manifests; that a write which is refused leaves what
was there (`hwhole`) is for the case that neither can be saved. -/
theorem failure_stays_with_method (hdisk : shop.disk.Local g shop.output known)
    (hwhole : shop.disk.WritesWhole g)
    (hrenderer : shop.renderer.Local g shop.output known)
    (hfails : FailsAt source broken project document method)
    (hnames : Unslashed source.solution) {report report' : Report} {s u u' : σ}
    (hs : v.tidy s)
    (hprevious : ∀ m t,
      (shop.output.readManifest shop.disk).run s = (.ok m, t) →
      ∀ stem, m.tracks stem = true → known stem)
    (h : (run shop source filter bounds).run s = (report, u))
    (h' : (run shop broken filter bounds).run s = (report', u')) :
    (∀ f, (∀ path ∈ shop.output.manifestFile
          :: artifactPaths
            (shop.output.markupFile (stemOf project document method)),
        v.place path ≠ f) → g.look u f = g.look u' f)
      ∧ (g.look u (v.place shop.output.manifestFile)
            = g.look u' (v.place shop.output.manifestFile)
        ∨ ∃ m m' : Manifest,
            v.content u (v.place shop.output.manifestFile)
              = some m.toText.toUTF8
            ∧ v.content u' (v.place shop.output.manifestFile)
              = some m'.toText.toUTF8
            ∧ ∀ owner stem, stem ≠ stemOf project document method →
                (stem ∈ m.stemsOf owner ↔ stem ∈ m'.stemsOf owner))
      ∧ report.AgreesOff shop.output (stemOf project document method)
          (About shop.output (unitOf project document method)
            (stemOf project document method)
            (Lost source broken project document method)) report' := by
  by_cases hslashed : '/' ∈ (stemOf project document method).toList
  · have hrun :
        run shop broken filter bounds = run shop source filter bounds := by
      rw [run, run, Workshop.settle, Workshop.settle, Workshop.prepare,
        Workshop.prepare, plan_eq_of_slashed hfails hnames hslashed,
        hfails.solution]
    rw [hrun] at h'
    obtain ⟨rfl, rfl⟩ := Prod.mk.inj (h.symm.trans h')
    exact ⟨fun _ _ => rfl, .inl rfl, .refl _⟩
  · have hflat : Flat (stemOf project document method) := by
      refine ⟨fun hempty => ?_, hslashed, not_mem_stemOf _ _ _⟩
      have hjoint :=
        Text.joint_mem_identifier project.name document.stem [method.name]
      rw [show Text.identifier _ = "" from hempty] at hjoint
      exact absurd hjoint (by decide)
    obtain ⟨x⟩ := exists_passage hdisk.toLawful hrenderer.confined hs h
    obtain ⟨y⟩ := exists_passage hdisk.toLawful hrenderer.confined hs h'
    obtain ⟨hkept, hswept⟩ :=
      x.swept_agreesOff y hdisk hrenderer hfails hflat hnames
        (x.previous_known hprevious)
    obtain ⟨hlook, hmanifests, hreport⟩ :=
      x.end_agreesOff y hdisk hrenderer hfails hflat hwhole hkept hswept
    refine ⟨hlook, hmanifests.imp_right ?_, hreport⟩
    rintro ⟨hsaved, hsaved'⟩
    exact ⟨x.kept.manifest, y.kept.manifest, hsaved, hsaved', hkept.stems⟩

/-! ## A method that has lost its graph -/

/-- A source without the graph of one method. -/
def withoutGraph (source : GraphSource) (p : Project) (d : Document)
    (method : Method) (fault : Fault) : GraphSource where
  solution := source.solution
  prepare := source.prepare
  graphOf p' d' method' :=
    if (p', d', method') = (p, d, method) then .error fault
    else source.graphOf p' d' method'

theorem failsAt_withoutGraph (source : GraphSource) (p : Project) (d : Document)
    (method : Method) (fault : Fault) :
    FailsAt source (withoutGraph source p d method fault) p d method where
  solution := rfl
  prepare := rfl
  fails := ⟨fault, if_pos rfl⟩
  elsewhere _ _ _ hne := if_neg hne

/-- A workshop on a file tree. -/
def copyingShop : Workshop (StateM FileTree) where
  disk := FileTree.disk
  renderer := FileTree.copier samplePaint
  output := ⟨"out"⟩

/-- What stands in the trees of the samples. -/
def sampleSight : Sight sampleView :=
  FileTree.sight [] (FileTree.Ready (FileTree.spot [] "out"))

theorem copyingShop_steady :
    copyingShop.disk.Steady sampleSight copyingShop.output FileTree.Undivided :=
  FileTree.disk_steady (by decide) sampleView_lasting fun _ ht => ht.stands

theorem copyingShop_renderer :
    copyingShop.renderer.Steady FileTree.disk sampleSight copyingShop.output
      FileTree.Undivided :=
  FileTree.copier_steady (by decide) sampleView_lasting fun _ ht => ht.stands

/-- A run that has drawn the second of two projects left its raster. -/
def staleTree : FileTree :=
  (sampleTree.put ["out", ".cfgflow-artifacts.json"]
      (.file (Manifest.empty.add "B" "B_D_M").toText.toUTF8 false)).put
    ["out", "B_D_M.svg"] (.file "stale".toUTF8 false)

theorem tidy_staleTree : sampleView.tidy staleTree :=
  tidy_put_sample (tidy_put_sample tidy_sampleTree fun h => nomatch h) fun h =>
    nomatch h

/-- The second method. -/
def secondMethod : Method := { name := "M", recorded := some (.parsed {}) }

/-- Its document. -/
def secondDocument : Document := { name := "D.cs", methods := [secondMethod] }

/-- Its project. -/
def secondProject : Project := { name := "B", documents := [secondDocument] }

/-- Two projects with a method each. -/
def sampleSource : GraphSource :=
  Snapshot.source { projects := [sampleProject "A" "C.cs", secondProject] }

/-- The same without the graph of the second method. -/
def brokenSource : GraphSource :=
  withoutGraph sampleSource secondProject secondDocument secondMethod
    (Fault.graphUnavailable "D.cs" "M")

theorem brokenSource_failsAt :
    FailsAt sampleSource brokenSource secondProject
      secondDocument secondMethod :=
  failsAt_withoutGraph _ _ _ _ _

/-- What is drawn of the second method. -/
def secondDrawing : Drawing where
  project := "B"
  unit := "B::D.cs::M"
  stem := "B_D_M"
  markup := "%% Diagram generated automatically (CFG -> Mermaid)\n"
    ++ "%% Project: B | File: D.cs | Method: M\nflowchart TD\n"

theorem plan_sampleSource :
    plan sampleSource none = [.draw sampleDrawing, .draw secondDrawing] := by
  decide +kernel

theorem plan_brokenSource : plan brokenSource none
    = [.draw sampleDrawing,
      .miss "B::D.cs::M" (Fault.graphUnavailable "D.cs" "M")] := by
  decide +kernel

/-- Without its graph the second method loses its files, and the first one is
drawn all the same. -/
theorem first_method_drawn_all_the_same :
    ((run copyingShop sampleSource none {}).run staleTree).2.bytesAt
        ["out", "B_D_M.svg"] ≠ none
      ∧ ((run copyingShop brokenSource none {}).run staleTree).2.bytesAt
        ["out", "B_D_M.svg"] = none
      ∧ ((run copyingShop sampleSource none {}).run staleTree).2.bytesAt
        ["out", "A_C_M.svg"] ≠ none
      ∧ ((run copyingShop sampleSource none {}).run staleTree).2.at?
          ["out", "A_C_M.svg"]
        = ((run copyingShop brokenSource none {}).run staleTree).2.at?
          ["out", "A_C_M.svg"] := by
  have hevaluated :
      ((run copyingShop sampleSource none {}).run staleTree).2.bytesAt
          ["out", "B_D_M.svg"] ≠ none
        ∧ ((run copyingShop brokenSource none {}).run staleTree).2.bytesAt
            ["out", "B_D_M.svg"]
          = none
        ∧ ((run copyingShop sampleSource none {}).run staleTree).2.bytesAt
            ["out", "A_C_M.svg"]
          ≠ none := by
    rw [run, run, Workshop.settle, Workshop.settle, Workshop.prepare,
      Workshop.prepare, plan_sampleSource, plan_brokenSource]
    decide +kernel
  have hread :
      ((OutputDirectory.readManifest ⟨"out"⟩ FileTree.disk).run staleTree).1
        = .ok (Manifest.empty.add "B" "B_D_M") := by
    decide +kernel
  have hplaces : ∀ path ∈ OutputDirectory.manifestFile ⟨"out"⟩
        :: artifactPaths (OutputDirectory.markupFile ⟨"out"⟩ "B_D_M"),
      FileTree.spot [] path ≠ ["out", "A_C_M.svg"] := by
    decide
  have hnames : Unslashed sampleSource.solution := by decide
  have hprevious :
      ∀ m t, (OutputDirectory.readManifest ⟨"out"⟩ FileTree.disk).run staleTree
        = (.ok m, t) → ∀ stem, m.tracks stem = true →
          FileTree.Undivided stem := by
    intro m t h stem hstem
    rw [h] at hread
    obtain rfl := Except.ok.inj hread
    rcases Manifest.tracks_add.1 hstem with rfl | hempty
    · exact (by decide : '/' ∉ "B_D_M".toList)
    · exact absurd hempty Manifest.not_tracks_empty
  generalize hrun :
    (run copyingShop sampleSource none {}).run staleTree = result
      at hevaluated ⊢
  generalize hrun' :
    (run copyingShop brokenSource none {}).run staleTree = result'
      at hevaluated ⊢
  obtain ⟨report, u⟩ := result
  obtain ⟨report', u'⟩ := result'
  obtain ⟨hdrawn, hgone, hfirst⟩ := hevaluated
  refine ⟨hdrawn, hgone, hfirst, ?_⟩
  have hisolated :=
    @failure_stays_with_method FileTree sampleView sampleSight
      FileTree.Undivided copyingShop sampleSource brokenSource secondProject
      secondDocument secondMethod none {} copyingShop_steady.toLocal
      copyingShop_steady.write_whole copyingShop_renderer.toLocal
      brokenSource_failsAt hnames report report' staleTree u u' tidy_staleTree
      hprevious hrun hrun'
  have hstem : stemOf secondProject secondDocument secondMethod = "B_D_M" := by
    decide +kernel
  rw [hstem] at hisolated
  exact hisolated.1 ["out", "A_C_M.svg"] hplaces

end Run

end FlowAtlas
