import FlowAtlas.Proofs.Run.Steps

/-!
# What the stages of a run can do

A run has five stages: it reads the manifest, carries out the plan, deletes what
is out of date, saves the manifest, and makes the files of the architecture.
Each stage is taken apart into its turns, with all that a turn may come to.

The specifications say which files a stage may change and what it records. A
turn of the plan has two outcomes that matter later (`Performs`): either it has
made no file and recorded nothing, or it has recorded the stem whose files it
has made. A turn of the deleting either finds a stem still in use, or deletes
its files, or puts the stem back on record.
-/

namespace FlowAtlas.Run

open OutputDirectory

namespace Workshop

variable {σ : Type} {shop : Workshop (StateM σ)} {v : FileView σ}

/-! ## The plan -/

theorem draw_run {d : Drawing} {p p' : Progress} {s u : σ}
    (h : (shop.draw d p).run s = (p', u)) :
    ∃ stale t r t',
      (clear shop.disk (shop.output.markupFile d.stem)).run s = (stale, t)
      ∧ (putMarkup shop.disk (shop.output.markupFile d.stem) d.markup).run t
        = (r, t')
      ∧ ((∃ fault, r = .error fault ∧ u = t' ∧ p' = { p with
            report := (p.report.noteAll .cleanup
              (shop.output.markupFile d.stem) stale).note
                .write d.unit fault })
        ∨ r = .ok () ∧ ∃ report,
            (shop.renderFormats (shop.output.markupFile d.stem)
              ((p.report.noteAll .cleanup (shop.output.markupFile d.stem)
                stale).addMarkup (shop.output.markupFile d.stem))).run t'
              = (report, u)
            ∧ p' = ⟨report, p.manifest.add d.project d.stem⟩) := by
  rw [draw, run_bind] at h
  obtain ⟨stale, t, hclear, h⟩ := h
  dsimp only at h
  rw [run_bind] at h
  obtain ⟨r, t', hput, h⟩ := h
  refine ⟨stale, t, r, t', hclear, hput, ?_⟩
  cases r with
  | error fault =>
      obtain ⟨rfl, rfl⟩ := run_pure.1 h
      exact .inl ⟨fault, rfl, rfl, rfl⟩
  | ok a =>
      dsimp only at h
      rw [run_bind] at h
      obtain ⟨report, t'', hrender, h⟩ := h
      obtain ⟨rfl, rfl⟩ := run_pure.1 h
      exact .inr ⟨rfl, report, hrender, rfl⟩

/-- The files that a turn of the plan is about. -/
def Task.Concerns (out : OutputDirectory) (task : Task) (path : Path) : Prop :=
  ∃ d, task.drawing? = some d ∧ path ∈ artifactPaths (out.markupFile d.stem)

/-- What a turn of the plan has done. -/
structure Performs (v : FileView σ) (out : OutputDirectory) (task : Task)
    (p : Progress) (s : σ) (p' : Progress) (t : σ) : Prop where
  spares : v.Spares (Task.Concerns out task) s t
  extends_report : p.report.Extends p'.report
  outcome : (p'.manifest = p.manifest ∧ p'.report.written = p.report.written)
    ∨ ∃ d, task.drawing? = some d
      ∧ p'.manifest = p.manifest.add d.project d.stem
      ∧ p'.report.written = p.report.written ++ [out.markupFile d.stem]

theorem draw_performs (hdisk : shop.disk.Lawful v shop.output)
    (hrenderer : shop.renderer.Confined v) {d : Drawing} {p p' : Progress}
    {s t : σ} (hs : v.tidy s) (h : (shop.draw d p).run s = (p', t)) :
    Performs v shop.output (.draw d) p s p' t := by
  obtain ⟨stale, t₁, r, t₂, hclear, hput, hout⟩ := draw_run h
  obtain ⟨r', hwrite, hr⟩ := putMarkup_turn hput
  have hclears := deleteEach_clears hdisk hs hclear
  have hwrites := hdisk.write_spares hclears.spares.tidy hwrite
  have hmarkup : ∀ q, q = shop.output.markupFile d.stem →
      Task.Concerns shop.output (.draw d) q := by
    rintro q rfl
    exact ⟨d, rfl, mem_artifactPaths.2 (.inl rfl)⟩
  have hbefore : v.Spares (Task.Concerns shop.output (.draw d)) s t₂ :=
    (hclears.spares.mono fun q hq => ⟨d, rfl, hq⟩).trans (hwrites.mono hmarkup)
  have hnote :=
    Report.Extends.noteAll p.report .cleanup
      (shop.output.markupFile d.stem) stale
  rcases hout with ⟨fault, rfl, rfl, rfl⟩ | ⟨rfl, report, hrender, rfl⟩
  · exact ⟨hbefore, hnote.trans (.note _ _ _ _),
      .inl ⟨rfl, Report.written_noteAll _ _ _ _⟩⟩
  · have hrenders := renderFormats_renders hrenderer hwrites.tidy hrender
    refine ⟨hbefore.trans
      (hrenders.spares_artifacts.mono fun q hq => ⟨d, rfl, hq⟩), ?_,
      .inr ⟨d, rfl, rfl, ?_⟩⟩
    · exact hnote.trans
        ((Report.Extends.addMarkup _ _).trans hrenders.extends_report)
    · rw [hrenders.written, Report.addMarkup, Report.written_noteAll]

theorem perform_performs (hdisk : shop.disk.Lawful v shop.output)
    (hrenderer : shop.renderer.Confined v) {task : Task} {p p' : Progress}
    {s t : σ} (hs : v.tidy s) (h : (shop.perform p task).run s = (p', t)) :
    Performs v shop.output task p s p' t := by
  cases task with
  | skip project fault =>
      obtain ⟨rfl, rfl⟩ := run_pure.1 h
      exact ⟨.refl hs, .note _ _ _ _, .inl ⟨rfl, rfl⟩⟩
  | miss unit fault =>
      obtain ⟨rfl, rfl⟩ := run_pure.1 h
      exact ⟨.refl hs, .note _ _ _ _, .inl ⟨rfl, rfl⟩⟩
  | draw d => exact draw_performs hdisk hrenderer hs h

theorem performAll_cons {task : Task} {tasks : List Task} {p p' : Progress}
    {s u : σ} (h : (shop.performAll (task :: tasks) p).run s = (p', u)) :
    ∃ q t, (shop.perform p task).run s = (q, t)
      ∧ (shop.performAll tasks q).run t = (p', u) := by
  rw [performAll, run_bind] at h
  exact h

/-- What carrying out a plan has done. -/
structure PerformsAll (v : FileView σ) (out : OutputDirectory)
    (tasks : List Task) (p : Progress) (s : σ) (p' : Progress) (t : σ) :
    Prop where
  spares :
    v.Spares (fun path => ∃ task ∈ tasks, Task.Concerns out task path) s t
  extends_report : p.report.Extends p'.report
  stemsOf : ∀ {project stem}, stem ∈ p.manifest.stemsOf project →
    stem ∈ p'.manifest.stemsOf project
  recorded :
    ∀ {stem}, p'.manifest.tracks stem = true → p.manifest.tracks stem = true
      ∨ ∃ task ∈ tasks, ∃ d, task.drawing? = some d ∧ d.stem = stem
  written : ∀ path ∈ p'.report.written, path ∈ p.report.written
    ∨ ∃ task ∈ tasks, ∃ d, task.drawing? = some d
      ∧ p'.manifest.tracks d.stem = true
      ∧ path = out.markupFile d.stem

theorem PerformsAll.tracks {out : OutputDirectory} {tasks : List Task}
    {p p' : Progress} {s t : σ} (h : PerformsAll v out tasks p s p' t)
    {stem : String} (hstem : p.manifest.tracks stem = true) :
    p'.manifest.tracks stem = true := by
  obtain ⟨project, hproject⟩ := Manifest.tracks_eq_true_iff.1 hstem
  exact Manifest.tracks_of_mem_stemsOf (h.stemsOf hproject)

/-- A turn of the plan, and the plan after it. -/
theorem Performs.cons {out : OutputDirectory} {task : Task} {tasks : List Task}
    {p q p' : Progress} {s t u : σ} (h : Performs v out task p s q t)
    (hrest : PerformsAll v out tasks q t p' u) :
    PerformsAll v out (task :: tasks) p s p' u := by
  have hspares :
      v.Spares
        (fun path => ∃ other ∈ task :: tasks, Task.Concerns out other path)
        s u := by
    refine (h.spares.mono fun path hpath =>
      ⟨task, List.mem_cons_self, hpath⟩).trans
      (hrest.spares.mono ?_)
    rintro path ⟨other, hother, hpath⟩
    exact ⟨other, List.mem_cons_of_mem _ hother, hpath⟩
  have hreport := h.extends_report.trans hrest.extends_report
  rcases h.outcome with ⟨hmanifest, hwritten⟩ | ⟨d, hd, hmanifest, hwritten⟩
  · refine ⟨hspares, hreport, fun hstem => hrest.stemsOf (hmanifest ▸ hstem),
      fun hstem => ?_, fun path hpath => ?_⟩
    · rcases hrest.recorded hstem with hstem | ⟨other, hother, hstem⟩
      · exact .inl (hmanifest ▸ hstem)
      · exact .inr ⟨other, List.mem_cons_of_mem _ hother, hstem⟩
    · rcases hrest.written path hpath with hpath | ⟨other, hother, hpath⟩
      · exact .inl (hwritten ▸ hpath)
      · exact .inr ⟨other, List.mem_cons_of_mem _ hother, hpath⟩
  · have htracks : p'.manifest.tracks d.stem = true :=
      hrest.tracks (hmanifest ▸ Manifest.tracks_add.2 (.inl rfl))
    refine ⟨hspares, hreport,
      fun hstem =>
        hrest.stemsOf (hmanifest ▸ Manifest.mem_stemsOf_add.2 (.inr hstem)),
      fun hstem => ?_, fun path hpath => ?_⟩
    · rcases hrest.recorded hstem with hstem | ⟨other, hother, hstem⟩
      · rcases Manifest.tracks_add.1 (hmanifest ▸ hstem) with rfl | hstem
        · exact .inr ⟨task, List.mem_cons_self, d, hd, rfl⟩
        · exact .inl hstem
      · exact .inr ⟨other, List.mem_cons_of_mem _ hother, hstem⟩
    · rcases hrest.written path hpath with hpath | ⟨other, hother, hpath⟩
      · rw [hwritten, List.mem_append, List.mem_singleton] at hpath
        rcases hpath with hpath | rfl
        · exact .inl hpath
        · exact .inr ⟨task, List.mem_cons_self, d, hd, htracks, rfl⟩
      · exact .inr ⟨other, List.mem_cons_of_mem _ hother, hpath⟩

theorem performAll_performs (hdisk : shop.disk.Lawful v shop.output)
    (hrenderer : shop.renderer.Confined v) {tasks : List Task} {p p' : Progress}
    {s t : σ} (hs : v.tidy s) (h : (shop.performAll tasks p).run s = (p', t)) :
    PerformsAll v shop.output tasks p s p' t := by
  induction tasks generalizing p s with
  | nil =>
      obtain ⟨rfl, rfl⟩ := run_pure.1 h
      exact ⟨.refl hs, .refl _, fun hstem => hstem, .inl, fun _ => .inl⟩
  | cons task tasks ih =>
      obtain ⟨q, t', hperform, hrest⟩ := performAll_cons h
      have hturn := perform_performs hdisk hrenderer hs hperform
      exact hturn.cons (ih hturn.spares.tidy hrest)

/-! ## Deleting what is out of date -/

theorem pruneStems_cons {project stem : String} {stems : List String}
    {p p' : Progress} {s u : σ}
    (h : (shop.pruneStems project (stem :: stems) p).run s = (p', u)) :
    (p.manifest.tracks stem = true
        ∧ (shop.pruneStems project stems p).run s = (p', u))
      ∨ ¬ p.manifest.tracks stem = true ∧ ∃ faults t q,
        (shop.output.clearStem shop.disk stem).run s = (faults, t)
          ∧ (shop.pruneStems project stems q).run t = (p', u)
          ∧ ((faults = [] ∧ q = { p with report := p.report.addPruned stem })
            ∨ faults ≠ [] ∧ q = ⟨p.report.noteAll .cleanup stem faults,
                p.manifest.add project stem⟩) := by
  rw [pruneStems] at h
  by_cases htracks : p.manifest.tracks stem = true
  · rw [if_pos htracks] at h
    exact .inl ⟨htracks, h⟩
  · rw [if_neg htracks, run_bind] at h
    obtain ⟨faults, t, hclear, h⟩ := h
    refine .inr ⟨htracks, faults, t, ?_⟩
    cases faults with
    | nil => exact ⟨_, hclear, h, .inl ⟨rfl, rfl⟩⟩
    | cons fault faults =>
        exact ⟨_, hclear, h, .inr ⟨List.cons_ne_nil _ _, rfl⟩⟩

theorem pruneProjects_cons {previous : Manifest} {retained : String → Bool}
    {project : String} {projects : List String} {p p' : Progress} {s u : σ}
    (h : (shop.pruneProjects previous retained (project :: projects) p).run s
      = (p', u)) :
    (retained project = true ∧ (shop.pruneProjects previous retained projects
        { p with manifest := p.manifest.takeOver previous project }).run s
        = (p', u))
      ∨ ¬ retained project = true ∧ ∃ q t,
        (shop.pruneStems project (previous.stemsOf project) p).run s = (q, t)
          ∧ (shop.pruneProjects previous retained projects q).run t
            = (p', u) := by
  rw [pruneProjects] at h
  by_cases hretained : retained project = true
  · rw [if_pos hretained] at h
    exact .inl ⟨hretained, h⟩
  · rw [if_neg hretained, run_bind] at h
    exact .inr ⟨hretained, h⟩

/-- What deleting has done, if the stems it was about are `due`. Nothing goes
off the record meanwhile, so whatever lost its files was off the record at the
beginning. -/
structure Prunes (v : FileView σ) (out : OutputDirectory) (due : String → Prop)
    (p : Progress) (s : σ) (p' : Progress) (t : σ) : Prop where
  spares :
    v.Spares (fun path => ∃ stem, due stem ∧ ¬ p.manifest.tracks stem = true
      ∧ path ∈ artifactPaths (out.markupFile stem)) s t
  shrinks : ∀ f, v.content s f = none → v.content t f = none
  extends_report : p.report.Extends p'.report
  written : p'.report.written = p.report.written
  stemsOf : ∀ {project stem}, stem ∈ p.manifest.stemsOf project →
    stem ∈ p'.manifest.stemsOf project

namespace Prunes

variable {out : OutputDirectory} {due due' : String → Prop} {p q p' : Progress}
  {s t u : σ}

theorem refl (hs : v.tidy s) : Prunes v out due p s p s :=
  ⟨.refl hs, fun _ hf => hf, .refl _, rfl, fun h => h⟩

theorem tracks (h : Prunes v out due p s p' t) {stem : String}
    (hstem : p.manifest.tracks stem = true) :
    p'.manifest.tracks stem = true := by
  obtain ⟨project, hproject⟩ := Manifest.tracks_eq_true_iff.1 hstem
  exact Manifest.tracks_of_mem_stemsOf (h.stemsOf hproject)

theorem trans (h : Prunes v out due p s q t) (h' : Prunes v out due q t p' u) :
    Prunes v out due p s p' u := by
  refine ⟨h.spares.trans (h'.spares.mono ?_),
    fun f hf => h'.shrinks f (h.shrinks f hf),
    h.extends_report.trans h'.extends_report, h'.written.trans h.written,
    fun hstem => h'.stemsOf (h.stemsOf hstem)⟩
  rintro path ⟨stem, hdue, htracks, hpath⟩
  exact ⟨stem, hdue, fun hstem => htracks (h.tracks hstem), hpath⟩

theorem mono (h : Prunes v out due p s p' t)
    (hmore : ∀ stem, due stem → due' stem) :
    Prunes v out due' p s p' t := by
  refine ⟨h.spares.mono ?_, h.shrinks, h.extends_report, h.written, h.stemsOf⟩
  rintro path ⟨stem, hdue, htracks, hpath⟩
  exact ⟨stem, hmore stem hdue, htracks, hpath⟩

end Prunes

theorem clearStem_clears (hdisk : shop.disk.Lawful v shop.output)
    {stem : String} {s t : σ} {faults : List Fault} (hs : v.tidy s)
    (h : (shop.output.clearStem shop.disk stem).run s = (faults, t)) :
    Clears v shop.output (artifactPaths (shop.output.markupFile stem))
      faults s t :=
  deleteEach_clears hdisk hs h

/-- One turn of the deleting, at a stem that is off the record. -/
theorem clearStem_prunes (hdisk : shop.disk.Lawful v shop.output)
    {project stem : String} {p q : Progress} {faults : List Fault} {s t : σ}
    (hs : v.tidy s) (htracks : ¬ p.manifest.tracks stem = true)
    (h : (shop.output.clearStem shop.disk stem).run s = (faults, t))
    (hq : (faults = [] ∧ q = { p with report := p.report.addPruned stem })
      ∨ faults ≠ [] ∧ q = ⟨p.report.noteAll .cleanup stem faults,
          p.manifest.add project stem⟩) :
    Prunes v shop.output (· = stem) p s q t := by
  have hclears := clearStem_clears hdisk hs h
  have hspares :
      v.Spares (fun path => ∃ other,
          other = stem ∧ ¬ p.manifest.tracks other = true
        ∧ path ∈ artifactPaths (shop.output.markupFile other)) s t :=
    hclears.spares.mono fun path hpath => ⟨stem, rfl, htracks, hpath⟩
  rcases hq with ⟨-, rfl⟩ | ⟨-, rfl⟩
  · exact ⟨hspares, hclears.shrinks, .addPruned _ _, rfl, fun hstem => hstem⟩
  · exact ⟨hspares, hclears.shrinks, .noteAll _ _ _ _,
      Report.written_noteAll _ _ _ _, fun hstem =>
        Manifest.mem_stemsOf_add.2 (.inr hstem)⟩

theorem pruneStems_prunes (hdisk : shop.disk.Lawful v shop.output)
    {project : String} {stems : List String} {p p' : Progress} {s t : σ}
    (hs : v.tidy s) (h : (shop.pruneStems project stems p).run s = (p', t)) :
    Prunes v shop.output (· ∈ stems) p s p' t := by
  induction stems generalizing p s with
  | nil =>
      obtain ⟨rfl, rfl⟩ := run_pure.1 h
      exact .refl hs
  | cons stem stems ih =>
      rcases pruneStems_cons h with
        ⟨-, hrest⟩ | ⟨htracks, faults, t', q, hclear, hrest, hq⟩
      · exact (ih hs hrest).mono fun _ => List.mem_cons_of_mem stem
      · have hturn := clearStem_prunes hdisk hs htracks hclear hq
        refine (hturn.mono ?_).trans ((ih hturn.spares.tidy hrest).mono
          fun _ => List.mem_cons_of_mem stem)
        rintro other rfl
        exact List.mem_cons_self

theorem takeOver_prunes {out : OutputDirectory} {due : String → Prop}
    {previous : Manifest} {project : String} {p : Progress} {s : σ}
    (hs : v.tidy s) :
    Prunes v out due p s
      { p with manifest := p.manifest.takeOver previous project } s :=
  ⟨.refl hs, fun _ hf => hf, .refl _, rfl,
    fun h => Manifest.mem_stemsOf_takeOver.2 (.inr h)⟩

theorem pruneProjects_prunes (hdisk : shop.disk.Lawful v shop.output)
    {previous : Manifest} {retained : String → Bool} {projects : List String}
    {p p' : Progress} {s t : σ} (hs : v.tidy s)
    (h : (shop.pruneProjects previous retained projects p).run s = (p', t)) :
    Prunes v shop.output
      (fun stem => ∃ project ∈ projects, ¬ retained project = true
        ∧ stem ∈ previous.stemsOf project) p s p' t := by
  induction projects generalizing p s with
  | nil =>
      obtain ⟨rfl, rfl⟩ := run_pure.1 h
      exact .refl hs
  | cons project projects ih =>
      have hmore : ∀ stem, (∃ other ∈ projects, ¬ retained other = true
          ∧ stem ∈ previous.stemsOf other) → ∃ other ∈ project :: projects,
            ¬ retained other = true ∧ stem ∈ previous.stemsOf other :=
        fun _ ⟨other, hother, hdue⟩ =>
          ⟨other, List.mem_cons_of_mem _ hother, hdue⟩
      rcases pruneProjects_cons h with
        ⟨-, hrest⟩ | ⟨hretained, q, t', hstems, hrest⟩
      · exact (takeOver_prunes hs).trans ((ih hs hrest).mono hmore)
      · have hturn := pruneStems_prunes hdisk hs hstems
        exact (hturn.mono fun stem hstem =>
          ⟨project, List.mem_cons_self, hretained, hstem⟩).trans
          ((ih hturn.spares.tidy hrest).mono hmore)

/-- A turn of the deleting takes no stem off the record. -/
theorem tracks_of_cleared {project stem other : String} {p q : Progress}
    {faults : List Fault}
    (hq : (faults = [] ∧ q = { p with report := p.report.addPruned stem })
      ∨ faults ≠ [] ∧ q = ⟨p.report.noteAll .cleanup stem faults,
          p.manifest.add project stem⟩)
    (hother : p.manifest.tracks other = true) :
    q.manifest.tracks other = true := by
  rcases hq with ⟨-, rfl⟩ | ⟨-, rfl⟩
  · exact hother
  · exact Manifest.tracks_add.2 (.inr hother)

theorem pruneStems_tracks {project : String} {stems : List String}
    {p p' : Progress} {s t : σ}
    (h : (shop.pruneStems project stems p).run s = (p', t)) {stem : String}
    (hstem : p.manifest.tracks stem = true) :
    p'.manifest.tracks stem = true := by
  induction stems generalizing p s with
  | nil =>
      obtain ⟨rfl, rfl⟩ := run_pure.1 h
      exact hstem
  | cons first stems ih =>
      rcases pruneStems_cons h with
        ⟨-, hrest⟩ | ⟨-, faults, t', q, -, hrest, hq⟩
      · exact ih hrest hstem
      · exact ih hrest (tracks_of_cleared hq hstem)

theorem pruneStems_recorded {project : String} {stems : List String}
    {p p' : Progress} {s t : σ}
    (h : (shop.pruneStems project stems p).run s = (p', t)) {stem : String}
    (hstem : p'.manifest.tracks stem = true) :
    p.manifest.tracks stem = true ∨ stem ∈ stems := by
  induction stems generalizing p s with
  | nil =>
      obtain ⟨rfl, rfl⟩ := run_pure.1 h
      exact .inl hstem
  | cons first stems ih =>
      rcases pruneStems_cons h with
        ⟨-, hrest⟩ | ⟨-, faults, t', q, -, hrest, hq⟩
      · exact (ih hrest).imp_right (List.mem_cons_of_mem _)
      · rcases ih hrest with hstem | hstem
        · rcases hq with ⟨-, rfl⟩ | ⟨-, rfl⟩
          · exact .inl hstem
          · rcases Manifest.tracks_add.1 hstem with rfl | hstem
            · exact .inr List.mem_cons_self
            · exact .inl hstem
        · exact .inr (List.mem_cons_of_mem _ hstem)

theorem pruneProjects_recorded {previous : Manifest} {retained : String → Bool}
    {projects : List String} {p p' : Progress} {s t : σ}
    (h : (shop.pruneProjects previous retained projects p).run s = (p', t))
    {stem : String} (hstem : p'.manifest.tracks stem = true) :
    p.manifest.tracks stem = true ∨ previous.tracks stem = true := by
  induction projects generalizing p s with
  | nil =>
      obtain ⟨rfl, rfl⟩ := run_pure.1 h
      exact .inl hstem
  | cons project projects ih =>
      rcases pruneProjects_cons h with ⟨-, hrest⟩ | ⟨-, q, t', hstems, hrest⟩
      · rcases ih hrest with hstem | hstem
        · rcases Manifest.tracks_takeOver.1 hstem with hmem | hstem
          · exact .inr (Manifest.tracks_of_mem_stemsOf hmem)
          · exact .inl hstem
        · exact .inr hstem
      · rcases ih hrest with hstem | hstem
        · exact (pruneStems_recorded hstems hstem).imp_right
            Manifest.tracks_of_mem_stemsOf
        · exact .inr hstem

/-! What becomes of a stem on the old record: it is on the new one, or it was
deleted. -/

/-- Nothing of a stem is left that is off the record, and a stem whose files
were deleted is reported as such. -/
def Settled (v : FileView σ) (out : OutputDirectory) (stem : String)
    (p : Progress) (s : σ) : Prop :=
  p.manifest.tracks stem = true
    ∨ stem ∈ p.report.pruned ∧ ∀ path ∈ artifactPaths (out.markupFile stem),
        out.Below path →
          v.content s (v.place path) = none

theorem Settled.prunes {out : OutputDirectory} {due : String → Prop}
    {p p' : Progress} {s t : σ} {stem : String} (h : Settled v out stem p s)
    (hprunes : Prunes v out due p s p' t) : Settled v out stem p' t := by
  rcases h with h | ⟨hpruned, h⟩
  · exact .inl (hprunes.tracks h)
  · exact .inr ⟨hprunes.extends_report.pruned hpruned,
      fun path hpath hbelow => hprunes.shrinks _ (h path hpath hbelow)⟩

theorem pruneStems_settled (hdisk : shop.disk.Lawful v shop.output)
    {project : String} {stems : List String} {p p' : Progress} {s t : σ}
    (hs : v.tidy s) (h : (shop.pruneStems project stems p).run s = (p', t))
    {stem : String} (hstem : stem ∈ stems) :
    Settled v shop.output stem p' t := by
  induction stems generalizing p s with
  | nil => exact absurd hstem List.not_mem_nil
  | cons first stems ih =>
      rcases pruneStems_cons h with
        ⟨htracks, hrest⟩ | ⟨htracks, faults, t', q, hclear, hrest, hq⟩
      · rcases List.mem_cons.1 hstem with rfl | hstem
        · exact .inl ((pruneStems_prunes hdisk hs hrest).tracks htracks)
        · exact ih hs hrest hstem
      · have hclears := clearStem_clears hdisk hs hclear
        rcases List.mem_cons.1 hstem with rfl | hstem
        · refine Settled.prunes ?_
            (pruneStems_prunes hdisk hclears.spares.tidy hrest)
          rcases hq with ⟨hnil, rfl⟩ | ⟨-, rfl⟩
          · exact .inr ⟨List.mem_append_right _ List.mem_cons_self,
              hclears.gone hnil⟩
          · exact .inl (Manifest.tracks_add.2 (.inl rfl))
        · exact ih hclears.spares.tidy hrest hstem

theorem pruneProjects_settled (hdisk : shop.disk.Lawful v shop.output)
    {previous : Manifest} {retained : String → Bool} {projects : List String}
    {p p' : Progress} {s t : σ} (hs : v.tidy s)
    (h : (shop.pruneProjects previous retained projects p).run s = (p', t))
    {project stem : String} (hproject : project ∈ projects)
    (hstem : stem ∈ previous.stemsOf project) :
    Settled v shop.output stem p' t := by
  induction projects generalizing p s with
  | nil => exact absurd hproject List.not_mem_nil
  | cons first projects ih =>
      rcases pruneProjects_cons h with ⟨-, hrest⟩ | ⟨-, q, t', hstems, hrest⟩
      · rcases List.mem_cons.1 hproject with rfl | hproject
        · exact .inl ((pruneProjects_prunes hdisk hs hrest).tracks
            (Manifest.tracks_takeOver.2 (.inl hstem)))
        · exact ih hs hrest hproject
      · have hturn := pruneStems_prunes hdisk hs hstems
        rcases List.mem_cons.1 hproject with rfl | hproject
        · exact (pruneStems_settled hdisk hs hstems hstem).prunes
            (pruneProjects_prunes hdisk hturn.spares.tidy hrest)
        · exact ih hturn.spares.tidy hrest hproject

/-! ## The manifest -/

theorem loadPrevious_run {previous : Manifest} {report : Report} {s t : σ}
    (h : shop.loadPrevious.run s = ((previous, report), t)) :
    ∃ r, (shop.output.readManifest shop.disk).run s = (r, t)
      ∧ ((r = .ok previous ∧ report = {})
        ∨ ∃ fault, r = .error fault ∧ previous = .empty
          ∧ report = Report.note {} .cleanup shop.output.manifestFile
            fault) := by
  rw [loadPrevious, run_bind] at h
  obtain ⟨r, t', hread, h⟩ := h
  cases r with
  | ok m =>
      obtain ⟨heq, rfl⟩ := run_pure.1 h
      obtain ⟨rfl, rfl⟩ := Prod.mk.inj heq
      exact ⟨_, hread, .inl ⟨rfl, rfl⟩⟩
  | error fault =>
      obtain ⟨heq, rfl⟩ := run_pure.1 h
      obtain ⟨rfl, rfl⟩ := Prod.mk.inj heq
      exact ⟨_, hread, .inr ⟨fault, rfl, rfl, rfl⟩⟩

theorem storeManifest_run {p : Progress} {report : Report} {s t : σ}
    (h : (shop.storeManifest p).run s = (report, t)) :
    ∃ r, (shop.disk.writeText shop.output.manifestFile p.manifest.toText).run
        s = (r, t)
      ∧ ((r = .ok () ∧ report = p.report)
        ∨ r ≠ .ok () ∧ ∃ fault,
            report
              = p.report.note .cleanup shop.output.manifestFile fault) := by
  rw [storeManifest, run_bind] at h
  obtain ⟨r, t', hput, h⟩ := h
  obtain ⟨r', hwrite, hr⟩ := putManifest_turn hput
  cases r with
  | ok a =>
      obtain ⟨rfl, rfl⟩ := run_pure.1 h
      exact ⟨r', hwrite, .inl ⟨mapError_eq_ok.1 hr.symm, rfl⟩⟩
  | error fault =>
      obtain ⟨rfl, rfl⟩ := run_pure.1 h
      refine ⟨r', hwrite, .inr ⟨?_, fault, rfl⟩⟩
      rintro rfl
      exact nomatch hr

theorem storeManifest_extends {p : Progress} {report : Report} {s t : σ}
    (h : (shop.storeManifest p).run s = (report, t)) :
    p.report.Extends report := by
  obtain ⟨r, -, ⟨-, rfl⟩ | ⟨-, fault, rfl⟩⟩ := storeManifest_run h
  · exact .refl _
  · exact .note _ _ _ _

/-! ## The architecture -/

theorem drawArchitecture_run {texts : Architecture.Texts}
    {report report' : Report} {s u : σ}
    (h : (shop.drawArchitecture texts report).run s = (report', u)) :
    ∃ stale t r t', (clear shop.disk shop.output.architectureFile).run s
        = (stale, t)
      ∧ (shop.output.putArchitecture shop.disk texts).run t = (r, t')
      ∧ ((∃ fault, r = .error fault ∧ u = t' ∧ report' =
            (report.noteAll .cleanup shop.output.architectureFile stale).note
              .architecture architectureDirectory fault)
        ∨ r = .ok () ∧ (shop.renderFormats shop.output.architectureFile
            ((report.noteAll .cleanup shop.output.architectureFile
              stale).addMarkup
              shop.output.architectureFile)).run t' = (report', u)) := by
  rw [drawArchitecture, run_bind] at h
  obtain ⟨stale, t, hclear, h⟩ := h
  dsimp only at h
  rw [run_bind] at h
  obtain ⟨r, t', hput, h⟩ := h
  refine ⟨stale, t, r, t', hclear, hput, ?_⟩
  cases r with
  | error fault =>
      obtain ⟨rfl, rfl⟩ := run_pure.1 h
      exact .inl ⟨fault, rfl, rfl, rfl⟩
  | ok a => exact .inr ⟨rfl, h⟩

theorem putArchitecture_spares {disk : Disk (StateM σ)} {out : OutputDirectory}
    (hdisk : disk.Lawful v out) {texts : Architecture.Texts} {s t : σ}
    {r : Except Fault Unit} (hs : v.tidy s)
    (h : (out.putArchitecture disk texts).run s = (r, t)) :
    v.Spares (· ∈ out.architecturePaths) s t := by
  have hsummary : ∀ p, p = out.summaryFile → p ∈ out.architecturePaths := by
    rintro p rfl
    exact List.mem_cons_self
  have hmarkup : ∀ p, p = out.architectureFile → p ∈ out.architecturePaths := by
    rintro p rfl
    exact List.mem_cons_of_mem _ List.mem_cons_self
  obtain ⟨c, t₁, hcreate, hout⟩ := putArchitecture_turn h
  have hcreates := hdisk.create_spares hs hcreate
  have hbefore : v.Spares (· ∈ out.architecturePaths) s t₁ :=
    hcreates.mono fun _ hp => hp.elim
  rcases hout with ⟨e, -, rfl, -⟩ | ⟨-, first, t₂, hfirst, hout⟩
  · exact hbefore
  · have hwrites := hdisk.write_spares hcreates.tidy hfirst
    have hmiddle := hbefore.trans (hwrites.mono hsummary)
    rcases hout with ⟨e, -, rfl, -⟩ | ⟨-, second, hsecond, -⟩
    · exact hmiddle
    · exact hmiddle.trans
        ((hdisk.write_spares hwrites.tidy hsecond).mono hmarkup)

/-- What making the files of the architecture has done. -/
structure Charts (v : FileView σ) (out : OutputDirectory) (report : Report)
    (s : σ) (report' : Report) (t : σ) : Prop where
  spares : v.Spares (· ∈ out.architecturePaths) s t
  extends_report : report.Extends report'
  written : ∀ path ∈ report'.written, path ∈ report.written
    ∨ path = out.architectureFile

theorem drawArchitecture_charts (hdisk : shop.disk.Lawful v shop.output)
    (hrenderer : shop.renderer.Confined v) {texts : Architecture.Texts}
    {report report' : Report} {s t : σ} (hs : v.tidy s)
    (h : (shop.drawArchitecture texts report).run s = (report', t)) :
    Charts v shop.output report s report' t := by
  obtain ⟨stale, t₁, r, t₂, hclear, hput, hout⟩ := drawArchitecture_run h
  have hclears := deleteEach_clears hdisk hs hclear
  have hputs := putArchitecture_spares hdisk hclears.spares.tidy hput
  have hartifact : ∀ p, p ∈ artifactPaths shop.output.architectureFile →
      p ∈ shop.output.architecturePaths := fun _ => List.mem_cons_of_mem _
  have hbefore := (hclears.spares.mono hartifact).trans hputs
  have hnote :=
    Report.Extends.noteAll report .cleanup shop.output.architectureFile stale
  rcases hout with ⟨fault, -, rfl, rfl⟩ | ⟨-, hrender⟩
  · refine ⟨hbefore, hnote.trans (.note _ _ _ _), fun path hpath => .inl ?_⟩
    rwa [Report.note, Report.written_noteAll] at hpath
  · have hrenders := renderFormats_renders hrenderer hputs.tidy hrender
    refine ⟨hbefore.trans (hrenders.spares_artifacts.mono hartifact),
      hnote.trans ((Report.Extends.addMarkup _ _).trans
        hrenders.extends_report),
      fun path hpath => ?_⟩
    rw [hrenders.written, Report.addMarkup, Report.written_noteAll,
      List.mem_append, List.mem_singleton] at hpath
    exact hpath

end Workshop

/-! ## The whole run -/

variable {σ : Type} {shop : Workshop (StateM σ)} {v : FileView σ}

theorem Workshop.prepare_run {source : GraphSource} {filter : Option String}
    {q : Progress} {s u : σ} (h : (shop.prepare source filter).run s = (q, u)) :
    ∃ previous loaded t₁ p t₂,
      shop.loadPrevious.run s = ((previous, loaded), t₁)
        ∧ (shop.performAll (plan source filter) { report := loaded }).run
          t₁ = (p, t₂)
        ∧ (shop.prune previous
            (retains filter (skippedProjects (plan source filter))) p).run t₂
          = (q, u) := by
  rw [Workshop.prepare] at h
  dsimp only at h
  rw [run_bind] at h
  obtain ⟨⟨previous, loaded⟩, t₁, hload, h⟩ := h
  dsimp only at h
  rw [run_bind] at h
  obtain ⟨p, t₂, hperform, hprune⟩ := h
  exact ⟨previous, loaded, t₁, p, t₂, hload, hperform, hprune⟩

theorem run_run {source : GraphSource} {filter : Option String}
    {bounds : Architecture.Bounds} {report : Report} {s u : σ}
    (h : (run shop source filter bounds).run s = (report, u)) :
    ∃ previous loaded t₁ p t₂ q t₃ saved t₄,
      shop.loadPrevious.run s = ((previous, loaded), t₁)
        ∧ (shop.performAll (plan source filter) { report := loaded }).run
          t₁ = (p, t₂)
        ∧ (shop.prune previous
            (retains filter (skippedProjects (plan source filter))) p).run t₂
          = (q, t₃)
        ∧ (shop.storeManifest q).run t₃ = (saved, t₄)
        ∧ (shop.drawArchitecture
            (Architecture.texts source.solution bounds filter) saved).run t₄
          = (report, u) := by
  obtain ⟨saved, t₄, hsettle, hdraw⟩ := run_bind.1 h
  obtain ⟨q, t₃, hprepare, hstore⟩ := run_bind.1 hsettle
  obtain ⟨previous, loaded, t₁, p, t₂, hload, hperform, hprune⟩ :=
    Workshop.prepare_run hprepare
  exact ⟨_, _, _, _, _, _, _, _, _, hload, hperform, hprune, hstore, hdraw⟩

/-- The manifest could be read and saved: no warning is about its file. -/
def Report.KeepsManifest (out : OutputDirectory) (report : Report) : Prop :=
  ∀ w ∈ report.warnings, ¬ (w.category = .cleanup ∧ w.unit = out.manifestFile)

instance (out : OutputDirectory) (report : Report) :
    Decidable (report.KeepsManifest out) :=
  inferInstanceAs (Decidable (∀ w ∈ report.warnings, ¬ (_ ∧ _)))

theorem Report.KeepsManifest.of_extends {out : OutputDirectory} {r r' : Report}
    (h : r'.KeepsManifest out) (hextends : r.Extends r') :
    r.KeepsManifest out :=
  fun w hw => h w (hextends.warnings hw)

/-- A file of the output directory itself. -/
def Own (v : FileView σ) (out : OutputDirectory) (f : v.File) : Prop :=
  ∃ path ∈ out.ownPaths, v.place path = f

/-- The course of a run that has read its manifest and saved it: the manifest
`previous` that it has read, the progress `p` after the plan and `q` after the
deleting, and what each stage has done. -/
structure Course (v : FileView σ) (shop : Workshop (StateM σ))
    (source : GraphSource) (filter : Option String)
    (bounds : Architecture.Bounds) (s : σ) (previous : Manifest) (t₁ : σ)
    (p : Progress) (t₂ : σ) (q : Progress) (t₃ t₄ : σ) (report : Report)
    (u : σ) : Prop where
  load : (shop.output.readManifest shop.disk).run s = (.ok previous, t₁)
  reads : v.Spares (fun _ => False) s t₁
  perform : (shop.performAll (plan source filter) {}).run t₁ = (p, t₂)
  performs : Workshop.PerformsAll v shop.output (plan source filter) {} t₁ p t₂
  prune :
    (shop.prune previous
        (retains filter (skippedProjects (plan source filter))) p).run t₂
      = (q, t₃)
  prunes :
    Workshop.Prunes v shop.output (fun stem => ∃ project ∈ previous.projects,
      ¬ retains filter (skippedProjects (plan source filter)) project = true
        ∧ stem ∈ previous.stemsOf project) p t₂ q t₃
  save : (shop.disk.writeText shop.output.manifestFile q.manifest.toText).run t₃
    = (.ok (), t₄)
  saves : v.Spares (· = shop.output.manifestFile) t₃ t₄
  draw :
    (shop.drawArchitecture (Architecture.texts source.solution bounds filter)
      q.report).run t₄ = (report, u)
  charts : Workshop.Charts v shop.output q.report t₄ report u

theorem run_kept (hdisk : shop.disk.Lawful v shop.output)
    (hrenderer : shop.renderer.Confined v) {source : GraphSource}
    {filter : Option String} {bounds : Architecture.Bounds} {report : Report}
    {s u : σ} (hs : v.tidy s)
    (h : (run shop source filter bounds).run s = (report, u))
    (hkept : report.KeepsManifest shop.output) :
    ∃ previous t₁ p t₂ q t₃ t₄,
      Course v shop source filter bounds s previous t₁ p t₂ q t₃ t₄
        report u := by
  obtain ⟨previous, loaded, t₁, p, t₂, q, t₃, saved, t₄, hload, hperform,
    hprune, hstore, hdraw⟩ := run_run h
  obtain ⟨r, hread, hloaded⟩ := Workshop.loadPrevious_run hload
  have hreads := (readManifest_run hdisk hs hread).1
  have hperforms :=
    Workshop.performAll_performs hdisk hrenderer hreads.tidy hperform
  have hprunes :=
    Workshop.pruneProjects_prunes hdisk hperforms.spares.tidy hprune
  obtain ⟨stored, hwrite, hstored⟩ := Workshop.storeManifest_run hstore
  have hwrites := hdisk.write_spares hprunes.spares.tidy hwrite
  have hcharts :=
    Workshop.drawArchitecture_charts hdisk hrenderer hwrites.tidy hdraw
  have hsaved := hkept.of_extends hcharts.extends_report
  have hpruned := hsaved.of_extends (Workshop.storeManifest_extends hstore)
  have hfirst :=
    hpruned.of_extends (hperforms.extends_report.trans hprunes.extends_report)
  rcases hloaded with ⟨rfl, rfl⟩ | ⟨fault, -, -, rfl⟩
  · rcases hstored with ⟨rfl, rfl⟩ | ⟨-, fault, rfl⟩
    · exact ⟨previous, t₁, p, t₂, q, t₃, t₄, hread, hreads, hperform, hperforms,
        hprune, hprunes, hwrite, hwrites, hdraw, hcharts⟩
    · obtain ⟨w, hw, hwarning⟩ := Report.exists_warning_note q.report .cleanup
        shop.output.manifestFile fault
      exact absurd hwarning (hsaved w hw)
  · obtain ⟨w, hw, hwarning⟩ := Report.exists_warning_note {} .cleanup
      shop.output.manifestFile fault
    exact absurd hwarning (hfirst w hw)

namespace Course

variable {source : GraphSource} {filter : Option String}
  {bounds : Architecture.Bounds} {s t₁ t₂ t₃ t₄ u : σ} {previous : Manifest}
  {p q : Progress} {report : Report}

/-- The manifest that was saved is still there in the end. -/
theorem content_manifest (hdisk : shop.disk.Lawful v shop.output)
    (h : Course v shop source filter bounds s previous t₁ p t₂ q t₃ t₄
      report u) :
    v.content u (v.place shop.output.manifestFile)
      = some q.manifest.toText.toUTF8 := by
  rw [h.charts.spares.content _ fun path hpath =>
    hdisk.place_architecture_ne_manifest hpath]
  exact hdisk.write_ok h.prunes.spares.tidy h.save

/-- After the deleting a run writes files of its own only. -/
theorem content_of_not_own
    (h : Course v shop source filter bounds s previous t₁ p t₂ q t₃ t₄ report u)
    {f : v.File} (hown : ¬ Own v shop.output f) :
    v.content u f = v.content t₃ f := by
  rw [h.charts.spares.content f fun path hpath heq =>
      hown ⟨path, List.mem_cons_of_mem _ hpath, heq⟩,
    h.saves.content f fun path hpath heq =>
      hown ⟨path, hpath ▸ List.mem_cons_self, heq⟩]

end Course

end FlowAtlas.Run
