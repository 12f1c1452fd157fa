import FlowAtlas.Proofs.Run.Stages

/-!
# Staying within a relation

Take a relation between states that every operation on a file stays within,
whatever the operation comes to. If it can be put together from one operation to
the next, then every stage of a run stays within it too. Said once for all such
relations (`Within`), the recursion of the stages need not be gone through for
each of them. This takes no law of a disk; a relation that holds by the laws of
one has them as a premise.

Some relations allow operations on some paths only. The stages say which paths
they touch: the plan those of its drawings, and the deleting those of recorded
stems whose project is not retained, if nothing has put the stem back on record.
-/

namespace FlowAtlas

open OutputDirectory

variable {σ : Type}

/-- Deleting at some paths stays within a relation. -/
structure Disk.Within (disk : Disk (StateM σ)) (touched : Path → Prop)
    (R : σ → σ → Prop) : Prop where
  refl : ∀ s, R s s
  trans : ∀ {s t u}, R s t → R t u → R s u
  remove : ∀ {p s r t}, touched p → (disk.removeFile p).run s = (r, t) → R s t

namespace Run

/-- All work on files at some paths stays within a relation. -/
structure Workshop.Within (shop : Workshop (StateM σ)) (touched : Path → Prop)
    (R : σ → σ → Prop) : Prop extends shop.disk.Within touched R where
  write : ∀ {p text s r t},
    touched p → (shop.disk.writeText p text).run s = (r, t) → R s t
  render : ∀ {input output s r t}, touched output →
    (shop.renderer input output).run s = (r, t) → R s t

variable {touched : Path → Prop} {R : σ → σ → Prop}

theorem deleteEach_within {disk : Disk (StateM σ)}
    (hdisk : disk.Within touched R) {paths : List Path}
    (hpaths : ∀ p ∈ paths, touched p) {faults : List Fault} {s u : σ}
    (h : (deleteEach disk paths).run s = (faults, u)) : R s u := by
  induction paths generalizing s faults with
  | nil =>
      obtain ⟨-, rfl⟩ := run_pure.1 h
      exact hdisk.refl _
  | cons path paths ih =>
      obtain ⟨hpath, hpaths⟩ := List.forall_mem_cons.1 hpaths
      obtain ⟨r, t, more, hremove, hmore, -⟩ := deleteEach_turn h
      exact hdisk.trans (hdisk.remove hpath hremove) (ih hpaths hmore)

namespace Workshop

variable {shop : Workshop (StateM σ)} {s u : σ}

/-! ## The plan -/

theorem renderEach_within (hshop : shop.Within touched R) {markup : Path}
    {formats : List Raster}
    (hformats : ∀ format ∈ formats, touched (format.path markup))
    {report report' : Report}
    (h : (shop.renderEach markup formats report).run s = (report', u)) :
    R s u := by
  induction formats generalizing s report with
  | nil =>
      obtain ⟨-, rfl⟩ := run_pure.1 h
      exact hshop.refl _
  | cons format formats ih =>
      obtain ⟨hformat, hformats⟩ := List.forall_mem_cons.1 hformats
      obtain ⟨r, t, hrender, hrest⟩ := renderEach_turn h
      exact hshop.trans (hshop.render hformat hrender) (ih hformats hrest)

theorem renderFormats_within (hshop : shop.Within touched R) {markup : Path}
    (hpaths : ∀ p ∈ artifactPaths markup, touched p) {report report' : Report}
    (h : (shop.renderFormats markup report).run s = (report', u)) : R s u :=
  renderEach_within hshop
    (fun format _ => hpaths _ (mem_artifactPaths.2 (.inr ⟨format, rfl⟩))) h

theorem draw_within (hshop : shop.Within touched R) {d : Drawing}
    (hpaths : ∀ p ∈ artifactPaths (shop.output.markupFile d.stem), touched p)
    {p p' : Progress} (h : (shop.draw d p).run s = (p', u)) : R s u := by
  obtain ⟨stale, t, r, t', hclear, hput, hout⟩ := draw_run h
  obtain ⟨w, hwrite, -⟩ := putMarkup_turn hput
  have hwritten : R s t' :=
    hshop.trans (deleteEach_within hshop.toWithin hpaths hclear)
      (hshop.write (hpaths _ List.mem_cons_self) hwrite)
  rcases hout with ⟨fault, -, rfl, -⟩ | ⟨-, report, hrender, -⟩
  · exact hwritten
  · exact hshop.trans hwritten (renderFormats_within hshop hpaths hrender)

theorem perform_within (hshop : shop.Within touched R) {task : Task}
    (hpaths : ∀ path, Task.Concerns shop.output task path → touched path)
    {p p' : Progress} (h : (shop.perform p task).run s = (p', u)) : R s u := by
  cases task with
  | skip project fault =>
      obtain ⟨-, rfl⟩ := run_pure.1 h
      exact hshop.refl _
  | miss unit fault =>
      obtain ⟨-, rfl⟩ := run_pure.1 h
      exact hshop.refl _
  | draw d =>
      exact draw_within hshop (fun path hpath => hpaths path ⟨d, rfl, hpath⟩) h

theorem performAll_within (hshop : shop.Within touched R) {tasks : List Task}
    (hpaths : ∀ task ∈ tasks, ∀ path, Task.Concerns shop.output task path →
      touched path)
    {p p' : Progress} (h : (shop.performAll tasks p).run s = (p', u)) :
    R s u := by
  induction tasks generalizing p s with
  | nil =>
      obtain ⟨-, rfl⟩ := run_pure.1 h
      exact hshop.refl _
  | cons task tasks ih =>
      obtain ⟨hfirst, hpaths⟩ := List.forall_mem_cons.1 hpaths
      obtain ⟨q, t, hturn, hrest⟩ := performAll_cons h
      exact hshop.trans (perform_within hshop hfirst hturn) (ih hpaths hrest)

/-! ## Deleting what is out of date -/

theorem pruneStems_within (hdisk : shop.disk.Within touched R)
    {project : String} {stems : List String} {p p' : Progress}
    (hpaths : ∀ stem ∈ stems, ¬ p.manifest.tracks stem = true →
      ∀ path ∈ artifactPaths (shop.output.markupFile stem), touched path)
    (h : (shop.pruneStems project stems p).run s = (p', u)) : R s u := by
  induction stems generalizing p s with
  | nil =>
      obtain ⟨-, rfl⟩ := run_pure.1 h
      exact hdisk.refl _
  | cons stem stems ih =>
      obtain ⟨hfirst, hpaths⟩ := List.forall_mem_cons.1 hpaths
      rcases pruneStems_cons h with
        ⟨-, hrest⟩ | ⟨hfree, faults, t, q, hclear, hrest, hq⟩
      · exact ih hpaths hrest
      · refine hdisk.trans (deleteEach_within hdisk (hfirst hfree) hclear)
          (ih (fun other hother hfree => hpaths other hother fun htracks =>
            hfree ?_) hrest)
        exact tracks_of_cleared hq htracks

theorem pruneProjects_within (hdisk : shop.disk.Within touched R)
    {previous : Manifest} {retained : String → Bool} {projects : List String}
    {p p' : Progress}
    (hpaths : ∀ project,
      ¬ retained project = true → ∀ stem ∈ previous.stemsOf project,
      ¬ p.manifest.tracks stem = true →
        ∀ path ∈ artifactPaths (shop.output.markupFile stem), touched path)
    (h : (shop.pruneProjects previous retained projects p).run s = (p', u)) :
    R s u := by
  induction projects generalizing p s with
  | nil =>
      obtain ⟨-, rfl⟩ := run_pure.1 h
      exact hdisk.refl _
  | cons project projects ih =>
      rcases pruneProjects_cons h with
        ⟨-, hrest⟩ | ⟨hretained, q, t, hstems, hrest⟩
      · refine ih (fun other hother stem hstem hfree =>
          hpaths other hother stem hstem fun htracks => hfree ?_) hrest
        exact Manifest.tracks_takeOver.2 (.inr htracks)
      · refine hdisk.trans
          (pruneStems_within hdisk (hpaths project hretained) hstems)
          (ih (fun other hother stem hstem hfree =>
            hpaths other hother stem hstem fun htracks => hfree ?_) hrest)
        exact pruneStems_tracks hstems htracks

/-! ## The files of the run itself -/

theorem storeManifest_within (hshop : shop.Within touched R)
    (hpath : touched shop.output.manifestFile) {p : Progress} {report : Report}
    (h : (shop.storeManifest p).run s = (report, u)) : R s u := by
  obtain ⟨w, hwrite, -⟩ := storeManifest_run h
  exact hshop.write hpath hwrite

section Architecture

variable (hshop : shop.Within touched R)
  (hpaths : ∀ path ∈ shop.output.architecturePaths, touched path)
  (hcreates : ∀ {s r t},
    (shop.disk.createDirectories shop.output.architectureRoot).run s
      = (r, t) → R s t)
include hshop hpaths hcreates

theorem putArchitecture_within {texts : Architecture.Texts}
    {r : Except Fault Unit}
    (h : (shop.output.putArchitecture shop.disk texts).run s = (r, u)) :
    R s u := by
  obtain ⟨c, t, hcreate, hputs⟩ := putArchitecture_turn h
  rcases hputs with ⟨e, -, rfl, -⟩ | ⟨-, first, t', hfirst, hputs⟩
  · exact hcreates hcreate
  · have hsummary : R s t' :=
      hshop.trans (hcreates hcreate)
        (hshop.write (hpaths _ List.mem_cons_self) hfirst)
    rcases hputs with ⟨e, -, rfl, -⟩ | ⟨-, second, hsecond, -⟩
    · exact hsummary
    · have hmarkup := hpaths _ (List.mem_cons_of_mem _ List.mem_cons_self)
      exact hshop.trans hsummary (hshop.write hmarkup hsecond)

theorem drawArchitecture_within {texts : Architecture.Texts}
    {report report' : Report}
    (h : (shop.drawArchitecture texts report).run s = (report', u)) :
    R s u := by
  have hartifacts :
      ∀ path ∈ artifactPaths shop.output.architectureFile, touched path :=
    fun path hpath => hpaths path (List.mem_cons_of_mem _ hpath)
  obtain ⟨stale, t, r, t', hclear, hput, hout⟩ := drawArchitecture_run h
  have hwritten : R s t' :=
    hshop.trans (deleteEach_within hshop.toWithin hartifacts hclear)
      (putArchitecture_within hshop hpaths hcreates hput)
  rcases hout with ⟨fault, -, rfl, -⟩ | ⟨-, hrender⟩
  · exact hwritten
  · exact hshop.trans hwritten (renderFormats_within hshop hartifacts hrender)

end Architecture

end Workshop

end Run

end FlowAtlas
