import FlowAtlas.Proofs.Run.Retention
import FlowAtlas.Proofs.Snapshot.Opening

/-!
# What becomes of a project whose snapshot cannot be read

In a directory of snapshots the name of a project stands inside its file. When
the file can no longer be read, the project that stands for it is called after
the file, for want of another name. A run retains what the projects it passes
over have on record, and it knows these by their names only.

So the name decides. Where the project had the name of its file, it keeps its
entry and its files. Where it had a name of its own, nothing that goes by that
name was passed over, and the run takes the project for one that is gone: its
files are deleted and its entry is dropped (`unreadable_snapshot_fate`).
-/

namespace FlowAtlas

open OutputDirectory

namespace Run

/-! ## Which projects are passed over -/

theorem exists_skipped_projectTasks {source : GraphSource} {p : Project}
    {name : String} :
    (∃ task ∈ projectTasks source p, task.skipped? = some name)
      ↔ p.name = name ∧ ∃ fault, source.prepare p = .error fault := by
  unfold projectTasks
  cases source.prepare p with
  | error fault =>
      constructor
      · rintro ⟨task, htask, hname⟩
        obtain rfl := List.mem_singleton.1 htask
        exact ⟨Option.some.inj hname, fault, rfl⟩
      · rintro ⟨rfl, -⟩
        exact ⟨_, List.mem_singleton.2 rfl, rfl⟩
  | ok u =>
      constructor
      · rintro ⟨task, htask, hname⟩
        obtain ⟨d, -, htask⟩ := List.mem_flatMap.1 htask
        obtain ⟨method, -, rfl⟩ := List.mem_map.1 htask
        unfold methodTask at hname
        split at hname <;> exact nomatch hname
      · rintro ⟨-, fault, hfault⟩
        exact nomatch hfault

/-- A plan passes over the projects that cannot be used. -/
theorem mem_skippedProjects_plan {source : GraphSource} {filter : Option String}
    {name : String} :
    name ∈ skippedProjects (plan source filter)
      ↔ ∃ p ∈ source.solution.matching filter, p.name = name
        ∧ ∃ fault, source.prepare p = .error fault := by
  rw [skippedProjects, List.mem_filterMap]
  constructor
  · rintro ⟨task, htask, hname⟩
    obtain ⟨p, hp, htask⟩ := List.mem_flatMap.1 htask
    exact ⟨p, hp, exists_skipped_projectTasks.1 ⟨task, htask, hname⟩⟩
  · rintro ⟨p, hp, hskipped⟩
    obtain ⟨task, htask, hname⟩ := exists_skipped_projectTasks.2 hskipped
    exact ⟨task, List.mem_flatMap.2 ⟨p, hp, htask⟩, hname⟩

/-- A run without a filter retains a project exactly if something that goes by
its name was passed over. With one file that cannot be read, and no other one
for that name, this is the name of the file. -/
theorem retains_iff_of_unreadable {root : Path}
    {before after : List Snapshot.Finding} {broken : Snapshot.Finding}
    (hbroken : broken.Unreadable) {name : String}
    (hother : ∀ f ∈ before ++ after, f.project.name ≠ name) :
    retains none (skippedProjects (plan
        (Snapshot.source (Snapshot.solutionIn root (before ++ broken :: after)))
        none)) name = true
      ↔ Snapshot.nameFromPath broken.1 = name := by
  obtain ⟨complaint, hproject⟩ := hbroken.project_eq
  have hselects : (!selects none name) = false := rfl
  rw [retains, hselects, Bool.or_false, List.contains_iff_mem,
    mem_skippedProjects_plan]
  constructor
  · rintro ⟨p, hp, rfl, -⟩
    obtain ⟨f, hf, rfl⟩ := List.mem_map.1 (List.mem_filter.1 hp).1
    rcases List.mem_append.1 hf with hf | hf
    · exact absurd rfl (hother f (List.mem_append_left _ hf))
    · rcases List.mem_cons.1 hf with rfl | hf
      · rw [hproject]
        rfl
      · exact absurd rfl (hother f (List.mem_append_right _ hf))
  · rintro rfl
    refine ⟨broken.project,
      List.mem_filter.2 ⟨List.mem_map.2 ⟨broken, ?_, rfl⟩, rfl⟩, ?_, ?_⟩
    · exact List.mem_append_right _ List.mem_cons_self
    · rw [hproject]
      rfl
    · rw [hproject]
      exact Snapshot.prepare_brokenProject _ _

/-! ## What goes off the record -/

namespace Workshop

variable {σ : Type} {shop : Workshop (StateM σ)} {v : FileView σ}

/-- Only a stem that could not be deleted comes back on record. -/
theorem pruneStems_noted (hdisk : shop.disk.Lawful v shop.output)
    {project : String} {stems : List String} {p p' : Progress} {s t : σ}
    (hs : v.tidy s) (h : (shop.pruneStems project stems p).run s = (p', t))
    {stem : String} (hstem : p'.manifest.tracks stem = true) :
    p.manifest.tracks stem = true
      ∨ ∃ w ∈ p'.report.warnings, w.category = .cleanup ∧ w.unit = stem := by
  induction stems generalizing p s with
  | nil =>
      obtain ⟨rfl, rfl⟩ := run_pure.1 h
      exact .inl hstem
  | cons first stems ih =>
      rcases pruneStems_cons h with
        ⟨-, hrest⟩ | ⟨-, faults, t', q, hclear, hrest, hq⟩
      · exact ih hs hrest
      · have hclears := clearStem_clears hdisk hs hclear
        have hrests := pruneStems_prunes hdisk hclears.spares.tidy hrest
        rcases ih hclears.spares.tidy hrest with htracks | hnoted
        · rcases hq with ⟨-, rfl⟩ | ⟨hne, rfl⟩
          · exact .inl htracks
          · rcases Manifest.tracks_add.1 htracks with rfl | htracks
            · obtain ⟨w, hw, hwarning⟩ :=
                Report.exists_warning_noteAll p.report .cleanup stem hne
              exact .inr ⟨w, hrests.extends_report.warnings hw, hwarning⟩
            · exact .inl htracks
        · exact .inr hnoted

/-- A stem comes on record again through a project that is retained, or because
it could not be deleted. -/
theorem pruneProjects_noted (hdisk : shop.disk.Lawful v shop.output)
    {previous : Manifest} {retained : String → Bool} {projects : List String}
    {p p' : Progress} {s t : σ} (hs : v.tidy s)
    (h : (shop.pruneProjects previous retained projects p).run s = (p', t))
    {stem : String} (hstem : p'.manifest.tracks stem = true) :
    p.manifest.tracks stem = true
      ∨ (∃ project, retained project = true ∧ stem ∈ previous.stemsOf project)
      ∨ ∃ w ∈ p'.report.warnings, w.category = .cleanup ∧ w.unit = stem := by
  induction projects generalizing p s with
  | nil =>
      obtain ⟨rfl, rfl⟩ := run_pure.1 h
      exact .inl hstem
  | cons project projects ih =>
      rcases pruneProjects_cons h with
        ⟨hretained, hrest⟩ | ⟨-, q, t', hstems, hrest⟩
      · rcases ih hs hrest with htracks | hrest
        · rcases Manifest.tracks_takeOver.1 htracks with hmem | htracks
          · exact .inr (.inl ⟨project, hretained, hmem⟩)
          · exact .inl htracks
        · exact .inr hrest
      · have hturn := pruneStems_prunes hdisk hs hstems
        have hrests := pruneProjects_prunes hdisk hturn.spares.tidy hrest
        rcases ih hturn.spares.tidy hrest with htracks | hrest
        · rcases pruneStems_noted hdisk hs hstems htracks with
            htracks | ⟨w, hw, hwarning⟩
          · exact .inl htracks
          · exact .inr (.inr ⟨w, hrests.extends_report.warnings hw, hwarning⟩)
        · exact .inr hrest

end Workshop

/-! ## Opening and running -/

/-- A run without a filter over the hierarchy at a path. -/
def regenerate {m : Type → Type} [Monad m] (shop : Workshop m) (root : Path)
    (bounds : Architecture.Bounds) : m (Except Fault Report) := do
  match ← Snapshot.openSnapshot shop.disk root with
  | .error fault => pure (.error fault)
  | .ok solution =>
    pure (.ok (← run shop (Snapshot.source solution) none bounds))

variable {σ : Type} {shop : Workshop (StateM σ)} {v : FileView σ}

theorem regenerate_run {root : Path} {bounds : Architecture.Bounds}
    {findings : List Snapshot.Finding} {report : Report} {s t u : σ}
    (hopens : Snapshot.Opens shop.disk root s findings t)
    (h : (regenerate shop root bounds).run s = (.ok report, u)) :
    (run shop (Snapshot.source (Snapshot.solutionIn root findings))
        none bounds).run t
      = (report, u) := by
  rw [regenerate, run_bind] at h
  obtain ⟨r, t', hopen, h⟩ := h
  obtain ⟨rfl, rfl⟩ := Prod.mk.inj (hopens.openSnapshot.symm.trans hopen)
  dsimp only at h
  rw [run_bind] at h
  obtain ⟨report', u', hrun, h⟩ := h
  obtain ⟨heq, rfl⟩ := run_pure.1 h
  obtain rfl := Except.ok.inj heq
  exact hrun

namespace Course

variable {source : GraphSource} {filter : Option String}
  {bounds : Architecture.Bounds} {s t₁ t₂ t₃ t₄ u : σ} {previous : Manifest}
  {p q : Progress} {report : Report} {stem : String}

/-- The plan leaves the files of a stem alone that it does not compose. -/
theorem content_of_not_composed
    (h : Course v shop source filter bounds s previous t₁ p t₂ q t₃ t₄ report u)
    (hunshared : Unshared v shop.output previous source filter stem)
    (hfresh : ¬ Composed source filter stem) {path : Path}
    (hpath : path ∈ artifactPaths (shop.output.markupFile stem)) :
    v.content t₂ (v.place path) = v.content s (v.place path) := by
  rw [h.performs.spares.content, h.reads.content _ fun _ hp => hp.elim]
  rintro other ⟨task, htask, d, hd, hother⟩
  have hne : d.stem ≠ stem := fun heq => hfresh ⟨task, htask, d, hd, heq⟩
  exact (hunshared.apart d.stem hne (.inr ⟨task, htask, d, hd, rfl⟩) path hpath
    other hother).symm

theorem not_tracks_of_not_composed
    (h : Course v shop source filter bounds s previous t₁ p t₂ q t₃ t₄ report u)
    (hfresh : ¬ Composed source filter stem) :
    ¬ p.manifest.tracks stem = true := by
  intro htracks
  rcases h.performs.recorded htracks with hnone | hcomposed
  · exact Manifest.not_tracks_empty hnone
  · exact hfresh hcomposed

end Course

theorem firstRecorder_of_only {previous : Manifest} {stem name : String}
    (hstem : stem ∈ previous.stemsOf name)
    (honly : ∀ project, stem ∈ previous.stemsOf project → project = name) :
    previous.firstRecorder stem = some name := by
  obtain ⟨first, hfirst⟩ := Option.isSome_iff_exists.1 (List.find?_isSome.2
    ⟨name, Manifest.mem_projects_of_mem_stemsOf hstem,
      Manifest.records_iff.2 hstem⟩)
  have hrecords : previous.records stem first = true := List.find?_some hfirst
  rw [← honly first (Manifest.records_iff.1 hrecords)]
  exact hfirst

/-- When a snapshot can no longer be read, its project keeps its entry and the
files of its stems if it has the name of its file. If it has a name of its own,
the files are deleted and the entry is dropped, as far as deleting is not
refused. -/
theorem unreadable_snapshot_fate (hdisk : shop.disk.Lawful v shop.output)
    (hrenderer : shop.renderer.Confined v) {root : Path}
    {bounds : Architecture.Bounds} {before after : List Snapshot.Finding}
    {broken : Snapshot.Finding} {report : Report} {s t t₁ u : σ}
    {previous : Manifest}
    (hopens : Snapshot.Opens shop.disk root s (before ++ broken :: after) t)
    (ht : v.tidy t) (h : (regenerate shop root bounds).run s = (.ok report, u))
    (hkept : report.KeepsManifest shop.output)
    (hload : (shop.output.readManifest shop.disk).run t = (.ok previous, t₁))
    (hbroken : broken.Unreadable) {name : String}
    (hother : ∀ f ∈ before ++ after, f.project.name ≠ name) {stem : String}
    (hstem : stem ∈ previous.stemsOf name)
    (honly : ∀ project, stem ∈ previous.stemsOf project → project = name)
    (hfresh : ¬ Composed
      (Snapshot.source (Snapshot.solutionIn root (before ++ broken :: after)))
      none stem)
    (hunshared : Unshared v shop.output previous
      (Snapshot.source (Snapshot.solutionIn root (before ++ broken :: after)))
      none stem) :
    ∃ m : Manifest, v.content u (v.place shop.output.manifestFile)
        = some m.toText.toUTF8
      ∧ (Snapshot.nameFromPath broken.1 = name →
          (∀ other ∈ previous.stemsOf name, other ∈ m.stemsOf name)
          ∧ ∀ path ∈ artifactPaths (shop.output.markupFile stem),
            v.content u (v.place path) = v.content t (v.place path))
      ∧ (Snapshot.nameFromPath broken.1 ≠ name → '.' ∉ stem.toList →
          (∀ w ∈ report.warnings, w.category = .cleanup → w.unit ≠ stem) →
          ¬ m.tracks stem = true
          ∧ ∀ path ∈ artifactPaths (shop.output.markupFile stem),
            v.content u (v.place path) = none) := by
  obtain ⟨previous', t₁', p, t₂, q, t₃, t₄, hcourse⟩ :=
    run_kept hdisk hrenderer ht (regenerate_run hopens h) hkept
  obtain ⟨heq, rfl⟩ := Prod.mk.inj (hload.symm.trans hcourse.load)
  obtain rfl := Except.ok.inj heq
  have hretains := @retains_iff_of_unreadable root _ _ _ hbroken _ hother
  have hfirst := firstRecorder_of_only hstem honly
  have htidy := hcourse.performs.spares.tidy
  have htracks := hcourse.not_tracks_of_not_composed hfresh
  refine ⟨q.manifest, hcourse.content_manifest hdisk,
    fun hname => ⟨fun other hmem => ?_,
      fun path hpath => ?_⟩, fun hname hundotted hquiet => ?_⟩
  · exact Workshop.pruneProjects_retains hdisk htidy hcourse.prune
      (Manifest.mem_projects_of_mem_stemsOf hmem) (hretains.2 hname) hmem
  · have hspares :=
      Workshop.pruneProjects_spares_of_retained hdisk htidy hcourse.prune hfirst
        (hretains.2 hname)
    rw [hcourse.content_of_not_own (hunshared.not_own path hpath),
      hspares.content, hcourse.content_of_not_composed hunshared hfresh hpath]
    rintro other ⟨stem', hne, htracks', hother'⟩
    exact (hunshared.apart stem' hne (.inl htracks') path hpath
      other hother').symm
  · have hnoted :
        ¬ ∃ w ∈ q.report.warnings, w.category = .cleanup ∧ w.unit = stem := by
      rintro ⟨w, hw, hcleanup, hunit⟩
      exact hquiet w (hcourse.charts.extends_report.warnings hw) hcleanup hunit
    refine ⟨fun hstays => ?_, fun path hpath => ?_⟩
    · rcases Workshop.pruneProjects_noted hdisk htidy hcourse.prune hstays with
        hp | ⟨project, hretained, hmem⟩ | hw
      · exact htracks hp
      · obtain rfl := honly project hmem
        exact hname (hretains.1 hretained)
      · exact hnoted hw
    · rcases Workshop.pruneProjects_gone hdisk htidy hcourse.prune hfirst
        (fun hretained => hname (hretains.1 hretained)) hundotted htracks with
          hgone | hw
      · rw [hcourse.content_of_not_own (hunshared.not_own path hpath),
          hgone path hpath]
      · exact absurd hw hnoted

/-! ## A snapshot that is cut off -/

/-- The snapshot of a project with one method. -/
def snapshotText : String :=
  "\x7b\"name\": \"P\", \"documents\": [\x7b\"name\": \"C.cs\", \"methods\": ["
    ++ "\x7b\"name\": \"M\", \"cfg\": \x7b\x7d\x7d]\x7d]\x7d"

/-- What is left of it. -/
def cutText : String := "\x7b"

/-- A directory with a snapshot, beside an empty output directory. -/
def snapshotTree (file text : String) : FileTree :=
  (sampleTree.put ["in"] .directory).put ["in", file] (.file text.toUTF8 false)

/-- The workshop of the samples. -/
def sampleShop : Workshop (StateM FileTree) :=
  ⟨FileTree.disk, FileTree.painter [] ⟨"out"⟩ samplePaint, ⟨"out"⟩⟩

/-- The record of the project. -/
def snapshotRecord : Manifest := Manifest.empty.add "P" "P_C_M"

theorem mem_stemsOf_snapshotRecord {project stem : String} :
    stem ∈ snapshotRecord.stemsOf project ↔ project = "P" ∧ stem = "P_C_M" := by
  rw [snapshotRecord, Manifest.mem_stemsOf_add]
  exact or_iff_left List.not_mem_nil

/-- A snapshot that is cut off, and what an earlier run has left for its
project. -/
def cutTree (file : String) : FileTree :=
  ((snapshotTree file cutText).put ["out", ".cfgflow-artifacts.json"]
    (.file snapshotRecord.toText.toUTF8 false)).put ["out", "P_C_M.mmd"]
      (.file "flowchart TD\n".toUTF8 false)

/-- A run has drawn a snapshot whose file has another name than its project, and
then the snapshot is cut off. -/
def renamedTree : FileTree :=
  ((regenerate sampleShop "in" {}).run
    (snapshotTree "a.json" snapshotText)).2.put
    ["in", "a.json"] (.file cutText.toUTF8 false)

theorem at?_put_in (l : Location) :
    (sampleTree.put ["in"] .directory).at? l
      = if l = ["in"] ∨ l = ["out"] ∨ l = [] then some .directory
        else none := by
  rw [FileTree.at?_put _ _ _ _ (List.cons_ne_nil _ _), at?_sampleTree]
  by_cases hin : l = ["in"]
  · rw [if_pos hin, if_pos (.inl hin)]
  · rw [if_neg hin]
    simp only [hin, false_or]

theorem tidy_snapshotTree (file text : String) :
    sampleView.tidy (snapshotTree file text) := by
  have hordered : (sampleTree.put ["in"] .directory).Tidy [] :=
    @FileTree.Tidy.put [] sampleTree tidy_sampleTree.1 [] "in" .directory
      FileTree.at?_root (fun h => nomatch h) fun _ h => nomatch h
  have hin : sampleView.tidy (sampleTree.put ["in"] .directory) := by
    refine ⟨hordered, ?_, fun l hl hdir => ?_⟩
    · rw [spot_sampleRoot, at?_put_in]
      rfl
    · obtain ⟨name, rfl⟩ := FileTree.exists_of_isRaster hl
      rw [spot_sampleRoot, at?_put_in, if_neg (by simp)] at hdir
      exact nomatch hdir
  have hold : (sampleTree.put ["in"] .directory).at? ["in", file]
      ≠ some .directory := by
    rw [at?_put_in, if_neg (by simp)]
    exact fun h => nomatch h
  have hdiffers :
      FileTree.Differs [] ["in", file] (sampleTree.put ["in"] .directory)
        (snapshotTree file text) :=
    @FileTree.Tidy.put_file [] _ hordered ["in"] file text.toUTF8 false
      (by rw [at?_put_in]; rfl) hold
  exact ⟨hdiffers.tidy, sampleView_lasting.keep hdiffers.directory hin.2⟩

theorem tidy_cutTree (file : String) : sampleView.tidy (cutTree file) := by
  have habsent :
      ∀ name, (snapshotTree file cutText).at? ["out", name] = none := by
    intro name
    rw [snapshotTree, FileTree.at?_put _ _ _ _ (List.cons_ne_nil _ _),
      at?_put_in]
    simp
  refine tidy_put_sample
    (tidy_put_sample (tidy_snapshotTree file cutText) ?_) ?_
  · rw [habsent]
    exact fun h => nomatch h
  · rw [FileTree.at?_put _ _ _ _ (List.cons_ne_nil _ _), habsent]
    exact fun h => nomatch h

theorem opens_tree {t : FileTree} {root : Path} {survey : Survey}
    (hdirectory : t.isDirectory root = .ok true)
    (hsurvey : t.survey root = .ok survey) :
    Snapshot.Opens FileTree.disk root t
      ((Snapshot.snapshotFiles (survey.files Snapshot.enters)).map fun names =>
        (Snapshot.pathTo root names, t.readText (Snapshot.pathTo root names)))
          t := by
  refine ⟨t, t, survey, by rw [← hdirectory]; rfl, by rw [← hsurvey]; rfl, ?_⟩
  exact Snapshot.readFindings_tree t root _

/-- In a directory with one file that file is read. -/
theorem opens_file {t : FileTree} {file text : String}
    (hfile : (match t.survey "in" with
      | .ok survey => Snapshot.snapshotFiles (survey.files Snapshot.enters)
      | .error _ => []) = [[file]])
    (hdirectory : t.isDirectory "in" = .ok true)
    (hread : t.readText (Path.join "in" file) = .ok text) :
    Snapshot.Opens FileTree.disk "in" t
      [(Path.join "in" file, .ok text)] t := by
  cases hsurvey : t.survey "in" with
  | error e =>
      rw [hsurvey] at hfile
      exact nomatch hfile
  | ok survey =>
      rw [hsurvey] at hfile
      have hopens := opens_tree hdirectory hsurvey
      rw [show Snapshot.snapshotFiles (survey.files Snapshot.enters)
        = [[file]] from hfile]
        at hopens
      have hpath : Snapshot.pathTo "in" [file] = Path.join "in" file := rfl
      rwa [List.map_singleton, hpath, hread] at hopens

theorem cutText_unreadable (path : Path) :
    Snapshot.Finding.Unreadable (path, .ok cutText) := by
  have herror : (Project.ofText cutText).isOk = false := by decide +kernel
  intro text htext project hproject
  obtain rfl := Except.ok.inj htext
  rw [hproject] at herror
  cases herror

theorem cutTree_load (file : String)
    (hread :
      ((OutputDirectory.readManifest ⟨"out"⟩ FileTree.disk).run
        (cutTree file)).1
      = .ok snapshotRecord) :
    ∃ t, (OutputDirectory.readManifest ⟨"out"⟩ FileTree.disk).run (cutTree file)
      = (.ok snapshotRecord, t) := by
  generalize (OutputDirectory.readManifest ⟨"out"⟩ FileTree.disk).run
    (cutTree file) = result
    at hread ⊢
  obtain ⟨r, t⟩ := result
  obtain rfl : r = .ok snapshotRecord := hread
  exact ⟨t, rfl⟩

theorem plan_cut (path : Path) :
    ∃ fault,
        plan (Snapshot.source (Snapshot.solutionIn "in" [(path, .ok cutText)]))
            none
          = [.skip (Snapshot.nameFromPath path) fault] := by
  obtain ⟨complaint, hproject⟩ := (cutText_unreadable path).project_eq
  obtain ⟨fault, hfault⟩ := Snapshot.prepare_brokenProject path complaint
  refine ⟨fault, ?_⟩
  have hprepare :
      (Snapshot.source (Snapshot.solutionIn "in" [(path, .ok cutText)])).prepare
        (Snapshot.brokenProject path complaint) = .error fault := hfault
  have hplan :
      plan (Snapshot.source (Snapshot.solutionIn "in" [(path, .ok cutText)]))
          none
        = [Snapshot.Finding.project (path, .ok cutText)].flatMap
            (projectTasks (Snapshot.source
              (Snapshot.solutionIn "in" [(path, .ok cutText)]))) := rfl
  rw [hplan, hproject, List.flatMap_singleton, projectTasks, hprepare]
  rfl

theorem not_composed_cut (path : Path) (stem : String) :
    ¬ Composed
      (Snapshot.source (Snapshot.solutionIn "in" [(path, .ok cutText)]))
      none stem := by
  rintro ⟨task, htask, d, hd, -⟩
  obtain ⟨fault, hplan⟩ := plan_cut path
  rw [hplan] at htask
  obtain rfl := List.mem_singleton.1 htask
  exact nomatch hd

theorem snapshotRecord_unshared (path : Path) :
    Unshared sampleView ⟨"out"⟩ snapshotRecord
      (Snapshot.source (Snapshot.solutionIn "in" [(path, .ok cutText)]))
      none "P_C_M" := by
  have hflat : Flat "P_C_M" := by constructor <;> decide
  refine unshared_of_flat sampleView_lawful hflat (by decide) ?_
  rintro other (htracks | hcomposed)
  · rcases Manifest.tracks_add.1 htracks with rfl | htracks
    · exact hflat
    · exact absurd htracks Manifest.not_tracks_empty
  · exact absurd hcomposed (not_composed_cut path other)

/-- The project has the name of its file: it keeps what it has. -/
theorem cut_snapshot_kept :
    ∃ m : Manifest,
      ((regenerate sampleShop "in" {}).run (cutTree "P.json")).2.bytesAt
          ["out", ".cfgflow-artifacts.json"] = some m.toText.toUTF8
      ∧ "P_C_M" ∈ m.stemsOf "P"
      ∧ ((regenerate sampleShop "in" {}).run (cutTree "P.json")).2.bytesAt
          ["out", "P_C_M.mmd"]
        = (cutTree "P.json").bytesAt ["out", "P_C_M.mmd"]
      ∧ (cutTree "P.json").bytesAt ["out", "P_C_M.mmd"] ≠ none := by
  have hopens :=
    @opens_file (cutTree "P.json") "P.json" cutText (by decide +kernel)
      (by decide +kernel) (by decide +kernel)
  have hmarkup : FileTree.spot [] (OutputDirectory.markupFile ⟨"out"⟩ "P_C_M")
      = ["out", "P_C_M.mmd"] := by
    decide
  have hname :
      Snapshot.nameFromPath (Path.join "in" "P.json") = "P" := by decide
  have hexists :
      (cutTree "P.json").bytesAt ["out", "P_C_M.mmd"] ≠ none := by decide
  have hevaluated :
      (match ((regenerate sampleShop "in" {}).run (cutTree "P.json")).1 with
      | .ok report => decide (report.KeepsManifest ⟨"out"⟩)
      | .error _ => false) = true := by
    decide +kernel
  obtain ⟨t, hload⟩ := cutTree_load "P.json" (by decide +kernel)
  generalize hend :
    (regenerate sampleShop "in" {}).run (cutTree "P.json") = result
      at hevaluated ⊢
  obtain ⟨r, u⟩ := result
  cases r with
  | error fault => exact nomatch hevaluated
  | ok report =>
      have hrenderer : sampleShop.renderer.Confined sampleView :=
        (FileTree.painter_follows sampleView_lasting).confined
      obtain ⟨m, hsaved, hkept, -⟩ :=
        @unreadable_snapshot_fate FileTree sampleShop sampleView
          sampleView_lawful hrenderer "in" {} [] []
          (Path.join "in" "P.json", .ok cutText) report (cutTree "P.json")
          (cutTree "P.json") t u snapshotRecord hopens (tidy_cutTree _) hend
          (of_decide_eq_true hevaluated) hload (cutText_unreadable _) "P"
          (fun _ hf => absurd hf List.not_mem_nil) "P_C_M" (by decide)
          (fun _ hmem => (mem_stemsOf_snapshotRecord.1 hmem).1)
          (not_composed_cut _ _) (snapshotRecord_unshared _)
      obtain ⟨hrecord, hfiles⟩ := hkept hname
      rw [← spot_sampleManifest, ← hmarkup]
      exact ⟨m, hsaved, hrecord _ (by decide), hfiles _ List.mem_cons_self,
        hmarkup ▸ hexists⟩

/-- The project has a name of its own: one run draws it, and the next one, which
can no longer read its snapshot, deletes what was drawn. -/
theorem renamed_snapshot_deleted :
    (∃ project, Project.ofText snapshotText = .ok project ∧ project.name = "P")
      ∧ Snapshot.Finding.Unreadable (Path.join "in" "a.json", .ok cutText)
      ∧ Snapshot.Opens FileTree.disk "in" renamedTree
          [(Path.join "in" "a.json", .ok cutText)] renamedTree
      ∧ renamedTree.bytesAt ["out", ".cfgflow-artifacts.json"]
          = some snapshotRecord.toText.toUTF8
      ∧ renamedTree.bytesAt ["out", "P_C_M.mmd"] ≠ none
      ∧ (∀ stem, ¬ Composed
          (Snapshot.source (Snapshot.solutionIn "in"
            [(Path.join "in" "a.json", .ok cutText)]))
          none stem)
      ∧ ((regenerate sampleShop "in" {}).run renamedTree).2.bytesAt
        ["out", "P_C_M.mmd"] = none
      ∧ ((regenerate sampleShop "in" {}).run renamedTree).2.bytesAt
          ["out", ".cfgflow-artifacts.json"]
            = some Manifest.empty.toText.toUTF8 := by
  have hproject :
      (Project.ofText snapshotText).toOption.map Project.name = some "P" := by
    decide +kernel
  have hbefore : (match renamedTree.survey "in" with
        | .ok survey => Snapshot.snapshotFiles (survey.files Snapshot.enters)
        | .error _ => []) = [["a.json"]]
      ∧ renamedTree.isDirectory "in" = .ok true
      ∧ renamedTree.readText (Path.join "in" "a.json") = .ok cutText
      ∧ renamedTree.bytesAt ["out", ".cfgflow-artifacts.json"]
          = some snapshotRecord.toText.toUTF8
      ∧ renamedTree.bytesAt ["out", "P_C_M.mmd"] ≠ none := by
    decide +kernel
  obtain ⟨hsurvey, hdirectory, hread, hmanifest, hmarkup⟩ := hbefore
  have hafter : ((regenerate sampleShop "in" {}).run renamedTree).2.bytesAt
        ["out", "P_C_M.mmd"] = none
      ∧ ((regenerate sampleShop "in" {}).run renamedTree).2.bytesAt
          ["out", ".cfgflow-artifacts.json"]
            = some Manifest.empty.toText.toUTF8 := by
    decide +kernel
  refine ⟨?_, cutText_unreadable _, opens_file hsurvey hdirectory hread,
    hmanifest, hmarkup, not_composed_cut _, hafter⟩
  cases htext : Project.ofText snapshotText with
  | error refusal =>
      rw [htext] at hproject
      cases hproject
  | ok project =>
      rw [htext] at hproject
      exact ⟨project, rfl, Option.some.inj hproject⟩

end Run

end FlowAtlas
