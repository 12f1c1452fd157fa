import FlowAtlas.Proofs.Run.Tracking

/-!
# What becomes of the stems of a retained project

A project that a run leaves out, or that it cannot use, keeps its entry in the
manifest. Its files are another matter. Stems are not unique to a project, and
the deleting goes through the projects in the order of the old manifest while
the new one is still being filled: a stem that a retained project shares counts
as in use only from that project's turn on.

So one project decides, the first one that has the stem on record. If it is
retained, the files of the stem are left as they were; if not, they are deleted
while the stem goes back on record for the retained project later
(`retained_stem_fate`).
-/

namespace FlowAtlas

open OutputDirectory

/-- Whether a manifest has a stem on record for a project. -/
def Manifest.records (m : Manifest) (stem project : String) : Bool :=
  (m.stemsOf project).contains stem

/-- The first project, in the order of the manifest, that has a stem on
record. -/
def Manifest.firstRecorder (m : Manifest) (stem : String) : Option String :=
  m.projects.find? (m.records stem)

theorem Manifest.records_iff {m : Manifest} {stem project : String} :
    m.records stem project = true ↔ stem ∈ m.stemsOf project := by
  rw [records, List.contains_iff_mem]

namespace Run

/-- Two stems that share no file. -/
def Apart {σ : Type} (v : FileView σ) (out : OutputDirectory)
    (stem other : String) : Prop :=
  ∀ path ∈ artifactPaths (out.markupFile stem),
    ∀ q ∈ artifactPaths (out.markupFile other),
      v.place path ≠ v.place q

namespace Workshop

variable {σ : Type} {shop : Workshop (StateM σ)} {v : FileView σ}

/-! ## The turns before the deciding one -/

/-- A turn at a project without the stem leaves it as it was: on record or off
it. -/
theorem not_tracks_of_turn {previous : Manifest} {project stem : String}
    {p q : Progress} {s t : σ}
    (hproject : ¬ previous.records stem project = true)
    (h : (shop.pruneStems project (previous.stemsOf project) p).run s = (q, t))
    (hstem : ¬ p.manifest.tracks stem = true) :
    ¬ q.manifest.tracks stem = true := by
  intro hq
  rcases pruneStems_recorded h hq with hp | hmem
  · exact hstem hp
  · exact hproject (Manifest.records_iff.2 hmem)

/-! ## The deciding turn -/

/-- The paths of the stems other than one that a manifest has on record. -/
def Elsewhere (previous : Manifest) (out : OutputDirectory) (stem : String)
    (path : Path) : Prop :=
  ∃ other, other ≠ stem ∧ previous.tracks other = true
    ∧ path ∈ artifactPaths (out.markupFile other)

theorem Prunes.spares_elsewhere {previous : Manifest} {out : OutputDirectory}
    {due : String → Prop} {p p' : Progress} {s t : σ} {stem : String}
    (h : Prunes v out due p s p' t)
    (hdue : ∀ other, due other → previous.tracks other = true)
    (hstem : p.manifest.tracks stem = true ∨ ¬ due stem) :
    v.Spares (Elsewhere previous out stem) s t := by
  refine h.spares.mono ?_
  rintro path ⟨other, hother, htracks, hpath⟩
  refine ⟨other, ?_, hdue other hother, hpath⟩
  rintro rfl
  rcases hstem with hstem | hstem
  · exact htracks hstem
  · exact hstem hother

theorem tracks_of_due {previous : Manifest} {retained : String → Bool}
    {projects : List String} {stem : String}
    (h : ∃ project ∈ projects, ¬ retained project = true
      ∧ stem ∈ previous.stemsOf project) : previous.tracks stem = true := by
  obtain ⟨project, -, -, hstem⟩ := h
  exact Manifest.tracks_of_mem_stemsOf hstem

/-- If the first project that has the stem is retained, the stem is spared. -/
theorem pruneProjects_spares_of_retained
    (hdisk : shop.disk.Lawful v shop.output) {previous : Manifest}
    {retained : String → Bool} {projects : List String} {p p' : Progress}
    {s t : σ} (hs : v.tidy s)
    (h : (shop.pruneProjects previous retained projects p).run s = (p', t))
    {stem first : String}
    (hfirst : projects.find? (previous.records stem) = some first)
    (hretained : retained first = true) :
    v.Spares (Elsewhere previous shop.output stem) s t := by
  induction projects generalizing p s with
  | nil => exact nomatch hfirst
  | cons project projects ih =>
      by_cases hrecords : previous.records stem project = true
      · rw [List.find?_cons_of_pos hrecords] at hfirst
        obtain rfl := Option.some.inj hfirst
        rcases pruneProjects_cons h with ⟨-, hrest⟩ | ⟨hnot, -⟩
        · -- Taken over on its turn, the stem is in use from here on.
          have hstem := Manifest.records_iff.1 hrecords
          exact (pruneProjects_prunes hdisk hs hrest).spares_elsewhere
            (fun _ => tracks_of_due)
            (.inl (Manifest.tracks_takeOver.2 (.inl hstem)))
        · exact absurd hretained hnot
      · rw [List.find?_cons_of_neg hrecords] at hfirst
        rcases pruneProjects_cons h with ⟨-, hrest⟩ | ⟨-, q, t', hstems, hrest⟩
        · exact ih hs hrest hfirst
        · -- Not this project's stem: its turn deletes other stems only.
          have hturn := pruneStems_prunes hdisk hs hstems
          have hspares : v.Spares (Elsewhere previous shop.output stem) s t' :=
            hturn.spares_elsewhere (fun _ => Manifest.tracks_of_mem_stemsOf)
              (.inr fun hmem => hrecords (Manifest.records_iff.2 hmem))
          exact hspares.trans (ih hturn.spares.tidy hrest hfirst)

/-- The files of a stem are gone, or a warning says that one of them could not
be deleted. -/
def GoneOrNoted (v : FileView σ) (out : OutputDirectory) (stem : String)
    (report : Report) (s : σ) : Prop :=
  (∀ path ∈ artifactPaths (out.markupFile stem),
      v.content s (v.place path) = none)
    ∨ ∃ w ∈ report.warnings, w.category = .cleanup ∧ w.unit = stem

theorem GoneOrNoted.prunes {out : OutputDirectory} {due : String → Prop}
    {p p' : Progress} {s t : σ} {stem : String}
    (h : GoneOrNoted v out stem p.report s)
    (hprunes : Prunes v out due p s p' t) :
    GoneOrNoted v out stem p'.report t := by
  rcases h with h | ⟨w, hw, hwarning⟩
  · exact .inl fun path hpath => hprunes.shrinks _ (h path hpath)
  · exact .inr ⟨w, hprunes.extends_report.warnings hw, hwarning⟩

theorem pruneStems_gone (hdisk : shop.disk.Lawful v shop.output)
    {project : String} {stems : List String} {p p' : Progress} {s t : σ}
    (hs : v.tidy s) (h : (shop.pruneStems project stems p).run s = (p', t))
    {stem : String} (hstem : stem ∈ stems) (hundotted : '.' ∉ stem.toList)
    (htracks : ¬ p.manifest.tracks stem = true) :
    GoneOrNoted v shop.output stem p'.report t := by
  induction stems generalizing p s with
  | nil => exact absurd hstem List.not_mem_nil
  | cons first stems ih =>
      rcases pruneStems_cons h with
        ⟨hfirst, hrest⟩ | ⟨-, faults, t', q, hclear, hrest, hq⟩
      · rcases List.mem_cons.1 hstem with rfl | hstem
        · exact absurd hfirst htracks
        · exact ih hs hrest hstem htracks
      · have hclears := clearStem_clears hdisk hs hclear
        by_cases heq : stem = first
        · subst heq
          refine GoneOrNoted.prunes ?_
            (pruneStems_prunes hdisk hclears.spares.tidy hrest)
          rcases hq with ⟨hnil, rfl⟩ | ⟨hne, rfl⟩
          · exact .inl fun path hpath =>
              hclears.gone hnil path hpath (below_artifactPaths hundotted hpath)
          · exact .inr (Report.exists_warning_noteAll _ _ _ hne)
        · refine ih hclears.spares.tidy hrest
            ((List.mem_cons.1 hstem).resolve_left heq) ?_
          rcases hq with ⟨-, rfl⟩ | ⟨-, rfl⟩
          · exact htracks
          · exact fun h => (Manifest.tracks_add.1 h).elim heq htracks

/-- If the first project that has the stem is not retained, the files of the
stem are deleted, whoever else has it. -/
theorem pruneProjects_gone (hdisk : shop.disk.Lawful v shop.output)
    {previous : Manifest} {retained : String → Bool} {projects : List String}
    {p p' : Progress} {s t : σ} (hs : v.tidy s)
    (h : (shop.pruneProjects previous retained projects p).run s = (p', t))
    {stem first : String}
    (hfirst : projects.find? (previous.records stem) = some first)
    (hretained : ¬ retained first = true) (hundotted : '.' ∉ stem.toList)
    (htracks : ¬ p.manifest.tracks stem = true) :
    GoneOrNoted v shop.output stem p'.report t := by
  induction projects generalizing p s with
  | nil => exact nomatch hfirst
  | cons project projects ih =>
      by_cases hrecords : previous.records stem project = true
      · rw [List.find?_cons_of_pos hrecords] at hfirst
        obtain rfl := Option.some.inj hfirst
        rcases pruneProjects_cons h with ⟨hyes, -⟩ | ⟨-, q, t', hstems, hrest⟩
        · exact absurd hyes hretained
        · have hturn := pruneStems_prunes hdisk hs hstems
          exact (pruneStems_gone hdisk hs hstems
            (Manifest.records_iff.1 hrecords) hundotted htracks).prunes
            (pruneProjects_prunes hdisk hturn.spares.tidy hrest)
      · rw [List.find?_cons_of_neg hrecords] at hfirst
        rcases pruneProjects_cons h with ⟨-, hrest⟩ | ⟨-, q, t', hstems, hrest⟩
        · -- Taking over another entry does not bring the stem into use.
          refine ih hs hrest hfirst fun h => ?_
          rcases Manifest.tracks_takeOver.1 h with hmem | h
          · exact hrecords (Manifest.records_iff.2 hmem)
          · exact htracks h
        · have hturn := pruneStems_prunes hdisk hs hstems
          exact ih hturn.spares.tidy hrest hfirst
            (not_tracks_of_turn hrecords hstems htracks)

/-- A retained project has in the end what it had on record before. -/
theorem pruneProjects_retains (hdisk : shop.disk.Lawful v shop.output)
    {previous : Manifest} {retained : String → Bool} {projects : List String}
    {p p' : Progress} {s t : σ} (hs : v.tidy s)
    (h : (shop.pruneProjects previous retained projects p).run s = (p', t))
    {project stem : String} (hproject : project ∈ projects)
    (hretained : retained project = true)
    (hstem : stem ∈ previous.stemsOf project) :
    stem ∈ p'.manifest.stemsOf project := by
  induction projects generalizing p s with
  | nil => exact absurd hproject List.not_mem_nil
  | cons first projects ih =>
      rcases pruneProjects_cons h with ⟨-, hrest⟩ | ⟨hnot, q, t', hstems, hrest⟩
      · rcases List.mem_cons.1 hproject with rfl | hproject
        · exact (pruneProjects_prunes hdisk hs hrest).stemsOf
            (Manifest.mem_stemsOf_takeOver.2 (.inl ⟨rfl, hstem⟩))
        · exact ih hs hrest hproject
      · rcases List.mem_cons.1 hproject with rfl | hproject
        · exact absurd hretained hnot
        · exact ih (pruneStems_prunes hdisk hs hstems).spares.tidy
            hrest hproject

end Workshop

/-! ## A run -/

variable {σ : Type} {shop : Workshop (StateM σ)} {v : FileView σ}

/-- The stems that a run composes. -/
def Composed (source : GraphSource) (filter : Option String) (stem : String) :
    Prop :=
  ∃ task ∈ plan source filter, ∃ d, task.drawing? = some d ∧ d.stem = stem

/-- No other stem of a manifest or of a run shares a file with a stem, nor does
the output directory itself. -/
structure Unshared (v : FileView σ) (out : OutputDirectory)
    (previous : Manifest) (source : GraphSource) (filter : Option String)
    (stem : String) : Prop where
  apart : ∀ other, other ≠ stem → previous.tracks other = true
    ∨ Composed source filter other →
    Apart v out stem other
  not_own : ∀ path ∈ artifactPaths (out.markupFile stem),
    ¬ Own v out (v.place path)

/-- Stems without separators share no files. -/
theorem unshared_of_flat {disk : Disk (StateM σ)} {out : OutputDirectory}
    (hdisk : disk.Lawful v out) {previous : Manifest} {source : GraphSource}
    {filter : Option String} {stem : String} (hstem : Flat stem)
    (hjoint : Text.joint ∈ stem.toList)
    (hothers : ∀ other,
      previous.tracks other = true
        ∨ Composed source filter other → Flat other) :
    Unshared v out previous source filter stem := by
  constructor
  · intro other hne hother path hpath q hq heq
    exact hne
      (hdisk.eq_of_place_flat hstem (hothers other hother) hpath hq heq).1.symm
  · rintro path hpath ⟨own, hmem, hplace⟩
    exact hdisk.place_own_ne hstem.undotted hjoint
      (Path.not_isAbsolute_of_unslashed hstem.unslashed) hmem hpath hplace

/-- A stem of a retained project stays on record. Its files are left as they
were if the first project that has the stem on record is retained, and are
deleted if that one is not. -/
theorem retained_stem_fate (hdisk : shop.disk.Lawful v shop.output)
    (hrenderer : shop.renderer.Confined v) {source : GraphSource}
    {filter : Option String} {bounds : Architecture.Bounds} {report : Report}
    {s t u : σ} {previous : Manifest} (hs : v.tidy s)
    (h : (run shop source filter bounds).run s = (report, u))
    (hkept : report.KeepsManifest shop.output)
    (hload : (shop.output.readManifest shop.disk).run s = (.ok previous, t))
    {project stem : String}
    (hretained : retains filter (skippedProjects (plan source filter)) project
      = true)
    (hstem : stem ∈ previous.stemsOf project)
    (hfresh : ¬ Composed source filter stem) :
    (∃ m : Manifest, v.content u (v.place shop.output.manifestFile)
        = some m.toText.toUTF8
      ∧ stem ∈ m.stemsOf project)
    ∧ ∃ first, previous.firstRecorder stem = some first
      ∧ (Unshared v shop.output previous source filter stem →
          (retains filter (skippedProjects (plan source filter)) first = true →
            ∀ path ∈ artifactPaths (shop.output.markupFile stem),
              v.content u (v.place path) = v.content s (v.place path))
          ∧ (¬ retains filter (skippedProjects (plan source filter))
            first = true →
            '.' ∉ stem.toList →
            (∀ w ∈ report.warnings, w.category = .cleanup → w.unit ≠ stem) →
            ∀ path ∈ artifactPaths (shop.output.markupFile stem),
              v.content u (v.place path) = none)) := by
  obtain ⟨previous', t₁, p, t₂, q, t₃, t₄, hcourse⟩ :=
    run_kept hdisk hrenderer hs h hkept
  obtain ⟨heq, rfl⟩ := Prod.mk.inj (hload.symm.trans hcourse.load)
  obtain rfl := Except.ok.inj heq
  have hproject := Manifest.mem_projects_of_mem_stemsOf hstem
  obtain ⟨first, hfirst⟩ : ∃ first, previous.firstRecorder stem = some first :=
    Option.isSome_iff_exists.1 (List.find?_isSome.2
      ⟨project, hproject, Manifest.records_iff.2 hstem⟩)
  refine ⟨⟨q.manifest, hcourse.content_manifest hdisk,
      Workshop.pruneProjects_retains hdisk
      hcourse.performs.spares.tidy hcourse.prune hproject hretained hstem⟩,
      first, hfirst,
    fun hunshared => ⟨?_, ?_⟩⟩
  · intro hyes path hpath
    have hperformed :
        v.content t₂ (v.place path) = v.content s (v.place path) := by
      rw [hcourse.performs.spares.content,
        hcourse.reads.content _ fun _ hp => hp.elim]
      rintro other ⟨task, htask, d, hd, hother⟩
      have hne : d.stem ≠ stem := fun heq => hfresh ⟨task, htask, d, hd, heq⟩
      exact (hunshared.apart d.stem hne (.inr ⟨task, htask, d, hd, rfl⟩) path
        hpath other hother).symm
    have hspares := Workshop.pruneProjects_spares_of_retained hdisk
      hcourse.performs.spares.tidy hcourse.prune hfirst hyes
    rw [hcourse.content_of_not_own (hunshared.not_own path hpath),
      hspares.content, hperformed]
    rintro other ⟨stem', hne, htracks, hother⟩
    exact (hunshared.apart stem' hne (.inl htracks) path hpath
      other hother).symm
  · intro hno hundotted hquiet path hpath
    have htracks : ¬ p.manifest.tracks stem = true := by
      intro htracks
      rcases hcourse.performs.recorded htracks with hnone | hcomposed
      · exact Manifest.not_tracks_empty hnone
      · exact hfresh hcomposed
    rcases Workshop.pruneProjects_gone hdisk hcourse.performs.spares.tidy
      hcourse.prune hfirst hno hundotted htracks with
        hgone | ⟨w, hw, hcleanup, hunit⟩
    · rw [hcourse.content_of_not_own (hunshared.not_own path hpath),
        hgone path hpath]
    · exact absurd hunit
        (hquiet w (hcourse.charts.extends_report.warnings hw) hcleanup)

/-! ## Two projects with one stem -/

/-- The record of two projects that share a stem. -/
def sharedRecord : Manifest :=
  (Manifest.empty.add "A" "A_B_C_M").add "A B" "A_B_C_M"

/-- An output directory with that record. -/
def recordedTree : FileTree :=
  sampleTree.put ["out", ".cfgflow-artifacts.json"]
    (.file sharedRecord.toText.toUTF8 false)

/-- The same with the markup of the stem. -/
def sharedTree : FileTree :=
  recordedTree.put ["out", "A_B_C_M.mmd"] (.file "flowchart TD\n".toUTF8 false)

theorem tidy_sharedTree : sampleView.tidy sharedTree :=
  tidy_put_sample (tidy_put_sample tidy_sampleTree fun h => nomatch h) fun h =>
    nomatch h

theorem sharedTree_load :
    ∃ t, (OutputDirectory.readManifest ⟨"out"⟩ FileTree.disk).run sharedTree
      = (.ok sharedRecord, t) := by
  have hread :
      ((OutputDirectory.readManifest ⟨"out"⟩ FileTree.disk).run sharedTree).1
        = .ok sharedRecord := by
    decide +kernel
  generalize (OutputDirectory.readManifest ⟨"out"⟩ FileTree.disk).run
    sharedTree = result
    at hread ⊢
  obtain ⟨r, t⟩ := result
  obtain rfl : r = .ok sharedRecord := hread
  exact ⟨t, rfl⟩

/-- A run over a project without documents. -/
def sharedJob (filter : String) : Job FileTree :=
  sampleJob [{ name := "A" }] (some filter)

theorem plan_sharedJob (filter : String) :
    plan (sharedJob filter).source (some filter) = [] := by
  refine List.flatMap_eq_nil_iff.2 fun p hp => ?_
  obtain rfl := List.mem_singleton.1 (List.mem_filter.1 hp).1
  rfl

theorem sharedJob_unshared (filter : String) :
    Unshared sampleView ⟨"out"⟩ sharedRecord (sharedJob filter).source
      (some filter) "A_B_C_M" := by
  have hflat : Flat "A_B_C_M" := by constructor <;> decide
  refine unshared_of_flat sampleView_lawful hflat (by decide) ?_
  rintro other (htracks | ⟨task, htask, -⟩)
  · rcases Manifest.tracks_add.1 htracks with rfl | htracks
    · exact hflat
    · rcases Manifest.tracks_add.1 htracks with rfl | htracks
      · exact hflat
      · exact absurd htracks Manifest.not_tracks_empty
  · rw [plan_sharedJob] at htask
    exact absurd htask List.not_mem_nil

/-- With a filter for neither project, both are retained, and the files stay. -/
theorem shared_stem_spared :
    ∃ m : Manifest,
        (((sharedJob "C").perform FileTree.disk ⟨"out"⟩).run
          sharedTree).2.bytesAt
          ["out", ".cfgflow-artifacts.json"] = some m.toText.toUTF8
        ∧ "A_B_C_M" ∈ m.stemsOf "A B"
        ∧ (((sharedJob "C").perform FileTree.disk ⟨"out"⟩).run
            sharedTree).2.bytesAt
            ["out", "A_B_C_M.mmd"]
              = sharedTree.bytesAt ["out", "A_B_C_M.mmd"] := by
  have hkept :
      (((sharedJob "C").perform FileTree.disk ⟨"out"⟩).run
        sharedTree).1.KeepsManifest
        ⟨"out"⟩ := by
    decide +kernel
  have hmarkup : FileTree.spot [] (OutputDirectory.markupFile ⟨"out"⟩ "A_B_C_M")
      = ["out", "A_B_C_M.mmd"] := by
    decide
  generalize hend : ((sharedJob "C").perform FileTree.disk ⟨"out"⟩).run
    sharedTree = result
    at hkept ⊢
  obtain ⟨report, u⟩ := result
  have hfresh : ¬ Composed (sharedJob "C").source (some "C") "A_B_C_M" := by
    rintro ⟨task, htask, -⟩
    rw [plan_sharedJob] at htask
    exact absurd htask List.not_mem_nil
  have hrenderer : (sharedJob "C").renderer.Confined sampleView :=
    (sampleJob_follows [{ name := "A" }] (some "C")).confined
  obtain ⟨t, hload⟩ := sharedTree_load
  obtain ⟨⟨m, hsaved, hrecorded⟩, first, hfirst, hfate⟩ :=
    @retained_stem_fate FileTree
      ⟨FileTree.disk, (sharedJob "C").renderer, ⟨"out"⟩⟩ sampleView
      sampleView_lawful hrenderer
      _ _ _ _ _ _ _ _ tidy_sharedTree hend hkept hload "A B" "A_B_C_M"
          (by decide) (by decide)
      hfresh
  obtain rfl : first = "A" := Option.some.inj (hfirst.symm.trans (by decide))
  have hspared :=
    (hfate (sharedJob_unshared "C")).1 (by decide) _ List.mem_cons_self
  rw [← spot_sampleManifest, ← hmarkup]
  exact ⟨m, hsaved, hrecorded, hspared⟩

/-- With a filter for the first one, the files are deleted, while the other
project is retained and goes on having the stem on record. -/
theorem shared_stem_deleted :
    retains (some "A")
        (skippedProjects (plan (sharedJob "A").source (some "A"))) "A B" = true
      ∧ (∃ t, (OutputDirectory.readManifest ⟨"out"⟩ FileTree.disk).run
            sharedTree
          = (.ok sharedRecord, t))
      ∧ "A_B_C_M" ∈ sharedRecord.stemsOf "A B"
      ∧ ¬ Composed (sharedJob "A").source (some "A") "A_B_C_M"
      ∧ sharedTree.bytesAt ["out", "A_B_C_M.mmd"] ≠ none
      ∧ (((sharedJob "A").perform FileTree.disk ⟨"out"⟩).run
        sharedTree).1.KeepsManifest ⟨"out"⟩
      ∧ (((sharedJob "A").perform FileTree.disk ⟨"out"⟩).run
          sharedTree).2.bytesAt ["out", "A_B_C_M.mmd"] = none := by
  have hfresh : ¬ Composed (sharedJob "A").source (some "A") "A_B_C_M" := by
    rintro ⟨task, htask, -⟩
    rw [plan_sharedJob] at htask
    exact absurd htask List.not_mem_nil
  have hrun :
      (((sharedJob "A").perform FileTree.disk ⟨"out"⟩).run
          sharedTree).1.KeepsManifest ⟨"out"⟩
        ∧ (((sharedJob "A").perform FileTree.disk ⟨"out"⟩).run
          sharedTree).2.bytesAt ["out", "A_B_C_M.mmd"] = none := by
    decide +kernel
  exact ⟨by decide, sharedTree_load, by decide, hfresh, by decide, hrun⟩

end Run

end FlowAtlas
