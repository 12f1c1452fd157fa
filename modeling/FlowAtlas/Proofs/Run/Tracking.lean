import FlowAtlas.Proofs.Disk.Rendering
import FlowAtlas.Proofs.Run.Stages

/-!
# Every artifact stays on record

A run deletes only what the manifest lists, so a file that drops out of the
manifest while it still exists is a file that no later run can delete. That does
not happen, whatever fails: compiling, drawing, deleting, writing a diagram,
rendering. Only the manifest itself has to be read and saved, and a write that
is refused must not leave a file where there was none.

The invariant is about one file and the manifest (`Traced`): a stem on record
has the file, or the file was given up. One run takes it from the manifest it
has read to the one it saves (`Course.traced`), and puts the files it draws on
record (`Course.held_of_drawn`). The induction over a history is then short
(`performJobs_traced`).

Files are compared, not paths, because two stems may share a file when their
names hold separators. A stem that is a path from the top may even have a file
of the output directory itself. When such a stem is deleted, the file goes with
it, and the run makes it anew for the directory: then it exists and no stem has
it on record (`rooted_stem_leaves_record`). For no other stem is that possible:
every stem holds a joint, and none of the files of the directory has one in its
name.
-/

namespace FlowAtlas.Run

open OutputDirectory

/-! ## Histories -/

/-- A run that is asked for. -/
structure Job (σ : Type) where
  source : GraphSource
  filter : Option String
  bounds : Architecture.Bounds
  renderer : Renderer (StateM σ)

variable {σ : Type}

/-- Carries out a job. -/
def Job.perform (disk : Disk (StateM σ)) (out : OutputDirectory) (job : Job σ) :
    StateM σ Report :=
  run ⟨disk, job.renderer, out⟩ job.source job.filter job.bounds

/-- Carries out jobs one after the other, and keeps the report of each. -/
def performJobs (disk : Disk (StateM σ)) (out : OutputDirectory) :
    List (Job σ) → StateM σ (List (Job σ × Report))
  | [] => pure []
  | job :: jobs => do
    let report ← job.perform disk out
    let rest ← performJobs disk out jobs
    pure ((job, report) :: rest)

theorem performJobs_cons {disk : Disk (StateM σ)} {out : OutputDirectory}
    {job : Job σ} {jobs : List (Job σ)} {s u : σ}
    {records : List (Job σ × Report)}
    (h : (performJobs disk out (job :: jobs)).run s = (records, u)) :
    ∃ report t rest, (job.perform disk out).run s = (report, t)
      ∧ (performJobs disk out jobs).run t = (rest, u)
      ∧ records = (job, report) :: rest := by
  rw [performJobs, run_bind] at h
  obtain ⟨report, t, hjob, h⟩ := h
  rw [run_bind] at h
  obtain ⟨rest, u', hrest, h⟩ := h
  obtain ⟨rfl, rfl⟩ := run_pure.1 h
  exact ⟨report, t, rest, hjob, hrest, rfl⟩

/-- What jobs leave behind. -/
def stateAfter (disk : Disk (StateM σ)) (out : OutputDirectory)
    (jobs : List (Job σ)) (s : σ) : σ :=
  ((performJobs disk out jobs).run s).2

theorem stateAfter_cons {disk : Disk (StateM σ)} {out : OutputDirectory}
    {job : Job σ} {jobs : List (Job σ)} {s t : σ} {report : Report}
    (h : (job.perform disk out).run s = (report, t)) :
    stateAfter disk out (job :: jobs) s = stateAfter disk out jobs t := by
  have hcons : (performJobs disk out (job :: jobs)).run s
      = ((job, report) :: ((performJobs disk out jobs).run t).1,
        stateAfter disk out jobs t) := by
    rw [performJobs]
    exact run_bind.2 ⟨report, t, h, run_bind.2 ⟨_, _, rfl, rfl⟩⟩
  rw [stateAfter, hcons]

theorem stateAfter_append (disk : Disk (StateM σ)) (out : OutputDirectory)
    (before after : List (Job σ))
    (s : σ) : stateAfter disk out (before ++ after) s
      = stateAfter disk out after (stateAfter disk out before s) := by
  induction before generalizing s with
  | nil => rfl
  | cons job jobs ih =>
      rcases hjob : (job.perform disk out).run s with ⟨report, t⟩
      rw [List.cons_append, stateAfter_cons hjob, stateAfter_cons hjob, ih]

/-- A history around one of its jobs. -/
theorem performJobs_around {disk : Disk (StateM σ)} {out : OutputDirectory}
    {before after : List (Job σ)} {job : Job σ} {s u : σ}
    {records : List (Job σ × Report)}
    (h : (performJobs disk out (before ++ job :: after)).run s = (records, u)) :
    ∃ earlier report t later,
      (performJobs disk out before).run s
          = (earlier, stateAfter disk out before s)
        ∧ (job.perform disk out).run (stateAfter disk out before s)
          = (report, t)
        ∧ (performJobs disk out after).run t = (later, u)
        ∧ records = earlier ++ (job, report) :: later := by
  induction before generalizing s records with
  | nil =>
      obtain ⟨report, t, later, hjob, hlater, rfl⟩ := performJobs_cons h
      exact ⟨[], report, t, later, rfl, hjob, hlater, rfl⟩
  | cons first before ih =>
      obtain ⟨report₀, t₀, rest, hfirst, hrest, rfl⟩ := performJobs_cons h
      obtain ⟨earlier, report, t, later, hearlier, hjob, hlater, rfl⟩ :=
        ih hrest
      refine ⟨(first, report₀) :: earlier, report, t, later, ?_,
        ?_, hlater, rfl⟩
      · rw [stateAfter_cons hfirst]
        exact run_bind.2
          ⟨report₀, t₀, hfirst, run_bind.2 ⟨earlier, _, hearlier, rfl⟩⟩
      · rwa [stateAfter_cons hfirst]

/-- What a job has done up to where its manifest is complete. -/
def Job.prepared (disk : Disk (StateM σ)) (out : OutputDirectory) (job : Job σ)
    (s : σ) : Progress × σ :=
  ((Workshop.mk disk job.renderer out).prepare job.source job.filter).run s

/-- The markup files that a job writes for methods. That of the architecture
comes later. -/
def Job.drawn (disk : Disk (StateM σ)) (out : OutputDirectory) (job : Job σ)
    (s : σ) : List Path :=
  (job.prepared disk out s).1.report.written

/-- A job deletes a file: it reports a stem that has the file as deleted, and
then the file is not there. What may still come after that is the manifest and
the architecture. -/
def Job.Deletes (v : FileView σ) (disk : Disk (StateM σ))
    (out : OutputDirectory) (job : Job σ) (s : σ) (f : v.File) : Prop :=
  (∃ stem ∈ (job.prepared disk out s).1.report.pruned,
    ∃ path ∈ artifactPaths (out.markupFile stem), v.place path = f)
    ∧ v.content (job.prepared disk out s).2 f = none

/-! ## What a plan draws -/

/-- The stem of a method with a body, in a project that the filter lets through
and that can be used, whose graph was handed out. -/
def Charted (source : GraphSource) (filter : Option String) (stem : String) :
    Prop :=
  ∃ p ∈ source.solution.matching filter, source.prepare p = .ok ()
    ∧ ∃ doc ∈ p.documents, ∃ method ∈ doc.drawableMethods,
      (∃ graph, source.graphOf p doc method = .ok graph)
        ∧ stem = stemOf p doc method

theorem charted_of_mem_plan {source : GraphSource} {filter : Option String}
    {task : Task} {d : Drawing} (htask : task ∈ plan source filter)
    (hd : task.drawing? = some d) :
    Charted source filter d.stem := by
  obtain ⟨p, hp, htask⟩ := List.mem_flatMap.1 htask
  unfold projectTasks at htask
  split at htask
  · obtain rfl := List.mem_singleton.1 htask
    exact nomatch hd
  · next hprepare =>
      obtain ⟨doc, hdoc, htask⟩ := List.mem_flatMap.1 htask
      obtain ⟨method, hmethod, rfl⟩ := List.mem_map.1 htask
      refine ⟨p, hp, hprepare, doc, hdoc, method, hmethod, ?_⟩
      unfold methodTask at hd
      split at hd
      · exact nomatch hd
      · next graph hgraph =>
          obtain rfl := Option.some.inj hd
          exact ⟨⟨graph, hgraph⟩, rfl⟩

theorem undotted_of_mem_plan {source : GraphSource} {filter : Option String}
    {task : Task} {d : Drawing} (htask : task ∈ plan source filter)
    (hd : task.drawing? = some d) :
    '.' ∉ d.stem.toList := by
  obtain ⟨p, -, -, doc, -, method, -, -, hstem⟩ := charted_of_mem_plan htask hd
  rw [hstem]
  exact not_mem_stemOf p doc method

theorem joint_mem_of_mem_plan {source : GraphSource} {filter : Option String}
    {task : Task} {d : Drawing} (htask : task ∈ plan source filter)
    (hd : task.drawing? = some d) :
    Text.joint ∈ d.stem.toList := by
  obtain ⟨p, -, -, doc, -, method, -, -, hstem⟩ := charted_of_mem_plan htask hd
  rw [hstem]
  exact Text.joint_mem_identifier _ _ _

namespace Workshop

variable {shop : Workshop (StateM σ)} {v : FileView σ}

/-- A turn of the plan that makes a file puts its stem on record. A refused
write is the one way around that, if it leaves a part of the text behind. -/
theorem perform_made (hdisk : shop.disk.Lawful v shop.output)
    (hrenderer : shop.renderer.Confined v) {task : Task} {p p' : Progress}
    {s t : σ}
    (hwhole : shop.disk.NoFragments v
      ∨ ∀ w ∈ p'.report.warnings, w.category ≠ .write)
    (hs : v.tidy s) (h : (shop.perform p task).run s = (p', t)) {f : v.File}
    (hf : v.content t f ≠ none) :
    v.content s f ≠ none
      ∨ ∃ d, task.drawing? = some d ∧ p'.manifest.tracks d.stem = true
      ∧ ∃ path ∈ artifactPaths (shop.output.markupFile d.stem),
        v.place path = f := by
  have hspares := (perform_performs hdisk hrenderer hs h).spares
  by_cases htouched :
    ∃ path, Task.Concerns shop.output task path ∧ v.place path = f
  · obtain ⟨path, ⟨d, hd, hpath⟩, hplace⟩ := htouched
    cases task with
    | skip project fault => exact nomatch hd
    | miss unit fault => exact nomatch hd
    | draw d' =>
        obtain rfl := Option.some.inj hd
        obtain ⟨stale, t₁, r, t₂, hclear, hput, hout⟩ := draw_run h
        rcases hout with ⟨fault, rfl, rfl, rfl⟩ | ⟨-, report, -, rfl⟩
        · -- The write is refused.
          left
          obtain ⟨r', hwrite, hr⟩ := putMarkup_turn hput
          have hclears := deleteEach_clears hdisk hs hclear
          have hwrites := hdisk.write_spares hclears.spares.tidy hwrite
          refine fun hnone => hf ?_
          by_cases heq : v.place (shop.output.markupFile d'.stem) = f
          · subst heq
            rcases hwhole with hwhole | hquiet
            · cases r' with
              | ok a => exact nomatch hr
              | error e =>
                  exact hwhole hclears.spares.tidy hwrite
                    (hclears.shrinks _ hnone)
            · obtain ⟨w, hw, hcategory, -⟩ := Report.exists_warning_note
                (p.report.noteAll .cleanup (shop.output.markupFile d'.stem)
                  stale) .write d'.unit
                fault
              exact absurd hcategory (hquiet w hw)
          · rw [hwrites.content f (by rintro q rfl; exact heq)]
            exact hclears.shrinks f hnone
        · exact .inr ⟨d', rfl, Manifest.tracks_add.2 (.inl rfl),
            path, hpath, hplace⟩
  · left
    rwa [← hspares.content f fun path hpath heq => htouched ⟨path, hpath, heq⟩]

theorem performAll_made (hdisk : shop.disk.Lawful v shop.output)
    (hrenderer : shop.renderer.Confined v) {tasks : List Task} {p p' : Progress}
    {s t : σ}
    (hwhole : shop.disk.NoFragments v
      ∨ ∀ w ∈ p'.report.warnings, w.category ≠ .write)
    (hs : v.tidy s) (h : (shop.performAll tasks p).run s = (p', t)) {f : v.File}
    (hf : v.content t f ≠ none) :
    v.content s f ≠ none ∨ ∃ task ∈ tasks, ∃ d, task.drawing? = some d
      ∧ p'.manifest.tracks d.stem = true
      ∧ ∃ path ∈ artifactPaths (shop.output.markupFile d.stem),
        v.place path = f := by
  induction tasks generalizing p s with
  | nil =>
      obtain ⟨rfl, rfl⟩ := run_pure.1 h
      exact .inl hf
  | cons task tasks ih =>
      obtain ⟨q, a, hturn, hrest⟩ := performAll_cons h
      have ha := (perform_performs hdisk hrenderer hs hturn).spares.tidy
      have hrests := performAll_performs hdisk hrenderer ha hrest
      rcases ih ha hrest with hbefore | ⟨other, hother, hmade⟩
      · have hwhole' := hwhole.imp_right fun hquiet w hw =>
          hquiet w (hrests.extends_report.warnings hw)
        rcases perform_made hdisk hrenderer hwhole' hs hturn hbefore with
          hstart | ⟨d, hd, htracks, hpath⟩
        · exact .inl hstart
        · exact .inr
            ⟨task, List.mem_cons_self, d, hd, hrests.tracks htracks, hpath⟩
      · exact .inr ⟨other, List.mem_cons_of_mem _ hother, hmade⟩

end Workshop

/-! ## The invariant -/

/-- A file of a stem that a manifest has on record. -/
def Held (v : FileView σ) (out : OutputDirectory) (m : Manifest) (f : v.File) :
    Prop :=
  ∃ stem, '.' ∉ stem.toList ∧ m.tracks stem = true
    ∧ ∃ path ∈ artifactPaths (out.markupFile stem), v.place path = f

/-- What became of a file: a stem on record has it, or else it was given up,
under some circumstances that the history tells. Then it is not there, unless
the output directory itself has a file at the same place, which a run makes for
the directory and not for a stem. -/
def Traced (v : FileView σ) (out : OutputDirectory) (givenUp : Prop)
    (m : Manifest) (s : σ) (f : v.File) : Prop :=
  Held v out m f ∨ givenUp ∧ (v.content s f = none ∨ Own v out f)

variable {shop : Workshop (StateM σ)} {v : FileView σ}

theorem Held.mono {out : OutputDirectory} {m m' : Manifest} {f : v.File}
    (h : Held v out m f)
    (hmore : ∀ stem, m.tracks stem = true → m'.tracks stem = true) :
    Held v out m' f := by
  obtain ⟨stem, hstem, htracks, hpath⟩ := h
  exact ⟨stem, hstem, hmore stem htracks, hpath⟩

theorem Traced.mono {out : OutputDirectory} {givenUp more : Prop} {m : Manifest}
    {s : σ} {f : v.File} (h : Traced v out givenUp m s f)
    (hmore : givenUp → more) :
    Traced v out more m s f :=
  h.imp_right (And.imp_left hmore)

/-- The deleting takes a file off the record only together with its content. -/
theorem prune_held (hdisk : shop.disk.Lawful v shop.output)
    {previous : Manifest} {retained : String → Bool} {p p' : Progress} {s t : σ}
    {f : v.File} (hs : v.tidy s)
    (h : (shop.prune previous retained p).run s = (p', t))
    (hheld : Held v shop.output previous f) :
    Held v shop.output p'.manifest f
      ∨ (∃ stem ∈ p'.report.pruned,
          ∃ path ∈ artifactPaths (shop.output.markupFile stem),
            v.place path = f)
        ∧ v.content t f = none := by
  obtain ⟨stem, hstem, htracks, path, hpath, rfl⟩ := hheld
  obtain ⟨project, hproject⟩ := Manifest.tracks_eq_true_iff.1 htracks
  rcases Workshop.pruneProjects_settled hdisk hs h
    (Manifest.mem_projects_of_mem_stemsOf hproject) hproject with
      htracks | ⟨hpruned, hgone⟩
  · exact .inl ⟨stem, hstem, htracks, path, hpath, rfl⟩
  · exact .inr ⟨⟨stem, hpruned, path, hpath, rfl⟩,
      hgone path hpath (below_artifactPaths hstem hpath)⟩

namespace Course

variable {source : GraphSource} {filter : Option String}
  {bounds : Architecture.Bounds} {s t₁ t₂ t₃ t₄ u : σ} {previous : Manifest}
  {p q : Progress} {report : Report}

theorem prepare_run
    (h : Course v shop source filter bounds s previous t₁ p t₂ q t₃ t₄
      report u) :
    (shop.prepare source filter).run s = (q, t₃) := by
  have hload : shop.loadPrevious.run s = ((previous, {}), t₁) :=
    run_bind.2 ⟨_, _, h.load, rfl⟩
  exact run_bind.2 ⟨_, _, hload, run_bind.2 ⟨_, _, h.perform, h.prune⟩⟩

/-- The files that a run draws are on record when it saves its manifest. -/
theorem held_of_drawn
    (h : Course v shop source filter bounds s previous t₁ p t₂ q t₃ t₄ report u)
    {markup : Path} (hmarkup : markup ∈ q.report.written) {path : Path}
    (hpath : path ∈ artifactPaths markup) :
    Held v shop.output q.manifest (v.place path) := by
  rw [h.prunes.written] at hmarkup
  rcases h.performs.written markup hmarkup with
    hnone | ⟨task, htask, d, hd, htracks, rfl⟩
  · exact absurd hnone List.not_mem_nil
  · exact ⟨d.stem, undotted_of_mem_plan htask hd, h.prunes.tracks htracks,
      path, hpath, rfl⟩

/-- From the manifest that a run has read to the one it has saved. -/
theorem traced (hdisk : shop.disk.Lawful v shop.output)
    (hrenderer : shop.renderer.Confined v)
    (hwhole : shop.disk.NoFragments v
      ∨ ∀ w ∈ report.warnings, w.category ≠ .write)
    (h : Course v shop source filter bounds s previous t₁ p t₂ q t₃ t₄ report u)
    {f : v.File} {givenUp : Prop}
    (hf : Traced v shop.output givenUp previous s f) :
    Traced v shop.output (givenUp ∨ (∃ stem ∈ q.report.pruned,
        ∃ path ∈ artifactPaths (shop.output.markupFile stem), v.place path = f)
      ∧ v.content t₃ f = none) q.manifest u f := by
  by_cases hown : Own v shop.output f
  · rcases hf with hheld | ⟨hgone, -⟩
    · exact (prune_held hdisk h.performs.spares.tidy h.prune hheld).imp_right
        fun hdeleted => ⟨.inr hdeleted, .inr hown⟩
    · exact .inr ⟨.inl hgone, .inr hown⟩
  rw [Traced, h.content_of_not_own hown]
  rcases hf with hheld | ⟨hgone, hnone | hown'⟩
  · exact (prune_held hdisk h.performs.spares.tidy h.prune hheld).imp_right
      fun hdeleted => ⟨.inr hdeleted, .inl hdeleted.2⟩
  · by_cases hmade : v.content t₂ f = none
    · exact .inr ⟨.inl hgone, .inl (h.prunes.shrinks f hmade)⟩
    · -- The plan has made the file anew, and so its stem is on record.
      have hwhole' := hwhole.imp_right fun hquiet w hw =>
        hquiet w
          (h.charts.extends_report.warnings
            (h.prunes.extends_report.warnings hw))
      rcases Workshop.performAll_made hdisk hrenderer hwhole' h.reads.tidy
        h.perform hmade with
        hbefore | ⟨task, htask, d, hd, htracks, hpath⟩
      · rw [h.reads.content f fun _ hp => hp.elim] at hbefore
        exact absurd hnone hbefore
      · exact .inl
          ⟨d.stem, undotted_of_mem_plan htask hd,
            h.prunes.tracks htracks, hpath⟩
  · exact absurd hown' hown

end Course

/-! ## Histories keep it -/

section Histories

variable {disk : Disk (StateM σ)} {out : OutputDirectory} {jobs : List (Job σ)}
  {records : List (Job σ × Report)} {s u : σ}

theorem performJobs_tidy (hdisk : disk.Lawful v out)
    (hrenderers : ∀ job ∈ jobs, job.renderer.Confined v) (hs : v.tidy s)
    (h : (performJobs disk out jobs).run s = (records, u))
    (hkept : ∀ e ∈ records, e.2.KeepsManifest out) : v.tidy u := by
  induction jobs generalizing s records with
  | nil =>
      obtain ⟨rfl, rfl⟩ := run_pure.1 h
      exact hs
  | cons job jobs ih =>
      obtain ⟨report, t, rest, hjob, hrest, rfl⟩ := performJobs_cons h
      obtain ⟨previous, t₁, p, t₂, q, t₃, t₄, hcourse⟩ :=
        @run_kept σ ⟨disk, job.renderer, out⟩ v
          hdisk (hrenderers job List.mem_cons_self) _ _ _ _ _ _ hs hjob
          (hkept _ List.mem_cons_self)
      exact ih
        (fun other hother => hrenderers other (List.mem_cons_of_mem _ hother))
        hcourse.charts.spares.tidy hrest fun e he =>
          hkept e (List.mem_cons_of_mem _ he)

/-- A history, from a manifest that was saved to the one that is saved last. -/
theorem performJobs_traced (hdisk : disk.Lawful v out)
    (hwhole : disk.NoFragments v)
    (hrenderers : ∀ job ∈ jobs, job.renderer.Confined v) (hs : v.tidy s)
    (h : (performJobs disk out jobs).run s = (records, u))
    (hkept : ∀ e ∈ records, e.2.KeepsManifest out) {m : Manifest}
    (hm : v.content s (v.place out.manifestFile) = some m.toText.toUTF8) :
    ∃ m' : Manifest, v.content u (v.place out.manifestFile)
        = some m'.toText.toUTF8
      ∧ ∀ f givenUp, Traced v out givenUp m s f →
          Traced v out
            (givenUp ∨ ∃ before job after, jobs = before ++ job :: after
              ∧ job.Deletes v disk out (stateAfter disk out before s) f)
            m' u f := by
  induction jobs generalizing s records m with
  | nil =>
      obtain ⟨rfl, rfl⟩ := run_pure.1 h
      exact ⟨m, hm, fun f givenUp hf => hf.mono .inl⟩
  | cons job jobs ih =>
      obtain ⟨report, t, rest, hjob, hrest, rfl⟩ := performJobs_cons h
      have hrenderer := hrenderers job List.mem_cons_self
      obtain ⟨previous, t₁, p, t₂, q, t₃, t₄, hcourse⟩ :=
        @run_kept σ ⟨disk, job.renderer, out⟩ v
          hdisk hrenderer _ _ _ _ _ _ hs hjob (hkept _ List.mem_cons_self)
      -- What the run has read is what was saved.
      obtain rfl : previous = m := eq_of_holds hdisk hs (.inl hm) hcourse.load
      obtain ⟨m', hm', htraced⟩ := ih
        (fun other hother => hrenderers other (List.mem_cons_of_mem _ hother))
        hcourse.charts.spares.tidy hrest
        (fun e he => hkept e (List.mem_cons_of_mem _ he))
        (hcourse.content_manifest hdisk)
      refine ⟨m', hm', fun f givenUp hf => ?_⟩
      have hprepared : job.prepared disk out s = (q, t₃) := hcourse.prepare_run
      refine (htraced f _
        (hcourse.traced hdisk hrenderer (.inl hwhole) hf)).mono ?_
      rintro ((hgone | hdeleted) | ⟨before, other, after, rfl, hdeletes⟩)
      · exact .inl hgone
      · refine .inr ⟨[], job, jobs, rfl, ?_⟩
        show job.Deletes v disk out s f
        rwa [Job.Deletes, hprepared]
      · refine .inr ⟨job :: before, other, after, rfl, ?_⟩
        rwa [stateAfter_cons hjob]

/-- What has become of the files that one of the runs has drawn. -/
theorem drawn_traced (hdisk : disk.Lawful v out) (hwhole : disk.NoFragments v)
    {before after : List (Job σ)} {job : Job σ}
    (hrenderers : ∀ other ∈ before ++ job :: after, other.renderer.Confined v)
    (hs : v.tidy s)
    (h : (performJobs disk out (before ++ job :: after)).run s = (records, u))
    (hkept : ∀ e ∈ records, e.2.KeepsManifest out) :
    ∃ m : Manifest, v.content u (v.place out.manifestFile)
        = some m.toText.toUTF8
      ∧ ∀ markup ∈ job.drawn disk out (stateAfter disk out before s),
          ∀ path ∈ artifactPaths markup,
            Traced v out (∃ between other rest, after = between ++ other :: rest
              ∧ other.Deletes v disk out
                  (stateAfter disk out (before ++ job :: between) s)
                  (v.place path)) m u (v.place path) := by
  obtain ⟨earlier, report, t, later, hearlier, hjob, hlater, rfl⟩ :=
    performJobs_around h
  have hrenderer := hrenderers job (List.mem_append_right _ List.mem_cons_self)
  have hstart : v.tidy (stateAfter disk out before s) := performJobs_tidy hdisk
    (fun other hother => hrenderers other (List.mem_append_left _ hother))
    hs hearlier
    fun e he => hkept e (List.mem_append_left _ he)
  obtain ⟨previous, t₁, p, t₂, q, t₃, t₄, hcourse⟩ :=
    @run_kept σ ⟨disk, job.renderer, out⟩ v
      hdisk hrenderer _ _ _ _ _ _ hstart hjob
      (hkept _ (List.mem_append_right _ List.mem_cons_self))
  obtain ⟨m, hm, htraced⟩ := performJobs_traced hdisk hwhole
    (fun other hother => hrenderers other
      (List.mem_append_right _ (List.mem_cons_of_mem _ hother)))
    hcourse.charts.spares.tidy hlater
    (fun e he => hkept e (List.mem_append_right _ (List.mem_cons_of_mem _ he)))
    (hcourse.content_manifest hdisk)
  refine ⟨m, hm, fun markup hmarkup path hpath => ?_⟩
  have hprepared :
      job.prepared disk out (stateAfter disk out before s) = (q, t₃) :=
    hcourse.prepare_run
  rw [Job.drawn, hprepared] at hmarkup
  refine (htraced _ False (.inl (hcourse.held_of_drawn hmarkup hpath))).mono ?_
  rintro (hnever | ⟨between, other, rest, rfl, hdeletes⟩)
  · exact hnever.elim
  · refine ⟨between, other, rest, rfl, ?_⟩
    rwa [stateAfter_append, stateAfter_cons hjob]

/-- Every artifact that runs have written for a method and that still exists
belongs to a stem in the manifest that was saved last. The exception is a stem
that is a path from the top, if its file is one of the output directory itself:
a later run may have deleted it with a stem and made it anew for the
directory. -/
theorem written_artifacts_stay_recorded (hdisk : disk.Lawful v out)
    (hwhole : disk.NoFragments v)
    (hrenderers : ∀ job ∈ jobs, job.renderer.Confined v) (hne : jobs ≠ [])
    (hs : v.tidy s) (h : (performJobs disk out jobs).run s = (records, u))
    (hkept : ∀ e ∈ records, e.2.KeepsManifest out) :
    ∃ m : Manifest, v.content u (v.place out.manifestFile)
        = some m.toText.toUTF8
      ∧ ∀ before job after, jobs = before ++ job :: after →
          ∀ task ∈ plan job.source job.filter, ∀ d, task.drawing? = some d →
            out.markupFile d.stem
              ∈ job.drawn disk out (stateAfter disk out before s) →
            ∀ path ∈ artifactPaths (out.markupFile d.stem),
              v.content u (v.place path) ≠ none →
                (∃ stem, m.tracks stem = true
                  ∧ ∃ q ∈ artifactPaths (out.markupFile stem),
                    v.place q = v.place path)
                ∨ Path.isAbsolute d.stem = true ∧ Own v out (v.place path)
                  ∧ ∃ between other rest, after = between ++ other :: rest
                    ∧ other.Deletes v disk out
                        (stateAfter disk out (before ++ job :: between) s)
                        (v.place path) := by
  obtain ⟨first, jobs, rfl⟩ := List.exists_cons_of_ne_nil hne
  obtain ⟨m, hm, -⟩ :=
    @drawn_traced σ v disk out records s u hdisk hwhole [] jobs first hrenderers
      hs h hkept
  refine ⟨m, hm,
    fun before job after hjobs task htask d hd hdrawn path hpath hexists => ?_⟩
  rw [hjobs] at hrenderers h
  obtain ⟨m', hm', htraced⟩ := drawn_traced hdisk hwhole hrenderers hs h hkept
  obtain rfl : m' = m := Manifest.toText_injective (String.toByteArray_inj.1
    (Option.some.inj (hm'.symm.trans hm)))
  rcases htraced _ hdrawn path hpath with
    ⟨stem, -, htracks, q, hq, hplace⟩ | ⟨hdeleted, hfate⟩
  · exact .inl ⟨stem, htracks, q, hq, hplace⟩
  · have hown := hfate.resolve_left hexists
    refine .inr ⟨?_, hown, hdeleted⟩
    by_contra habs
    obtain ⟨own, hmem, hplace⟩ := hown
    exact hdisk.place_own_ne (undotted_of_mem_plan htask hd)
      (joint_mem_of_mem_plan htask hd) habs hmem hpath hplace

end Histories

/-! ## A history on a file tree -/

/-- A tree with an empty output directory. -/
def sampleTree : FileTree := FileTree.put {} ["out"] .directory

/-- Trees in which nothing is in the way of the rasters in that directory. -/
def sampleView : FileView FileTree :=
  FileTree.view [] (FileTree.Ready (FileTree.spot [] "out"))

theorem spot_sampleRoot : FileTree.spot [] "out" = ["out"] := by decide

theorem spot_sampleManifest :
    FileTree.spot [] (OutputDirectory.manifestFile ⟨"out"⟩)
    = ["out", ".cfgflow-artifacts.json"] := by
  decide

theorem sampleView_lasting :
    FileTree.Lasting [] ⟨"out"⟩ (FileTree.Ready (FileTree.spot [] "out")) :=
  FileTree.lasting_ready (by decide)

theorem sampleView_lawful : FileTree.disk.Lawful sampleView ⟨"out"⟩ :=
  FileTree.disk_lawful (by decide) sampleView_lasting

theorem at?_sampleTree (l : Location) :
    sampleTree.at? l = if l = ["out"] ∨ l = [] then some .directory
      else none := by
  rw [sampleTree, FileTree.at?_put _ _ _ _ (List.cons_ne_nil _ _)]
  by_cases hout : l = ["out"]
  · rw [if_pos hout, if_pos (.inl hout)]
  · rw [if_neg hout, FileTree.at?]
    by_cases hroot : l = []
    · rw [if_pos hroot, if_pos (.inr hroot)]
    · rw [if_neg hroot, if_neg (not_or.2 ⟨hout, hroot⟩)]
      rfl

theorem tidy_sampleTree : sampleView.tidy sampleTree := by
  have hordered : sampleTree.Tidy [] :=
    @FileTree.Tidy.put [] {} FileTree.tidy_empty [] "out" .directory
      FileTree.at?_root (fun h => nomatch h) fun _ h => nomatch h
  refine ⟨hordered, ?_, fun l hl hdir => ?_⟩
  · rw [spot_sampleRoot, at?_sampleTree, if_pos (.inl rfl)]
  · obtain ⟨name, rfl⟩ := FileTree.exists_of_isRaster hl
    rw [spot_sampleRoot, at?_sampleTree, if_neg (by simp)] at hdir
    exact nomatch hdir

theorem tidy_put_sample {t : FileTree} (h : sampleView.tidy t) {name : String}
    {content : ByteArray} {executable : Bool}
    (hold : t.at? ["out", name] ≠ some .directory) :
    sampleView.tidy (t.put ["out", name] (.file content executable)) := by
  have hdiffers : FileTree.Differs [] ["out", name] t
      (t.put ["out", name] (.file content executable)) :=
    @FileTree.Tidy.put_file [] t h.1 ["out"] name content executable
      (spot_sampleRoot ▸ h.2.stands) hold
  exact ⟨hdiffers.tidy, sampleView_lasting.keep hdiffers.directory h.2⟩

/-- A project with one document and one method. -/
def sampleProject (name document : String) : Project where
  name
  documents := [{
    name := document
    methods := [{ name := "M", recorded := some (.parsed {}) }] }]

/-- What the renderer of the samples makes of a markup. -/
def samplePaint (markup : ByteArray) : ByteArray :=
  "raster of ".toUTF8 ++ markup

/-- A run over projects. -/
def sampleJob (projects : List Project) (filter : Option String) :
    Job FileTree where
  source := Snapshot.source { projects }
  filter
  bounds := {}
  renderer := FileTree.painter [] ⟨"out"⟩ samplePaint

theorem sampleJob_follows (projects : List Project) (filter : Option String) :
    (sampleJob projects filter).renderer.Follows sampleView
      fun text output =>
        FileTree.painted [] ⟨"out"⟩ samplePaint text.toUTF8 output :=
  FileTree.painter_follows sampleView_lasting

/-- A history that starts with an empty output directory. -/
def sampleHistory (jobs : List (Job FileTree)) :
    List (Job FileTree × Report) × FileTree :=
  (performJobs FileTree.disk ⟨"out"⟩ jobs).run sampleTree

/-- One project is drawn, and then left out by a filter. -/
def sampleJobs : List (Job FileTree) :=
  [sampleJob [sampleProject "A" "C.cs"] none,
    sampleJob [sampleProject "A" "C.cs"] (some "B")]

/-- What the first of the sample jobs draws. -/
def sampleDrawing : Drawing where
  project := "A"
  unit := "A::C.cs::M"
  stem := "A_C_M"
  markup := "%% Diagram generated automatically (CFG -> Mermaid)\n"
    ++ "%% Project: A | File: C.cs | Method: M\nflowchart TD\n"

/-- The second run leaves the project out, and its raster stays on record. -/
theorem sample_raster_stays_recorded :
    ∃ m : Manifest, (sampleHistory sampleJobs).2.bytesAt
          ["out", ".cfgflow-artifacts.json"]
        = some m.toText.toUTF8
      ∧ (sampleHistory sampleJobs).2.bytesAt ["out", "A_C_M.svg"] ≠ none
      ∧ ∃ stem, m.tracks stem = true
        ∧ ∃ q ∈ artifactPaths (OutputDirectory.markupFile ⟨"out"⟩ stem),
            FileTree.spot [] q = ["out", "A_C_M.svg"] := by
  have hevaluated :
      (sampleHistory sampleJobs).2.bytesAt ["out", "A_C_M.svg"] ≠ none
        ∧ (∀ e ∈ (sampleHistory sampleJobs).1, e.2.KeepsManifest ⟨"out"⟩)
        ∧ .draw sampleDrawing
          ∈ plan
            (Snapshot.source { projects := [sampleProject "A" "C.cs"] }) none
        ∧ OutputDirectory.markupFile ⟨"out"⟩ "A_C_M"
          ∈ (sampleJob [sampleProject "A" "C.cs"] none).drawn FileTree.disk
              ⟨"out"⟩ (stateAfter FileTree.disk ⟨"out"⟩ [] sampleTree) := by
    decide +kernel
  have hraster : FileTree.spot []
      (Raster.svg.path (OutputDirectory.markupFile ⟨"out"⟩ "A_C_M"))
      = ["out", "A_C_M.svg"] := by
    decide
  have hrenderers : ∀ job ∈ sampleJobs, job.renderer.Confined sampleView := by
    intro job hjob
    simp only [sampleJobs, List.mem_cons, List.not_mem_nil, or_false] at hjob
    rcases hjob with rfl | rfl
    all_goals exact (sampleJob_follows _ _).confined
  generalize hend : sampleHistory sampleJobs = result at hevaluated ⊢
  obtain ⟨records, u⟩ := result
  obtain ⟨hexists, hkept, htask, hdrawn⟩ := hevaluated
  obtain ⟨m, hsaved, hrecorded⟩ :=
    written_artifacts_stay_recorded sampleView_lawful
      FileTree.disk_noFragments hrenderers (List.cons_ne_nil _ _)
      tidy_sampleTree hend hkept
  rw [← spot_sampleManifest, ← hraster]
  rw [← hraster] at hexists
  refine ⟨m, hsaved, hexists, ?_⟩
  rcases hrecorded [] (sampleJob [sampleProject "A" "C.cs"] none)
    [sampleJob [sampleProject "A" "C.cs"] (some "B")] rfl _ htask sampleDrawing
    rfl hdrawn _ (mem_artifactPaths.2 (.inr ⟨.svg, rfl⟩)) hexists with
      hstem | ⟨habs, -⟩
  · exact hstem
  · exact absurd habs (by decide)

/-! ## A stem from the top -/

/-- An output directory whose path can be spelled by a stem. -/
def rootedOut : OutputDirectory := ⟨"/a_b_c"⟩

/-- A tree with that directory, which is empty. -/
def rootedTree : FileTree := FileTree.put {} ["a_b_c"] .directory

/-- A project with a method whose stem is the path of the architecture. -/
def rootedProject : Project where
  name := "/a"
  documents := [{
    name := "b"
    methods := [{
      name := "c/docs-architecture/ARCHITECTURE"
      recorded := some (.parsed {}) }] }]

/-- A renderer that is not there. -/
def absentRenderer : Renderer (StateM FileTree) := fun _ _ =>
  pure (.error (Fault.rendererUnavailable "mmdc"))

/-- A run over projects without a renderer. -/
def rootedJob (projects : List Project) : Job FileTree where
  source := Snapshot.source { projects }
  filter := none
  bounds := {}
  renderer := absentRenderer

/-- A run over nothing, so that there is a directory for the architecture, then
a run over the project, and again one over nothing. -/
def rootedHistory : List (Job FileTree × Report) × FileTree :=
  (performJobs FileTree.disk rootedOut
    [rootedJob [], rootedJob [rootedProject], rootedJob []]).run
    rootedTree

/-- The second run writes the diagram of the method, the third one deletes it
and puts that of the architecture in its place. The file exists, and no stem has
it on record. -/
theorem rooted_stem_leaves_record :
    (∀ e ∈ rootedHistory.1, e.2.KeepsManifest rootedOut)
      ∧ rootedOut.markupFile "/a_b_c/docs-architecture/ARCHITECTURE"
        ∈ (rootedJob [rootedProject]).drawn FileTree.disk rootedOut
            (stateAfter FileTree.disk rootedOut [rootedJob []] rootedTree)
      ∧ rootedHistory.2.bytesAt (FileTree.spot []
          (rootedOut.markupFile "/a_b_c/docs-architecture/ARCHITECTURE")) ≠ none
      ∧ rootedHistory.2.bytesAt (FileTree.spot [] rootedOut.manifestFile)
        = some Manifest.empty.toText.toUTF8
      ∧ ∀ stem, ¬ Manifest.empty.tracks stem = true := by
  have hevaluated : (∀ e ∈ rootedHistory.1, e.2.KeepsManifest rootedOut)
      ∧ rootedOut.markupFile "/a_b_c/docs-architecture/ARCHITECTURE"
        ∈ (rootedJob [rootedProject]).drawn FileTree.disk rootedOut
            (stateAfter FileTree.disk rootedOut [rootedJob []] rootedTree)
      ∧ rootedHistory.2.bytesAt (FileTree.spot []
          (rootedOut.markupFile "/a_b_c/docs-architecture/ARCHITECTURE")) ≠ none
      ∧ rootedHistory.2.bytesAt (FileTree.spot [] rootedOut.manifestFile)
        = some Manifest.empty.toText.toUTF8 := by
    decide +kernel
  obtain ⟨hkept, hdrawn, hexists, hsaved⟩ := hevaluated
  exact ⟨hkept, hdrawn, hexists, hsaved, fun stem => Manifest.not_tracks_empty⟩

end FlowAtlas.Run
