import FlowAtlas.Proofs.Disk.Steady
import FlowAtlas.Proofs.Run.Within

/-!
# What a stage keeps

A relation between states that each operation on a file keeps (`Keeps`), by the
laws of a disk, is kept by every stage of a run. The laws are about tidy states,
so the operations stay within another relation: a tidy state leads to a tidy one
that is related to it (`Tidily`).

Two relations are put to use. What stands at a file stays the same as long as no
path of the file is touched (`look_keeps`). And what is in the way stays in the
way, wherever a run works (`obstacles_keeps`).
-/

namespace FlowAtlas

open OutputDirectory

variable {σ : Type}

/-- A relation between states that deleting at some paths keeps. -/
structure Disk.Keeps (disk : Disk (StateM σ)) (v : FileView σ)
    (touched : Path → Prop) (R : σ → σ → Prop) : Prop where
  refl : ∀ s, R s s
  trans : ∀ {s t u}, R s t → R t u → R s u
  remove : ∀ {p s r t},
    touched p → v.tidy s → (disk.removeFile p).run s = (r, t) → R s t

namespace Run

open Workshop

/-- A relation between states that all work on files at some paths keeps. -/
structure Workshop.Keeps (shop : Workshop (StateM σ)) (v : FileView σ)
    (touched : Path → Prop) (R : σ → σ → Prop) :
    Prop extends shop.disk.Keeps v touched R where
  write : ∀ {p text s r t}, touched p → v.tidy s →
    (shop.disk.writeText p text).run s = (r, t) → R s t
  render : ∀ {input output s r t}, touched output → v.tidy s →
    (shop.renderer input output).run s = (r, t) → R s t

theorem member_of_concerns {out : OutputDirectory} {known : String → Prop}
    {task : Task} (hdrawn : ∀ d, task.drawing? = some d → known d.stem)
    {p : Path} (hp : Task.Concerns out task p) : out.Member known p := by
  obtain ⟨d, hd, hp⟩ := hp
  exact member_of_known (hdrawn d hd) p hp

theorem readManifest_only {v : FileView σ} {g : Sight v} {known : String → Prop}
    {disk : Disk (StateM σ)} {out : OutputDirectory}
    (hdisk : disk.Local g out known) {s t : σ} {r : Except Fault Manifest}
    (hs : v.tidy s) (h : (out.readManifest disk).run s = (r, t)) (f : v.File) :
    g.look s f = g.look t f := by
  obtain ⟨read, hread, -⟩ := readManifest_turn h
  exact hdisk.read_only hs hread f fun _ hmem => absurd hmem List.not_mem_nil

/-! ## From one operation to all of them -/

/-- A relation that holds of two states if the first one is tidy, and then so is
the second. -/
def Tidily (v : FileView σ) (R : σ → σ → Prop) (s t : σ) : Prop :=
  v.tidy s → v.tidy t ∧ R s t

end Run

variable {v : FileView σ} {touched : Path → Prop} {R : σ → σ → Prop}

theorem Disk.Keeps.within {disk : Disk (StateM σ)} {out : OutputDirectory}
    (hkeeps : disk.Keeps v touched R) (hdisk : disk.Lawful v out) :
    disk.Within touched (Run.Tidily v R) where
  refl s hs := ⟨hs, hkeeps.refl s⟩
  trans h h' hs := ⟨(h' (h hs).1).1, hkeeps.trans (h hs).2 (h' (h hs).1).2⟩
  remove hp h hs := ⟨(hdisk.remove_spares hs h).tidy, hkeeps.remove hp hs h⟩

namespace Run

theorem Workshop.Keeps.within {shop : Workshop (StateM σ)}
    (hkeeps : shop.Keeps v touched R) (hdisk : shop.disk.Lawful v shop.output)
    (hrenderer : shop.renderer.Confined v) :
    shop.Within touched (Tidily v R) where
  toWithin := hkeeps.toKeeps.within hdisk
  write hp h hs := ⟨(hdisk.write_spares hs h).tidy, hkeeps.write hp hs h⟩
  render hp h hs := ⟨(hrenderer hs h).tidy, hkeeps.render hp hs h⟩

/-! ## What stands at a file -/

variable {g : Sight v} {known : String → Prop} {shop : Workshop (StateM σ)}

theorem remove_keeps_look {disk : Disk (StateM σ)} {out : OutputDirectory}
    (hdisk : disk.Local g out known) (f : v.File) :
    disk.Keeps v (fun p => v.place p ≠ f) fun s t =>
      g.look s f = g.look t f where
        refl _ := rfl
        trans := Eq.trans
        remove hp hs h :=
          hdisk.remove_only hs h f (List.forall_mem_singleton.2 hp)

theorem look_keeps (hdisk : shop.disk.Local g shop.output known)
    (hrenderer : shop.renderer.Local g shop.output known) (f : v.File) :
    shop.Keeps v (fun p => v.place p ≠ f) fun s t =>
      g.look s f = g.look t f where
        toKeeps := remove_keeps_look hdisk f
        write hp hs h :=
          hdisk.write_only hs h f (List.forall_mem_singleton.2 hp)
        render hp hs h := hrenderer.only hs h f (List.forall_mem_singleton.2 hp)

theorem look_within (hdisk : shop.disk.Local g shop.output known)
    (hrenderer : shop.renderer.Local g shop.output known) (f : v.File) :
    shop.Within (fun p => v.place p ≠ f)
      (Tidily v fun s t => g.look s f = g.look t f) :=
  (look_keeps hdisk hrenderer f).within hdisk.toLawful hrenderer.confined

theorem deleteEach_only {disk : Disk (StateM σ)} {out : OutputDirectory}
    (hdisk : disk.Local g out known) {paths : List Path} {faults : List Fault}
    {s t : σ} (hs : v.tidy s)
    (h : (deleteEach disk paths).run s = (faults, t)) :
    g.SameOff paths s t := by
  intro f hf
  have hkept :=
    deleteEach_within ((remove_keeps_look hdisk f).within hdisk.toLawful)
      hf h hs
  exact hkept.2

theorem renderFormats_only (hdisk : shop.disk.Local g shop.output known)
    (hrenderer : shop.renderer.Local g shop.output known) {markup : Path}
    {report report' : Report} {s t : σ} (hs : v.tidy s)
    (h : (shop.renderFormats markup report).run s = (report', t)) :
    g.SameOff (artifactPaths markup) s t := by
  intro f hf
  have hkept :=
    Workshop.renderFormats_within (look_within hdisk hrenderer f) hf h hs
  exact hkept.2

/-- Rendering the same formats in two states. What holds between the states, and
between the reports, holds in the end if it is kept by a turn in which the same
format is rendered in both. -/
theorem renderEach_lockstep {markup : Path} {same : σ → σ → Prop}
    {like : Report → Report → Prop}
    (hturn :
        ∀ {format : Raster} {r r' : Except Fault Unit} {report report' : Report}
        {s s' t t' : σ}, v.tidy s → v.tidy s' → same s s' →
        like report report' →
      (shop.renderer markup (format.path markup)).run s = (r, t) →
      (shop.renderer markup (format.path markup)).run s' = (r', t') →
        same t t' ∧ like (report.afterRender markup format r)
          (report'.afterRender markup format r'))
    (hrenderer : shop.renderer.Confined v) {formats : List Raster}
    {report report' final final' : Report} {s s' t t' : σ} (hs : v.tidy s)
    (hs' : v.tidy s') (h : same s s') (hreport : like report report')
    (hrun : (shop.renderEach markup formats report).run s = (final, t))
    (hrun' : (shop.renderEach markup formats report').run s' = (final', t')) :
    like final final' ∧ same t t' := by
  induction formats generalizing s s' report report' with
  | nil =>
      obtain ⟨rfl, rfl⟩ := run_pure.1 hrun
      obtain ⟨rfl, rfl⟩ := run_pure.1 hrun'
      exact ⟨hreport, h⟩
  | cons format formats ih =>
      obtain ⟨r, a, hrender, hrest⟩ := Workshop.renderEach_turn hrun
      obtain ⟨r', a', hrender', hrest'⟩ := Workshop.renderEach_turn hrun'
      obtain ⟨hsame, hlike⟩ := hturn hs hs' h hreport hrender hrender'
      exact ih (hrenderer hs hrender).tidy (hrenderer hs' hrender').tidy hsame
        hlike hrest hrest'

/-- Where the states agree at the files that a turn works on, the turn comes to
the same in both. -/
theorem renderEach_agree (hrenderer : shop.renderer.Local g shop.output known)
    {markup : Path}
    (hmembers : ∀ p ∈ artifactPaths markup, shop.output.Member known p)
    {same : σ → σ → Prop} {like : Report → Report → Prop}
    (hagree : ∀ {s s'},
      same s s' → ∀ p ∈ artifactPaths markup, g.AgreeAt shop.output p s s')
    (hsame : ∀ {p s s' t t'},
      same s s' → g.SameOff [p] s t → g.SameOff [p] s' t' →
      g.look t (v.place p) = g.look t' (v.place p) → same t t')
    (hlike : ∀ {report report'} (format : Raster) (r : Except Fault Unit),
      like report report' →
      like (report.afterRender markup format r)
      (report'.afterRender markup format r))
    {formats : List Raster} {report report' final final' : Report}
    {s s' t t' : σ} (hs : v.tidy s) (hs' : v.tidy s') (h : same s s')
    (hreport : like report report')
    (hrun : (shop.renderEach markup formats report).run s = (final, t))
    (hrun' : (shop.renderEach markup formats report').run s' = (final', t')) :
    like final final' ∧ same t t' := by
  have hmarkup : markup ∈ artifactPaths markup := mem_artifactPaths.2 (.inl rfl)
  refine renderEach_lockstep
    (fun {format} _ _ _ _ _ _ _ _ hs hs' h hreport hrender hrender' => ?_)
    hrenderer.confined hs hs' h hreport hrun hrun'
  have hraster : format.path markup ∈ artifactPaths markup :=
    mem_artifactPaths.2 (.inr ⟨format, rfl⟩)
  obtain ⟨rfl, hlook⟩ :=
    hrenderer.same (hmembers _ hmarkup) (hmembers _ hraster) hs hs'
      (hagree h _ hmarkup) (hagree h _ hraster) hrender hrender'
  exact ⟨hsame h (hrenderer.only hs hrender) (hrenderer.only hs' hrender')
    hlook,
    hlike format _ hreport⟩

end Run

/-! ## What is in the way -/

/-- The same is in the way of all paths that a run works on. This is what any
two states have in common that lead to each other by work on these paths, and so
it is what a run that is repeated can rely on, whatever the first one has
left. -/
def Disk.SameObstacles {v : FileView σ} (disk : Disk (StateM σ)) (g : Sight v)
    (out : OutputDirectory) (known : String → Prop) (s t : σ) : Prop :=
  ∀ p, out.Member known p → disk.SameObstacle g p s t

/-- From one state to the other at most some files were deleted: where there was
none, nothing has changed. So a path that is cleared stays cleared, whatever
else is cleared after it. -/
structure Disk.OnlyClears {v : FileView σ} (disk : Disk (StateM σ))
    (g : Sight v) (out : OutputDirectory) (known : String → Prop) (s t : σ) :
    Prop where
  obstacles : disk.SameObstacles g out known s t
  look : ∀ p, out.Member known p → disk.Cleared g p s →
    g.look s (v.place p) = g.look t (v.place p)

section InTheWay

variable {v : FileView σ} {g : Sight v} {known : String → Prop}
  {disk : Disk (StateM σ)} {out : OutputDirectory} {p : Path} {s t u : σ}

theorem Disk.SameObstacles.symm (h : disk.SameObstacles g out known s t) :
    disk.SameObstacles g out known t s :=
  fun p hp => (h p hp).symm

theorem Disk.SameObstacles.trans (h : disk.SameObstacles g out known s t)
    (h' : disk.SameObstacles g out known t u) :
    disk.SameObstacles g out known s u :=
  fun p hp => (h p hp).trans (h' p hp)

theorem Disk.OnlyClears.cleared (h : disk.OnlyClears g out known s t)
    (hp : out.Member known p) (hs : disk.Cleared g p s) : disk.Cleared g p t :=
  hs.of_obstacle (h.obstacles p hp) (h.look p hp hs)

theorem Disk.Steady.clears_keeps (h : disk.Steady g out known) :
    disk.Keeps v (out.Member known) (disk.OnlyClears g out known) where
  refl _ := ⟨fun _ _ => .refl _, fun _ _ _ => rfl⟩
  trans h h' := ⟨h.obstacles.trans h'.obstacles,
    fun p hp hcleared =>
      (h.look p hp hcleared).trans (h'.look p hp (h.cleared hp hcleared))⟩
  remove {q s r t} hq hs hrun := by
    refine ⟨fun p hp => h.remove_obstacle hp hq hs hrun,
      fun p hp hcleared => ?_⟩
    by_cases heq : p = q
    · subst heq
      exact h.remove_same_of_cleared hp hs hcleared hrun _
        (fun _ hmem => absurd hmem List.not_mem_nil)
    · exact (h.agreeAt_of_ne hp hq heq (h.remove_only hs hrun)).own

theorem Disk.Steady.clears_within (h : disk.Steady g out known) :
    disk.Within (out.Member known)
      (Run.Tidily v (disk.OnlyClears g out known)) :=
  h.clears_keeps.within h.toLawful

end InTheWay

namespace Run

variable {v : FileView σ} {g : Sight v} {known : String → Prop}
  {shop : Workshop (StateM σ)}

theorem obstacles_keeps (hdisk : shop.disk.Steady g shop.output known)
    (hrenderer : shop.renderer.Steady shop.disk g shop.output known) :
    shop.Keeps v (shop.output.Member known)
      (shop.disk.SameObstacles g shop.output known) where
  refl _ _ _ := .refl _
  trans h h' := h.trans h'
  remove hq hs h _ hp := hdisk.remove_obstacle hp hq hs h
  write hq hs h _ hp := hdisk.write_obstacle hp hq hs h
  render hq hs h _ hp := hdisk.render_obstacle hrenderer hp hq hs h

theorem obstacles_within (hdisk : shop.disk.Steady g shop.output known)
    (hrenderer : shop.renderer.Steady shop.disk g shop.output known) :
    shop.Within (shop.output.Member known)
      (Tidily v (shop.disk.SameObstacles g shop.output known)) :=
  (obstacles_keeps hdisk hrenderer).within hdisk.toLawful hrenderer.confined

open Workshop

theorem pruneStems_clears (hdisk : shop.disk.Steady g shop.output known)
    {project : String} {stems : List String}
    (hstems : ∀ stem ∈ stems, known stem) {p p' : Progress} {s t : σ}
    (hs : v.tidy s) (h : (shop.pruneStems project stems p).run s = (p', t)) :
    shop.disk.OnlyClears g shop.output known s t :=
  (pruneStems_within hdisk.clears_within
    (fun stem hstem _ => member_of_known (hstems stem hstem)) h hs).2

theorem pruneProjects_clears (hdisk : shop.disk.Steady g shop.output known)
    {previous : Manifest} {retained : String → Bool}
    (hprevious : ∀ stem, previous.tracks stem = true → known stem)
    {projects : List String} {p p' : Progress} {s t : σ} (hs : v.tidy s)
    (h : (shop.pruneProjects previous retained projects p).run s = (p', t)) :
    shop.disk.OnlyClears g shop.output known s t :=
  (pruneProjects_within hdisk.clears_within (fun _ _ stem hstem _ =>
    member_of_known (hprevious stem (Manifest.tracks_of_mem_stemsOf hstem))) h
      hs).2

/-! ## A whole run -/

/-- The states and the records of a run between its stages. -/
structure Passage (v : FileView σ) (shop : Workshop (StateM σ))
    (source : GraphSource) (filter : Option String)
    (bounds : Architecture.Bounds) (s : σ) (report : Report) (u : σ) where
  previous : Manifest
  loaded : Report
  opened : σ
  made : Progress
  drawn : σ
  kept : Progress
  swept : σ
  saved : Report
  stored : σ
  load : shop.loadPrevious.run s = ((previous, loaded), opened)
  perform : (shop.performAll (plan source filter) { report := loaded }).run
    opened = (made, drawn)
  prune :
    (shop.prune previous
      (retains filter (skippedProjects (plan source filter))) made).run drawn
      = (kept, swept)
  store : (shop.storeManifest kept).run swept = (saved, stored)
  draw :
    (shop.drawArchitecture
      (Architecture.texts source.solution bounds filter) saved).run stored
      = (report, u)
  tidy_start : v.tidy s
  tidy_opened : v.tidy opened
  tidy_drawn : v.tidy drawn
  tidy_swept : v.tidy swept
  tidy_stored : v.tidy stored
  tidy_end : v.tidy u

variable {source : GraphSource} {filter : Option String}
  {bounds : Architecture.Bounds} {s u : σ} {report : Report}

theorem exists_passage (hdisk : shop.disk.Lawful v shop.output)
    (hrenderer : shop.renderer.Confined v) (hs : v.tidy s)
    (h : (run shop source filter bounds).run s = (report, u)) :
    Nonempty (Passage v shop source filter bounds s report u) := by
  obtain ⟨previous, loaded, t₁, p, t₂, q, t₃, saved, t₄, hload, hperform,
    hprune, hstore, hdraw⟩ := run_run h
  obtain ⟨r, hread, -⟩ := loadPrevious_run hload
  obtain ⟨w, hwrite, -⟩ := storeManifest_run hstore
  have h₁ := (readManifest_run hdisk hs hread).1.tidy
  have h₂ := (performAll_performs hdisk hrenderer h₁ hperform).spares.tidy
  have h₃ := (pruneProjects_prunes hdisk h₂ hprune).spares.tidy
  have h₄ := (hdisk.write_spares h₃ hwrite).tidy
  exact ⟨{
    previous, loaded, saved
    opened := t₁
    made := p
    drawn := t₂
    kept := q
    swept := t₃
    stored := t₄
    load := hload
    perform := hperform
    prune := hprune
    store := hstore
    draw := hdraw
    tidy_start := hs
    tidy_opened := h₁
    tidy_drawn := h₂
    tidy_swept := h₃
    tidy_stored := h₄
    tidy_end :=
      (drawArchitecture_charts hdisk hrenderer h₄ hdraw).spares.tidy }⟩

namespace Passage

variable (x : Passage v shop source filter bounds s report u)
include x

theorem previous_known
    (hprevious : ∀ m t,
      (shop.output.readManifest shop.disk).run s = (.ok m, t) →
      ∀ stem, m.tracks stem = true → known stem) :
    ∀ stem, x.previous.tracks stem = true → known stem := by
  obtain ⟨r, hread, ⟨rfl, -⟩ | ⟨fault, -, hempty, -⟩⟩ := loadPrevious_run x.load
  · exact hprevious _ _ hread
  · rw [hempty]
    exact fun stem hstem => absurd hstem Manifest.not_tracks_empty

/-- A manifest that was saved is still there in the end. -/
theorem content_manifestFile (hdisk : shop.disk.Lawful v shop.output)
    (hrenderer : shop.renderer.Confined v)
    (hwrite :
      (shop.disk.writeText shop.output.manifestFile x.kept.manifest.toText).run
        x.swept
      = (.ok (), x.stored)) :
    v.content u (v.place shop.output.manifestFile)
      = some x.kept.manifest.toText.toUTF8 := by
  have hcharts := drawArchitecture_charts hdisk hrenderer x.tidy_stored x.draw
  rw [hcharts.spares.content _ fun path hpath =>
    hdisk.place_architecture_ne_manifest hpath]
  exact hdisk.write_ok x.tidy_swept hwrite

/-! What stands at a file changes in the stages that are about the file. -/

section Look

variable (hdisk : shop.disk.Local g shop.output known)
include hdisk

theorem look_opened (f : v.File) : g.look s f = g.look x.opened f := by
  obtain ⟨r, hread, -⟩ := loadPrevious_run x.load
  exact readManifest_only hdisk x.tidy_start hread f

theorem look_stored {f : v.File} (hf : v.place shop.output.manifestFile ≠ f) :
    g.look x.swept f = g.look x.stored f := by
  obtain ⟨w, hwrite, -⟩ := storeManifest_run x.store
  exact hdisk.write_only x.tidy_swept hwrite f (List.forall_mem_singleton.2 hf)

variable (hrenderer : shop.renderer.Local g shop.output known)
include hrenderer

theorem look_drawn {f : v.File}
    (hf : ∀ task ∈ plan source filter, ∀ p, Task.Concerns shop.output task p →
      v.place p ≠ f) :
    g.look x.opened f = g.look x.drawn f := by
  have hkept :=
    performAll_within (look_within hdisk hrenderer f) hf x.perform x.tidy_opened
  exact hkept.2

theorem look_end {f : v.File}
    (hf : ∀ p ∈ shop.output.architecturePaths, v.place p ≠ f)
    (hroot : v.place shop.output.architectureRoot ≠ f) :
    g.look x.stored f = g.look u f := by
  have hkept := drawArchitecture_within (look_within hdisk hrenderer f) hf
    (fun h hs => ⟨(hdisk.create_spares hs h).tidy,
      hdisk.create_only hs h f (List.forall_mem_singleton.2 hroot)⟩)
    x.draw x.tidy_stored
  exact hkept.2

/-- After the deleting only the files of the output directory itself change. -/
theorem look_closing {f : v.File}
    (hown : ∀ p ∈ shop.output.ownPaths, v.place p ≠ f)
    (hroot : v.place shop.output.architectureRoot ≠ f) :
    g.look x.swept f = g.look u f :=
  (x.look_stored hdisk (hown _ List.mem_cons_self)).trans
    (x.look_end hdisk hrenderer
      (fun p hp => hown p (List.mem_cons_of_mem _ hp)) hroot)

/-- The architecture leaves the manifest alone. -/
theorem look_manifest_end : g.look x.stored (v.place shop.output.manifestFile)
    = g.look u (v.place shop.output.manifestFile) :=
  x.look_end hdisk hrenderer
    (fun _ hp => hdisk.place_architecture_ne_manifest hp)
    hdisk.place_manifestFile_ne_root.symm

end Look

/-! What is in the way is the same throughout. -/

section Obstacles

variable (hdisk : shop.disk.Steady g shop.output known)
include hdisk

theorem obstacles_opened :
    shop.disk.SameObstacles g shop.output known s x.opened := fun _ hp =>
  hdisk.obstacle_of_agreeAt hp x.tidy_start x.tidy_opened
    ⟨x.look_opened hdisk.toLocal _, fun _ => x.look_opened hdisk.toLocal _⟩

theorem clears
    (hprevious : ∀ stem, x.previous.tracks stem = true → known stem) :
    shop.disk.OnlyClears g shop.output known x.drawn x.swept :=
  pruneProjects_clears hdisk hprevious x.tidy_drawn x.prune

variable (hrenderer : shop.renderer.Steady shop.disk g shop.output known)
  (hdrawn : ∀ task ∈ plan source filter, ∀ d, task.drawing? = some d →
    known d.stem)
include hrenderer hdrawn

theorem obstacles_drawn :
    shop.disk.SameObstacles g shop.output known s x.drawn :=
  (x.obstacles_opened hdisk).trans
    (performAll_within (obstacles_within hdisk hrenderer)
      (fun task htask _ => member_of_concerns (hdrawn task htask)) x.perform
      x.tidy_opened).2

variable (hprevious : ∀ stem, x.previous.tracks stem = true → known stem)
include hprevious

theorem obstacles_stored :
    shop.disk.SameObstacles g shop.output known s x.stored :=
  ((x.obstacles_drawn hdisk hrenderer hdrawn).trans
    (x.clears hdisk hprevious).obstacles).trans
    (storeManifest_within (obstacles_within hdisk hrenderer)
      (member_of_own List.mem_cons_self) x.store x.tidy_swept).2

theorem obstacles_end : shop.disk.SameObstacles g shop.output known s u :=
  (x.obstacles_stored hdisk hrenderer hdrawn hprevious).trans
    (drawArchitecture_within (obstacles_within hdisk hrenderer)
      (fun _ hp => member_of_own (List.mem_cons_of_mem _ hp))
      (fun h hs =>
        ⟨(hdisk.create_spares hs h).tidy,
          fun _ hp => hdisk.create_same_obstacle hp hs h⟩)
      x.draw x.tidy_stored).2

end Obstacles

end Passage

end Run

end FlowAtlas
