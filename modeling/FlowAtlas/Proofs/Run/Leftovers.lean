import FlowAtlas.Proofs.Artifacts.Settling
import FlowAtlas.Proofs.Run.Again
import FlowAtlas.Proofs.Run.Sweeping

/-!
# What a run cannot delete

A stem with a file that cannot be deleted is stuck, and this is what a run hands
on to the next one: the stem stays on record until it can be deleted.

What the deleting does to the record is to settle it (`pruneProjects_settles`).
What it does to the disk is told by the removals that it tries (`Leads`). Each
leaves its stem without files (`Leads.fileless`), where there are none it
changes nothing (`Leads.look_eq`), and it comes to its end if the stem is not
stuck (`Leads.faults_eq_nil_iff`). So all that matters of a second run is which
stems it tries to remove (`Sweep.same_stems`), and whether these have files.

After the plan, each stem that was drawn is on record or has no files
(`Accounted`). A stem that was removed before then has files only if it was
drawn again, and then it is on record and is not removed.
-/

namespace FlowAtlas

open OutputDirectory

namespace Run

variable {σ : Type} {v : FileView σ} {g : Sight v} {known : String → Prop}

namespace Workshop

variable {shop : Workshop (StateM σ)} {s t : σ}

/-! ## What is off the record -/

/-- A stem has no files, but for what cannot be deleted. -/
def Fileless (disk : Disk (StateM σ)) (g : Sight v) (out : OutputDirectory)
    (stem : String) (s : σ) : Prop :=
  ∀ p ∈ artifactPaths (out.markupFile stem), disk.Cleared g p s

theorem Fileless.later {disk : Disk (StateM σ)} {out : OutputDirectory}
    {stem : String} (hstem : known stem) (h : Fileless disk g out stem s)
    (hclears : disk.OnlyClears g out known s t) : Fileless disk g out stem t :=
  fun p hp => hclears.cleared (member_of_known hstem p hp) (h p hp)

/-- A stem is on record, or it has no files. -/
def Accounted (disk : Disk (StateM σ)) (g : Sight v) (out : OutputDirectory)
    (stem : String) (m : Manifest) (s : σ) : Prop :=
  m.tracks stem = true ∨ Fileless disk g out stem s

theorem draw_accounted (hdisk : shop.disk.Steady g shop.output known)
    {d : Drawing} (hstem : known d.stem) {p p' : Progress} (hs : v.tidy s)
    (h : (shop.draw d p).run s = (p', t)) :
    Accounted shop.disk g shop.output d.stem p'.manifest t := by
  have hmembers : ∀ p ∈ artifactPaths (shop.output.markupFile d.stem),
      shop.output.Member known p := member_of_known hstem
  have hmarkup : shop.output.markupFile d.stem
      ∈ artifactPaths (shop.output.markupFile d.stem) :=
    mem_artifactPaths.2 (.inl rfl)
  obtain ⟨stale, a, r, b, hclear, hput, hout⟩ := draw_run h
  obtain ⟨w, hwrite, rfl⟩ := putMarkup_turn hput
  have ha :=
    (OutputDirectory.deleteEach_clears hdisk.toLawful hs hclear).spares.tidy
  rcases hout with ⟨fault, hfault, rfl, rfl⟩ | ⟨-, report, -, rfl⟩
  · refine .inr fun q hq => ?_
    refine (deleteEach_cleared hdisk hmembers hs hclear q hq).of_obstacle
      (hdisk.write_obstacle (hmembers q hq) (hmembers _ hmarkup) ha hwrite) ?_
    by_cases heq : q = shop.output.markupFile d.stem
    · cases w with
      | ok u => exact nomatch hfault
      | error e => rw [heq, hdisk.write_whole ha hwrite]
    · exact (hdisk.agreeAt_of_ne (hmembers q hq) (hmembers _ hmarkup) heq
        (hdisk.write_only ha hwrite)).own
  · exact .inl (Manifest.tracks_add.2 (.inl rfl))

theorem perform_accounted (hdisk : shop.disk.Steady g shop.output known)
    (hrenderer : shop.renderer.Steady shop.disk g shop.output known)
    {task : Task}
    (hdrawn : ∀ d, task.drawing? = some d →
      Flat d.stem ∧ Text.joint ∈ d.stem.toList)
    {stem : String} (hstem : known stem) {p p' : Progress} (hs : v.tidy s)
    (haccounted : Accounted shop.disk g shop.output stem p.manifest s
      ∨ ∃ d, task.drawing? = some d ∧ d.stem = stem)
    (h : (shop.perform p task).run s = (p', t)) :
    Accounted shop.disk g shop.output stem p'.manifest t := by
  by_cases hthis : ∃ d, task.drawing? = some d ∧ d.stem = stem
  · obtain ⟨d, hd, rfl⟩ := hthis
    cases task with
    | skip project fault => exact nomatch hd
    | miss unit fault => exact nomatch hd
    | draw d' =>
        obtain rfl := Option.some.inj hd
        exact draw_accounted hdisk hstem hs h
  · rcases haccounted.resolve_right hthis with htracks | hfileless
    · left
      rcases (perform_performs hdisk.toLawful hrenderer.confined
        hs h).outcome with
        ⟨hmanifest, -⟩ | ⟨d, -, hmanifest, -⟩
      · rwa [hmanifest]
      · rw [hmanifest]
        exact Manifest.tracks_add.2 (.inr htracks)
    · refine .inr fun q hq => ?_
      have helsewhere : ∀ path,
          Task.Concerns shop.output task path → v.place path ≠ v.place q := by
        rintro path ⟨d, hd, hpath⟩
        obtain ⟨hflat, hjoint⟩ := hdrawn d hd
        exact hdisk.apart hflat hjoint hstem
          (fun heq => hthis ⟨d, hd, heq.symm⟩) path hpath q hq
      have hkept := perform_within (obstacles_within hdisk hrenderer)
        (fun _ => member_of_concerns fun d hd =>
          hdisk.known_flat (hdrawn d hd).1) h hs
      have hlook := perform_within
        (look_within hdisk.toLocal hrenderer.toLocal (v.place q))
        helsewhere h hs
      exact (hfileless q hq).of_obstacle
        (hkept.2 q (member_of_known hstem q hq)) hlook.2

theorem performAll_accounted (hdisk : shop.disk.Steady g shop.output known)
    (hrenderer : shop.renderer.Steady shop.disk g shop.output known)
    {tasks : List Task} (hdrawn : ∀ task ∈ tasks, ∀ d, task.drawing? = some d →
      Flat d.stem ∧ Text.joint ∈ d.stem.toList)
    {stem : String} (hstem : known stem) {p p' : Progress} (hs : v.tidy s)
    (haccounted : Accounted shop.disk g shop.output stem p.manifest s
      ∨ ∃ task ∈ tasks, ∃ d, task.drawing? = some d ∧ d.stem = stem)
    (h : (shop.performAll tasks p).run s = (p', t)) :
    Accounted shop.disk g shop.output stem p'.manifest t := by
  induction tasks generalizing p s with
  | nil =>
      obtain ⟨rfl, rfl⟩ := run_pure.1 h
      refine haccounted.resolve_right ?_
      rintro ⟨task, htask, -⟩
      exact absurd htask List.not_mem_nil
  | cons task tasks ih =>
      obtain ⟨hfirst, hdrawn⟩ := List.forall_mem_cons.1 hdrawn
      obtain ⟨q, a, hturn, hrest⟩ := performAll_cons h
      refine ih hdrawn
        (perform_performs hdisk.toLawful hrenderer.confined hs
          hturn).spares.tidy ?_ hrest
      by_cases hlater :
        ∃ other ∈ tasks, ∃ d, other.drawing? = some d ∧ d.stem = stem
      · exact .inr hlater
      · refine .inl (perform_accounted hdisk hrenderer hfirst hstem hs ?_ hturn)
        refine haccounted.imp_right ?_
        rintro ⟨other, hother, hd⟩
        rcases List.mem_cons.1 hother with rfl | hother
        · exact hd
        · exact absurd ⟨other, hother, hd⟩ hlater

/-! ## The deleting -/

/-- A stem with a file that cannot be deleted. -/
def Stuck (disk : Disk (StateM σ)) (out : OutputDirectory) (stem : String)
    (s : σ) : Prop :=
  ∃ p ∈ artifactPaths (out.markupFile stem), disk.Blocked p s

theorem exists_stuck (disk : Disk (StateM σ)) (out : OutputDirectory) (s : σ) :
    ∃ stuck : String → Bool, ∀ stem, stuck stem = true
      ↔ Stuck disk out stem s := by
  classical
  exact ⟨fun stem => decide (Stuck disk out stem s),
    fun _ => decide_eq_true_iff⟩

theorem stuck_iff_of_obstacles {disk : Disk (StateM σ)} {out : OutputDirectory}
    (h : disk.SameObstacles g out known s t) {stem : String}
    (hstem : known stem) :
    Stuck disk out stem s ↔ Stuck disk out stem t :=
  exists_congr fun p => and_congr_right fun hp =>
    (h p (member_of_known hstem p hp)).blocked

section ClearStem

variable (hdisk : shop.disk.Steady g shop.output known) {stem : String}
  (hstem : known stem) {faults : List Fault} (hs : v.tidy s)
  (h : (shop.output.clearStem shop.disk stem).run s = (faults, t))
include hdisk hstem hs h

theorem clearStem_eq_nil_iff :
    faults = [] ↔ ¬ Stuck shop.disk shop.output stem s := by
  rw [deleteEach_eq_nil_iff hdisk (member_of_known hstem) hs h, Stuck]
  simp only [not_exists, not_and]

theorem clearStem_onlyClears : shop.disk.OnlyClears g shop.output known s t :=
  deleteEach_onlyClears hdisk (member_of_known hstem) hs h

theorem clearStem_look (hfileless : Fileless shop.disk g shop.output stem s)
    (f : v.File) :
    g.look s f = g.look t f := by
  by_cases htouched : ∃ path ∈ artifactPaths (shop.output.markupFile stem),
    v.place path = f
  · obtain ⟨path, hpath, rfl⟩ := htouched
    exact (clearStem_onlyClears hdisk hstem hs h).look path
      (member_of_known hstem path hpath) (hfileless path hpath)
  · exact deleteEach_only hdisk.toLocal hs h f fun path hpath heq =>
      htouched ⟨path, hpath, heq⟩

end ClearStem

/-- To remove a stem twice comes to its end in both cases or in none. -/
theorem clearStem_again (hdisk : shop.disk.Steady g shop.output known)
    {stem : String} (hstem : known stem) {s s' t t' : σ}
    {faults faults' : List Fault} (hs : v.tidy s) (hs' : v.tidy s')
    (hobstacles : shop.disk.SameObstacles g shop.output known s s')
    (h : (shop.output.clearStem shop.disk stem).run s = (faults, t))
    (h' : (shop.output.clearStem shop.disk stem).run s' = (faults', t')) :
    v.tidy t ∧ v.tidy t' ∧ shop.disk.SameObstacles g shop.output known t t'
      ∧ (faults = [] ↔ faults' = []) := by
  refine ⟨(clearStem_clears hdisk.toLawful hs h).spares.tidy,
    (clearStem_clears hdisk.toLawful hs' h').spares.tidy,
    deleteEach_obstacles hdisk (member_of_known hstem) hs hs'
    hobstacles h h', ?_⟩
  rw [clearStem_eq_nil_iff hdisk hstem hs h,
    clearStem_eq_nil_iff hdisk hstem hs' h',
    stuck_iff_of_obstacles hobstacles hstem]

/-! What it puts on record. -/

theorem pruneStems_settles (hdisk : shop.disk.Steady g shop.output known)
    {project : String} {stems : List String}
    (hstems : ∀ stem ∈ stems, known stem) {stuck : String → Bool}
    (hstuck : ∀ stem,
      known stem → (stuck stem = true ↔ Stuck shop.disk shop.output stem s))
    {p p' : Progress} (hs : v.tidy s)
    (h : (shop.pruneStems project stems p).run s = (p', t)) :
    p'.manifest = Manifest.settleStems stuck project stems p.manifest := by
  induction stems generalizing p s with
  | nil =>
      obtain ⟨rfl, rfl⟩ := run_pure.1 h
      rfl
  | cons stem stems ih =>
      obtain ⟨hstem, hstems⟩ := List.forall_mem_cons.1 hstems
      rw [Manifest.settleStems]
      rcases pruneStems_cons h with
        ⟨htracks, hrest⟩ | ⟨htracks, faults, a, q, hclear, hrest, hq⟩
      · rw [if_neg (by simp [htracks])]
        exact ih hstems hstuck hs hrest
      · have hfaults := clearStem_eq_nil_iff hdisk hstem hs hclear
        have hobstacles :=
          (clearStem_onlyClears hdisk hstem hs hclear).obstacles
        rw [ih hstems (fun other hother =>
            (hstuck other hother).trans
              (stuck_iff_of_obstacles hobstacles hother))
          (clearStem_clears hdisk.toLawful hs hclear).spares.tidy hrest]
        rcases hq with ⟨hnil, rfl⟩ | ⟨hcons, rfl⟩
        · have hfree : ¬ stuck stem = true :=
            mt (hstuck stem hstem).1 (hfaults.1 hnil)
          rw [if_neg (by simp [hfree])]
        · have hblocked : stuck stem = true :=
            (hstuck stem hstem).2 (not_not.1 (mt hfaults.2 hcons))
          rw [if_pos (by simp [htracks, hblocked])]

theorem pruneProjects_settles (hdisk : shop.disk.Steady g shop.output known)
    {previous : Manifest} {retained : String → Bool}
    (hprevious : ∀ stem, previous.tracks stem = true → known stem)
    {stuck : String → Bool}
    (hstuck : ∀ stem,
      known stem → (stuck stem = true ↔ Stuck shop.disk shop.output stem s))
    {projects : List String} {p p' : Progress} (hs : v.tidy s)
    (h : (shop.pruneProjects previous retained projects p).run s = (p', t)) :
    p'.manifest
      = Manifest.settle stuck retained previous projects p.manifest := by
  induction projects generalizing p s with
  | nil =>
      obtain ⟨rfl, rfl⟩ := run_pure.1 h
      rfl
  | cons project projects ih =>
      rw [Manifest.settle, Manifest.settleProject]
      rcases pruneProjects_cons h with ⟨hyes, hrest⟩ | ⟨hno, q, a, hturn, hrest⟩
      · rw [if_pos hyes]
        exact ih hstuck hs hrest
      · have hstems : ∀ stem ∈ previous.stemsOf project, known stem :=
          fun stem hstem =>
            hprevious stem (Manifest.tracks_of_mem_stemsOf hstem)
        have hobstacles := (pruneStems_clears hdisk hstems hs hturn).obstacles
        rw [if_neg hno, ← pruneStems_settles hdisk hstems hstuck hs hturn]
        exact ih (fun other hother =>
            (hstuck other hother).trans
              (stuck_iff_of_obstacles hobstacles hother))
          (pruneStems_prunes hdisk.toLawful hs hturn).spares.tidy hrest

end Workshop

/-! ## What the removals tell -/

/-- Removals that are tried one after the other lead from a state to another
one. This is all that the deleting does to the disk, and the record has no part
in it. -/
def Leads (shop : Workshop (StateM σ)) : List (Removal σ) → σ → σ → Prop
  | [], s, u => s = u
  | r :: removals, s, u =>
    (shop.output.clearStem shop.disk r.stem).run s = (r.faults, r.after)
      ∧ Leads shop removals r.after u

namespace Leads

open Workshop

variable {shop : Workshop (StateM σ)} {removals : List (Removal σ)} {s u : σ}
  (hdisk : shop.disk.Steady g shop.output known)
include hdisk

theorem onlyClears (h : Leads shop removals s u)
    (hknown : ∀ r ∈ removals, known r.stem) (hs : v.tidy s) :
    shop.disk.OnlyClears g shop.output known s u := by
  induction removals generalizing s with
  | nil => exact h ▸ hdisk.clears_keeps.refl s
  | cons r removals ih =>
      obtain ⟨hfirst, hknown⟩ := List.forall_mem_cons.1 hknown
      obtain ⟨hclear, hrest⟩ := h
      have hafter := (clearStem_clears hdisk.toLawful hs hclear).spares.tidy
      exact hdisk.clears_keeps.trans
        (clearStem_onlyClears hdisk hfirst hs hclear) (ih hrest hknown hafter)

/-- A stem has no files once it was removed, whether or not some could not be
deleted. -/
theorem fileless (h : Leads shop removals s u)
    (hknown : ∀ r ∈ removals, known r.stem) (hs : v.tidy s) :
    ∀ r ∈ removals, Fileless shop.disk g shop.output r.stem u := by
  induction removals generalizing s with
  | nil => exact fun _ hr => absurd hr List.not_mem_nil
  | cons r removals ih =>
      obtain ⟨hfirst, hknown⟩ := List.forall_mem_cons.1 hknown
      obtain ⟨hclear, hrest⟩ := h
      have hafter := (clearStem_clears hdisk.toLawful hs hclear).spares.tidy
      refine List.forall_mem_cons.2 ⟨?_, ih hrest hknown hafter⟩
      exact Fileless.later hfirst
        (deleteEach_cleared hdisk (member_of_known hfirst) hs hclear)
        (onlyClears hdisk hrest hknown hafter)

/-- A removal comes to its end if its stem is not stuck. -/
theorem faults_eq_nil_iff (h : Leads shop removals s u)
    (hknown : ∀ r ∈ removals, known r.stem) (hs : v.tidy s) :
    ∀ r ∈ removals, r.faults = [] ↔ ¬ Stuck shop.disk shop.output r.stem s := by
  induction removals generalizing s with
  | nil => exact fun _ hr => absurd hr List.not_mem_nil
  | cons r removals ih =>
      obtain ⟨hfirst, hknown⟩ := List.forall_mem_cons.1 hknown
      obtain ⟨hclear, hrest⟩ := h
      have hafter := (clearStem_clears hdisk.toLawful hs hclear).spares.tidy
      have hobstacles := (clearStem_onlyClears hdisk hfirst hs hclear).obstacles
      refine List.forall_mem_cons.2
        ⟨clearStem_eq_nil_iff hdisk hfirst hs hclear, fun r hr => ?_⟩
      exact (ih hrest hknown hafter r hr).trans
        (not_congr (stuck_iff_of_obstacles hobstacles (hknown r hr)).symm)

/-- Where there is nothing to remove, nothing changes. -/
theorem look_eq (h : Leads shop removals s u)
    (hknown : ∀ r ∈ removals, known r.stem) (hs : v.tidy s)
    (hfileless : ∀ r ∈ removals, Fileless shop.disk g shop.output r.stem s)
    (f : v.File) : g.look s f = g.look u f := by
  induction removals generalizing s with
  | nil => exact h ▸ rfl
  | cons r removals ih =>
      obtain ⟨hfirst, hknown⟩ := List.forall_mem_cons.1 hknown
      obtain ⟨hempty, hfileless⟩ := List.forall_mem_cons.1 hfileless
      obtain ⟨hclear, hrest⟩ := h
      have hafter := (clearStem_clears hdisk.toLawful hs hclear).spares.tidy
      have hclears := clearStem_onlyClears hdisk hfirst hs hclear
      exact (clearStem_look hdisk hfirst hs hclear hempty f).trans
        (ih hrest hknown hafter
          fun r hr => (hfileless r hr).later (hknown r hr) hclears)

theorem deleted_eq (h : Leads shop removals s u)
    (hknown : ∀ r ∈ removals, known r.stem) (hs : v.tidy s)
    {stuck : String → Bool}
    (hstuck : ∀ stem,
      known stem → (stuck stem = true ↔ Stuck shop.disk shop.output stem s)) :
    deleted removals = (removals.map Removal.stem).filter fun stem =>
      !stuck stem := by
  rw [deleted, List.filter_map]
  refine congrArg _ (List.filter_congr fun r hr => ?_)
  rw [Bool.eq_iff_iff, List.isEmpty_iff,
    faults_eq_nil_iff hdisk h hknown hs r hr, ← hstuck r.stem (hknown r hr)]
  simp

end Leads

namespace Sweep

open Workshop

variable {shop : Workshop (StateM σ)} {previous : Manifest} {todo : List Errand}
  {p q p' q' : Progress} {s u s' u' : σ} {removals more : List (Removal σ)}

theorem sameFiles (h : Sweep shop previous todo p s removals p' u) :
    p.report.SameFiles p'.report := by
  induction h with
  | done => exact .refl _
  | keep _ ih => exact ih
  | inUse _ _ ih => exact ih
  | removed _ _ _ ih => exact ⟨ih.written, ih.rendered⟩
  | failed _ _ _ _ ih => exact (Report.SameFiles.of_noteAll _ _ _ _).trans ih

theorem leads (h : Sweep shop previous todo p s removals p' u) :
    Leads shop removals s u := by
  induction h with
  | done => exact rfl
  | keep _ ih => exact ih
  | inUse _ _ ih => exact ih
  | removed _ hclear _ ih => exact ⟨hclear, ih⟩
  | failed _ hclear _ _ ih => exact ⟨hclear, ih⟩

theorem known_of_mem {retained : String → Bool}
    (h : Sweep shop previous (errands previous retained) p s removals p' u)
    (hprevious : ∀ stem, previous.tracks stem = true → known stem) :
    ∀ r ∈ removals, known r.stem := fun r hr =>
  hprevious r.stem
    (Manifest.tracks_of_mem_stemsOf (mem_errands_clear.1 (h.of_mem hr).1).1)

/-- Two sweeps on the same errands that start from the same record try the same
removals, if the same is in the way: each removal has the same part in the
record in both. -/
theorem same_stems (hdisk : shop.disk.Steady g shop.output known)
    (h : Sweep shop previous todo p s removals p' u)
    (h' : Sweep shop previous todo q s' more q' u')
    (htodo : ∀ project stem, .clear project stem ∈ todo → known stem)
    (hs : v.tidy s) (hs' : v.tidy s')
    (hobstacles : shop.disk.SameObstacles g shop.output known s s')
    (hmanifest : p.manifest = q.manifest) :
    removals.map Removal.stem = more.map Removal.stem := by
  induction h generalizing q s' more with
  | done =>
      cases h'
      rfl
  | @keep project _ _ _ _ _ _ _ ih =>
      have htodo := fun project stem hmem =>
        htodo project stem (List.mem_cons_of_mem _ hmem)
      cases h' with
      | keep h' =>
          exact ih h' htodo hs hs' hobstacles
            (congrArg (·.takeOver previous project) hmanifest)
  | inUse htracks _ ih =>
      have htodo := fun project stem hmem =>
        htodo project stem (List.mem_cons_of_mem _ hmem)
      cases h' with
      | inUse _ h' => exact ih h' htodo hs hs' hobstacles hmanifest
      | removed hfree => exact absurd (hmanifest ▸ htracks) hfree
      | failed hfree => exact absurd (hmanifest ▸ htracks) hfree
  | removed hfree hclear _ ih =>
      have hstem := htodo _ _ List.mem_cons_self
      have htodo := fun project stem hmem =>
        htodo project stem (List.mem_cons_of_mem _ hmem)
      cases h' with
      | inUse htracks => exact absurd (hmanifest ▸ htracks) hfree
      | removed _ hclear' h' =>
          obtain ⟨ha, ha', hobstacles, -⟩ :=
            clearStem_again hdisk hstem hs hs' hobstacles hclear hclear'
          exact congrArg (List.cons _) (ih h' htodo ha ha' hobstacles hmanifest)
      | failed _ hclear' hfaults =>
          obtain ⟨-, -, -, hnil⟩ :=
            clearStem_again hdisk hstem hs hs' hobstacles hclear hclear'
          exact absurd (hnil.1 rfl) hfaults
  | @failed project stem _ _ _ _ _ _ _ _ hfree hclear hfaults _ ih =>
      have hstem := htodo _ _ List.mem_cons_self
      have htodo := fun project stem hmem =>
        htodo project stem (List.mem_cons_of_mem _ hmem)
      cases h' with
      | inUse htracks => exact absurd (hmanifest ▸ htracks) hfree
      | removed _ hclear' =>
          obtain ⟨-, -, -, hnil⟩ :=
            clearStem_again hdisk hstem hs hs' hobstacles hclear hclear'
          exact absurd (hnil.2 rfl) hfaults
      | failed _ hclear' _ h' =>
          obtain ⟨ha, ha', hobstacles, -⟩ :=
            clearStem_again hdisk hstem hs hs' hobstacles hclear hclear'
          exact congrArg (List.cons _) (ih h' htodo ha ha' hobstacles
            (congrArg (·.add project stem) hmanifest))

end Sweep

end Run

end FlowAtlas
